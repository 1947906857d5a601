import Mathlib.Data.List.TakeWhile
import Sift.Proofs.Decimal.Rounding
import Sift.Proofs.Decimal.Written

namespace Sift.Decimal

/-! What a numeral of any length is read as, told by the rational that it writes. -/

def wholeDigits (numeral : List Char) : List Char :=
  numeral.takeWhile (· ≠ '.')

def fractionDigits (numeral : List Char) : List Char :=
  (numeral.dropWhile (· ≠ '.')).drop 1

/-- The rational that a numeral writes. -/
def exactValue (numeral : List Char) : ℚ :=
  Text.digitsValue (wholeDigits numeral ++ fractionDigits numeral) /
    unit (fractionDigits numeral).length

/-- No digit of the numeral has to be left out. -/
def Fits (numeral : List Char) : Prop :=
  Text.digitsValue (wholeDigits numeral ++ fractionDigits numeral) ≤ maxCoefficient ∧
    (fractionDigits numeral).length ≤ maxScale

/-- The result of reading a rational is its rounding, or is refused where that is out of
bounds. -/
def Settles (exact : ℚ) : Except Fault (ℕ × ℕ) → Prop
  | .ok (magnitude, scale) =>
      magnitude ≤ maxCoefficient ∧ scale ≤ maxScale ∧
        Rounded exact (magnitude / unit scale)
  | .error fault => fault = .roundingOverflow ∧ maxCoefficient < round exact

variable {exact : ℚ} {magnitude scale : ℕ} {digits : List Char}

theorem round_eq_of_le {value : ℚ} {nearest : ℕ} (hlow : nearest ≤ value + 1 / 2)
    (hhigh : value + 1 / 2 < nearest + 1) : round value = nearest := by
  rw [round_eq, Int.floor_eq_iff, Int.cast_natCast]
  exact ⟨hlow, hhigh⟩

theorem rounded_of_round {rounded : ℕ} (hplace : IsPlace exact scale)
    (hround : round (exact * unit scale) = rounded) (hle : rounded ≤ maxCoefficient) :
    Rounded exact (rounded / unit scale) := by
  have hbound : round (exact * unit scale) ≤ maxCoefficient := by
    rw [hround]
    exact_mod_cast hle
  refine ⟨scale, hplace, fun _ => hbound, ?_⟩
  rw [roundedAt, if_pos hbound, hround, Int.cast_natCast]

/-- Rounding on the first digit that is left out is rounding to the nearest. -/
theorem roundOn_settles {c : Char} (hdigit : c.isDigit = true)
    (hmagnitude : magnitude ≤ maxCoefficient) (hplace : IsPlace exact scale)
    (hlow : ((10 * magnitude + Text.digitValue c : ℕ) : ℚ) ≤ exact * unit (scale + 1))
    (hhigh : exact * unit (scale + 1) < (10 * magnitude + Text.digitValue c : ℕ) + 1) :
    Settles exact (roundOn c magnitude scale) := by
  rw [unit_succ] at hlow hhigh
  push_cast at hlow hhigh
  unfold roundOn
  split
  · rename_i hsmall
    have hfour : (Text.digitValue c : ℚ) ≤ 4 := by exact_mod_cast Nat.le_of_lt_succ hsmall
    have hnonneg : (0 : ℚ) ≤ Text.digitValue c := Nat.cast_nonneg _
    have hround : round (exact * unit scale) = magnitude :=
      round_eq_of_le (by linarith) (by linarith)
    exact ⟨hmagnitude, hplace.scale_le, rounded_of_round hplace hround hmagnitude⟩
  · rename_i hlarge
    have hfive : (5 : ℚ) ≤ Text.digitValue c := by exact_mod_cast Nat.le_of_not_lt hlarge
    have hnine : (Text.digitValue c : ℚ) ≤ 9 := by exact_mod_cast Text.digitValue_le hdigit
    have hround : round (exact * unit scale) = (magnitude + 1 : ℕ) := by
      apply round_eq_of_le
      · push_cast
        linarith
      · push_cast
        linarith
    split
    · rename_i hle
      exact ⟨hle, hplace.scale_le, rounded_of_round hplace hround hle⟩
    · rename_i hpast
      have hbeyond : (maxCoefficient : ℤ) < round (exact * unit scale) := by
        rw [hround]
        exact_mod_cast Nat.lt_of_not_le hpast
      obtain rfl : magnitude = maxCoefficient := by omega
      split
      · rename_i hzero
        rw [hzero, unit_zero, mul_one] at hbeyond
        exact ⟨rfl, hbeyond⟩
      · rename_i hscale
        obtain ⟨fewer, rfl⟩ := Nat.exists_eq_succ_of_ne_zero hscale
        refine ⟨by decide, (Nat.le_succ fewer).trans hplace.scale_le, fewer + 1, hplace,
          nofun, ?_⟩
        rw [roundedAt, if_neg (not_le.mpr hbeyond), unit_succ,
          mul_div_mul_left _ _ (by norm_num)]
        rfl

/-- The digits that are still to be read make less than one at the last place. -/
theorem ofDigitChars_div_bounds (hdigits : Digits digits) (value scale : ℕ) :
    (value : ℚ) ≤ Nat.ofDigitChars 10 digits value / unit (scale + digits.length) *
        unit scale ∧
      Nat.ofDigitChars 10 digits value / unit (scale + digits.length) * unit scale <
        (value : ℚ) + 1 := by
  have hpos := unit_pos digits.length
  have hplaces : (Nat.ofDigitChars 10 digits value : ℚ) / unit (scale + digits.length) *
      unit scale = Nat.ofDigitChars 10 digits value / unit digits.length := by
    rw [unit_add, ← div_div, div_right_comm, div_mul_cancel₀ _ (unit_pos scale).ne']
  rw [hplaces, le_div_iff₀' hpos, div_lt_iff₀' hpos]
  constructor
  · exact_mod_cast Text.pow_mul_le_ofDigitChars digits value
  · exact_mod_cast Text.ofDigitChars_lt hdigits value

/-- Digits are taken to the place of the rational that they write, and rounded there. -/
theorem takeFraction_settles (hdigits : Digits digits)
    (hmagnitude : magnitude ≤ maxCoefficient) (hscale : scale ≤ maxScale) :
    Settles (Nat.ofDigitChars 10 digits magnitude / unit (scale + digits.length))
      (takeFraction magnitude scale (scale < maxScale) digits) := by
  induction digits generalizing magnitude scale with
  | nil => exact ⟨hmagnitude, hscale, rounded_self hmagnitude hscale⟩
  | cons c digits ih =>
      obtain ⟨hc, hdigits⟩ := List.forall_mem_cons.mp hdigits
      have hunderscore : c ≠ '_' := by
        rintro rfl
        cases hc
      rw [Nat.ofDigitChars_cons, List.length_cons, Nat.add_comm digits.length,
        ← Nat.add_assoc, takeFraction, if_neg hunderscore]
      simp only [decide_eq_true_eq]
      split
      · rename_i hroom
        exact ih hdigits hroom.2 hroom.1
      · rename_i hroom
        obtain ⟨hlow, hhigh⟩ := ofDigitChars_div_bounds hdigits
          (10 * magnitude + Text.digitValue c) (scale + 1)
        have hplace : IsPlace (Nat.ofDigitChars 10 digits
            (10 * magnitude + Text.digitValue c) / unit (scale + 1 + digits.length)) scale := by
          refine ⟨hscale, ?_, ?_⟩
          · have hnine : (Text.digitValue c : ℚ) ≤ 9 := by exact_mod_cast Text.digitValue_le hc
            have hbound : (magnitude : ℚ) ≤ maxCoefficient := by exact_mod_cast hmagnitude
            rw [unit_succ] at hhigh
            push_cast at hhigh
            linarith
          · rw [or_iff_not_imp_left]
            intro hplaces
            have hpast : maxCoefficient + 1 ≤ 10 * magnitude + Text.digitValue c := by
              omega
            exact le_trans (by exact_mod_cast hpast) hlow
        exact roundOn_settles hc hmagnitude hplace hlow hhigh

/-! Whole numerals. -/

variable {whole fraction : List Char}

theorem wholeDigits_numeral (hwhole : Digits whole) (fraction : List Char) :
    wholeDigits (numeral whole fraction) = whole :=
  takeWhile_numeral hwhole fraction

theorem fractionDigits_numeral (hwhole : Digits whole) (fraction : List Char) :
    fractionDigits (numeral whole fraction) = fraction :=
  drop_dropWhile_numeral hwhole fraction

theorem exactValue_numeral (hwhole : Digits whole) (fraction : List Char) :
    exactValue (numeral whole fraction) =
      Nat.ofDigitChars 10 fraction (Text.digitsValue whole) / unit fraction.length := by
  rw [exactValue, wholeDigits_numeral hwhole, fractionDigits_numeral hwhole,
    Text.digitsValue_append]

theorem Digits.not_isExponentMark {c : Char} (hdigits : Digits digits) (hc : c ∈ digits) :
    isExponentMark c = false := by
  rw [isExponentMark, Bool.or_eq_false_iff]
  exact ⟨decide_eq_false (hdigits.ne rfl c hc), decide_eq_false (hdigits.ne rfl c hc)⟩

/-- A numeral without an exponent mark is read in one way only. -/
theorem readScientific?_numeral (hwhole : Digits whole) (hfraction : Digits fraction) :
    readScientific? (numeral whole fraction) = none := by
  have hmarks : ∀ c ∈ numeral whole fraction, isExponentMark c = false := by
    rw [numeral, List.forall_mem_append]
    refine ⟨fun c => hwhole.not_isExponentMark, ?_⟩
    split
    · exact List.forall_mem_nil _
    · exact List.forall_mem_cons.mpr ⟨rfl, fun c => hfraction.not_isExponentMark⟩
  have hrest : (numeral whole fraction).dropWhile (¬ isExponentMark ·) = [] := by
    rw [List.dropWhile_eq_nil_iff]
    intro c hc
    simp [hmarks c hc]
  rw [readScientific?, hrest]
  cases (readPlain ((numeral whole fraction).takeWhile (¬ isExponentMark ·))).toOption <;>
    rfl

/-- What reading a numeral comes to, from its digits before the point and the rational that
it writes. -/
inductive Reading (wholeValue : ℕ) (exact : ℚ) : Except Fault Decimal → Prop
  | rounded {number : Decimal} (hwhole : wholeValue ≤ maxCoefficient)
      (hrounded : Rounded exact number.value) : Reading wholeValue exact (.ok number)
  | tooManyDigits (hwhole : maxCoefficient < wholeValue) :
      Reading wholeValue exact (.error .tooManyDigits)
  | roundingOverflow (hwhole : wholeValue ≤ maxCoefficient)
      (hround : maxCoefficient < round exact) :
      Reading wholeValue exact (.error .roundingOverflow)

namespace Reading

variable {wholeValue : ℕ} {result : Except Fault Decimal}

theorem exists_ok_iff (h : Reading wholeValue exact result) :
    (∃ number, result = .ok number) ↔
      wholeValue ≤ maxCoefficient ∧ round exact ≤ maxCoefficient := by
  cases h with
  | rounded hwhole hrounded => simp [hwhole, hrounded.round_le]
  | tooManyDigits hwhole => simp [hwhole]
  | roundingOverflow hwhole hround => simp [hround]

theorem eq_tooManyDigits_iff (h : Reading wholeValue exact result) :
    result = .error .tooManyDigits ↔ maxCoefficient < wholeValue := by
  cases h with
  | rounded hwhole => simp [hwhole]
  | tooManyDigits hwhole => simp [hwhole]
  | roundingOverflow hwhole => simp [hwhole]

theorem eq_roundingOverflow_iff (h : Reading wholeValue exact result) :
    result = .error .roundingOverflow ↔
      wholeValue ≤ maxCoefficient ∧ maxCoefficient < round exact := by
  cases h with
  | rounded hwhole hrounded => simp [hrounded.round_le]
  | tooManyDigits hwhole => simp [hwhole]
  | roundingOverflow hwhole hround => simp [hwhole, hround]

theorem rounded_of_ok {number : Decimal} (h : Reading wholeValue exact (.ok number)) :
    Rounded exact number.value := by
  cases h with
  | rounded hwhole hrounded => exact hrounded

end Reading

theorem reading_numeral (hwhole : Digits whole) (hne : whole ≠ [])
    (hfraction : Digits fraction) :
    Reading (Text.digitsValue whole) (exactValue (numeral whole fraction))
      (parse (numeral whole fraction)) := by
  rw [exactValue_numeral hwhole, parse, readPlain, splitSign_numeral hwhole hne,
    readScientific?_numeral hwhole hfraction, readMagnitude,
    numeralParts?_numeral hwhole hne hfraction]
  by_cases hle : Text.digitsValue whole ≤ maxCoefficient
  · have hsettles := takeFraction_settles hfraction hle (Nat.zero_le maxScale)
    rw [Nat.zero_add] at hsettles
    have hroom : decide (0 < maxScale) = true := rfl
    rw [hroom] at hsettles
    simp only [if_pos hle]
    cases hread : takeFraction (Text.digitsValue whole) 0 true fraction with
    | error fault =>
        rw [hread] at hsettles
        obtain ⟨rfl, hround⟩ := hsettles
        exact .roundingOverflow hle hround
    | ok read =>
        obtain ⟨magnitude, scale⟩ := read
        rw [hread] at hsettles
        obtain ⟨hmagnitude, hscale, hrounded⟩ := hsettles
        have hparts : ofParts? (signed false magnitude) scale =
            some ⟨magnitude, scale, hmagnitude, hscale⟩ := dif_pos ⟨hmagnitude, hscale⟩
        simp only [Except.map, bind, Except.bind, Nat.mod_eq_of_lt (Nat.lt_succ_of_le hscale),
          hparts]
        refine .rounded hle ?_
        rw [value, Int.cast_natCast]
        exact hrounded
  · simp only [if_neg hle]
    exact .tooManyDigits (Nat.lt_of_not_le hle)

/-- With no digit left out the number is the rational that is written. -/
theorem exists_parse_of_fits (hwhole : Digits whole) (hne : whole ≠ [])
    (hfraction : Digits fraction) (hfits : Fits (numeral whole fraction)) :
    ∃ number, parse (numeral whole fraction) = .ok number ∧
      number.value = exactValue (numeral whole fraction) := by
  have hreading := reading_numeral hwhole hne hfraction
  have hself : Rounded (exactValue (numeral whole fraction)) _ :=
    rounded_self hfits.1 hfits.2
  have hle : Text.digitsValue whole ≤ maxCoefficient := by
    have hmagnitude := hfits.1
    rw [wholeDigits_numeral hwhole, Text.digitsValue_append] at hmagnitude
    exact (Text.le_ofDigitChars _ _).trans hmagnitude
  obtain ⟨number, hnumber⟩ := hreading.exists_ok_iff.mpr ⟨hle, hself.round_le⟩
  rw [hnumber] at hreading
  have hrounded := hreading.rounded_of_ok
  exact ⟨number, hnumber, le_antisymm (hrounded.mono hself le_rfl)
    (hself.mono hrounded le_rfl)⟩

end Sift.Decimal
