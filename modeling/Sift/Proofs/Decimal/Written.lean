import Sift.Decimal.Reading
import Sift.Proofs.Text.Digits

namespace Sift.Decimal

/-! A number that is not negative is written as a numeral that reads back as it, with
its scale. -/

/-- Digits, and a point before those of the fraction. -/
def numeral (whole fraction : List Char) : List Char :=
  whole ++ if fraction = [] then [] else '.' :: fraction

def Digits (digits : List Char) : Prop :=
  ∀ c ∈ digits, c.isDigit = true

variable {whole fraction digits : List Char}

theorem Digits.all (h : Digits digits) : digits.all Char.isDigit = true :=
  List.all_eq_true.mpr h

theorem Digits.ne {c : Char} (h : Digits digits) (hc : c.isDigit = false) :
    ∀ digit ∈ digits, digit ≠ c := by
  rintro digit hdigit rfl
  cases (h digit hdigit).symm.trans hc

theorem writtenMagnitude_eq_numeral (magnitude scale : Nat) :
    ∃ whole fraction, Digits whole ∧ whole ≠ [] ∧ Digits fraction ∧
      fraction.length = scale ∧ Text.digitsValue (whole ++ fraction) = magnitude ∧
        writtenMagnitude magnitude scale = numeral whole fraction := by
  have hlength := Text.le_length_zeroPadded (scale + 1) magnitude
  have hdigits : Digits (Text.zeroPadded (scale + 1) magnitude) :=
    fun c => Text.isDigit_of_mem_zeroPadded
  have hvalue := Text.digitsValue_zeroPadded (scale + 1) magnitude
  unfold writtenMagnitude
  generalize Text.zeroPadded (scale + 1) magnitude = digits at *
  have hfraction : (digits.drop (digits.length - scale)).length = scale := by
    rw [List.length_drop]
    omega
  refine ⟨digits.take (digits.length - scale), digits.drop (digits.length - scale),
    fun c hc => hdigits c (List.mem_of_mem_take hc), ?_,
    fun c hc => hdigits c (List.mem_of_mem_drop hc), hfraction, ?_, ?_⟩
  · intro hnil
    have hwhole := congrArg List.length hnil
    rw [List.length_take, List.length_nil] at hwhole
    omega
  · rw [List.take_append_drop, hvalue]
  · simp only [numeral, ← List.length_eq_zero_iff, hfraction]
    split <;> simp

theorem takeWhile_numeral (hwhole : Digits whole) (fraction : List Char) :
    (numeral whole fraction).takeWhile (· ≠ '.') = whole := by
  have hpoint : ∀ c ∈ whole, decide (c ≠ '.') = true :=
    fun c hc => decide_eq_true (hwhole.ne rfl c hc)
  rw [numeral, List.takeWhile_append_of_pos hpoint]
  split <;> simp

theorem drop_dropWhile_numeral (hwhole : Digits whole) (fraction : List Char) :
    ((numeral whole fraction).dropWhile (· ≠ '.')).drop 1 = fraction := by
  have hpoint : ∀ c ∈ whole, decide (c ≠ '.') = true :=
    fun c hc => decide_eq_true (hwhole.ne rfl c hc)
  rw [numeral, List.dropWhile_append_of_pos hpoint]
  split <;> simp [*]

theorem numeralParts?_numeral (hwhole : Digits whole) (hne : whole ≠ [])
    (hfraction : Digits fraction) :
    numeralParts? (numeral whole fraction) = some (whole, fraction) := by
  have hunderscore : whole.filter (· ≠ '_') = whole :=
    List.filter_eq_self.mpr fun c hc => decide_eq_true (hwhole.ne rfl c hc)
  have htake := takeWhile_numeral hwhole fraction
  have hdrop := drop_dropWhile_numeral hwhole fraction
  obtain ⟨first, others, rfl⟩ := List.exists_cons_of_ne_nil hne
  have hfirst := hwhole first List.mem_cons_self
  have hleading : (numeral (first :: others) fraction).takeWhile (¬ ·.isDigit) = [] := by
    simp [numeral, hfirst]
  have hany : (numeral (first :: others) fraction).any Char.isDigit = true := by
    simp [numeral, hfirst]
  have hall :
      (first :: others ++ fraction).all (fun c => c.isDigit || c = '_') = true := by
    rw [List.all_eq_true]
    intro c hc
    rw [Bool.or_eq_true]
    rcases List.mem_append.mp hc with hc | hc
    · exact .inl (hwhole c hc)
    · exact .inl (hfraction c hc)
  unfold numeralParts?
  simp only [htake, hdrop, hleading, hunderscore]
  rw [if_pos ⟨hany, by simp, hall⟩]

/-- While every digit fits, all of them are taken. -/
theorem takeFraction_digits {magnitude scale : Nat} {room : Bool}
    (hdigits : Digits digits) (hroom : digits ≠ [] → room = true)
    (hmagnitude : Nat.ofDigitChars 10 digits magnitude ≤ maxCoefficient)
    (hscale : scale + digits.length ≤ maxScale) :
    takeFraction magnitude scale room digits =
      .ok (Nat.ofDigitChars 10 digits magnitude, scale + digits.length) := by
  induction digits generalizing magnitude scale room with
  | nil => rfl
  | cons c digits ih =>
      obtain ⟨hc, hdigits⟩ := List.forall_mem_cons.mp hdigits
      have hunderscore : c ≠ '_' := by
        rintro rfl
        cases hc
      rw [Nat.ofDigitChars_cons] at hmagnitude ⊢
      rw [List.length_cons] at hscale ⊢
      have hnext : 10 * magnitude + Text.digitValue c ≤ maxCoefficient :=
        Nat.le_trans (Text.le_ofDigitChars digits _) hmagnitude
      have hmore : digits ≠ [] → decide (scale + 1 < maxScale) = true := by
        intro hne
        have hpos := List.length_pos_iff.mpr hne
        exact decide_eq_true (by omega)
      rw [takeFraction, if_neg hunderscore]
      simp only [hroom (List.cons_ne_nil _ _), hnext, and_self, if_true]
      have hlonger : scale + 1 + digits.length ≤ maxScale := by omega
      have hrest := ih hdigits hmore hmagnitude hlonger
      rwa [Nat.add_assoc, Nat.add_comm 1] at hrest

theorem readMagnitude_numeral (hwhole : Digits whole) (hne : whole ≠ [])
    (hfraction : Digits fraction)
    (hmagnitude : Text.digitsValue (whole ++ fraction) ≤ maxCoefficient)
    (hscale : fraction.length ≤ maxScale) :
    readMagnitude (numeral whole fraction) =
      .ok (Text.digitsValue (whole ++ fraction), fraction.length) := by
  rw [Text.digitsValue_append] at hmagnitude ⊢
  have hwholeValue := Nat.le_trans (Text.le_ofDigitChars fraction _) hmagnitude
  have hread : takeFraction (Text.digitsValue whole) 0 true fraction =
      .ok (Nat.ofDigitChars 10 fraction (Text.digitsValue whole), 0 + fraction.length) :=
    takeFraction_digits hfraction (fun _ => rfl) hmagnitude (by omega)
  rw [readMagnitude, numeralParts?_numeral hwhole hne hfraction]
  simp only [if_pos hwholeValue, hread, Except.map, Nat.zero_add]
  rw [Nat.mod_eq_of_lt (Nat.lt_succ_of_le hscale)]

theorem splitSign_numeral (hwhole : Digits whole) (hne : whole ≠ []) :
    splitSign (numeral whole fraction) = (false, numeral whole fraction) := by
  obtain ⟨first, others, rfl⟩ := List.exists_cons_of_ne_nil hne
  have hfirst := hwhole first List.mem_cons_self
  rw [numeral, List.cons_append]
  unfold splitSign
  split
  · rename_i heq
    cases heq
    cases hfirst
  · rename_i heq
    cases heq
    cases hfirst
  · rfl

theorem parse_writtenMagnitude {number : Decimal} (h : 0 ≤ number.coefficient) :
    parse (writtenMagnitude number.coefficient.natAbs number.scale) = .ok number := by
  obtain ⟨whole, fraction, hwhole, hne, hfraction, hscale, hvalue, hwritten⟩ :=
    writtenMagnitude_eq_numeral number.coefficient.natAbs number.scale
  have hread := readMagnitude_numeral hwhole hne hfraction
    (hvalue ▸ number.coefficient_le) (hscale ▸ number.scale_le)
  rw [hvalue, hscale] at hread
  have hparts : ofParts? (signed false number.coefficient.natAbs) number.scale =
      some number := by
    rw [signed, if_neg (by decide), Int.natAbs_of_nonneg h]
    exact dif_pos ⟨number.coefficient_le, number.scale_le⟩
  rw [hwritten, parse, readPlain, splitSign_numeral hwhole hne]
  simp only [hread, hparts, bind, Except.bind]

end Sift.Decimal
