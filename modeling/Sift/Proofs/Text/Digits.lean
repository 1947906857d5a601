import Mathlib.Algebra.Group.Nat.Defs
import Sift.Text.Digits

namespace Sift.Text

/-! Numbers that are written with leading zeros read back. -/

theorem isDigit_of_mem_zeroPadded {width number : Nat} {c : Char}
    (h : c ∈ zeroPadded width number) : c.isDigit = true := by
  rcases List.mem_append.mp h with h | h
  · rw [List.eq_of_mem_replicate h]
    rfl
  · exact Nat.isDigit_of_mem_toDigits (by decide) (by decide) h

theorem le_length_zeroPadded (width number : Nat) :
    width ≤ (zeroPadded width number).length := by
  simp only [zeroPadded, List.length_leftpad]
  omega

theorem length_zeroPadded (width number : Nat) (hwidth : 0 < width)
    (h : number < 10 ^ width) : (zeroPadded width number).length = width := by
  rw [zeroPadded, List.length_leftpad, Nat.max_eq_left]
  exact (Nat.length_toDigits_le_iff (by decide) hwidth).mpr h

theorem digitsValue_append (front back : List Char) :
    digitsValue (front ++ back) = Nat.ofDigitChars 10 back (digitsValue front) :=
  Nat.ofDigitChars_append 0

theorem pow_mul_le_ofDigitChars (digits : List Char) (value : Nat) :
    10 ^ digits.length * value ≤ Nat.ofDigitChars 10 digits value := by
  rw [Nat.ofDigitChars_eq_ofDigitChars_zero]
  exact Nat.le_add_right _ _

theorem le_ofDigitChars (digits : List Char) (value : Nat) :
    value ≤ Nat.ofDigitChars 10 digits value := by
  have hpow : 1 ≤ 10 ^ digits.length := Nat.one_le_pow _ _ (by decide)
  have hmul := Nat.mul_le_mul_right value hpow
  have hle := pow_mul_le_ofDigitChars digits value
  omega

theorem digits?_append {digits : List Char} (hdigits : ∀ c ∈ digits, c.isDigit = true)
    (rest : List Char) :
    digits? digits.length (digits ++ rest) = some (digitsValue digits, rest) := by
  unfold digits?
  simp only [List.take_left, List.drop_left, List.all_eq_true, true_and]
  rw [if_pos hdigits]

theorem digits?_zeroPadded {width number : Nat} (hwidth : 0 < width)
    (h : number < 10 ^ width) (rest : List Char) :
    digits? width (zeroPadded width number ++ rest) = some (number, rest) := by
  have hread : digits? (zeroPadded width number).length
      (zeroPadded width number ++ rest) =
        some (digitsValue (zeroPadded width number), rest) :=
    digits?_append (fun c => isDigit_of_mem_zeroPadded) rest
  rwa [length_zeroPadded _ _ hwidth h, digitsValue_zeroPadded] at hread

theorem zeroPadded_two {number : Nat} (h : number < 100) :
    zeroPadded 2 number = [Nat.digitChar (number / 10), Nat.digitChar (number % 10)] := by
  rw [zeroPadded, Nat.toDigits_eq_if (by decide)]
  split
  · rename_i hsmall
    rw [Nat.div_eq_of_lt hsmall, Nat.mod_eq_of_lt hsmall]
    rfl
  · rw [Nat.toDigits_of_lt_base (by omega)]
    rfl

theorem isDigit_digitChar {value : Nat} (h : value < 10) :
    (Nat.digitChar value).isDigit = true := by
  rw [Nat.isDigit_digitChar, decide_eq_true h]

theorem digitChar_le {first second : Nat} (h : first ≤ second) (hsecond : second < 10) :
    Nat.digitChar first ≤ Nat.digitChar second := by
  have hnat : (Nat.digitChar first).toNat ≤ (Nat.digitChar second).toNat := by
    rw [Nat.toNat_digitChar_of_lt_ten (by omega), Nat.toNat_digitChar_of_lt_ten hsecond]
    omega
  exact hnat

theorem pair?_zeroPadded {number : Nat} (highest : Nat) (h : number / 10 ≤ highest)
    (hhighest : highest < 10) (rest : List Char) :
    pair? (Nat.digitChar highest) (zeroPadded 2 number ++ rest) =
      some (number, rest) := by
  have hvalue := digitsValue_zeroPadded 2 number
  rw [zeroPadded_two (by omega)] at hvalue ⊢
  have htens := isDigit_digitChar (show number / 10 < 10 by omega)
  have hunits := isDigit_digitChar (Nat.mod_lt number (by decide : 10 > 0))
  simp only [List.cons_append, List.nil_append, pair?]
  rw [if_pos ⟨htens, digitChar_le h hhighest, hunits⟩, hvalue]

theorem after?_eq_some {mark : Char} {cs rest : List Char} :
    after? mark cs = some rest ↔ cs = mark :: rest := by
  cases cs with
  | nil => simp [after?]
  | cons c cs =>
      rw [after?, List.cons.injEq]
      split <;> simp [*]

/-! Bounds of what is read. -/

theorem digitValue_le {c : Char} (hdigit : c.isDigit = true) : digitValue c ≤ 9 := by
  have hbound := (Char.isDigit_iff_toNat.mp hdigit).2
  change c.toNat ≤ 57 at hbound
  change c.toNat - 48 ≤ 9
  omega

theorem ofDigitChars_lt {digits : List Char} (hdigits : ∀ c ∈ digits, c.isDigit = true)
    (value : Nat) :
    Nat.ofDigitChars 10 digits value < 10 ^ digits.length * (value + 1) := by
  induction digits generalizing value with
  | nil => simp
  | cons c digits ih =>
      rw [List.forall_mem_cons] at hdigits
      have hbound : c.toNat - '0'.toNat ≤ 9 := digitValue_le hdigits.1
      rw [Nat.ofDigitChars_cons, List.length_cons, Nat.pow_succ, Nat.mul_assoc]
      refine Nat.lt_of_lt_of_le (ih hdigits.2 _) (Nat.mul_le_mul_left _ ?_)
      omega

theorem digitsValue_lt {digits : List Char} (hdigits : ∀ c ∈ digits, c.isDigit = true) :
    digitsValue digits < 10 ^ digits.length := by
  have hlt := ofDigitChars_lt hdigits 0
  rwa [Nat.mul_one] at hlt

theorem digits?_lt {count value : Nat} {cs rest : List Char}
    (h : digits? count cs = some (value, rest)) : value < 10 ^ count := by
  simp only [digits?] at h
  split at h
  · rename_i hdigits
    cases h
    have hlt := digitsValue_lt (List.all_eq_true.mp hdigits.2)
    rwa [hdigits.1] at hlt
  · cases h

theorem pair?_lt {highest : Char} {value : Nat} {cs rest : List Char}
    (h : pair? highest cs = some (value, rest)) :
    value < 10 * (digitValue highest + 1) := by
  unfold pair? at h
  split at h
  · rename_i tens units _
    split at h
    · rename_i hdigits
      cases h
      have htens : tens.toNat ≤ highest.toNat := hdigits.2.1
      have hunits := (Char.isDigit_iff_toNat.mp hdigits.2.2).2
      change units.toNat ≤ 57 at hunits
      change 10 * (10 * 0 + (tens.toNat - 48)) + (units.toNat - 48) <
        10 * (highest.toNat - 48 + 1)
      omega
    · cases h
  · cases h

end Sift.Text
