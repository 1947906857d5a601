namespace Sift.Text

/-! Decimal digit strings and the natural numbers they stand for. A reader returns also
what follows. -/

def digitValue (digit : Char) : Nat :=
  digit.toNat - '0'.toNat

def digitsValue (digits : List Char) : Nat :=
  Nat.ofDigitChars 10 digits 0

def zeroPadded (width number : Nat) : List Char :=
  (Nat.toDigits 10 number).leftpad width '0'

def digits? (count : Nat) (cs : List Char) : Option (Nat × List Char) :=
  let digits := cs.take count
  if digits.length = count ∧ digits.all Char.isDigit then
    some (digitsValue digits, cs.drop count)
  else none

def slice? (text : List Char) (start stop : Nat) : Option Nat :=
  let digits := (text.take stop).drop start
  if digits.length = stop - start ∧ digits.all Char.isDigit then some (digitsValue digits)
  else none

/-- Two leading digits of which the first is at most `highest`. -/
def pair? (highest : Char) : List Char → Option (Nat × List Char)
  | tens :: units :: cs =>
      if tens.isDigit ∧ tens ≤ highest ∧ units.isDigit then
        some (digitsValue [tens, units], cs)
      else none
  | _ => none

def after? (mark : Char) : List Char → Option (List Char)
  | c :: cs => if c = mark then some cs else none
  | [] => none

theorem digitsValue_toDigits (number : Nat) :
    digitsValue (Nat.toDigits 10 number) = number :=
  Nat.ofDigitChars_toDigits (by decide) (by decide)

theorem digitsValue_zeroPadded (width number : Nat) :
    digitsValue (zeroPadded width number) = number := by
  have hzeros : ∀ count,
      Nat.ofDigitChars 10 (List.replicate count '0') 0 = 0 := by
    intro count
    induction count with
    | zero => rfl
    | succ count ih =>
        simpa [Nat.ofDigitChars, List.replicate_succ] using ih
  rw [digitsValue, zeroPadded, List.leftpad, Nat.ofDigitChars_append, hzeros]
  exact digitsValue_toDigits number

end Sift.Text
