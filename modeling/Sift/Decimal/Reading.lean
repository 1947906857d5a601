import Sift.Decimal

namespace Sift.Decimal

/-! Reading a numeral. Digits are taken as long as they fit; the first that does not
rounds the number. -/

inductive Fault where
  | malformed
  | tooManyDigits
  | roundingOverflow
deriving DecidableEq

def Fault.message : Fault → String
  | .malformed => "Invalid decimal: unknown character"
  | .tooManyDigits => "Invalid decimal: overflow from too many digits"
  | .roundingOverflow => "Invalid decimal: overflow from mantissa after rounding"

def numeralParts? (cs : List Char) : Option (List Char × List Char) :=
  let whole := cs.takeWhile (· ≠ '.')
  let fraction := (cs.dropWhile (· ≠ '.')).drop 1
  -- Underscores stand only after a digit.
  let leading := cs.takeWhile (¬ ·.isDigit)
  if cs.any Char.isDigit ∧ ¬ leading.contains '_' ∧
      (whole ++ fraction).all (fun c => c.isDigit || c = '_') then
    some (whole.filter (· ≠ '_'), fraction)
  else none

/-- Rounds half away from zero on the first digit that is left out. -/
def roundOn (digit : Char) (magnitude scale : Nat) : Except Fault (Nat × Nat) :=
  if Text.digitValue digit < 5 then .ok (magnitude, scale)
  else if magnitude + 1 ≤ maxCoefficient then .ok (magnitude + 1, scale)
  else if scale = 0 then .error .roundingOverflow
  else .ok ((magnitude + 5) / 10, scale - 1)

/-- A magnitude below this bound takes one more digit within 64 bits. -/
def narrowBound : Nat := (Nat.pow 2 64 - 1) / 10 - 255

/-- Takes the digits of a fraction onto a magnitude. Where there is no room for one more
place, an underscore stands for a digit 0 if the magnitude was narrow before its last
digit, and otherwise makes room. -/
def takeFraction (magnitude scale : Nat) (room : Bool) :
    List Char → Except Fault (Nat × Nat)
  | [] => .ok (magnitude, scale)
  | c :: cs =>
      if c = '_' then
        if room ∨ narrowBound ≤ magnitude / 10 then takeFraction magnitude scale true cs
        else .ok (magnitude, scale)
      else
        let next := 10 * magnitude + Text.digitValue c
        if room ∧ next ≤ maxCoefficient then
          takeFraction next (scale + 1) (scale + 1 < maxScale) cs
        else roundOn c magnitude scale

def readMagnitude (cs : List Char) : Except Fault (Nat × Nat) :=
  match numeralParts? cs with
  | none => .error .malformed
  | some (whole, fraction) =>
      let magnitude := Text.digitsValue whole
      if magnitude ≤ maxCoefficient then
        -- Underscores may have carried the scale past its bound.
        (takeFraction magnitude 0 true fraction).map fun (magnitude, scale) =>
          (magnitude, scale % (maxScale + 1))
      else .error .tooManyDigits

def signed (negative : Bool) (magnitude : Nat) : Int :=
  if negative then -magnitude else magnitude

def splitSign : List Char → Bool × List Char
  | '-' :: body => (true, body)
  | '+' :: body => (false, body)
  | body => (false, body)

def readPlain (cs : List Char) : Except Fault Decimal := do
  let (magnitude, scale) ← readMagnitude (splitSign cs).2
  match ofParts? (signed (splitSign cs).1 magnitude) scale with
  | some number => .ok number
  | none => .error .tooManyDigits

def shiftLeft? (number : Decimal) (places : Nat) : Option Decimal :=
  if number.scale + places ≤ maxScale then
    ofParts? number.coefficient (number.scale + places)
  else
    let divisor := unit (number.scale + places - maxScale)
    let magnitude := (2 * number.coefficient.natAbs + divisor) / (2 * divisor)
    ofParts? (number.coefficient.sign * magnitude) maxScale

def shiftRight? (number : Decimal) (places : Nat) : Option Decimal :=
  if places ≤ number.scale then
    ofParts? number.coefficient (number.scale - places)
  else ofParts? (number.coefficient * unit (places - number.scale)) 0

def places? (cs : List Char) : Option Nat :=
  let digits := match cs with
    | '+' :: digits => digits
    | digits => digits
  if digits ≠ [] ∧ digits.all Char.isDigit ∧ Text.digitsValue digits ≤ maxScale then
    some (Text.digitsValue digits)
  else none

def isExponentMark (c : Char) : Bool :=
  c = 'e' || c = 'E'

def readScientific? (cs : List Char) : Option Decimal := do
  let base ← (readPlain (cs.takeWhile (¬ isExponentMark ·))).toOption
  let _ :: exponent := cs.dropWhile (¬ isExponentMark ·) | none
  match exponent with
  | '-' :: places => shiftLeft? base (← places? places)
  | places => shiftRight? base (← places? places)

def parse (cs : List Char) : Except Fault Decimal :=
  match readPlain cs with
  | .ok number => .ok number
  | .error fault =>
      match readScientific? cs with
      | some number => .ok number
      | none => .error fault

end Sift.Decimal
