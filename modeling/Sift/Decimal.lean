import Sift.Text.Digits

namespace Sift

/-! Decimal numbers: an integer of at most 96 bits over a power of ten up to 28. -/

namespace Decimal

def maxCoefficient : Nat := 79228162514264337593543950335

def maxScale : Nat := 28

def unit (scale : Nat) : Nat :=
  Nat.pow 10 scale

end Decimal

/-- The number `coefficient / 10 ^ scale`. Numbers of one value may differ in scale. -/
structure Decimal where
  coefficient : Int
  scale : Nat
  coefficient_le : coefficient.natAbs ≤ Decimal.maxCoefficient
  scale_le : scale ≤ Decimal.maxScale

namespace Decimal

def ofParts? (coefficient : Int) (scale : Nat) : Option Decimal :=
  if h : coefficient.natAbs ≤ maxCoefficient ∧ scale ≤ maxScale then
    some ⟨coefficient, scale, h.1, h.2⟩
  else none

def compare (first second : Decimal) : Ordering :=
  Ord.compare (first.coefficient * unit second.scale)
    (second.coefficient * unit first.scale)

def sameValue (first second : Decimal) : Bool :=
  first.compare second = .eq

def writtenMagnitude (magnitude scale : Nat) : List Char :=
  let digits := Text.zeroPadded (scale + 1) magnitude
  let whole := digits.take (digits.length - scale)
  if scale = 0 then whole
  else whole ++ '.' :: digits.drop (digits.length - scale)

def written (number : Decimal) : List Char :=
  (if number.coefficient < 0 then ['-'] else []) ++
    writtenMagnitude number.coefficient.natAbs number.scale

end Decimal

end Sift
