import Mathlib.Data.Rat.Cast.Order
import Sift.Decimal
import Sift.Timestamp

namespace Sift

/-! Numbers are ordered as the rationals that they stand for, and timestamps as
instants. -/

namespace Decimal

def value (number : Decimal) : ℚ :=
  number.coefficient / unit number.scale

theorem unit_pos (scale : Nat) : (0 : ℚ) < unit scale :=
  Nat.cast_pos.mpr (Nat.pow_pos (by decide))

theorem compare_eq_compare_value (first second : Decimal) :
    first.compare second = Ord.compare first.value second.value := by
  have hpos := mul_pos (unit_pos first.scale) (unit_pos second.scale)
  have hfirst : first.value * (unit first.scale * unit second.scale) =
      (first.coefficient * unit second.scale : ℤ) := by
    rw [value, ← mul_assoc, div_mul_cancel₀ _ (unit_pos _).ne']
    push_cast
    rfl
  have hsecond : second.value * (unit first.scale * unit second.scale) =
      (second.coefficient * unit first.scale : ℤ) := by
    rw [value, mul_comm (unit first.scale : ℚ), ← mul_assoc,
      div_mul_cancel₀ _ (unit_pos _).ne']
    push_cast
    rfl
  rw [← cmp_eq_compare, ← cmp_mul_pos_right hpos, hfirst, hsecond,
    Int.cast_strictMono.cmp_map_eq, cmp_eq_compare]
  rfl

theorem sameValue_iff {first second : Decimal} :
    first.sameValue second = true ↔ first.value = second.value := by
  rw [sameValue, decide_eq_true_eq, compare_eq_compare_value, compare_eq_iff_eq]

end Decimal

namespace Timestamp

theorem sameInstant_iff {first second : Timestamp} :
    first.sameInstant second = true ↔
      first.seconds = second.seconds ∧ first.nanoseconds = second.nanoseconds := by
  rw [sameInstant, decide_eq_true_eq, compare, Ordering.then_eq_eq,
    Std.LawfulEqOrd.compare_eq_iff_eq, Std.LawfulEqOrd.compare_eq_iff_eq]

end Timestamp

end Sift
