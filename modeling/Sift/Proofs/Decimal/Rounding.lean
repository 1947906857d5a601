import Mathlib.Data.Rat.Floor
import Mathlib.Tactic.Linarith
import Mathlib.Tactic.Ring
import Sift.Proofs.Value.Order

namespace Sift.Decimal

/-! Rounding of rationals to numbers. Each is rounded at a place of its own, the last one
that the coefficient has room for; the order of two rationals is kept all the same. -/

theorem unit_succ (scale : ℕ) : (unit (scale + 1) : ℚ) = 10 * unit scale := by
  rw [unit, Nat.pow_eq, pow_succ', Nat.cast_mul]
  rfl

theorem unit_zero : (unit 0 : ℚ) = 1 := Nat.cast_one

theorem unit_add (first second : ℕ) :
    (unit (first + second) : ℚ) = unit first * unit second := by
  rw [unit, Nat.pow_eq, pow_add, Nat.cast_mul]
  rfl

theorem unit_mono {first second : ℕ} (h : first ≤ second) : (unit first : ℚ) ≤ unit second :=
  Nat.cast_le.mpr (Nat.pow_le_pow_right (by decide) h)

/-- The greatest scale at which the digits before the point are within bounds. -/
structure IsPlace (exact : ℚ) (scale : ℕ) : Prop where
  scale_le : scale ≤ maxScale
  fits : exact * unit scale < maxCoefficient + 1
  last : scale = maxScale ∨ maxCoefficient + 1 ≤ exact * unit (scale + 1)

/-- The coefficient that is left, a place less, of one that rounding takes out of bounds. -/
def carried : ℕ := (maxCoefficient + 5) / 10

theorem ten_mul_carried : (10 * carried : ℚ) = maxCoefficient + 5 := by
  have hnat : 10 * carried = maxCoefficient + 5 := by decide
  exact_mod_cast hnat

/-- The rational rounded at a scale, a half upwards. -/
def roundedAt (exact : ℚ) (scale : ℕ) : ℚ :=
  if round (exact * unit scale) ≤ maxCoefficient then
    round (exact * unit scale) / unit scale
  else 10 * carried / unit scale

/-- The rational rounded at its place. At scale 0 there is no place to lose. -/
def Rounded (exact rounded : ℚ) : Prop :=
  ∃ scale, IsPlace exact scale ∧
    (scale = 0 → round (exact * unit scale) ≤ maxCoefficient) ∧
      rounded = roundedAt exact scale

variable {exact other rounded otherRounded : ℚ} {scale otherScale : ℕ}

theorem exists_place (hscale : scale ≤ maxScale)
    (hfits : exact * unit scale < maxCoefficient + 1) :
    ∃ place, scale ≤ place ∧ IsPlace exact place := by
  -- On the number of places that are left.
  induction hleft : maxScale - scale generalizing scale with
  | zero => exact ⟨scale, Nat.le_refl _, hscale, hfits, .inl (by omega)⟩
  | succ left ih =>
      by_cases hlast : maxCoefficient + 1 ≤ exact * unit (scale + 1)
      · exact ⟨scale, Nat.le_refl _, hscale, hfits, .inr hlast⟩
      · obtain ⟨place, hle, hplace⟩ := ih (by omega) (not_le.mp hlast) (by omega)
        exact ⟨place, by omega, hplace⟩

/-! What rounding at a scale comes to. -/

theorem roundedAt_le (exact : ℚ) (scale : ℕ) :
    roundedAt exact scale ≤ 10 * carried / unit scale := by
  unfold roundedAt
  split
  · rename_i hround
    have hbound : (round (exact * unit scale) : ℚ) ≤ maxCoefficient := by
      exact_mod_cast hround
    refine div_le_div_of_nonneg_right ?_ (unit_pos scale).le
    linarith [ten_mul_carried]
  · exact le_rfl

/-- Where the next place is out of bounds, as much is left as when rounding carries. -/
theorem le_roundedAt (hlast : maxCoefficient + 1 ≤ exact * unit (scale + 1)) :
    carried / unit scale ≤ roundedAt exact scale := by
  have hcarried := ten_mul_carried
  rw [unit_succ] at hlast
  unfold roundedAt
  split
  · have hround : (carried : ℤ) ≤ round (exact * unit scale) := by
      rw [round_eq, Int.le_floor, Int.cast_natCast]
      linarith
    have hcast : (carried : ℚ) ≤ round (exact * unit scale) := by exact_mod_cast hround
    exact div_le_div_of_nonneg_right hcast (unit_pos scale).le
  · have hnonneg : (0 : ℚ) ≤ carried := Nat.cast_nonneg _
    exact div_le_div_of_nonneg_right (by linarith) (unit_pos scale).le

theorem roundedAt_mono (h : exact ≤ other) (scale : ℕ) :
    roundedAt exact scale ≤ roundedAt other scale := by
  have hpos := unit_pos scale
  have hround : round (exact * unit scale) ≤ round (other * unit scale) := by
    rw [round_eq, round_eq]
    exact Int.floor_mono (by linarith [mul_le_mul_of_nonneg_right h hpos.le])
  by_cases hother : round (other * unit scale) ≤ maxCoefficient
  · rw [roundedAt, roundedAt, if_pos (hround.trans hother), if_pos hother]
    exact div_le_div_of_nonneg_right (Int.cast_le.mpr hround) hpos.le
  · have hcarried : roundedAt other scale = 10 * carried / unit scale := if_neg hother
    rw [hcarried]
    exact roundedAt_le exact scale

theorem IsPlace.anti (hplace : IsPlace exact scale) (hother : IsPlace other otherScale)
    (h : exact ≤ other) : otherScale ≤ scale := by
  by_contra hlt
  rcases hplace.last with hlast | hlast
  · have hle := hother.scale_le
    omega
  · have hpos := unit_pos (scale + 1)
    have hunit : (unit (scale + 1) : ℚ) ≤ unit otherScale := unit_mono (by omega)
    have hcoefficient : (0 : ℚ) ≤ maxCoefficient := Nat.cast_nonneg _
    have hnonneg : 0 ≤ other := by
      by_contra hneg
      have hproduct := mul_nonpos_of_nonpos_of_nonneg (h.trans (not_le.mp hneg).le) hpos.le
      linarith
    have hfits := hother.fits
    have hfirst := mul_le_mul_of_nonneg_right h hpos.le
    have hsecond := mul_le_mul_of_nonneg_left hunit hnonneg
    linarith

theorem Rounded.mono (hrounded : Rounded exact rounded)
    (hotherRounded : Rounded other otherRounded) (h : exact ≤ other) :
    rounded ≤ otherRounded := by
  obtain ⟨scale, hplace, -, rfl⟩ := hrounded
  obtain ⟨otherScale, hotherPlace, -, rfl⟩ := hotherRounded
  rcases (hplace.anti hotherPlace h).eq_or_lt with rfl | hlt
  · exact roundedAt_mono h _
  · have hlast := hotherPlace.last.resolve_left (by have := hplace.scale_le; omega)
    have hcarried : (0 : ℚ) ≤ 10 * carried := by positivity
    calc roundedAt exact scale
        ≤ 10 * carried / unit scale := roundedAt_le exact scale
      _ ≤ 10 * carried / unit (otherScale + 1) :=
        div_le_div_of_nonneg_left hcarried (unit_pos _) (unit_mono hlt)
      _ = carried / unit otherScale := by
        rw [unit_succ, mul_div_mul_left _ _ (by norm_num)]
      _ ≤ roundedAt other otherScale := le_roundedAt hlast

theorem Rounded.round_le (h : Rounded exact rounded) : round exact ≤ maxCoefficient := by
  obtain ⟨scale, hplace, hzero, -⟩ := h
  rcases scale.eq_zero_or_pos with rfl | hpos
  · have hround := hzero rfl
    rwa [unit_zero, mul_one] at hround
  · have hten : (10 : ℚ) ≤ unit scale := by
      have hunit := unit_mono hpos
      rwa [unit_succ, unit_zero, mul_one] at hunit
    have hlt : exact * 10 < maxCoefficient + 1 := by
      rcases le_total 0 exact with hexact | hexact
      · exact (mul_le_mul_of_nonneg_left hten hexact).trans_lt hplace.fits
      · have hcoefficient : (0 : ℚ) ≤ maxCoefficient := Nat.cast_nonneg _
        linarith
    have hone : (1 : ℚ) ≤ maxCoefficient := Nat.one_le_cast.mpr (by decide)
    rw [round_eq, ← Int.lt_add_one_iff, Int.floor_lt]
    push_cast
    linarith

theorem rounded_self {coefficient : ℕ} (hcoefficient : coefficient ≤ maxCoefficient)
    (hscale : scale ≤ maxScale) :
    Rounded (coefficient / unit scale) (coefficient / unit scale) := by
  have hfits : (coefficient / unit scale : ℚ) * unit scale < maxCoefficient + 1 := by
    rw [div_mul_cancel₀ _ (unit_pos scale).ne']
    exact_mod_cast Nat.lt_succ_of_le hcoefficient
  obtain ⟨place, hle, hplace⟩ := exists_place hscale hfits
  -- At the place the coefficient has zeros behind it.
  have hwhole : (coefficient / unit scale : ℚ) * unit place =
      (coefficient * unit (place - scale) : ℕ) := by
    obtain ⟨more, rfl⟩ := Nat.exists_eq_add_of_le hle
    rw [unit_add, ← mul_assoc, div_mul_cancel₀ _ (unit_pos scale).ne',
      Nat.add_sub_cancel_left, Nat.cast_mul]
  have hround : round ((coefficient / unit scale : ℚ) * unit place) ≤ maxCoefficient := by
    have hfits := hplace.fits
    rw [hwhole] at hfits ⊢
    have hlt : coefficient * unit (place - scale) < maxCoefficient + 1 := by
      exact_mod_cast hfits
    rw [round_natCast]
    exact_mod_cast Nat.le_of_lt_succ hlt
  refine ⟨place, hplace, fun _ => hround, ?_⟩
  rw [roundedAt, if_pos hround, hwhole, round_natCast, Int.cast_natCast, ← hwhole,
    mul_div_cancel_right₀ _ (unit_pos place).ne']

end Sift.Decimal
