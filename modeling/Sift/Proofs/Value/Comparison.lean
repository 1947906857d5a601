import Mathlib.Order.Fin.Basic
import Sift.Proofs.Evaluation.Soundness
import Sift.Proofs.Value.Order

namespace Sift

/-! Comparison is an order of the numbers and an order of the timestamps, and an equality
of all values of one type. Null is equal to itself alone and has no place in an order. -/

namespace Comparison

/-- The comparison that says the same of the operands swapped. -/
def mirrored : Comparison → Comparison
  | eq => eq
  | ne => ne
  | lt => gt
  | le => ge
  | gt => lt
  | ge => le

/-- The relation that the comparison stands for in a linear order. -/
def Between {α : Type} [LinearOrder α] : Comparison → α → α → Prop
  | eq, first, second => first = second
  | ne, first, second => first ≠ second
  | lt, first, second => first < second
  | le, first, second => first ≤ second
  | gt, first, second => first > second
  | ge, first, second => first ≥ second

variable {comparison : Comparison}

@[simp] theorem isOrdering_mirrored :
    comparison.mirrored.isOrdering = comparison.isOrdering := by
  cases comparison <;> rfl

theorem holds_mirrored_swap (comparison : Comparison) (ordering : Ordering) :
    comparison.mirrored.holds ordering.swap = comparison.holds ordering := by
  cases comparison <;> cases ordering <;> rfl

theorem holds_compare_iff {α : Type} [LinearOrder α] (comparison : Comparison)
    (first second : α) :
    comparison.holds (Ord.compare first second) = true ↔
      comparison.Between first second := by
  cases comparison with
  | eq => exact decide_eq_true_iff.trans compare_eq_iff_eq
  | ne => exact decide_eq_true_iff.trans compare_eq_iff_eq.not
  | lt => exact decide_eq_true_iff.trans compare_lt_iff_lt
  | le => exact decide_eq_true_iff.trans compare_le_iff_le
  | gt => exact decide_eq_true_iff.trans compare_gt_iff_gt
  | ge => exact decide_eq_true_iff.trans compare_ge_iff_ge

end Comparison

/-- The error that the comparison with its operands swapped fails with. -/
def EvalError.mirrored : EvalError → EvalError
  | typeMismatch comparison left right => typeMismatch comparison.mirrored right left
  | unordered comparison operand => unordered comparison.mirrored operand
  | error => error

/-- Position on the line of time, in nanoseconds. -/
def Timestamp.instant (timestamp : Timestamp) : ℤ :=
  timestamp.seconds * 1000000000 + timestamp.nanoseconds

theorem Timestamp.compare_eq_compare_instant (first second : Timestamp) :
    first.compare second = Ord.compare first.instant second.instant := by
  have hfirst := first.nanoseconds.isLt
  have hsecond := second.nanoseconds.isLt
  rcases lt_trichotomy first.seconds second.seconds with hlt | heq | hgt
  · rw [compare, compare_lt_iff_lt.mpr hlt, Ordering.lt_then, eq_comm, compare_lt_iff_lt,
      instant, instant]
    omega
  · have hmono : StrictMono fun nanoseconds : Fin 1000000000 =>
        second.seconds * 1000000000 + (nanoseconds : ℤ) := by
      intro early late hlt
      simpa using hlt
    rw [compare, compare_eq_iff_eq.mpr heq, Ordering.eq_then, instant, instant, heq,
      ← cmp_eq_compare, ← cmp_eq_compare]
    exact (hmono.cmp_map_eq _ _).symm
  · rw [compare, compare_gt_iff_gt.mpr hgt, Ordering.gt_then, eq_comm, compare_gt_iff_gt,
      instant, instant]
    omega

namespace ValueType

/-- Values of the type come one after another. -/
def Ordered (type : ValueType) : Prop :=
  type = .number ∨ type = .timestamp

/-- Values of the type are equal or not, and nothing more. -/
def Unordered (type : ValueType) : Prop :=
  type = .bool ∨ type = .string ∨ ∃ host, type = .object host

theorem null_or_ordered_or_unordered (type : ValueType) :
    type = .null ∨ type.Ordered ∨ type.Unordered := by
  cases type <;> simp [Ordered, Unordered]

theorem Unordered.ne_null {type : ValueType} (h : type.Unordered) : type ≠ .null := by
  rintro rfl
  simp [Unordered] at h

theorem Ordered.not_unordered {type : ValueType} (h : type.Ordered) :
    ¬type.Unordered := by
  rcases h with rfl | rfl <;> simp [Unordered]

end ValueType

namespace Value

variable {ω : Type} [HostObject ω]

/-- What comparisons see of a value. -/
inductive Content where
  | null
  | bool (value : Bool)
  | number (value : ℚ)
  | string (value : String)
  | timestamp (instant : ℤ)
  | object (type : HostType) (identity : Nat)
deriving DecidableEq

namespace Content

def type : Content → ValueType
  | null => .null
  | bool _ => .bool
  | number _ => .number
  | string _ => .string
  | timestamp _ => .timestamp
  | object type _ => .object type

/-- The place of a number or a timestamp in the order of its type. -/
def rank : Content → ℚ
  | number value => value
  | timestamp instant => instant
  | _ => 0

theorem eq_of_rank_eq {first second : Content} (htype : first.type = second.type)
    (hordered : first.type.Ordered) (hrank : first.rank = second.rank) :
    first = second := by
  cases first with
  | number value =>
      cases second with
      | number other => exact congrArg number hrank
      | _ => cases htype
  | timestamp instant =>
      cases second with
      | timestamp other => exact congrArg timestamp (Int.cast_injective hrank)
      | _ => cases htype
  | _ => rcases hordered with h | h <;> cases h

end Content

def content : Value ω → Content
  | null => .null
  | bool value => .bool value
  | number value => .number value.value
  | string value => .string value
  | timestamp value => .timestamp value.instant
  | object value => .object (HostObject.type value) (HostObject.identity value)

@[simp] theorem type_content (value : Value ω) : value.content.type = value.type := by
  cases value <;> rfl

@[simp] theorem content_null : (null : Value ω).content = .null := rfl

@[simp] theorem content_eq_null_iff {value : Value ω} : value.content = .null ↔ value = .null := by
  cases value <;> simp [content]

/-! The ways in which two values compare. -/

/-- Two values side by side: null is one of them, their types differ, or they are of one
type, with an order or without. -/
inductive Pair (left right : Value ω) : Prop
  | null (hnull : left = .null ∨ right = .null)
  | mixed (hleft : left ≠ .null) (hright : right ≠ .null)
      (htype : left.type ≠ right.type)
  | ordered (htype : left.type = right.type) (hordered : left.type.Ordered)
  | unordered (htype : left.type = right.type) (hunordered : left.type.Unordered)

theorem pair (left right : Value ω) : Pair left right := by
  by_cases hleft : left = .null
  · exact .null (.inl hleft)
  by_cases hright : right = .null
  · exact .null (.inr hright)
  by_cases htype : left.type = right.type
  · rcases left.type.null_or_ordered_or_unordered with hnull | hordered | hunordered
    · exact (hleft (eq_null_of_type_eq hnull)).elim
    · exact .ordered htype hordered
    · exact .unordered htype hunordered
  · exact .mixed hleft hright htype

variable {comparison : Comparison} {left right : Value ω}

theorem compare_null (hnull : left = .null ∨ right = .null) :
    compare comparison left right =
      .ok (compareNull comparison (decide (left.content = right.content))) := by
  rcases hnull with rfl | rfl
  · cases right <;> rfl
  · cases left <;> rfl

theorem compare_ordered (htype : left.type = right.type)
    (hordered : left.type.Ordered) :
    compare comparison left right =
      .ok (comparison.holds (Ord.compare left.content.rank right.content.rank)) := by
  cases left with
  | number first =>
      cases right with
      | number second => rw [compare, first.compare_eq_compare_value]; rfl
      | _ => cases htype
  | timestamp first =>
      cases right with
      | timestamp second =>
          rw [compare, first.compare_eq_compare_instant, ← cmp_eq_compare,
            ← Int.cast_strictMono.cmp_map_eq (β := ℚ), cmp_eq_compare]
          rfl
      | _ => cases htype
  | _ => rcases hordered with h | h <;> cases h

theorem compare_unordered (htype : left.type = right.type)
    (hunordered : left.type.Unordered) :
    compare comparison left right =
      compareEquality comparison left.type (decide (left.content = right.content)) := by
  cases left with
  | bool first =>
      cases right with
      | bool second => simp [compare, content, type, Bool.beq_eq_decide_eq]
      | _ => cases htype
  | string first =>
      cases right with
      | string second => simp [compare, content, type, beq_eq_decide]
      | _ => cases htype
  | object first =>
      cases right with
      | object second =>
          rw [compare, if_pos (ValueType.object.inj htype)]
          simp [content, type, HostObject.same]
      | _ => cases htype
  | _ => rcases hunordered with h | h | ⟨_, h⟩ <;> cases h

/-- Comparison tells values apart by their contents only. -/
theorem compare_congr {otherLeft otherRight : Value ω}
    (hleft : left.content = otherLeft.content)
    (hright : right.content = otherRight.content) :
    compare comparison left right = compare comparison otherLeft otherRight := by
  have hleftType : left.type = otherLeft.type := by
    rw [← type_content, hleft, type_content]
  have hrightType : right.type = otherRight.type := by
    rw [← type_content, hright, type_content]
  have hleftNull : left = .null ↔ otherLeft = .null := by
    rw [← content_eq_null_iff, hleft, content_eq_null_iff]
  have hrightNull : right = .null ↔ otherRight = .null := by
    rw [← content_eq_null_iff, hright, content_eq_null_iff]
  cases pair left right with
  | null hnull =>
      rw [compare_null hnull, compare_null (by rwa [← hleftNull, ← hrightNull]), hleft,
        hright]
  | mixed hleft hright htype =>
      rw [compare_of_type_ne hleft hright htype,
        compare_of_type_ne (mt hleftNull.mpr hleft) (mt hrightNull.mpr hright)
          (by rwa [← hleftType, ← hrightType]), hleftType, hrightType]
  | ordered htype hordered =>
      rw [hleftType] at hordered
      rw [compare_ordered htype (hleftType ▸ hordered),
        compare_ordered (by rwa [← hleftType, ← hrightType]) hordered, hleft, hright]
  | unordered htype hunordered =>
      rw [compare_unordered htype hunordered,
        compare_unordered (by rwa [← hleftType, ← hrightType]) (hleftType ▸ hunordered),
        hleft, hright, hleftType]

theorem compare_eq_eq_true_iff :
    compare .eq left right = .ok true ↔ left.content = right.content := by
  cases pair left right with
  | null hnull => simp [compare_null hnull, compareNull]
  | mixed hleft hright htype =>
      rw [compare_of_type_ne hleft hright htype]
      refine ⟨nofun, fun h => (htype ?_).elim⟩
      rw [← type_content, h, type_content]
  | ordered htype hordered =>
      rw [compare_ordered htype hordered, Except.ok.injEq, Comparison.holds_compare_iff]
      rw [← type_content, ← type_content] at htype
      rw [← type_content] at hordered
      exact ⟨Content.eq_of_rank_eq htype hordered, congrArg Content.rank⟩
  | unordered htype hunordered =>
      simp [compare_unordered htype hunordered, compareEquality]

theorem compare_lt_eq_true_iff :
    compare .lt left right = .ok true ↔
      left.type = right.type ∧ left.type.Ordered ∧
        left.content.rank < right.content.rank := by
  cases pair left right with
  | null hnull =>
      rw [compare_null hnull]
      refine ⟨nofun, fun ⟨htype, hordered, _⟩ => ?_⟩
      have hleft : left.type = .null := by
        rcases hnull with rfl | rfl
        · rfl
        · exact htype
      rw [hleft] at hordered
      exact hordered.elim nofun nofun
  | mixed hleft hright htype =>
      rw [compare_of_type_ne hleft hright htype]
      exact ⟨nofun, fun h => (htype h.1).elim⟩
  | ordered htype hordered =>
      rw [compare_ordered htype hordered, Except.ok.injEq, Comparison.holds_compare_iff]
      exact ⟨fun h => ⟨htype, hordered, h⟩, fun h => h.2.2⟩
  | unordered htype hunordered =>
      rw [compare_unordered htype hunordered]
      exact ⟨nofun, fun h => (h.2.1.not_unordered hunordered).elim⟩

theorem compareEquality_eq_unordered_iff {failed : Comparison} {found type : ValueType}
    {equal : Bool} :
    compareEquality comparison found equal = .error (.unordered failed type) ↔
      failed = comparison ∧ comparison.isOrdering = true ∧ found = type := by
  cases comparison <;> simp [compareEquality, Comparison.isOrdering, eq_comm]

theorem compareEquality_ne_typeMismatch {failed : Comparison}
    {type leftType rightType : ValueType} {equal : Bool} :
    compareEquality comparison type equal ≠
      .error (.typeMismatch failed leftType rightType) := by
  cases comparison <;> nofun

theorem compare_mirrored (comparison : Comparison) (left right : Value ω) :
    compare comparison.mirrored right left =
      (compare comparison left right).mapError EvalError.mirrored := by
  have hcomm : decide (right.content = left.content) =
      decide (left.content = right.content) := decide_eq_decide.mpr eq_comm
  cases pair left right with
  | null hnull =>
      rw [compare_null hnull, compare_null hnull.symm, hcomm]
      cases comparison <;> rfl
  | mixed hleft hright htype =>
      rw [compare_of_type_ne hleft hright htype,
        compare_of_type_ne hright hleft (Ne.symm htype)]
      rfl
  | ordered htype hordered =>
      rw [compare_ordered htype hordered,
        compare_ordered htype.symm (htype ▸ hordered), ← cmp_eq_compare,
        ← cmp_eq_compare, ← cmp_swap, Comparison.holds_mirrored_swap]
      rfl
  | unordered htype hunordered =>
      rw [compare_unordered htype hunordered,
        compare_unordered htype.symm (htype ▸ hunordered), ← htype, hcomm]
      cases comparison <;> rfl

theorem exists_compare_eq_iff :
    (∃ holds, compare .eq left right = .ok holds) ↔
      left.type = right.type ∨ left = .null ∨ right = .null := by
  cases pair left right with
  | null hnull => simp [compare_null hnull, hnull]
  | mixed hleft hright htype =>
      simp [compare_of_type_ne hleft hright htype, hleft, hright, htype]
  | ordered htype hordered => simp [compare_ordered htype hordered, htype]
  | unordered htype hunordered =>
      simp [compare_unordered htype hunordered, compareEquality, htype]

theorem compare_ne_eq_ok_iff {holds : Bool} :
    compare .ne left right = .ok holds ↔ compare .eq left right = .ok !holds := by
  cases pair left right with
  | null hnull =>
      simp only [compare_null hnull, compareNull, Except.ok.injEq]
      exact Bool.not_eq_eq_eq_not
  | mixed hleft hright htype => simp [compare_of_type_ne hleft hright htype]
  | ordered htype hordered =>
      simp only [compare_ordered htype hordered, Comparison.holds, Except.ok.injEq,
        ne_eq, decide_not]
      exact Bool.not_eq_eq_eq_not
  | unordered htype hunordered =>
      simp only [compare_unordered htype hunordered, compareEquality, Except.ok.injEq]
      exact Bool.not_eq_eq_eq_not

theorem compare_eq_unordered_iff {failed : Comparison} {type : ValueType} :
    compare comparison left right = .error (.unordered failed type) ↔
      failed = comparison ∧ comparison.isOrdering = true ∧
        left.type = type ∧ right.type = type ∧ type.Unordered := by
  cases pair left right with
  | null hnull =>
      rw [compare_null hnull]
      refine ⟨nofun, fun ⟨_, _, hleft, hright, hunordered⟩ => ?_⟩
      rcases hnull with rfl | rfl
      · exact (hunordered.ne_null hleft.symm).elim
      · exact (hunordered.ne_null hright.symm).elim
  | mixed hleft hright htype =>
      rw [compare_of_type_ne hleft hright htype]
      exact ⟨nofun, fun h => (htype (h.2.2.1.trans h.2.2.2.1.symm)).elim⟩
  | ordered htype hordered =>
      rw [compare_ordered htype hordered]
      refine ⟨nofun, fun h => (hordered.not_unordered ?_).elim⟩
      rw [h.2.2.1]
      exact h.2.2.2.2
  | unordered htype hunordered =>
      rw [compare_unordered htype hunordered, compareEquality_eq_unordered_iff]
      constructor
      · rintro ⟨hfailed, hordering, rfl⟩
        exact ⟨hfailed, hordering, rfl, htype.symm, hunordered⟩
      · exact fun h => ⟨h.1, h.2.1, h.2.2.1⟩

theorem compare_eq_typeMismatch_iff {failed : Comparison}
    {leftType rightType : ValueType} :
    compare comparison left right = .error (.typeMismatch failed leftType rightType) ↔
      failed = comparison ∧ leftType = left.type ∧ rightType = right.type ∧
        left ≠ .null ∧ right ≠ .null ∧ left.type ≠ right.type := by
  cases pair left right with
  | null hnull =>
      rw [compare_null hnull]
      exact ⟨nofun, fun h => (hnull.elim h.2.2.2.1 h.2.2.2.2.1).elim⟩
  | mixed hleft hright htype =>
      rw [compare_of_type_ne hleft hright htype]
      simp [hleft, hright, htype, eq_comm]
  | ordered htype hordered =>
      rw [compare_ordered htype hordered]
      exact ⟨nofun, fun h => (h.2.2.2.2.2 htype).elim⟩
  | unordered htype hunordered =>
      rw [compare_unordered htype hunordered]
      exact ⟨fun h => (compareEquality_ne_typeMismatch h).elim,
        fun h => (h.2.2.2.2.2 htype).elim⟩

/-- The laws of comparison. An equation holds of the errors as well. -/
structure ComparisonLaws (ω : Type) [HostObject ω] : Prop where
  /-- With the operands swapped only the order in which an error names them changes. -/
  mirrored (comparison : Comparison) (left right : Value ω) :
    compare comparison.mirrored right left =
      (compare comparison left right).mapError EvalError.mirrored
  eq_defined (left right : Value ω) :
    (∃ holds, compare .eq left right = .ok holds) ↔
      left.type = right.type ∨ left = .null ∨ right = .null
  eq_refl (value : Value ω) : compare .eq value value = .ok true
  eq_symm (left right : Value ω) (holds : Bool) :
    compare .eq left right = .ok holds → compare .eq right left = .ok holds
  eq_trans (first second third : Value ω) :
    compare .eq first second = .ok true → compare .eq second third = .ok true →
      compare .eq first third = .ok true
  ne (left right : Value ω) (holds : Bool) :
    compare .ne left right = .ok holds ↔ compare .eq left right = .ok !holds
  number (comparison : Comparison) (first second : Decimal) :
    ∃ holds, compare comparison (number first) (number second : Value ω) = .ok holds ∧
      (holds = true ↔ comparison.Between first.value second.value)
  timestamp (comparison : Comparison) (first second : Timestamp) :
    ∃ holds,
      compare comparison (timestamp first) (timestamp second : Value ω) = .ok holds ∧
        (holds = true ↔ comparison.Between first.instant second.instant)
  /-- Exactly one of the three holds. -/
  trichotomy (left right : Value ω) : left.type = right.type → left.type.Ordered →
    ∃ held ∈ [Comparison.lt, .eq, .gt], ∀ comparison ∈ [Comparison.lt, .eq, .gt],
      compare comparison left right = .ok (decide (comparison = held))
  le (left right : Value ω) : left.type = right.type → left.type.Ordered →
    compare .le left right = (compare .gt left right).map (!·)
  ge (left right : Value ω) : left.type = right.type → left.type.Ordered →
    compare .ge left right = (compare .lt left right).map (!·)
  lt_trans (first second third : Value ω) :
    compare .lt first second = .ok true → compare .lt second third = .ok true →
      compare .lt first third = .ok true
  /-- No comparison tells equal values apart. -/
  eq_congr (comparison : Comparison) (left otherLeft right otherRight : Value ω) :
    compare .eq left otherLeft = .ok true → compare .eq right otherRight = .ok true →
      compare comparison left right = compare comparison otherLeft otherRight
  null (comparison : Comparison) (left right : Value ω) :
    left = .null ∨ right = .null →
      ∃ holds, compare comparison left right = .ok holds ∧
        (comparison.isOrdering = true → holds = false) ∧
        (comparison = .eq → (holds = true ↔ left = .null ∧ right = .null))
  unordered (comparison failed : Comparison) (left right : Value ω) (type : ValueType) :
    compare comparison left right = .error (.unordered failed type) ↔
      failed = comparison ∧ comparison.isOrdering = true ∧
        left.type = type ∧ right.type = type ∧ type.Unordered
  typeMismatch (comparison failed : Comparison) (left right : Value ω)
      (leftType rightType : ValueType) :
    compare comparison left right = .error (.typeMismatch failed leftType rightType) ↔
      failed = comparison ∧ leftType = left.type ∧ rightType = right.type ∧
        left ≠ .null ∧ right ≠ .null ∧ left.type ≠ right.type

theorem comparisonLaws (ω : Type) [HostObject ω] : ComparisonLaws ω where
  mirrored := compare_mirrored
  eq_defined _ _ := exists_compare_eq_iff
  eq_refl value := compare_eq_eq_true_iff.mpr rfl
  eq_symm left right holds h := by
    have hmirrored := compare_mirrored .eq left right
    rw [h] at hmirrored
    exact hmirrored
  eq_trans first second third hfirst hsecond := by
    rw [compare_eq_eq_true_iff] at hfirst hsecond ⊢
    exact hfirst.trans hsecond
  ne _ _ _ := compare_ne_eq_ok_iff
  number comparison first second := by
    refine ⟨comparison.holds (first.compare second), rfl, ?_⟩
    rw [first.compare_eq_compare_value, Comparison.holds_compare_iff]
  timestamp comparison first second := by
    refine ⟨comparison.holds (first.compare second), rfl, ?_⟩
    rw [first.compare_eq_compare_instant, Comparison.holds_compare_iff]
  trichotomy left right htype hordered := by
    simp only [compare_ordered htype hordered, Except.ok.injEq]
    generalize Ord.compare left.content.rank right.content.rank = ordering
    cases ordering <;> decide
  le left right htype hordered := by
    simp [compare_ordered htype hordered, Comparison.holds, Except.map]
  ge left right htype hordered := by
    simp [compare_ordered htype hordered, Comparison.holds, Except.map]
  lt_trans first second third hfirst hsecond := by
    rw [compare_lt_eq_true_iff] at hfirst hsecond ⊢
    obtain ⟨htype, hordered, hlt⟩ := hfirst
    exact ⟨htype.trans hsecond.1, hordered, hlt.trans hsecond.2.2⟩
  eq_congr comparison left otherLeft right otherRight hleft hright :=
    compare_congr (compare_eq_eq_true_iff.mp hleft) (compare_eq_eq_true_iff.mp hright)
  null comparison left right hnull := by
    refine ⟨_, compare_null hnull, fun hordering => ?_, ?_⟩
    · cases comparison <;> first | rfl | cases hordering
    · rintro rfl
      rw [compareNull, decide_eq_true_iff]
      rcases hnull with rfl | rfl
      · simp [@eq_comm _ Content.null]
      · simp
  unordered _ _ _ _ _ := compare_eq_unordered_iff
  typeMismatch _ _ _ _ _ _ := compare_eq_typeMismatch_iff

/-- A customer and an order cannot be compared, not even for equality. -/
theorem comparisonLaws_sample :
    compare .eq (.object (Sample.Item.customer "Ann"))
        (.object (.order true none)) =
      .error (.typeMismatch .eq (.object Sample.customerType)
        (.object Sample.orderType)) :=
  ((comparisonLaws Sample.Item).typeMismatch .eq .eq _ _ _ _).mpr
    ⟨rfl, rfl, rfl, nofun, nofun, by decide⟩

end Value

end Sift
