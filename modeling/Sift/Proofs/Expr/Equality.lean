import Sift.Proofs.Expr.Typed

namespace Sift

/-! Equality of expressions, case by case. -/

variable {ω : Type}

theorem Literal.beq_self (value : Literal) : (value == value) = true := by
  cases value with
  | bool value => exact beq_self_eq_true value
  | string value => exact beq_self_eq_true value
  | null type => exact beq_self_eq_true type
  | number value =>
      change value.sameValue value = true
      simp [Decimal.sameValue, Decimal.compare]
  | timestamp value =>
      change value.sameInstant value = true
      simp [Timestamp.sameInstant, Timestamp.compare]

theorem Member.beq_iff {first second : Member ω} :
    (first == second) = true ↔
      first.owner = second.owner ∧ first.name = second.name ∧
        first.type = second.type := by
  change (first.owner == second.owner && first.name == second.name &&
    first.type == second.type) = true ↔ _
  simp [and_assoc]

theorem Member.beq_self (read : Member ω) : (read == read) = true :=
  Member.beq_iff.mpr ⟨rfl, rfl, rfl⟩

namespace Expr

inductive Same : Expr ω → Expr ω → Prop
  | literal {first second : Literal} (h : (first == second) = true) :
      Same (.literal first) (.literal second)
  | root (type : HostType) : Same (.root type) (.root type)
  | member {firstBase secondBase : Expr ω} {first second : Member ω} (nullSafe : Bool)
      (hbase : Same firstBase secondBase) (h : (first == second) = true) :
      Same (.member firstBase first nullSafe) (.member secondBase second nullSafe)
  | compare {firstLeft firstRight secondLeft secondRight : Expr ω}
      (comparison : Comparison) (hleft : Same firstLeft secondLeft)
      (hright : Same firstRight secondRight) :
      Same (.compare comparison firstLeft firstRight)
        (.compare comparison secondLeft secondRight)
  | connect {firstLeft firstRight secondLeft secondRight : Expr ω}
      (connective : Connective) (hleft : Same firstLeft secondLeft)
      (hright : Same firstRight secondRight) :
      Same (.connect connective firstLeft firstRight)
        (.connect connective secondLeft secondRight)
  | not {first second : Expr ω} (h : Same first second) : Same (.not first) (.not second)

theorem Same.refl (expr : Expr ω) : Same expr expr := by
  induction expr with
  | literal value => exact .literal value.beq_self
  | root type => exact .root type
  | member base read nullSafe ih => exact .member nullSafe ih read.beq_self
  | compare comparison left right ihleft ihright => exact .compare comparison ihleft ihright
  | connect connective left right ihleft ihright => exact .connect connective ihleft ihright
  | not operand ih => exact .not ih

variable [HostObject ω]

theorem beq_iff {first second : Expr ω} : (first == second) = true ↔ Same first second := by
  change first.same second = true ↔ _
  constructor
  · intro h
    fun_induction Expr.same first second with
    | case1 first second => exact .literal h
    | case2 first second =>
        obtain rfl := of_decide_eq_true h
        exact .root first
    | case3 firstBase first firstSafe secondBase second secondSafe ih =>
        simp only [Bool.and_eq_true, beq_iff_eq] at h
        obtain ⟨⟨hbase, hread⟩, rfl⟩ := h
        exact .member firstSafe (ih hbase) hread
    | case4 first firstLeft firstRight second secondLeft secondRight ihleft ihright =>
        simp only [Bool.and_eq_true, decide_eq_true_eq] at h
        obtain ⟨⟨rfl, hleft⟩, hright⟩ := h
        exact .compare first (ihleft hleft) (ihright hright)
    | case5 first firstLeft firstRight second secondLeft secondRight ihleft ihright =>
        simp only [Bool.and_eq_true, decide_eq_true_eq] at h
        obtain ⟨⟨rfl, hleft⟩, hright⟩ := h
        exact .connect first (ihleft hleft) (ihright hright)
    | case6 first second ih => exact .not (ih h)
    | case7 => cases h
  · intro h
    induction h with
    | literal h => exact h
    | root type => exact decide_eq_true rfl
    | member nullSafe hbase h ih => simp [same, ih, h]
    | compare comparison hleft hright ihleft ihright => simp [same, ihleft, ihright]
    | connect connective hleft hright ihleft ihright => simp [same, ihleft, ihright]
    | not h ih => exact ih

theorem beq_self (expr : Expr ω) : (expr == expr) = true :=
  beq_iff.mpr (.refl expr)

theorem length_accesses_of_beq {first second : Expr ω} (h : (first == second) = true) :
    first.accesses.length = second.accesses.length := by
  have hsame := beq_iff.mp h
  clear h
  induction hsame with
  | literal | root => rfl
  | member nullSafe hbase h ih =>
      simp only [accesses, List.length_append, ih]
      rfl
  | compare comparison hleft hright ihleft ihright
  | connect connective hleft hright ihleft ihright =>
      simp only [accesses, List.length_append, ihleft, ihright]
  | not h ih => exact ih

end Expr

end Sift
