import Sift.Expr.Evaluation
import Sift.Proofs.Outcome

namespace Sift

/-! The value of an expression in terms of the values of its operands. -/

/-- The left operand alone gives the value of the connection. -/
def Connective.decides : Connective → Bool → Bool
  | and, holds => !holds
  | or, holds => holds

namespace Expr

variable {ω : Type} [HostObject ω] (object : ω)

@[simp] theorem evaluate_literal (value : Literal) :
    (literal value : Expr ω).evaluate object = .ok value.value := rfl

@[simp] theorem evaluate_root (host : HostType) :
    (root host).evaluate object = .ok (.object object) := rfl

theorem evaluate_eq_ok {expr : Expr ω} {value : Value ω} :
    expr.evaluate object = .ok value ↔
      ∃ chain, expr.follow object = .ok chain ∧ chain.toValue = value := by
  unfold evaluate
  cases expr.follow object with
  | error fault => simp [Except.map]
  | ok chain => simp [Except.map]

theorem evaluate_eq_error {expr : Expr ω} {error : EvalError} :
    expr.evaluate object = .error error ↔ expr.follow object = .error error := by
  unfold evaluate
  cases expr.follow object with
  | error fault => simp [Except.map]
  | ok chain => simp [Except.map]

theorem follow_member_of_ok {base : Expr ω} {read : Member ω} {nullSafe : Bool}
    {chain : Chain ω} (hbase : base.follow object = .ok chain) :
    (member base read nullSafe).follow object = chain.step read nullSafe := by
  rw [follow, hbase]
  rfl

theorem follow_member_of_error {base : Expr ω} {read : Member ω} {nullSafe : Bool}
    {error : EvalError} (hbase : base.follow object = .error error) :
    (member base read nullSafe).follow object = .error error := by
  rw [follow, hbase]
  rfl

theorem evaluate_compare (comparison : Comparison) (left right : Expr ω) :
    (compare comparison left right).evaluate object = (do
      let left ← left.evaluate object
      let right ← right.evaluate object
      let holds ← Value.compare comparison left right
      return .bool holds) := by
  simp only [evaluate, follow]
  cases left.follow object with
  | error fault => rfl
  | ok left =>
      cases right.follow object with
      | error fault => rfl
      | ok right =>
          simp only [bind, Except.bind, Except.map]
          cases Value.compare comparison left.toValue right.toValue <;> rfl

theorem evaluate_connect (connective : Connective) (left right : Expr ω) :
    (connect connective left right).evaluate object = (do
      let left ← left.evaluate object
      let decided ← left.truth
      if connective.decides decided then return .bool decided
      else
        let right ← right.evaluate object
        let holds ← right.truth
        return .bool holds) := by
  simp only [evaluate, follow]
  cases left.follow object with
  | error fault => rfl
  | ok left =>
      simp only [bind, Except.bind, Except.map]
      cases left.toValue.truth with
      | error fault => rfl
      | ok decided =>
          cases right.follow object with
          | error fault => cases connective <;> cases decided <;> rfl
          | ok right =>
              simp only
              cases right.toValue.truth <;> cases connective <;> cases decided <;> rfl

theorem evaluate_not (operand : Expr ω) :
    (not operand).evaluate object = (do
      let operand ← operand.evaluate object
      let holds ← operand.truth
      return .bool !holds) := by
  simp only [evaluate, follow]
  cases operand.follow object with
  | error fault => rfl
  | ok operand =>
      simp only [bind, Except.bind, Except.map]
      cases operand.toValue.truth <;> rfl

end Expr

end Sift
