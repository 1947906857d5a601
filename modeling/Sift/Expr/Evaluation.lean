import Sift.Expr

namespace Sift

/-! The value of an expression on an object of the host. -/

inductive EvalError where
  | nullReference (member : String)
  | notAnObject (member : String) (found : ValueType)
  | typeMismatch (comparison : Comparison) (left right : ValueType)
  | unordered (comparison : Comparison) (operand : ValueType)
  | notBoolean (found : ValueType)
deriving DecidableEq

def EvalError.message : EvalError → String
  | nullReference member => "cannot read member '" ++ member ++ "' of a null value"
  | notAnObject member found =>
      "cannot read member '" ++ member ++ "' of a " ++ found.text ++ " value"
  | typeMismatch comparison left right =>
      "operator '" ++ comparison.text ++ "' cannot compare " ++ left.text ++
        " with " ++ right.text
  | unordered comparison operand =>
      "operator '" ++ comparison.text ++ "' is not defined for " ++ operand.text
  | notBoolean found => "expected a boolean, found " ++ found.text

variable {ω : Type} [HostObject ω]

namespace Value

/-- Null counts as false. -/
def truth : Value ω → Except EvalError Bool
  | bool value => .ok value
  | null => .ok false
  | value => .error (.notBoolean value.type)

/-- Two nulls are equal, no value equals null and none is ordered with it. -/
def compareNull (comparison : Comparison) (bothNull : Bool) : Bool :=
  match comparison with
  | .eq => bothNull
  | .ne => !bothNull
  | _ => false

def compareEquality (comparison : Comparison) (type : ValueType) (equal : Bool) :
    Except EvalError Bool :=
  match comparison with
  | .eq => .ok equal
  | .ne => .ok !equal
  | _ => .error (.unordered comparison type)

def compare (comparison : Comparison) (left right : Value ω) :
    Except EvalError Bool :=
  match left, right with
  | null, right => .ok (compareNull comparison right.isNull)
  | _, null => .ok (compareNull comparison false)
  | number left, number right => .ok (comparison.holds (left.compare right))
  | timestamp left, timestamp right => .ok (comparison.holds (left.compare right))
  | bool left, bool right => compareEquality comparison .bool (left == right)
  | string left, string right => compareEquality comparison .string (left == right)
  | object first, object second =>
      if HostObject.type first = HostObject.type second then
        compareEquality comparison (.object (HostObject.type first))
          (HostObject.same first second)
      else .error (.typeMismatch comparison left.type right.type)
  | left, right => .error (.typeMismatch comparison left.type right.type)

end Value

/-- How far a chain of members has led: to a value, or to its end at a null. -/
inductive Chain (ω : Type) where
  | value (result : Value ω)
  | ended

namespace Chain

def toValue : Chain ω → Value ω
  | .value result => result
  | .ended => .null

def step (chain : Chain ω) (member : Member ω) (nullSafe : Bool) :
    Except EvalError (Chain ω) :=
  match chain with
  | .ended => .ok .ended
  | .value (.object object) =>
      if HostObject.type object = member.owner then
        .ok (.value (member.read object))
      else
        .error (.notAnObject member.name (.object (HostObject.type object)))
  | .value .null =>
      if nullSafe then .ok .ended else .error (.nullReference member.name)
  | .value other => .error (.notAnObject member.name other.type)

end Chain

namespace Expr

/-- The chain that ends with the expression, with the object it is applied to. Only a
member is part of a longer chain. -/
def follow (object : ω) : Expr ω → Except EvalError (Chain ω)
  | literal value => .ok (.value value.value)
  | root _ => .ok (.value (.object object))
  | member base read nullSafe => do
      let chain ← base.follow object
      chain.step read nullSafe
  | compare comparison left right => do
      let left ← left.follow object
      let right ← right.follow object
      let holds ← Value.compare comparison left.toValue right.toValue
      return .value (.bool holds)
  | connect connective left right => do
      let left ← left.follow object
      let decided ← left.toValue.truth
      match connective, decided with
      | .and, false => return .value (.bool false)
      | .or, true => return .value (.bool true)
      | _, _ => do
          let right ← right.follow object
          let holds ← right.toValue.truth
          return .value (.bool holds)
  | not operand => do
      let operand ← operand.follow object
      let holds ← operand.toValue.truth
      return .value (.bool !holds)

def evaluate (expr : Expr ω) (object : ω) : Except EvalError (Value ω) :=
  (expr.follow object).map Chain.toValue

end Expr

end Sift
