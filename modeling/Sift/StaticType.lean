namespace Sift

/-! The types of values. Scalar types are fixed; object types belong to the host. -/

/-- The identifier tells host types of the same name apart. -/
structure HostType where
  identifier : Nat
  name : String
deriving DecidableEq

inductive ValueType where
  | bool
  | number
  | string
  | timestamp
  | object (type : HostType)
  /-- The type of a bare `null`. -/
  | null
deriving DecidableEq

def ValueType.text : ValueType → String
  | .bool => "Bool"
  | .number => "Number"
  | .string => "String"
  | .timestamp => "Timestamp"
  | .object type => type.name
  | .null => "Null"

structure StaticType where
  value : ValueType
  nullable : Bool
deriving DecidableEq

namespace StaticType

def of (value : ValueType) : StaticType :=
  ⟨value, false⟩

def null : StaticType :=
  ⟨.null, true⟩

def bool : StaticType :=
  of .bool

def toNullable (type : StaticType) : StaticType :=
  { type with nullable := true }

/-- Strings and objects may be compared with null whether nullable or not. -/
def acceptsNull (type : StaticType) : Bool :=
  type.nullable ||
    match type.value with
    | .string | .object _ | .null => true
    | .bool | .number | .timestamp => false

def object? (type : StaticType) : Option HostType :=
  match type.value with
  | .object host => some host
  | _ => none

def text (type : StaticType) : String :=
  if type.nullable ∧ type.value ≠ .null then type.value.text ++ "?"
  else type.value.text

end StaticType

end Sift
