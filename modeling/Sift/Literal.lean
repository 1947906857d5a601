import Sift.Text.Quoted
import Sift.Value

namespace Sift

/-! Constants of a filter. -/

inductive Literal where
  | bool (value : Bool)
  | number (value : Decimal)
  | string (value : String)
  | timestamp (value : Timestamp)
  /-- `null`, standing for a missing value of the type. -/
  | null (type : StaticType)

namespace Literal

def type : Literal → StaticType
  | bool _ => .of .bool
  | number _ => .of .number
  | string _ => .of .string
  | timestamp _ => .of .timestamp
  | null type => type

def value {ω : Type} : Literal → Value ω
  | bool value => .bool value
  | number value => .number value
  | string value => .string value
  | timestamp value => .timestamp value
  | null _ => .null

/-- Numbers are equal by value and timestamps as instants. -/
instance : BEq Literal where
  beq
    | bool first, bool second => first == second
    | number first, number second => first.sameValue second
    | string first, string second => first == second
    | timestamp first, timestamp second => first.sameInstant second
    | null first, null second => first == second
    | _, _ => false

def written : Literal → List Char
  | bool value => (if value then "true" else "false").toList
  | number value => value.written
  | string value => Text.Quoted.encode value.toList
  | timestamp value => value.written
  | null _ => "null".toList

end Literal

end Sift
