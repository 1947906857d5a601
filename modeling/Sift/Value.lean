import Sift.Decimal
import Sift.StaticType
import Sift.Timestamp

namespace Sift

/-! Values of filter expressions over the objects of a host. -/

/-- What a host tells about its objects: their type, and an identity that no two
objects of one type share. -/
class HostObject (ω : Type) where
  type : ω → HostType
  identity : ω → Nat

namespace HostObject

variable {ω : Type} [HostObject ω]

def same (first second : ω) : Bool :=
  type first = type second && identity first = identity second

end HostObject

inductive Value (ω : Type) where
  | null
  | bool (value : Bool)
  | number (value : Decimal)
  | string (value : String)
  | timestamp (value : Timestamp)
  | object (value : ω)

namespace Value

variable {ω : Type} [HostObject ω]

def type : Value ω → ValueType
  | null => .null
  | bool _ => .bool
  | number _ => .number
  | string _ => .string
  | timestamp _ => .timestamp
  | object value => .object (HostObject.type value)

def isNull : Value ω → Bool
  | null => true
  | _ => false

end Value

end Sift
