import Sift.Text.Caseless
import Sift.Value

namespace Sift

/-! Members of host types: what a filter may read of an object. -/

structure Member (ω : Type) where
  name : String
  owner : HostType
  type : StaticType
  accessor : ω → Value ω

namespace Member

variable {ω : Type} [HostObject ω]

def read (member : Member ω) (object : ω) : Value ω :=
  if HostObject.type object = member.owner then member.accessor object else .null

theorem read_of_owner {member : Member ω} {object : ω}
    (h : HostObject.type object = member.owner) :
    member.read object = member.accessor object :=
  if_pos h

/-- How members are read is not looked at. -/
instance : BEq (Member ω) where
  beq first second :=
    first.owner == second.owner && first.name == second.name &&
      first.type == second.type

end Member

structure Record (ω : Type) where
  type : HostType
  members : List (Member ω)

def Record.find? {ω : Type} (record : Record ω) (name : String) :
    Option (Member ω) :=
  record.members.find? fun member => Text.SameName member.name name

end Sift
