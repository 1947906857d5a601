import Sift.Expr.Grammar

namespace Sift.Sample

/-! Orders and their customers, as a host may have them. -/

inductive Item where
  | customer (name : String)
  | order (urgent : Bool) (customer : Option String)

def customerType : HostType := ⟨0, "Customer"⟩

def orderType : HostType := ⟨1, "Order"⟩

instance : HostObject Item where
  type
    | .customer _ => customerType
    | .order .. => orderType
  identity _ := 0

def nameMember : Member Item where
  name := "Name"
  owner := customerType
  type := .of .string
  accessor
    | .customer name => .string name
    | .order .. => .null

def customerMember : Member Item where
  name := "Customer"
  owner := orderType
  type := ⟨.object customerType, true⟩
  accessor
    | .order _ (some name) => .object (.customer name)
    | _ => .null

def urgentMember : Member Item where
  name := "Urgent"
  owner := orderType
  type := .bool
  accessor
    | .order urgent _ => .bool urgent
    | .customer _ => .null

def orders : Registry Item :=
  Registry.empty.registerAll [nameMember, customerMember, urgentMember]

theorem mem_orders {member : Member Item} (h : member ∈ orders.entries) :
    member = nameMember ∨ member = customerMember ∨ member = urgentMember := by
  have hmem := (Registry.mem_of_mem_registerAll h).resolve_left List.not_mem_nil
  simpa only [List.mem_cons, List.not_mem_nil, or_false] using hmem

/-- The filter `(Customer?.Name = 'Ann' or !Urgent)`. -/
def filter : Expr Item :=
  .connect .or
    (.compare .eq
      (.member (.member (.root orderType) customerMember false) nameMember true)
      (.literal (.string "Ann")))
    (.not (.member (.root orderType) urgentMember false))

theorem parse_filter :
    orders.parse orderType "customer?.NAME = 'Ann' or !Urgent" = .ok filter := by
  have htokens : tokenize "customer?.NAME = 'Ann' or !Urgent" =
      [⟨.identifier, "customer", 0⟩, ⟨.operator, "?.", 8⟩, ⟨.identifier, "NAME", 10⟩,
        ⟨.blank, " ", 14⟩, ⟨.operator, "=", 15⟩, ⟨.blank, " ", 16⟩, ⟨.string, "'Ann'", 17⟩,
        ⟨.blank, " ", 22⟩, ⟨.operator, "or", 23⟩, ⟨.blank, " ", 25⟩, ⟨.operator, "!", 26⟩,
        ⟨.identifier, "Urgent", 27⟩, ⟨.finish, "", 33⟩] := by
    decide +kernel
  rw [Registry.parse, htokens]
  rfl

end Sift.Sample
