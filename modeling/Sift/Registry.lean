import Sift.Member

namespace Sift

/-! The whitelist: the members that filters may read, and no others. -/

/-- Where a member is registered: its owner and its name without regard to case. -/
def Member.slot {ω : Type} (member : Member ω) : HostType × String :=
  (member.owner, Text.fold member.name)

structure Registry (ω : Type) where
  entries : List (Member ω)
  /-- A slot holds one member. -/
  nodup_slots : (entries.map Member.slot).Nodup

namespace Registry

variable {ω : Type}

def empty : Registry ω :=
  ⟨[], List.nodup_nil⟩

def register (registry : Registry ω) (member : Member ω) : Registry ω where
  entries :=
    registry.entries.filter (fun entry => entry.slot ≠ member.slot) ++ [member]
  nodup_slots := by
    rw [List.map_append, List.nodup_append]
    refine ⟨registry.nodup_slots.sublist (List.filter_sublist.map _), by simp, ?_⟩
    simp only [List.mem_map, List.mem_filter, List.map_cons, List.map_nil,
      List.mem_singleton, decide_eq_true_eq]
    rintro slot ⟨entry, ⟨_, hentry⟩, rfl⟩ other rfl
    exact hentry

def registerAll (registry : Registry ω) (members : List (Member ω)) : Registry ω :=
  members.foldl register registry

def lookup? (registry : Registry ω) (owner : HostType) (name : String) :
    Option (Member ω) :=
  registry.entries.find? fun entry => entry.slot = (owner, Text.fold name)

theorem mem_register {registry : Registry ω} {member entry : Member ω} :
    entry ∈ (registry.register member).entries ↔
      (entry ∈ registry.entries ∧ entry.slot ≠ member.slot) ∨ entry = member := by
  simp [register]

theorem mem_of_mem_registerAll {registry : Registry ω} {members : List (Member ω)}
    {member : Member ω} (h : member ∈ (registry.registerAll members).entries) :
    member ∈ registry.entries ∨ member ∈ members := by
  induction members generalizing registry with
  | nil => exact .inl h
  | cons first members ih =>
      rcases ih h with hentry | hmember
      · rcases mem_register.mp hentry with ⟨hentry, -⟩ | rfl
        · exact .inl hentry
        · exact .inr List.mem_cons_self
      · exact .inr (List.mem_cons_of_mem _ hmember)

theorem mem_of_lookup? {registry : Registry ω} {owner : HostType} {name : String}
    {member : Member ω} (h : registry.lookup? owner name = some member) :
    member ∈ registry.entries :=
  List.mem_of_find?_eq_some h

theorem slot_of_lookup? {registry : Registry ω} {owner : HostType} {name : String}
    {member : Member ω} (h : registry.lookup? owner name = some member) :
    member.slot = (owner, Text.fold name) := by
  simpa using List.find?_some h

theorem owner_of_lookup? {registry : Registry ω} {owner : HostType} {name : String}
    {member : Member ω} (h : registry.lookup? owner name = some member) :
    member.owner = owner :=
  congrArg Prod.fst (slot_of_lookup? h)

/-- The last member registered in a slot is the one found there. -/
theorem lookup?_register (registry : Registry ω) (member : Member ω)
    (owner : HostType) (name : String) :
    (registry.register member).lookup? owner name =
      if member.slot = (owner, Text.fold name) then some member
      else registry.lookup? owner name := by
  simp only [lookup?, register, List.find?_append, List.find?_filter]
  split
  · rename_i hslot
    rw [List.find?_eq_none.mpr]
    · simp [hslot]
    · simp [hslot]
  · rename_i hslot
    simp only [List.find?_singleton, hslot, decide_false, Bool.false_eq_true, if_false,
      Option.or_none]
    congr 1
    funext entry
    by_cases hentry : entry.slot = (owner, Text.fold name)
    · simp [hentry, Ne.symm hslot]
    · simp [hentry]

def members (registry : Registry ω) (owner : HostType) : List (Member ω) :=
  registry.entries.filter fun entry => entry.owner = owner

theorem mem_members_of_lookup? {registry : Registry ω} {owner : HostType} {name : String}
    {member : Member ω} (h : registry.lookup? owner name = some member) :
    member ∈ registry.members owner :=
  List.mem_filter.mpr ⟨mem_of_lookup? h, decide_eq_true (owner_of_lookup? h)⟩

def contains (registry : Registry ω) (owner : HostType) : Bool :=
  registry.entries.any fun entry => entry.owner = owner

def types (registry : Registry ω) : List HostType :=
  (registry.entries.map Member.owner).eraseDups

end Registry

end Sift
