namespace Sift

/-! What a whitelist file asks for. -/

inductive Selection where
  | all
  | members (names : List String)
deriving DecidableEq

structure Whitelist where
  entries : List (String × Selection)
  /-- A type name is given one selection. -/
  nodup_names : (entries.map Prod.fst).Nodup

namespace Whitelist

def empty : Whitelist :=
  ⟨[], List.nodup_nil⟩

def insert (whitelist : Whitelist) (name : String) (selection : Selection) :
    Whitelist where
  entries :=
    whitelist.entries.filter (fun entry => entry.1 ≠ name) ++ [(name, selection)]
  nodup_names := by
    rw [List.map_append, List.nodup_append]
    refine ⟨whitelist.nodup_names.sublist (List.filter_sublist.map _), by simp, ?_⟩
    simp only [List.mem_map, List.mem_filter, List.map_cons, List.map_nil,
      List.mem_singleton, decide_eq_true_eq]
    rintro found ⟨entry, ⟨_, hentry⟩, rfl⟩ other rfl
    exact hentry

def ofList (entries : List (String × Selection)) : Whitelist :=
  entries.foldl (fun whitelist entry => whitelist.insert entry.1 entry.2) empty

def sorted (whitelist : Whitelist) : List (String × Selection) :=
  whitelist.entries.mergeSort fun first second => first.1 ≤ second.1

end Whitelist

end Sift
