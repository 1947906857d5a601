import Mathlib.Data.List.Induction
import Mathlib.Data.List.Nodup
import Sift.Proofs.Sample
import Sift.Proofs.Text.Order
import Sift.Registry.Builder

namespace Sift

/-! The steps of a configuration, read as a log of what they register and refuse. -/

variable {ω : Type}

inductive LogEntry (ω : Type) where
  | registered (member : Member ω)
  | refused (error : BuildError)

namespace LogEntry

def member? : LogEntry ω → Option (Member ω)
  | registered member => some member
  | refused _ => none

def error? : LogEntry ω → Option BuildError
  | registered _ => none
  | refused error => some error

end LogEntry

def registrations (log : List (LogEntry ω)) : List (Member ω) :=
  log.filterMap LogEntry.member?

def refusals (log : List (LogEntry ω)) : List BuildError :=
  log.filterMap LogEntry.error?

/-- The last registration of a member of the owner by that name. -/
def latest? (log : List (LogEntry ω)) (owner : HostType) (name : String) :
    Option (Member ω) :=
  (registrations log).reverse.find? fun member =>
    member.owner = owner ∧ Text.SameName member.name name

/-- The declared members of a name, in the order of their declaration. -/
def Record.named (record : Record ω) (name : String) : List (Member ω) :=
  record.members.filter fun member => Text.SameName member.name name

def Record.entry (record : Record ω) (name : String) : LogEntry ω :=
  match record.named name with
  | member :: _ => .registered member
  | [] => .refused (.unknownMember record.type.name name)

def Selection.log (record : Record ω) : Selection → List (LogEntry ω)
  | all => record.members.map .registered
  | members names => names.map record.entry

namespace BuildStep

def declaration? : BuildStep ω → Option (Record ω)
  | declare record => some record
  | _ => none

def entryLog (declared? : String → Option (Record ω)) (entry : String × Selection) :
    List (LogEntry ω) :=
  match declared? entry.1 with
  | none => [.refused (.unknownType entry.1)]
  | some record => entry.2.log record

def log (declared? : String → Option (Record ω)) : BuildStep ω → List (LogEntry ω)
  | declare _ => []
  | whitelist record name => [record.entry name]
  | whitelistAll record => record.members.map .registered
  | register member => [.registered member]
  | apply file => file.sorted.flatMap (entryLog declared?)

/-- The step names a member or a type that is unknown. -/
inductive Refuses (declared? : String → Option (Record ω)) :
    BuildStep ω → BuildError → Prop
  | member {record : Record ω} {name : String}
      (hunknown : ∀ member ∈ record.members, ¬ Text.SameName member.name name) :
      Refuses declared? (whitelist record name) (.unknownMember record.type.name name)
  | type {file : Whitelist} {type : String} {selection : Selection}
      (hentry : (type, selection) ∈ file.entries) (hdeclared : declared? type = none) :
      Refuses declared? (apply file) (.unknownType type)
  | listed {file : Whitelist} {type : String} {names : List String} {record : Record ω}
      {name : String}
      (hentry : (type, .members names) ∈ file.entries)
      (hdeclared : declared? type = some record) (hname : name ∈ names)
      (hunknown : ∀ member ∈ record.members, ¬ Text.SameName member.name name) :
      Refuses declared? (apply file) (.unknownMember record.type.name name)

end BuildStep

/-- The record that was last declared by a type name. -/
def declaredAfter? (steps : List (BuildStep ω)) (name : String) : Option (Record ω) :=
  (steps.filterMap BuildStep.declaration?).reverse.find? fun record =>
    Text.SameName record.type.name name

def logFrom (before : List (BuildStep ω)) : List (BuildStep ω) → List (LogEntry ω)
  | [] => []
  | step :: steps => step.log (declaredAfter? before) ++ logFrom (before ++ [step]) steps

def log (steps : List (BuildStep ω)) : List (LogEntry ω) :=
  logFrom [] steps

def NamesUnknown (steps : List (BuildStep ω)) : Prop :=
  ∃ before step after error, steps = before ++ step :: after ∧
    step.Refuses (declaredAfter? before) error

/-! A step adds its log to the builder. -/

@[simp] theorem registrations_append (first second : List (LogEntry ω)) :
    registrations (first ++ second) = registrations first ++ registrations second :=
  List.filterMap_append

@[simp] theorem refusals_append (first second : List (LogEntry ω)) :
    refusals (first ++ second) = refusals first ++ refusals second :=
  List.filterMap_append

@[simp] theorem registrations_registered (members : List (Member ω)) :
    registrations (members.map .registered) = members := by
  rw [registrations, List.filterMap_map]
  exact List.filterMap_some

@[simp] theorem refusals_registered (members : List (Member ω)) :
    refusals (members.map .registered) = [] := by
  rw [refusals, List.filterMap_map, List.filterMap_eq_nil_iff]
  intro member _
  rfl

/-- What is looked up in a record is the first of the members of that name. -/
theorem Record.find?_eq_head?_named (record : Record ω) (name : String) :
    record.find? name = (record.named name).head? :=
  List.head?_filter.symm

theorem Record.entry_eq (record : Record ω) (name : String) :
    record.entry name =
      match record.find? name with
      | some member => .registered member
      | none => .refused (.unknownMember record.type.name name) := by
  rw [entry, find?_eq_head?_named]
  cases record.named name <;> rfl

theorem registrations_entry (record : Record ω) (names : List String) :
    registrations (names.map record.entry) = names.filterMap record.find? := by
  rw [registrations, List.filterMap_map]
  congr 1
  funext name
  simp only [Function.comp, Record.entry_eq]
  split <;> simp [LogEntry.member?, *]

theorem refusals_entry (record : Record ω) (names : List String) :
    refusals (names.map record.entry) =
      (names.filter fun name => (record.find? name).isNone).map
        (.unknownMember record.type.name) := by
  induction names with
  | nil => rfl
  | cons name names ih =>
      have hcons : refusals (record.entry name :: names.map record.entry) =
          refusals [record.entry name] ++ refusals (names.map record.entry) :=
        refusals_append [_] _
      rw [List.map_cons, hcons, ih, Record.entry_eq, List.filter_cons]
      cases record.find? name <;> rfl

namespace Builder

def append (builder : Builder ω) (log : List (LogEntry ω)) : Builder ω :=
  { builder with
    registry := builder.registry.registerAll (registrations log)
    errors := builder.errors ++ refusals log }

theorem append_nil (builder : Builder ω) : builder.append [] = builder := by
  simp [append, registrations, refusals, Registry.registerAll]

theorem append_append (builder : Builder ω) (first second : List (LogEntry ω)) :
    (builder.append first).append second = builder.append (first ++ second) := by
  simp [append, Registry.registerAll]

theorem register_eq_append (builder : Builder ω) (member : Member ω) :
    builder.register member = builder.append [.registered member] := by
  simp [append, register, registrations, refusals, LogEntry.member?, LogEntry.error?,
    Registry.registerAll]

theorem fail_eq_append (builder : Builder ω) (error : BuildError) :
    builder.fail error = builder.append [.refused error] :=
  rfl

theorem registerAll_eq_append (builder : Builder ω) (members : List (Member ω)) :
    builder.registerAll members = builder.append (members.map .registered) := by
  simp [append, registerAll]

theorem whitelist_eq_append (builder : Builder ω) (record : Record ω) (name : String) :
    builder.whitelist record name = builder.append [record.entry name] := by
  rw [whitelist, record.entry_eq]
  cases record.find? name with
  | none => exact builder.fail_eq_append _
  | some member => exact builder.register_eq_append member

theorem foldl_fail (builder : Builder ω) (errors : List BuildError) :
    errors.foldl fail builder = { builder with errors := builder.errors ++ errors } := by
  induction errors generalizing builder with
  | nil => simp
  | cons error errors ih => simp [ih, fail]

theorem select_eq (record : Record ω) (selection : Selection) :
    select record selection =
      (registrations (selection.log record), refusals (selection.log record)) := by
  cases selection with
  | all => simp [select, Selection.log]
  | members names =>
      simp [select, Selection.log, registrations_entry, refusals_entry]

theorem applyEntry_eq_append (builder : Builder ω) (entry : String × Selection) :
    builder.applyEntry entry =
      builder.append (BuildStep.entryLog builder.declared? entry) := by
  unfold applyEntry BuildStep.entryLog
  cases builder.declared? entry.1 with
  | none => exact builder.fail_eq_append _
  | some record =>
      -- The errors come after the members here, but are kept apart from them.
      simp only [select_eq, foldl_fail]
      rfl

theorem foldl_applyEntry (builder : Builder ω) (entries : List (String × Selection)) :
    entries.foldl applyEntry builder =
      builder.append (entries.flatMap (BuildStep.entryLog builder.declared?)) := by
  induction entries generalizing builder with
  | nil => exact builder.append_nil.symm
  | cons entry entries ih =>
      -- An entry declares nothing, so the next one is looked up in the same records.
      rw [List.foldl_cons, ih, applyEntry_eq_append, append_append]
      rfl

/-- A step changes the registry and the errors as its log tells. -/
theorem step_eq (builder : Builder ω) (step : BuildStep ω) :
    builder.step step =
      { builder.append (step.log builder.declared?) with
        declared := (builder.step step).declared } := by
  cases step with
  | declare record => simp [Builder.step, declare, BuildStep.log, append_nil]
  | whitelist record name =>
      rw [Builder.step, whitelist_eq_append]
      rfl
  | whitelistAll record =>
      rw [Builder.step, whitelistAll, registerAll_eq_append]
      rfl
  | register member =>
      rw [Builder.step, register_eq_append]
      rfl
  | apply file =>
      rw [Builder.step, Builder.apply, foldl_applyEntry]
      rfl

theorem declared?_declare (builder : Builder ω) (record : Record ω) (name : String) :
    (builder.declare record).declared? name =
      if Text.SameName record.type.name name then some record
      else builder.declared? name := by
  unfold declared? declare
  rw [List.find?_cons, List.find?_filter]
  split <;> rename_i hname
  · simp [of_decide_eq_true hname]
  · rw [if_neg (by simpa using hname)]
    congr 1
    funext other
    by_cases hother : Text.SameName other.type.name name
    · have hne : ¬ Text.SameName other.type.name record.type.name := fun hsame =>
        of_decide_eq_false hname (hsame.symm.trans hother)
      simp [hne, hother]
    · simp [hother]

/-- Only a declaration changes which records are known. -/
theorem declared_step_of_none (builder : Builder ω) {step : BuildStep ω}
    (h : step.declaration? = none) : (builder.step step).declared = builder.declared := by
  cases step with
  | declare record => cases h
  | whitelist record name =>
      rw [Builder.step, whitelist_eq_append]
      rfl
  | whitelistAll record => rfl
  | register member => rfl
  | apply file =>
      rw [Builder.step, Builder.apply, foldl_applyEntry]
      rfl

theorem declared?_step (builder : Builder ω) (step : BuildStep ω) (name : String) :
    (builder.step step).declared? name =
      match step.declaration? with
      | some record =>
          if Text.SameName record.type.name name then some record
          else builder.declared? name
      | none => builder.declared? name := by
  cases hdeclaration : step.declaration? with
  | none => rw [declared?, builder.declared_step_of_none hdeclaration, declared?]
  | some record =>
      cases step with
      | declare =>
          cases hdeclaration
          exact builder.declared?_declare record name
      | _ => cases hdeclaration

end Builder

/-! A run adds the logs of its steps. -/

theorem declaredAfter?_append (steps : List (BuildStep ω)) (step : BuildStep ω)
    (name : String) :
    declaredAfter? (steps ++ [step]) name =
      match step.declaration? with
      | some record =>
          if Text.SameName record.type.name name then some record
          else declaredAfter? steps name
      | none => declaredAfter? steps name := by
  unfold declaredAfter?
  rw [List.filterMap_append, List.reverse_append, List.find?_append]
  cases hdeclaration : step.declaration? with
  | none => simp [hdeclaration]
  | some record =>
      rw [List.filterMap_cons_some hdeclaration]
      by_cases hname : Text.SameName record.type.name name <;> simp [hname]

theorem logFrom_append (before steps : List (BuildStep ω)) (step : BuildStep ω) :
    logFrom before (steps ++ [step]) =
      logFrom before steps ++ step.log (declaredAfter? (before ++ steps)) := by
  induction steps generalizing before with
  | nil => simp [logFrom]
  | cons first steps ih => simp [logFrom, ih]

/-- What a builder holds after the steps. -/
structure Builder.Logged (builder : Builder ω) (steps : List (BuildStep ω)) : Prop where
  registry : builder.registry = Registry.empty.registerAll (registrations (log steps))
  errors : builder.errors = refusals (log steps)
  declared : builder.declared? = declaredAfter? steps

theorem Builder.Logged.step {builder : Builder ω} {steps : List (BuildStep ω)}
    (h : builder.Logged steps) (step : BuildStep ω) :
    (builder.step step).Logged (steps ++ [step]) := by
  have hlog : log (steps ++ [step]) = log steps ++ step.log builder.declared? := by
    rw [log, logFrom_append, List.nil_append, h.declared]
    rfl
  constructor
  · rw [hlog, builder.step_eq, registrations_append]
    simp [append, h.registry, Registry.registerAll]
  · rw [hlog, builder.step_eq, refusals_append]
    simp [append, h.errors]
  · funext name
    rw [builder.declared?_step, declaredAfter?_append, h.declared]

theorem Builder.logged_run (steps : List (BuildStep ω)) : (run steps).Logged steps := by
  induction steps using List.reverseRecOn with
  | nil => exact ⟨rfl, rfl, rfl⟩
  | append_singleton steps step ih =>
      rw [run, List.foldl_append]
      exact ih.step step

namespace Whitelist

theorem sorted_perm (whitelist : Whitelist) :
    whitelist.sorted.Perm whitelist.entries :=
  List.mergeSort_perm _ _

theorem mem_sorted {whitelist : Whitelist} {entry : String × Selection} :
    entry ∈ whitelist.sorted ↔ entry ∈ whitelist.entries :=
  whitelist.sorted_perm.mem_iff

/-- The entries are in the order of the bytes of their type names. -/
theorem sorted_pairwise (whitelist : Whitelist) :
    whitelist.sorted.Pairwise fun first second =>
      Text.bytes first.1 < Text.bytes second.1 := by
  have hnodup : (whitelist.sorted.map Prod.fst).Nodup :=
    (whitelist.sorted_perm.map Prod.fst).nodup_iff.mpr whitelist.nodup_names
  have hle : whitelist.sorted.Pairwise fun first second =>
      decide (first.1 ≤ second.1) = true :=
    List.pairwise_mergeSort (by simpa using fun a _ b _ c _ => String.le_trans)
      (by simpa using fun a _ b _ => String.le_total a b) _
  refine (hle.and (List.pairwise_map.mp hnodup)).imp ?_
  rintro first second ⟨hle, hne⟩
  exact Text.bytes_lt_bytes (Std.lt_of_le_of_ne (of_decide_eq_true hle) hne)

end Whitelist

/-! Refusals. -/

theorem Record.find?_eq_none_iff {record : Record ω} {name : String} :
    record.find? name = none ↔
      ∀ member ∈ record.members, ¬ Text.SameName member.name name := by
  simp [Record.find?]

theorem mem_refusals {log : List (LogEntry ω)} {error : BuildError} :
    error ∈ refusals log ↔ .refused error ∈ log := by
  rw [refusals, List.mem_filterMap]
  constructor
  · rintro ⟨entry, hentry, herror⟩
    cases entry with
    | registered => cases herror
    | refused other =>
        cases herror
        exact hentry
  · exact fun hmem => ⟨_, hmem, rfl⟩

theorem Record.entry_eq_refused_iff {record : Record ω} {name : String}
    {error : BuildError} :
    record.entry name = .refused error ↔
      record.find? name = none ∧ error = .unknownMember record.type.name name := by
  rw [record.entry_eq]
  cases record.find? name <;> simp [eq_comm]

theorem Selection.refused_mem_log_iff {record : Record ω} {selection : Selection}
    {error : BuildError} :
    .refused error ∈ selection.log record ↔
      ∃ names, selection = .members names ∧ ∃ name ∈ names,
        record.find? name = none ∧ error = .unknownMember record.type.name name := by
  cases selection with
  | all => simp [log]
  | members names => simp [log, Record.entry_eq_refused_iff]

theorem BuildStep.refused_mem_entryLog_iff {declared? : String → Option (Record ω)}
    {entry : String × Selection} {error : BuildError} :
    .refused error ∈ entryLog declared? entry ↔
      (declared? entry.1 = none ∧ error = .unknownType entry.1) ∨
        ∃ record, declared? entry.1 = some record ∧
          .refused error ∈ entry.2.log record := by
  unfold entryLog
  cases declared? entry.1 <;> simp

theorem BuildStep.refused_mem_log_iff {declared? : String → Option (Record ω)}
    {step : BuildStep ω} {error : BuildError} :
    .refused error ∈ step.log declared? ↔ step.Refuses declared? error := by
  constructor
  · intro h
    cases step with
    | declare record => cases h
    | whitelist record name =>
        obtain ⟨hnone, rfl⟩ :=
          Record.entry_eq_refused_iff.mp (List.mem_singleton.mp h).symm
        exact .member (Record.find?_eq_none_iff.mp hnone)
    | whitelistAll record => simp [log] at h
    | register member => simp [log] at h
    | apply file =>
        obtain ⟨⟨type, selection⟩, hentry, hrefused⟩ := List.mem_flatMap.mp h
        rw [Whitelist.mem_sorted] at hentry
        rcases refused_mem_entryLog_iff.mp hrefused with
          ⟨hnone, rfl⟩ | ⟨record, hdeclared, hlisted⟩
        · exact .type hentry hnone
        · obtain ⟨names, rfl, name, hname, hunknown, rfl⟩ :=
            Selection.refused_mem_log_iff.mp hlisted
          exact .listed hentry hdeclared hname (Record.find?_eq_none_iff.mp hunknown)
  · intro h
    cases h with
    | member hunknown =>
        have hnone := Record.find?_eq_none_iff.mpr hunknown
        exact List.mem_singleton.mpr (Record.entry_eq_refused_iff.mpr ⟨hnone, rfl⟩).symm
    | type hentry hdeclared =>
        exact List.mem_flatMap.mpr ⟨_, Whitelist.mem_sorted.mpr hentry,
          refused_mem_entryLog_iff.mpr (.inl ⟨hdeclared, rfl⟩)⟩
    | listed hentry hdeclared hname hunknown =>
        have hrefused := Selection.refused_mem_log_iff.mpr
          ⟨_, rfl, _, hname, Record.find?_eq_none_iff.mpr hunknown, rfl⟩
        exact List.mem_flatMap.mpr ⟨_, Whitelist.mem_sorted.mpr hentry,
          refused_mem_entryLog_iff.mpr (.inr ⟨_, hdeclared, hrefused⟩)⟩

theorem refused_mem_logFrom_iff {before steps : List (BuildStep ω)} {error : BuildError} :
    .refused error ∈ logFrom before steps ↔
      ∃ earlier step later, steps = earlier ++ step :: later ∧
        step.Refuses (declaredAfter? (before ++ earlier)) error := by
  induction steps generalizing before with
  | nil => simp [logFrom]
  | cons first steps ih =>
      rw [logFrom, List.mem_append, BuildStep.refused_mem_log_iff, ih]
      constructor
      · rintro (hfirst | ⟨earlier, step, later, rfl, hrefuses⟩)
        · exact ⟨[], first, steps, rfl, by simpa using hfirst⟩
        · exact ⟨first :: earlier, step, later, rfl, by simpa using hrefuses⟩
      · rintro ⟨earlier, step, later, hsteps, hrefuses⟩
        cases earlier with
        | nil =>
            cases hsteps
            exact .inl (by simpa using hrefuses)
        | cons head earlier =>
            cases hsteps
            exact .inr ⟨earlier, step, later, rfl, by simpa using hrefuses⟩

theorem mem_refusals_log {steps : List (BuildStep ω)} {error : BuildError} :
    error ∈ refusals (log steps) ↔
      ∃ before step after, steps = before ++ step :: after ∧
        step.Refuses (declaredAfter? before) error :=
  mem_refusals.trans refused_mem_logFrom_iff

theorem namesUnknown_iff {steps : List (BuildStep ω)} :
    NamesUnknown steps ↔ refusals (log steps) ≠ [] := by
  constructor
  · rintro ⟨before, step, after, error, hrefuses⟩
    exact List.ne_nil_of_mem (mem_refusals_log.mpr ⟨before, step, after, hrefuses⟩)
  · intro h
    obtain ⟨error, hmem⟩ := List.exists_mem_of_ne_nil _ h
    obtain ⟨before, step, after, hrefuses⟩ := mem_refusals_log.mp hmem
    exact ⟨before, step, after, error, hrefuses⟩

/-! Registrations. -/

namespace Registry

theorem slot_eq_iff {member : Member ω} {owner : HostType} {name : String} :
    member.slot = (owner, Text.fold name) ↔
      member.owner = owner ∧ Text.SameName member.name name := by
  rw [Member.slot, Prod.mk.injEq]
  rfl

theorem lookup?_registerAll (registry : Registry ω) (members : List (Member ω))
    (owner : HostType) (name : String) :
    (registry.registerAll members).lookup? owner name =
      (members.reverse.find? fun member => member.slot = (owner, Text.fold name)).or
        (registry.lookup? owner name) := by
  induction members generalizing registry with
  | nil => rfl
  | cons member members ih =>
      rw [registerAll, List.foldl_cons, ← registerAll, ih, lookup?_register,
        List.reverse_cons, List.find?_append, Option.or_assoc, List.find?_singleton]
      by_cases hslot : member.slot = (owner, Text.fold name) <;> simp [hslot]

theorem lookup?_log (log : List (LogEntry ω)) (owner : HostType) (name : String) :
    (Registry.empty.registerAll (registrations log)).lookup? owner name =
      latest? log owner name := by
  have hempty : (Registry.empty : Registry ω).lookup? owner name = none := rfl
  rw [lookup?_registerAll, hempty, Option.or_none, latest?]
  simp only [slot_eq_iff]

variable {registry : Registry ω} {owner : HostType}

theorem lookup?_of_mem {member : Member ω} (h : member ∈ registry.members owner) :
    registry.lookup? owner member.name = some member := by
  obtain ⟨hentry, howner⟩ := List.mem_filter.mp h
  have hslot : member.slot = (owner, Text.fold member.name) :=
    slot_eq_iff.mpr ⟨of_decide_eq_true howner, .refl _⟩
  cases hfind : registry.lookup? owner member.name with
  | none =>
      exact (List.find?_eq_none.mp hfind member hentry (decide_eq_true hslot)).elim
  | some found =>
      have hfound := (slot_of_lookup? hfind).trans hslot.symm
      rw [List.inj_on_of_nodup_map registry.nodup_slots (mem_of_lookup? hfind) hentry
        hfound]

theorem mem_members_iff {member : Member ω} :
    member ∈ registry.members owner ↔
      ∃ name, registry.lookup? owner name = some member :=
  ⟨fun h => ⟨_, lookup?_of_mem h⟩, fun ⟨_, h⟩ => mem_members_of_lookup? h⟩

theorem members_pairwise (registry : Registry ω) (owner : HostType) :
    (registry.members owner).Pairwise fun first second =>
      ¬ Text.SameName first.name second.name := by
  have hslots : (registry.members owner).Pairwise fun first second =>
      first.slot ≠ second.slot :=
    (List.pairwise_map.mp registry.nodup_slots).sublist List.filter_sublist
  refine hslots.imp_of_mem fun {first second} hfirst hsecond hslot hname => hslot ?_
  have howner : ∀ member ∈ registry.members owner, member.owner = owner :=
    fun member hmem => of_decide_eq_true (List.mem_filter.mp hmem).2
  rw [Member.slot, Member.slot, howner first hfirst, howner second hsecond, hname]

theorem contains_iff :
    registry.contains owner = true ↔
      ∃ name member, registry.lookup? owner name = some member := by
  have hmembers : registry.contains owner = true ↔
      ∃ member, member ∈ registry.members owner := by
    simp [contains, members]
  rw [hmembers]
  simp only [mem_members_iff]
  exact exists_comm

end Registry

/-! The registry that is built. -/

/-- For each owner and name the registry has the latest registration, and it lists
each of these members once. -/
structure Registry.Holds (registry : Registry ω) (log : List (LogEntry ω)) : Prop where
  lookup : ∀ owner name, registry.lookup? owner name = latest? log owner name
  members : ∀ owner member,
    member ∈ registry.members owner ↔ ∃ name, latest? log owner name = some member
  distinct : ∀ owner, (registry.members owner).Pairwise fun first second =>
    ¬ Text.SameName first.name second.name
  contains : ∀ owner, registry.contains owner = true ↔
    ∃ name member, registry.lookup? owner name = some member

theorem Registry.holds_registerAll (log : List (LogEntry ω)) :
    (Registry.empty.registerAll (registrations log)).Holds log where
  lookup := lookup?_log log
  members owner member := by
    rw [mem_members_iff]
    simp only [lookup?_log]
  distinct := members_pairwise _
  contains _ := contains_iff

theorem Builder.Logged.build_eq {builder : Builder ω} {steps : List (BuildStep ω)}
    (h : builder.Logged steps) :
    builder.build =
      match (refusals (log steps)).head? with
      | some error => .error error
      | none => .ok (Registry.empty.registerAll (registrations (log steps))) := by
  rw [build, h.errors, h.registry]
  cases refusals (log steps) <;> rfl

/-- A registry is built unless a step names something unknown, and then the first of
these errors is returned: the steps are taken in order, the type names of a whitelist
file in the order of their bytes, and the names of a type as they are listed. What is
built holds the latest registrations. -/
theorem build_run (steps : List (BuildStep ω)) :
    ((∃ error, (Builder.run steps).build = .error error) ↔ NamesUnknown steps) ∧
    (∀ error, (Builder.run steps).build = .error error →
      (refusals (log steps)).head? = some error) ∧
    (¬ NamesUnknown steps →
      ∃ registry, (Builder.run steps).build = .ok registry ∧
        registry.Holds (log steps)) ∧
    ∀ file : Whitelist, file.sorted.Perm file.entries ∧
      file.sorted.Pairwise fun first second =>
        Text.bytes first.1 < Text.bytes second.1 := by
  have hbuild := (Builder.logged_run steps).build_eq
  refine ⟨?_, ?_, ?_, fun file => ⟨file.sorted_perm, file.sorted_pairwise⟩⟩
  · rw [namesUnknown_iff, hbuild]
    cases refusals (log steps) <;> simp
  · intro error herror
    rw [hbuild] at herror
    cases hhead : (refusals (log steps)).head? with
    | none => simp [hhead] at herror
    | some first => simpa [hhead] using herror
  · intro hknown
    rw [namesUnknown_iff, not_not] at hknown
    rw [hbuild, hknown]
    exact ⟨_, rfl, Registry.holds_registerAll _⟩

namespace Sample

def customerRecord : Record Item := ⟨customerType, [nameMember]⟩

def orderRecord : Record Item := ⟨orderType, [customerMember, urgentMember]⟩

def orderFile : Whitelist := Whitelist.empty.insert "order" (.members ["URGENT"])

def orderSteps : List (BuildStep Item) :=
  [.declare orderRecord, .apply orderFile, .whitelistAll customerRecord]

theorem refusals_orderSteps : refusals (log orderSteps) = [] := by
  decide +kernel

end Sample

theorem build_run_sample :
    ¬ NamesUnknown Sample.orderSteps ∧
      ∃ registry, (Builder.run Sample.orderSteps).build = .ok registry ∧
        registry.Holds (log Sample.orderSteps) := by
  have hknown : ¬ NamesUnknown Sample.orderSteps :=
    fun hunknown => namesUnknown_iff.mp hunknown Sample.refusals_orderSteps
  exact ⟨hknown, (build_run Sample.orderSteps).2.2.1 hknown⟩

end Sift
