import Mathlib.Data.List.Pairwise
import Sift.Proofs.Registry.Log

namespace Sift

variable {ω : Type}

/-! A whitelist file does what naming its types and members step by step does. -/

namespace Builder

def configure (builder : Builder ω) (record : Record ω) : Selection → Builder ω
  | .all => builder.whitelistAll record
  | .members names =>
      names.foldl (fun builder name => builder.whitelist record name) builder

/-- What comes of the entries of a file when each is taken in turn: a declared type is
configured, and the name of none is an error. -/
inductive Configured :
    Builder ω → List (String × Selection) → Builder ω → Prop
  | finish (builder : Builder ω) : Configured builder [] builder
  | declared {builder after : Builder ω} {name : String} {selection : Selection}
      {entries : List (String × Selection)} {record : Record ω}
      (hrecord : record ∈ builder.declared)
      (hname : Text.SameName record.type.name name)
      (hafter : Configured (builder.configure record selection) entries after) :
      Configured builder ((name, selection) :: entries) after
  | unknown {builder after : Builder ω} {name : String} {selection : Selection}
      {entries : List (String × Selection)}
      (hunknown : ∀ record ∈ builder.declared, ¬ Text.SameName record.type.name name)
      (hafter : Configured (builder.fail (.unknownType name)) entries after) :
      Configured builder ((name, selection) :: entries) after

/-- No two declared types have names that differ in case only. -/
def DeclaresApart (builder : Builder ω) : Prop :=
  builder.declared.Pairwise fun first second =>
    ¬ Text.SameName first.type.name second.type.name

/-! Declared types are apart after every step. -/

theorem DeclaresApart.declare {builder : Builder ω} (h : builder.DeclaresApart)
    (record : Record ω) : (builder.declare record).DeclaresApart := by
  refine List.pairwise_cons.mpr ⟨?_, List.Pairwise.sublist List.filter_sublist h⟩
  intro other hother hsame
  exact of_decide_eq_true (List.mem_filter.mp hother).2 hsame.symm

theorem DeclaresApart.step {builder : Builder ω} (h : builder.DeclaresApart)
    (step : BuildStep ω) : (builder.step step).DeclaresApart := by
  cases hdeclaration : step.declaration? with
  | none =>
      rw [DeclaresApart, builder.declared_step_of_none hdeclaration]
      exact h
  | some record =>
      cases step with
      | declare => exact h.declare _
      | _ => cases hdeclaration

theorem declaresApart_run (steps : List (BuildStep ω)) : (run steps).DeclaresApart := by
  induction steps using List.reverseRecOn with
  | nil => exact .nil
  | append_singleton steps step ih =>
      rw [run, List.foldl_append]
      exact ih.step step

theorem declared?_eq_none_iff {builder : Builder ω} {name : String} :
    builder.declared? name = none ↔
      ∀ record ∈ builder.declared, ¬ Text.SameName record.type.name name := by
  simp [declared?]

theorem sameName_of_declared? {builder : Builder ω} {name : String} {record : Record ω}
    (h : builder.declared? name = some record) : Text.SameName record.type.name name := by
  simpa using List.find?_some h

theorem declared?_eq_some_iff {builder : Builder ω} (h : builder.DeclaresApart)
    {name : String} {record : Record ω} :
    builder.declared? name = some record ↔
      record ∈ builder.declared ∧ Text.SameName record.type.name name := by
  constructor
  · intro hfound
    exact ⟨List.mem_of_find?_eq_some hfound, sameName_of_declared? hfound⟩
  · rintro ⟨hrecord, hname⟩
    cases hfound : builder.declared? name with
    | none => exact (declared?_eq_none_iff.mp hfound record hrecord hname).elim
    | some found =>
        have hmem := List.mem_of_find?_eq_some hfound
        have : Std.Symm fun first second : Record ω =>
            ¬ Text.SameName first.type.name second.type.name :=
          ⟨fun _ _ hnot hback => hnot hback.symm⟩
        by_contra hne
        exact List.Pairwise.forall h hmem hrecord (fun heq => hne (congrArg some heq))
          ((sameName_of_declared? hfound).trans hname.symm)

theorem configure_eq_append (builder : Builder ω) (record : Record ω)
    (selection : Selection) :
    builder.configure record selection = builder.append (selection.log record) := by
  cases selection with
  | all => exact builder.registerAll_eq_append record.members
  | members names =>
      rw [configure, Selection.log]
      induction names generalizing builder with
      | nil => exact builder.append_nil.symm
      | cons name names ih =>
          rw [List.foldl_cons, ih, whitelist_eq_append, append_append]
          rfl

theorem applyEntry_of_declared {builder : Builder ω} (h : builder.DeclaresApart)
    {record : Record ω} {name : String} (hrecord : record ∈ builder.declared)
    (hname : Text.SameName record.type.name name) (selection : Selection) :
    builder.applyEntry (name, selection) = builder.configure record selection := by
  have hfound := (declared?_eq_some_iff h).mpr ⟨hrecord, hname⟩
  simp only [applyEntry_eq_append, configure_eq_append, BuildStep.entryLog, hfound]

theorem applyEntry_of_unknown {builder : Builder ω} {name : String}
    (hunknown : ∀ record ∈ builder.declared, ¬ Text.SameName record.type.name name)
    (selection : Selection) :
    builder.applyEntry (name, selection) = builder.fail (.unknownType name) := by
  simp only [applyEntry, declared?_eq_none_iff.mpr hunknown]

theorem DeclaresApart.append {builder : Builder ω} (h : builder.DeclaresApart)
    (log : List (LogEntry ω)) : (builder.append log).DeclaresApart := h

theorem configured_iff {builder after : Builder ω} (h : builder.DeclaresApart)
    {entries : List (String × Selection)} :
    Configured builder entries after ↔ after = entries.foldl applyEntry builder := by
  constructor
  · intro hconfigured
    induction hconfigured with
    | finish => rfl
    | declared hrecord hname _ ih =>
        rw [List.foldl_cons, applyEntry_of_declared h hrecord hname]
        apply ih
        rw [configure_eq_append]
        exact h.append _
    | unknown hunknown _ ih =>
        rw [List.foldl_cons, applyEntry_of_unknown hunknown]
        exact ih (h.append [.refused _])
  · rintro rfl
    induction entries generalizing builder with
    | nil => exact .finish builder
    | cons entry entries ih =>
        obtain ⟨name, selection⟩ := entry
        have happart : (builder.applyEntry (name, selection)).DeclaresApart :=
          applyEntry_eq_append builder _ ▸ h.append _
        have hentry := ih happart
        cases hfound : builder.declared? name with
        | none =>
            have hunknown := declared?_eq_none_iff.mp hfound
            rw [applyEntry_of_unknown hunknown] at hentry
            rw [List.foldl_cons, applyEntry_of_unknown hunknown]
            exact .unknown hunknown hentry
        | some record =>
            obtain ⟨hrecord, hname⟩ := (declared?_eq_some_iff h).mp hfound
            rw [applyEntry_of_declared h hrecord hname] at hentry
            rw [List.foldl_cons, applyEntry_of_declared h hrecord hname]
            exact .declared hrecord hname hentry

end Builder

namespace Whitelist

/-- The entries are all those of the file, in the order of the bytes of their names. -/
def Lists (file : Whitelist) (entries : List (String × Selection)) : Prop :=
  entries.Perm file.entries ∧
    entries.Pairwise fun first second => Text.bytes first.1 < Text.bytes second.1

theorem lists_iff {file : Whitelist} {entries : List (String × Selection)} :
    file.Lists entries ↔ entries = file.sorted := by
  constructor
  · rintro ⟨hperm, hsorted⟩
    refine (hperm.trans file.sorted_perm.symm).eq_of_pairwise ?_ hsorted
      file.sorted_pairwise
    exact fun first second _ _ hlt hgt => (List.lt_asymm hlt hgt).elim
  · rintro rfl
    exact ⟨file.sorted_perm, file.sorted_pairwise⟩

end Whitelist

/-- A whitelist file leaves the builder that configuring its types one by one leaves, the
registered members and the errors in the order of the names' bytes; so the order in which
the file itself has its entries does not matter. -/
theorem apply_iff_configured {builder : Builder ω} (h : builder.DeclaresApart)
    (file : Whitelist) :
    (∀ after, after = builder.apply file ↔
      ∃ entries, file.Lists entries ∧ builder.Configured entries after) ∧
    ∀ other : Whitelist, other.entries.Perm file.entries →
      builder.apply other = builder.apply file := by
  refine ⟨fun after => ?_, fun other hperm => ?_⟩
  · simp only [Whitelist.lists_iff, Builder.configured_iff h, exists_eq_left, Builder.apply]
  · have hlists : file.Lists other.sorted :=
      ⟨other.sorted_perm.trans hperm, other.sorted_pairwise⟩
    rw [Builder.apply, Whitelist.lists_iff.mp hlists, Builder.apply]

namespace Sample

def declarations : List (BuildStep Item) :=
  [.declare customerRecord, .declare orderRecord]

/-- Both names are of the one type, and one of the members is unknown. -/
def twiceNamed : Whitelist :=
  (Whitelist.empty.insert "order" (.members ["URGENT", "ghost"])).insert "ORDER" .all

def twiceNamedBackwards : Whitelist :=
  (Whitelist.empty.insert "ORDER" .all).insert "order" (.members ["URGENT", "ghost"])

end Sample

theorem apply_iff_configured_twiceNamed :
    (Builder.run Sample.declarations).DeclaresApart ∧
      Sample.twiceNamedBackwards.entries.Perm Sample.twiceNamed.entries ∧
      (∃ entries, Sample.twiceNamed.Lists entries ∧
        (Builder.run Sample.declarations).Configured entries
          ((Builder.run Sample.declarations).apply Sample.twiceNamed)) ∧
      (Builder.run Sample.declarations).apply Sample.twiceNamedBackwards =
        (Builder.run Sample.declarations).apply Sample.twiceNamed := by
  have hperm : Sample.twiceNamedBackwards.entries.Perm Sample.twiceNamed.entries :=
    List.Perm.swap _ _ []
  have hdeclared := Builder.declaresApart_run Sample.declarations
  obtain ⟨hconfigured, horder⟩ := apply_iff_configured hdeclared Sample.twiceNamed
  exact ⟨hdeclared, hperm, (hconfigured _).mp rfl, horder _ hperm⟩

end Sift
