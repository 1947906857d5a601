import Mathlib.Data.List.Forall2
import Sift.Proofs.Expr.Typed
import Sift.Proofs.Grammar.Acceptance
import Sift.Proofs.Sample

namespace Sift

/-! A filter reads registered members and no others: those that its identifiers
name. -/

open Grammar

variable {ω : Type} {registry : Registry ω} {root : HostType}

namespace Symbol

def names (symbols : List Symbol) : List String :=
  (symbols.filter fun symbol => symbol.kind = .identifier).map Symbol.text

@[simp] theorem names_nil : names [] = [] := rfl

@[simp] theorem names_append (first second : List Symbol) :
    names (first ++ second) = names first ++ names second := by
  simp [names]

@[simp] theorem names_identifier (name : String) (symbols : List Symbol) :
    names (identifier name :: symbols) = name :: names symbols := by
  simp [names, identifier]

@[simp] theorem names_operator (text : String) (symbols : List Symbol) :
    names (operator text :: symbols) = names symbols := by
  simp [names, operator]

theorem Denotes.names_eq_nil {symbol : Symbol} {literal : Literal}
    (h : symbol.Denotes literal) : names [symbol] = [] := by
  cases h <;> simp [names]

end Symbol

/-- The names stand for the members that are read, one for each. -/
def Names (names : List String) (accesses : List (Expr ω × Member ω)) : Prop :=
  List.Forall₂ (fun name access => Text.SameName name access.2.name) names accesses

theorem Names.exists_name {names : List String} {accesses : List (Expr ω × Member ω)}
    (h : Names names accesses) {access : Expr ω × Member ω}
    (haccess : access ∈ accesses) : ∃ name ∈ names, Text.SameName name access.2.name := by
  induction h with
  | nil => cases haccess
  | cons hsame hrest ih =>
      rcases List.mem_cons.mp haccess with rfl | haccess
      · exact ⟨_, List.mem_cons_self, hsame⟩
      · obtain ⟨name, hname, hsame⟩ := ih haccess
        exact ⟨name, List.mem_cons_of_mem _ hname, hsame⟩

theorem sameName_of_lookup? {owner : HostType} {name : String} {member : Member ω}
    (h : registry.lookup? owner name = some member) :
    Text.SameName name member.name :=
  (congrArg Prod.snd (registry.slot_of_lookup? h)).symm

theorem Grammar.Path.names {symbols : List Symbol} {expr : Expr ω}
    (h : Path registry root symbols expr) :
    Names (Symbol.names symbols) expr.accesses := by
  induction h with
  | first hmember => exact .cons (sameName_of_lookup? hmember) .nil
  | next hbase hseparator howner hmember ih =>
      rw [Symbol.names_append]
      exact List.rel_append ih (.cons (sameName_of_lookup? hmember) .nil)

theorem accesses_equality (text : String) (left right : Expr ω) :
    (equality text left right).accesses = left.accesses ++ right.accesses := by
  unfold equality
  split <;> rfl

theorem Grammar.Derives.names {level : Level} {symbols : List Symbol} {expr : Expr ω}
    {depth : Nat} (h : Derives registry root level symbols expr depth) :
    Names (Symbol.names symbols) expr.accesses := by
  induction h with
  | literal hliteral =>
      rw [hliteral.names_eq_nil]
      exact .nil
  | path hpath => exact hpath.names
  | group _ ih =>
      rw [List.cons_append, Symbol.names_operator, Symbol.names_append,
        Symbol.names_operator, Symbol.names_nil, List.append_nil]
      exact ih
  | operand _ ih | negation _ ih | comparison _ ih | equality _ ih | conjunction _ ih =>
      exact ih
  | not _ _ ih =>
      rw [Symbol.names_operator]
      exact ih
  | ordering _ _ _ hcoerced ihleft ihright =>
      rw [Symbol.names_append, Symbol.names_operator, Expr.accesses,
        hcoerced.accesses_eq]
      exact List.rel_append ihleft ihright
  | equal _ _ _ hcoerced ihleft ihright =>
      rw [Symbol.names_append, Symbol.names_operator, accesses_equality,
        hcoerced.accesses_eq]
      exact List.rel_append ihleft ihright
  | and _ _ _ _ _ ihleft ihright | or _ _ _ _ _ ihleft ihright =>
      rw [Symbol.names_append, Symbol.names_operator]
      exact List.rel_append ihleft ihright

def identifiers (text : String) : List String :=
  ((tokenize text).filter fun token => token.kind = .identifier).map Token.text

theorem names_symbols (text : String) :
    Symbol.names (symbols text) = identifiers text := by
  unfold Symbol.names symbols identifiers significant
  rw [List.filter_map, List.map_map, List.filter_filter]
  congr 1
  apply List.filter_congr
  intro token _
  cases hkind : token.kind <;> simp [Token.symbol, hkind]

theorem Grammar.Path.exists_root {symbols : List Symbol} {expr : Expr ω}
    (h : Path registry root symbols expr) :
    ∃ name member, registry.lookup? root name = some member := by
  induction h with
  | first hmember => exact ⟨_, _, hmember⟩
  | next _ _ _ _ ih => exact ih

theorem Expr.Typed.accesses_eq_nil {expr : Expr ω} (h : expr.Typed registry root)
    (hmembers : registry.members root = []) : expr.accesses = [] := by
  induction h with
  | literal => rfl
  | path hpath =>
      obtain ⟨name, member, hmember⟩ := hpath.exists_root
      have hmem := Registry.mem_members_of_lookup? hmember
      rw [hmembers] at hmem
      cases hmem
  | compare _ _ _ hcoerced ihleft ihread =>
      rw [Expr.accesses, hcoerced.accesses_eq, ihleft, ihread]
      rfl
  | connect _ _ _ _ ihleft ihright =>
      rw [Expr.accesses, ihleft, ihright]
      rfl
  | not _ _ ih => exact ih

/-- Every member that a filter reads is the one that the registry has for its name on
the type of its base, and the identifiers of the text name these members one for one.
Over a root without registered members a filter has no identifiers. -/
theorem accesses_of_parse {text : String} {expr : Expr ω}
    (h : registry.parse root text = .ok expr) :
    (∀ access ∈ expr.accesses, ∃ owner, access.1.type.value = .object owner ∧
      registry.lookup? owner access.2.name = some access.2 ∧
        access.2.owner = owner) ∧
    List.Forall₂ (fun name access => Text.SameName name access.2.name)
      (identifiers text) expr.accesses ∧
    (registry.members root = [] → identifiers text = []) := by
  obtain ⟨-, depth, -, hderives⟩ := parse_eq_ok_iff.mp h
  have hnames := hderives.names
  rw [names_symbols] at hnames
  refine ⟨hderives.typed.resolves, hnames, ?_⟩
  intro hmembers
  have hnil := hderives.typed.accesses_eq_nil hmembers
  rw [Names, hnil, List.forall₂_nil_right_iff] at hnames
  exact hnames

theorem accesses_of_parse_sample :
    Sample.orders.parse Sample.orderType "customer?.NAME = 'Ann' or !Urgent" =
        .ok Sample.filter ∧
      List.Forall₂ (fun name access => Text.SameName name access.2.name)
        (identifiers "customer?.NAME = 'Ann' or !Urgent") Sample.filter.accesses :=
  ⟨Sample.parse_filter, (accesses_of_parse Sample.parse_filter).2.1⟩

end Sift
