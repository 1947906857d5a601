import Sift.Proofs.Grammar.Derivation

namespace Sift

/-! The expressions that are derived, without the symbols that derive them. -/

open Grammar (Path Coerced Derives Level)

variable {ω : Type}

namespace Expr

/-- The constants are those that symbols denote, the members are registered, and the
operands have the types that their operators ask for. -/
inductive Typed (registry : Registry ω) (root : HostType) : Expr ω → Prop
  | literal {symbol : Symbol} {literal : Literal}
      (hliteral : symbol.Denotes literal) : Typed registry root (.literal literal)
  | path {symbols : List Symbol} {expr : Expr ω}
      (hpath : Path registry root symbols expr) : Typed registry root expr
  | compare {comparison : Comparison} {left read right : Expr ω}
      (hcomparison : comparison ≠ .ne)
      (hleft : Typed registry root left) (hread : Typed registry root read)
      (hcoerced : Coerced left.type read right) :
      Typed registry root (.compare comparison left right)
  | connect {connective : Connective} {left right : Expr ω}
      (hleft : Typed registry root left) (hleftBool : left.type.value = .bool)
      (hright : Typed registry root right) (hrightBool : right.type.value = .bool) :
      Typed registry root (.connect connective left right)
  | not {operand : Expr ω}
      (hoperand : Typed registry root operand)
      (hbool : operand.type.value = .bool) : Typed registry root (.not operand)

/-- The members that are read, each with the expression it is read of. A path is taken
from its root outwards, and the operands from left to right. -/
def accesses : Expr ω → List (Expr ω × Member ω)
  | literal _ | root _ => []
  | member base read _ => base.accesses ++ [(base, read)]
  | compare _ left right | connect _ left right => left.accesses ++ right.accesses
  | not operand => operand.accesses

theorem type_value_member (base : Expr ω) (read : Member ω) (nullSafe : Bool) :
    (member base read nullSafe).type.value = read.type.value := by
  simp only [type]
  split <;> rfl

end Expr

variable {registry : Registry ω} {root : HostType}

theorem Grammar.Orders.ne_ne {text : String} {comparison : Comparison}
    (h : Grammar.Orders text comparison) : comparison ≠ .ne := by
  cases h <;> simp

theorem Grammar.Derives.typed {level : Level} {symbols : List Symbol} {expr : Expr ω}
    {depth : Nat} (h : Derives registry root level symbols expr depth) :
    expr.Typed registry root := by
  induction h with
  | literal hliteral => exact .literal hliteral
  | path hpath => exact .path hpath
  | group _ ih | operand _ ih | negation _ ih | comparison _ ih | equality _ ih
  | conjunction _ ih => exact ih
  | not _ hbool ih => exact .not ih hbool
  | ordering _ horders _ hcoerced ihleft ihread =>
      exact .compare horders.ne_ne ihleft ihread hcoerced
  | equal _ _ _ hcoerced ihleft ihread =>
      have hequal : (Expr.compare .eq _ _).Typed registry root :=
        .compare (by decide) ihleft ihread hcoerced
      unfold Grammar.equality
      split
      · exact hequal
      · exact .not hequal rfl
  | and _ hleftBool _ _ hrightBool ihleft ihright
  | or _ hleftBool _ _ hrightBool ihleft ihright =>
      exact .connect ihleft hleftBool ihright hrightBool

theorem Grammar.Path.exists_member {symbols : List Symbol} {expr : Expr ω}
    (h : Path registry root symbols expr) :
    ∃ base read nullSafe, expr = .member base read nullSafe := by
  cases h with
  | first => exact ⟨_, _, _, rfl⟩
  | next => exact ⟨_, _, _, rfl⟩

theorem Expr.Typed.exists_denotes {value : Literal}
    (h : (Expr.literal value).Typed registry root) :
    ∃ symbol : Symbol, symbol.Denotes value := by
  cases h with
  | literal hliteral => exact ⟨_, hliteral⟩
  | path hpath =>
      obtain ⟨base, read, nullSafe, heq⟩ := hpath.exists_member
      cases heq

/-! Coercion leaves the members alone. -/

theorem Grammar.Coerced.accesses_eq {target : StaticType} {read right : Expr ω}
    (h : Coerced target read right) : right.accesses = read.accesses := by
  cases h <;> rfl

/-- Where a member may stand: it is what the registry has for its name among the
members of the type that its base has. -/
def Registry.Resolves (registry : Registry ω) (access : Expr ω × Member ω) : Prop :=
  ∃ owner, access.1.type.value = .object owner ∧
    registry.lookup? owner access.2.name = some access.2 ∧ access.2.owner = owner

theorem Registry.lookup?_name {owner : HostType} {name : String} {member : Member ω}
    (h : registry.lookup? owner name = some member) :
    registry.lookup? owner member.name = some member := by
  have hname : Text.fold member.name = Text.fold name :=
    congrArg Prod.snd (registry.slot_of_lookup? h)
  rw [← h, Registry.lookup?, Registry.lookup?, hname]

theorem Registry.resolves_of_lookup? {base : Expr ω} {owner : HostType} {name : String}
    {member : Member ω} (howner : base.type.value = .object owner)
    (hmember : registry.lookup? owner name = some member) :
    registry.Resolves (base, member) :=
  ⟨owner, howner, Registry.lookup?_name hmember, Registry.owner_of_lookup? hmember⟩

theorem Grammar.Path.resolves {symbols : List Symbol} {expr : Expr ω}
    (h : Path registry root symbols expr) :
    ∀ access ∈ expr.accesses, registry.Resolves access := by
  induction h with
  | first hmember =>
      intro access haccess
      rw [List.mem_singleton.mp haccess]
      exact Registry.resolves_of_lookup? rfl hmember
  | next hbase hseparator howner hmember ih =>
      intro access haccess
      rcases List.mem_append.mp haccess with haccess | haccess
      · exact ih access haccess
      · rw [List.mem_singleton.mp haccess]
        exact Registry.resolves_of_lookup? howner hmember

theorem Expr.Typed.resolves {expr : Expr ω} (h : expr.Typed registry root) :
    ∀ access ∈ expr.accesses, registry.Resolves access := by
  induction h with
  | literal => exact List.forall_mem_nil _
  | path hpath => exact hpath.resolves
  | compare _ _ _ hcoerced ihleft ihread =>
      rw [Expr.accesses, hcoerced.accesses_eq]
      exact List.forall_mem_append.mpr ⟨ihleft, ihread⟩
  | connect _ _ _ _ ihleft ihright =>
      exact List.forall_mem_append.mpr ⟨ihleft, ihright⟩
  | not _ _ ih => exact ih

end Sift
