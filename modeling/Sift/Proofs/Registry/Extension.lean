import Sift.Proofs.Outcome
import Sift.Proofs.Sample

namespace Sift

/-! A text is read alike under a registry and under a larger one, unless it has a name
that the smaller one lacks. -/

variable {ω : Type}

/-- What the smaller registry finds, the larger one finds too. -/
def Registry.Extends (larger smaller : Registry ω) : Prop :=
  ∀ ⦃owner name member⦄, smaller.lookup? owner name = some member →
    larger.lookup? owner name = some member

theorem Registry.extends_register {registry : Registry ω} {member : Member ω}
    (hfree : registry.lookup? member.owner member.name = none) :
    (registry.register member).Extends registry := by
  intro owner name found hfound
  have hslot : member.slot ≠ (owner, Text.fold name) := by
    intro hslot
    have hsame : registry.lookup? member.owner member.name =
        registry.lookup? owner name := by
      rw [Registry.lookup?, Registry.lookup?, ← hslot, Member.slot]
    rw [hsame, hfound] at hfree
    cases hfree
  rw [Registry.lookup?_register, if_neg hslot]
  exact hfound

namespace Grammar

def Unresolved (error : ParseError) : Prop :=
  error.cause.kind = .resolution

def Scope.under (scope : Scope ω) (registry : Registry ω) : Scope ω :=
  { scope with registry := registry }

/-- The second reader does as the first, unless that does not find a name. -/
def Upholds (second first : Reader ω) : Prop :=
  ∀ tokens, Persists Unresolved (first tokens) (second tokens)

variable {scope : Scope ω} {registry : Registry ω} {nested larger : NestedReader ω}

theorem connection_upholds {connective : Connective} {operators : List String}
    {inner largerInner : Reader ω} {outer largerOuter : Nat → Reader ω}
    (hinner : Upholds largerInner inner)
    (houter : ∀ offset, Upholds (largerOuter offset) (outer offset)) :
    Upholds
      ((scope.under registry).connection connective operators largerInner largerOuter)
      (scope.connection connective operators inner outer) := by
  intro tokens
  apply (hinner tokens).bind
  rintro ⟨left, rest⟩
  dsimp only
  split
  · exact .same _
  · rename_i operator after hoperator
    apply Persists.bind (.same _)
    intro left
    apply (houter (scope.offset after) after).bind
    exact fun _ => .same _

section Extends

variable (hextends : registry.Extends scope.registry)

include hextends

/-- Here alone the registry is asked. -/
theorem resolve_persists (base : Expr ω) (identifier : Token) (nullSafe : Bool) :
    Persists Unresolved (scope.resolve base identifier nullSafe)
      ((scope.under registry).resolve base identifier nullSafe) := by
  unfold Scope.resolve
  cases base.type.object? with
  | none => exact .same _
  | some owner =>
      simp only [Option.bind_eq_bind, Option.bind_some, Scope.under]
      cases hmember : scope.registry.lookup? owner identifier.text with
      | none =>
          have hunresolved : Unresolved ⟨identifier.offset,
              .unrecognizedMember identifier.text base.type.value⟩ := rfl
          exact .excused hunresolved _
      | some member =>
          rw [hextends hmember]
          exact .same _

theorem path_upholds (base : Expr ω) :
    Upholds ((scope.under registry).path base) (scope.path base) := by
  intro tokens
  fun_induction Scope.path scope base tokens with
  | case1 base separator identifier rest hseparator hidentifier ih =>
      rw [Scope.path, if_pos hseparator, if_pos hidentifier]
      exact (resolve_persists hextends base identifier _).bind ih
  | case2 base separator identifier rest hseparator hidentifier =>
      rw [Scope.path, if_pos hseparator, if_neg hidentifier]
      exact .same _
  | case3 base separator identifier rest hseparator =>
      rw [Scope.path, if_neg hseparator]
      exact .same _
  | case4 base separator hseparator =>
      rw [Scope.path, if_pos hseparator]
      exact .same _
  | case5 base separator hseparator =>
      rw [Scope.path, if_neg hseparator]
      exact .same _
  | case6 base => exact .same _

section Rules

variable
  (hnested : ∀ rule offset, Upholds (larger rule offset) (nested rule offset))

include hnested

theorem operand_upholds :
    Upholds ((scope.under registry).operand larger) (scope.operand nested) := by
  intro tokens
  cases tokens with
  | nil => exact .same _
  | cons token tokens =>
      rcases token with ⟨kind, text, offset⟩
      cases kind with
      | identifier =>
          apply (resolve_persists hextends _ _ false).bind
          exact fun first => path_upholds hextends first tokens
      | operator =>
          simp only [Scope.operand]
          split
          · apply (hnested .disjunction offset tokens).bind
            exact fun _ => .same _
          · exact .same _
      | _ => exact .same _

theorem negation_upholds :
    Upholds ((scope.under registry).negation larger) (scope.negation nested) := by
  intro tokens
  unfold Scope.negation
  split
  · exact operand_upholds hextends hnested tokens
  · rename_i token rest hoperator
    apply (hnested .negation (scope.offset rest) rest).bind
    exact fun _ => .same _

theorem comparison_upholds :
    Upholds ((scope.under registry).comparison larger) (scope.comparison nested) := by
  intro tokens
  apply (negation_upholds hextends hnested tokens).bind
  rintro ⟨left, rest⟩
  dsimp only
  split
  · exact .same _
  · rename_i comparison after hoperator
    apply (hnested .comparison (scope.offset after) after).bind
    exact fun _ => .same _

theorem equality_upholds :
    Upholds ((scope.under registry).equality larger) (scope.equality nested) := by
  intro tokens
  apply (comparison_upholds hextends hnested tokens).bind
  rintro ⟨left, rest⟩
  dsimp only
  split
  · exact .same _
  · rename_i operator after hoperator
    apply (comparison_upholds hextends hnested after).bind
    exact fun _ => .same _

theorem rule_upholds (rule : Rule) :
    Upholds ((scope.under registry).rule larger rule) (scope.rule nested rule) := by
  have hconjunction : Upholds ((scope.under registry).conjunction larger)
      (scope.conjunction nested) :=
    connection_upholds (equality_upholds hextends hnested) (hnested .conjunction)
  cases rule with
  | disjunction => exact connection_upholds hconjunction (hnested .disjunction)
  | conjunction => exact hconjunction
  | comparison => exact comparison_upholds hextends hnested
  | negation => exact negation_upholds hextends hnested

end Rules

theorem nested_upholds (depth : Nat) (rule : Rule) (offset : Nat) :
    Upholds ((scope.under registry).nested depth rule offset)
      (scope.nested depth rule offset) := by
  induction depth generalizing rule offset with
  | zero => exact fun tokens => .same _
  | succ depth ih => exact rule_upholds hextends ih rule

theorem parseTokens_persists (tokens : List Token) :
    Persists Unresolved (parseTokens scope tokens)
      (parseTokens (scope.under registry) tokens) := by
  have hread := rule_upholds hextends (nested_upholds hextends maxDepth) .disjunction
  exact (hread tokens).bind fun _ => .same _

end Extends

end Grammar

open Grammar (Unresolved parseTokens_persists)

theorem Registry.Extends.parse_persists {larger smaller : Registry ω}
    (h : larger.Extends smaller) (root : HostType) (text : String) :
    Persists Unresolved (smaller.parse root text) (larger.parse root text) := by
  unfold Registry.parse
  dsimp only
  split
  · exact .same _
  · let scope : Grammar.Scope ω := ⟨smaller, root, text.utf8ByteSize⟩
    have hscope : larger.Extends scope.registry := h
    exact parseTokens_persists hscope _

/-- Where the smaller registry has every name that it is asked for, the larger one gives
the same expression, or the same error at the same place. -/
theorem parse_eq_of_extends {larger smaller : Registry ω} {root : HostType}
    {text : String} (hextends : larger.Extends smaller)
    (hresolved : ∀ error, smaller.parse root text = .error error →
      error.cause.kind ≠ .resolution) :
    larger.parse root text = smaller.parse root text :=
  (hextends.parse_persists root text).eq hresolved

namespace Sample

def paidMember : Member Item where
  name := "Paid"
  owner := orderType
  type := .bool
  accessor _ := .null

theorem parse_urgent_null :
    orders.parse orderType "!urgent or Urgent = null" =
      .error ⟨20, .coercion (.nullForNonNullable .bool)⟩ := by
  have htokens : tokenize "!urgent or Urgent = null" =
      [⟨.operator, "!", 0⟩, ⟨.identifier, "urgent", 1⟩, ⟨.blank, " ", 7⟩,
        ⟨.operator, "or", 8⟩, ⟨.blank, " ", 10⟩, ⟨.identifier, "Urgent", 11⟩,
        ⟨.blank, " ", 17⟩, ⟨.operator, "=", 18⟩, ⟨.blank, " ", 19⟩, ⟨.null, "null", 20⟩,
        ⟨.finish, "", 24⟩] := by
    decide +kernel
  rw [Registry.parse, htokens]
  rfl

end Sample

theorem parse_eq_of_extends_paid :
    ((Sample.orders.register Sample.paidMember).Extends Sample.orders ∧
      ∀ error,
        Sample.orders.parse Sample.orderType "!urgent or Urgent = null" =
            .error error → error.cause.kind ≠ .resolution) ∧
    (Sample.orders.register Sample.paidMember).parse Sample.orderType
        "!urgent or Urgent = null" =
      Sample.orders.parse Sample.orderType "!urgent or Urgent = null" := by
  have hextends : (Sample.orders.register Sample.paidMember).Extends Sample.orders :=
    Registry.extends_register rfl
  have hresolved : ∀ error,
      Sample.orders.parse Sample.orderType "!urgent or Urgent = null" = .error error →
        error.cause.kind ≠ .resolution := by
    intro error herror
    rw [Sample.parse_urgent_null] at herror
    cases herror
    decide
  exact ⟨⟨hextends, hresolved⟩, parse_eq_of_extends hextends hresolved⟩

end Sift
