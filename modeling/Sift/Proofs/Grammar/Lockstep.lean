import Sift.Proofs.Grammar.Fault

namespace Sift

/-! Two texts read side by side. What is read up to some token is decided by the tokens up
to that one, however they are spelled. -/

namespace Symbol

/-- Each list has the spellings of one operator. -/
def synonyms : List (List String) := [["and", ";"], ["or", ","], ["!=", "<>"]]

/-- The same symbol, but for the case of names and the spelling of operators. -/
inductive Respelled : Symbol → Symbol → Prop
  | same (symbol : Symbol) : Respelled symbol symbol
  | name {first second : String} (h : Text.SameName first second) :
      Respelled (identifier first) (identifier second)
  | operator {spellings : List String} {first second : String}
      (hspellings : spellings ∈ synonyms) (hfirst : first ∈ spellings)
      (hsecond : second ∈ spellings) : Respelled (operator first) (operator second)

namespace Respelled

variable {first second : Symbol}

theorem symm (h : Respelled first second) : Respelled second first := by
  cases h with
  | same => exact .same _
  | name hname => exact .name hname.symm
  | operator hspellings hfirst hsecond => exact .operator hspellings hsecond hfirst

theorem kind_eq (h : Respelled first second) : first.kind = second.kind := by
  cases h <;> rfl

/-- A symbol that is no name and no operator is spelled in one way. -/
theorem eq_of_kind (h : Respelled first second) (hidentifier : first.kind ≠ .identifier)
    (hoperator : first.kind ≠ .operator) : second = first := by
  cases h with
  | same => rfl
  | name => exact (hidentifier rfl).elim
  | operator => exact (hoperator rfl).elim

theorem sameName {token other : Token} (h : Respelled token.symbol other.symbol)
    (hkind : token.kind = .identifier) : Text.SameName other.text token.text := by
  rw [isIdentifier_iff.mp hkind] at h
  generalize hsymbol : other.symbol = symbol at h
  have htext : other.text = symbol.text := congrArg Symbol.text hsymbol
  rw [htext]
  cases h with
  | same => exact .refl _
  | name hname => exact hname.symm

/-- So is an operator without synonyms. -/
theorem eq_of_text {text : String} (h : Respelled (.operator text) second)
    (htext : ∀ spellings ∈ synonyms, text ∉ spellings) : second = .operator text := by
  cases h with
  | same => rfl
  | operator hspellings hfirst => exact (htext _ hspellings hfirst).elim

end Respelled

end Symbol

namespace Grammar

open Sift.Symbol (Respelled)

/-! Operators are told apart up to their spelling. -/

/-- With a spelling of an operator, the list has all of them. -/
def Closed (operators : List String) : Prop :=
  ∀ spellings ∈ Symbol.synonyms, ∀ first ∈ spellings, ∀ second ∈ spellings,
    first ∈ operators → second ∈ operators

instance (operators : List String) : Decidable (Closed operators) :=
  inferInstanceAs (Decidable (∀ spellings ∈ Symbol.synonyms, ∀ first ∈ spellings,
    ∀ second ∈ spellings, first ∈ operators → second ∈ operators))

section Operators

variable {token other : Token} (h : Respelled token.symbol other.symbol)

include h

theorem any_isOperator_of_respelled {operators : List String} (hclosed : Closed operators)
    (htoken : operators.any token.isOperator = true) :
    operators.any other.isOperator = true := by
  obtain ⟨text, htext, hsymbol⟩ := List.any_eq_true.mp htoken
  rw [Symbol.isOperator_iff] at hsymbol
  rw [hsymbol] at h
  rw [List.any_eq_true]
  generalize hother : other.symbol = symbol at h
  cases h with
  | same => exact ⟨text, htext, Symbol.isOperator_iff.mpr hother⟩
  | operator hspellings hfirst hsecond =>
      exact ⟨_, hclosed _ hspellings _ hfirst _ hsecond htext,
        Symbol.isOperator_iff.mpr hother⟩

theorem any_isOperator_eq {operators : List String} (hclosed : Closed operators) :
    operators.any other.isOperator = operators.any token.isOperator :=
  Bool.eq_iff_iff.mpr ⟨any_isOperator_of_respelled h.symm hclosed,
    any_isOperator_of_respelled h hclosed⟩

theorem isOperator_eq {text : String} (hclosed : Closed [text]) :
    other.isOperator text = token.isOperator text := by
  simpa using any_isOperator_eq h hclosed

theorem operator?_cons_eq {operators : List String} (hclosed : Closed operators)
    (rest otherRest : List Token) :
    operator? operators (other :: otherRest) =
      (operator? operators (token :: rest)).map fun _ => (other, otherRest) := by
  simp only [operator?, any_isOperator_eq h hclosed]
  split <;> rfl

theorem ordering?_cons_eq (rest otherRest : List Token) :
    ordering? (other :: otherRest) =
      (ordering? (token :: rest)).map fun found => (found.1, otherRest) := by
  have hclosed : ∀ text ∈ [">", "<", ">=", "<="], Closed [text] := by decide
  simp only [ordering?, isOperator_eq h (hclosed ">" (by decide)),
    isOperator_eq h (hclosed "<" (by decide)), isOperator_eq h (hclosed ">=" (by decide)),
    isOperator_eq h (hclosed "<=" (by decide))]
  repeat' split
  all_goals rfl

theorem text_eq_iff {text : String} (hclosed : Closed [text])
    (hkind : token.kind = .operator) : other.text = text ↔ token.text = text := by
  have hother : other.kind = .operator := h.kind_eq.symm.trans hkind
  simpa [Token.isOperator, hkind, hother] using isOperator_eq h hclosed

/-- Whether a token carries a path on. -/
theorem isSeparator_eq :
    (other.isOperator "." || other.isOperator "?.") =
      (token.isOperator "." || token.isOperator "?.") := by
  rw [isOperator_eq h (by decide), isOperator_eq h (by decide)]

theorem text_eq_of_isSeparator
    (hseparator : (token.isOperator "." || token.isOperator "?.") = true) :
    other.text = token.text := by
  rw [Bool.or_eq_true, Symbol.isOperator_iff, Symbol.isOperator_iff] at hseparator
  rcases hseparator with htoken | htoken
  · rw [htoken] at h
    exact congrArg Symbol.text ((h.eq_of_text (by decide)).trans htoken.symm)
  · rw [htoken] at h
    exact congrArg Symbol.text ((h.eq_of_text (by decide)).trans htoken.symm)

end Operators

/-! Tokens that two texts share. -/

/-- The tokens of two texts. Up to some place they are the same but for their spelling, and
where one text ends before it so does the other. -/
structure Pair (ω : Type) where
  scope : Scope ω
  tokens : List Token
  others : List Token
  /-- The offset of the end of the second text. -/
  finish : Nat
  count : Nat
  shared : ∀ place < count,
    Option.Rel (fun token other => Respelled token.symbol other.symbol)
      tokens[place]? others[place]?

namespace Pair

variable {ω : Type}

/-- What the second text is read against. -/
def mirror (pair : Pair ω) : Scope ω :=
  { pair.scope with finish := pair.finish }

/-- The same cause, but for the spelling of a name. -/
inductive Recast : Option Token → Option Token → ParseError.Cause →
    ParseError.Cause → Prop
  | same {first second : Option Token} (cause : ParseError.Cause) :
      Recast first second cause cause
  | member {token other : Token} (owner : ValueType) :
      Recast (some token) (some other) (.unrecognizedMember token.text owner)
        (.unrecognizedMember other.text owner)

/-- The first result is not decided by tokens before the start. The last token that it
depends on is the next one to read, or the one that an error is at; an operand is read
before its type is found wrong. If that much is shared, the second result is alike. -/
inductive InStep (pair : Pair ω) (start : Nat) :
    Except ParseError (Expr ω × List Token) →
      Except ParseError (Expr ω × List Token) → Prop
  | ok {last : Nat} {expr : Expr ω} {second : Except ParseError (Expr ω × List Token)}
      (hstart : start ≤ last) (hlast : last ≤ pair.tokens.length)
      (h : last < pair.count → second = .ok (expr, pair.others.drop last)) :
      InStep pair start (.ok (expr, pair.tokens.drop last)) second
  | error {place last : Nat} {cause : ParseError.Cause}
      {second : Except ParseError (Expr ω × List Token)} (hstart : start ≤ last)
      (hlast : last ≤ pair.tokens.length) (hplace : place ≤ last)
      (htyping : cause.kind ≠ .typing → place = last)
      (h : last < pair.count → ∃ other,
        second = .error ⟨pair.mirror.offset (pair.others.drop place), other⟩ ∧
          Recast pair.tokens[place]? pair.others[place]? cause other) :
      InStep pair start
        (.error ⟨pair.scope.offset (pair.tokens.drop place), cause⟩) second

/-- The readers keep in step from any place on. -/
def Reads (pair : Pair ω) (first second : Reader ω) : Prop :=
  ∀ place ≤ pair.tokens.length,
    pair.InStep place (first (pair.tokens.drop place)) (second (pair.others.drop place))

/-- The readers of nested expressions may blame an earlier place. -/
def ReadsNested (pair : Pair ω) (first second : NestedReader ω) : Prop :=
  ∀ rule blamed place, blamed ≤ place → place ≤ pair.tokens.length →
    pair.InStep blamed
      (first rule (pair.scope.offset (pair.tokens.drop blamed)) (pair.tokens.drop place))
      (second rule (pair.mirror.offset (pair.others.drop blamed)) (pair.others.drop place))

variable {pair : Pair ω} {place start : Nat} {token : Token} {rest : List Token}

/-! Single tokens. -/

theorem getElem?_of_drop {tokens : List Token} (h : tokens.drop place = token :: rest) :
    tokens[place]? = some token := by
  have hhead := congrArg List.head? h
  rwa [List.head?_drop] at hhead

theorem drop_of_getElem? {tokens : List Token} (h : tokens[place]? = some token) :
    tokens.drop place = token :: tokens.drop (place + 1) := by
  obtain ⟨hplace, rfl⟩ := List.getElem?_eq_some_iff.mp h
  exact List.drop_eq_getElem_cons hplace

theorem lt_length_of_drop {tokens : List Token}
    (h : tokens.drop place = token :: rest) : place < tokens.length :=
  (List.getElem?_eq_some_iff.mp (getElem?_of_drop h)).1

theorem drop_succ_of_drop {tokens : List Token} (h : tokens.drop place = token :: rest) :
    tokens.drop (place + 1) = rest := by
  rw [← List.drop_drop, h]
  rfl

/-- The token of the second text at a place of the first, if that much is shared. -/
theorem exists_other (h : pair.tokens.drop place = token :: rest) :
    ∃ other, place < pair.count →
      pair.others.drop place = other :: pair.others.drop (place + 1) ∧
        Respelled token.symbol other.symbol := by
  by_cases hplace : place < pair.count
  · have hrel := pair.shared place hplace
    rw [getElem?_of_drop h] at hrel
    generalize hother : pair.others[place]? = found at hrel
    cases hrel with
    | some hrespelled => exact ⟨_, fun _ => ⟨drop_of_getElem? hother, hrespelled⟩⟩
  · exact ⟨token, fun h => (hplace h).elim⟩

theorem others_drop_eq_nil (h : pair.tokens.drop place = [])
    (hplace : place < pair.count) : pair.others.drop place = [] := by
  have hrel := pair.shared place hplace
  rw [List.getElem?_eq_none (List.drop_eq_nil_iff.mp h)] at hrel
  generalize hother : pair.others[place]? = found at hrel
  cases hrel with
  | none => exact List.drop_eq_nil_of_le (List.getElem?_eq_none_iff.mp hother)

section Operators

variable {operators : List String} (hclosed : Closed operators)

include hclosed

theorem operator?_eq_none (h : operator? operators (pair.tokens.drop place) = none)
    (hplace : place < pair.count) :
    operator? operators (pair.others.drop place) = none := by
  cases htokens : pair.tokens.drop place with
  | nil =>
      rw [others_drop_eq_nil htokens hplace]
      rfl
  | cons token rest =>
      obtain ⟨other, hother⟩ := exists_other htokens
      obtain ⟨hothers, hrespelled⟩ := hother hplace
      rw [htokens] at h
      rw [hothers, operator?_cons_eq hrespelled hclosed rest, h]
      rfl

theorem exists_operator
    (h : operator? operators (pair.tokens.drop place) = some (token, rest)) :
    pair.tokens.drop (place + 1) = rest ∧ place < pair.tokens.length ∧
      ∃ other, place < pair.count →
        operator? operators (pair.others.drop place) =
            some (other, pair.others.drop (place + 1)) ∧
          Respelled token.symbol other.symbol := by
  obtain ⟨htokens, -, -⟩ := operator?_eq_some h
  obtain ⟨other, hother⟩ := exists_other htokens
  refine ⟨drop_succ_of_drop htokens, lt_length_of_drop htokens, other, fun hplace => ?_⟩
  obtain ⟨hothers, hrespelled⟩ := hother hplace
  rw [htokens] at h
  rw [hothers, operator?_cons_eq hrespelled hclosed rest, h]
  exact ⟨rfl, hrespelled⟩

end Operators

theorem ordering?_eq_none (h : ordering? (pair.tokens.drop place) = none)
    (hplace : place < pair.count) : ordering? (pair.others.drop place) = none := by
  cases htokens : pair.tokens.drop place with
  | nil =>
      rw [others_drop_eq_nil htokens hplace]
      rfl
  | cons token rest =>
      obtain ⟨other, hother⟩ := exists_other htokens
      obtain ⟨hothers, hrespelled⟩ := hother hplace
      rw [htokens] at h
      rw [hothers, ordering?_cons_eq hrespelled rest, h]
      rfl

theorem ordering?_eq_some {comparison : Comparison}
    (h : ordering? (pair.tokens.drop place) = some (comparison, rest)) :
    pair.tokens.drop (place + 1) = rest ∧ place < pair.tokens.length ∧
      (place < pair.count → ordering? (pair.others.drop place) =
        some (comparison, pair.others.drop (place + 1))) := by
  obtain ⟨token, text, htokens, -, -⟩ := Grammar.ordering?_eq_some h
  obtain ⟨other, hother⟩ := exists_other htokens
  refine ⟨drop_succ_of_drop htokens, lt_length_of_drop htokens, fun hplace => ?_⟩
  obtain ⟨hothers, hrespelled⟩ := hother hplace
  rw [htokens] at h
  rw [hothers, ordering?_cons_eq hrespelled rest, h]
  rfl

/-! Results. -/

namespace InStep

variable {first second third : Except ParseError (Expr ω × List Token)}

/-- A result that depends on a place is in step with whatever equals the second one if
that place is shared. -/
theorem look (h : pair.InStep place first second) (hstart : start ≤ place)
    (hsecond : place < pair.count → third = second) : pair.InStep start first third := by
  cases h with
  | ok hplace hlast h =>
      refine .ok (hstart.trans hplace) hlast fun hcount => ?_
      rw [hsecond (by omega), h hcount]
  | error hplace hlast hblamed htyping h =>
      refine .error (hstart.trans hplace) hlast hblamed htyping fun hcount => ?_
      rw [hsecond (by omega)]
      exact h hcount

theorem bind {firstNext secondNext : Expr ω × List Token →
      Except ParseError (Expr ω × List Token)} (h : pair.InStep start first second)
    (hnext : ∀ last expr, start ≤ last → last ≤ pair.tokens.length →
      pair.InStep last (firstNext (expr, pair.tokens.drop last))
        (secondNext (expr, pair.others.drop last))) :
    pair.InStep start (first >>= firstNext) (second >>= secondNext) := by
  cases h with
  | ok hstart hlast h =>
      apply (hnext _ _ hstart hlast).look hstart
      intro hcount
      rw [h hcount]
      rfl
  | error hstart hlast hplace htyping h =>
      refine .error hstart hlast hplace htyping fun hcount => ?_
      obtain ⟨other, rfl, hrecast⟩ := h hcount
      exact ⟨other, rfl, hrecast⟩

/-- An error at the next token, of the same cause in both texts. -/
theorem fault {offset : Nat} {cause : ParseError.Cause}
    (hplace : place ≤ pair.tokens.length)
    (hoffset : offset = pair.scope.offset (pair.tokens.drop place))
    (hsecond : place < pair.count →
      second = .error ⟨pair.mirror.offset (pair.others.drop place), cause⟩) :
    pair.InStep place (.error ⟨offset, cause⟩) second := by
  rw [hoffset]
  exact .error (le_refl place) hplace (le_refl place) (fun _ => rfl) fun hcount =>
    ⟨cause, hsecond hcount, .same cause⟩

/-- The type of an operand is checked where it starts, once it is read. -/
theorem check {check : Nat → Except ParseError (Expr ω)}
    {firstNext secondNext : Expr ω → Except ParseError (Expr ω × List Token)}
    (hcheck : (∃ expr, ∀ offset, check offset = .ok expr) ∨
      ∃ cause : ParseError.Cause, cause.kind = .typing ∧
        ∀ offset, check offset = .error ⟨offset, cause⟩)
    (hstart : start ≤ place) (hplace : place ≤ pair.tokens.length)
    (hnext : ∀ expr, pair.InStep place (firstNext expr) (secondNext expr)) :
    pair.InStep place
      (check (pair.scope.offset (pair.tokens.drop start)) >>= firstNext)
      (check (pair.mirror.offset (pair.others.drop start)) >>= secondNext) := by
  rcases hcheck with ⟨expr, hcheck⟩ | ⟨cause, hkind, hcheck⟩
  · rw [hcheck, hcheck]
    exact hnext expr
  · rw [hcheck, hcheck]
    exact .error (le_refl place) hplace hstart (fun hne => (hne hkind).elim) fun _ =>
      ⟨cause, rfl, .same cause⟩

end InStep

theorem expectBool_cases (expr : Expr ω) :
    (∃ checked, ∀ offset, expectBool expr offset = .ok checked) ∨
      ∃ cause : ParseError.Cause, cause.kind = .typing ∧
        ∀ offset, expectBool expr offset = .error ⟨offset, cause⟩ := by
  by_cases hbool : expr.type.value = .bool
  · exact .inl ⟨expr, fun offset => if_pos hbool⟩
  · exact .inr ⟨.operandNotBool expr.type, rfl, fun offset => if_neg hbool⟩

theorem coerceRight_cases (right : Expr ω) (target : StaticType) :
    (∃ checked, ∀ offset, coerceRight right target offset = .ok checked) ∨
      ∃ cause : ParseError.Cause, cause.kind = .typing ∧
        ∀ offset, coerceRight right target offset = .error ⟨offset, cause⟩ := by
  cases right with
  | literal literal =>
      cases hcoerce : literal.coerce target with
      | ok coerced =>
          exact .inl ⟨.literal coerced, fun offset => by simp only [coerceRight, hcoerce]⟩
      | error cause =>
          exact .inr ⟨.coercion cause, rfl, fun offset => by
            simp only [coerceRight, hcoerce, fault]⟩
  | _ => exact .inl ⟨_, fun offset => rfl⟩

/-- A name is looked up without regard to its case. -/
theorem resolve_cases (scope : Scope ω) (base : Expr ω) (nullSafe : Bool)
    (name : String) :
    (∃ expr, ∀ token finish, Text.SameName token.text name →
      Scope.resolve { scope with finish := finish } base token nullSafe = .ok expr) ∨
    ∀ token finish, Text.SameName token.text name →
      Scope.resolve { scope with finish := finish } base token nullSafe =
        .error ⟨token.offset, .unrecognizedMember token.text base.type.value⟩ := by
  have hlookup : ∀ owner (token : Token), Text.SameName token.text name →
      scope.registry.lookup? owner token.text = scope.registry.lookup? owner name := by
    intro owner token hname
    rw [Registry.lookup?, Registry.lookup?, show Text.fold token.text = _ from hname]
  unfold Scope.resolve
  cases base.type.object? with
  | none => exact .inr fun _ _ _ => rfl
  | some owner =>
      simp only [Option.bind_eq_bind, Option.bind_some]
      cases hmember : scope.registry.lookup? owner name with
      | none =>
          refine .inr fun token finish hname => ?_
          rw [hlookup owner token hname, hmember]
          rfl
      | some member =>
          refine .inl ⟨.member base member nullSafe, fun token finish hname => ?_⟩
          rw [hlookup owner token hname, hmember]

namespace InStep

theorem resolve {base : Expr ω} {other : Token} {nullSafe : Bool}
    {firstNext secondNext : Expr ω → Except ParseError (Expr ω × List Token)}
    (htoken : pair.tokens.drop place = token :: rest)
    (hother : place < pair.count →
      pair.others.drop place = other :: pair.others.drop (place + 1) ∧
        Respelled token.symbol other.symbol)
    (hkind : token.kind = .identifier)
    (hnext : ∀ expr, pair.InStep place (firstNext expr) (secondNext expr)) :
    pair.InStep place (pair.scope.resolve base token nullSafe >>= firstNext)
      (pair.mirror.resolve base other nullSafe >>= secondNext) := by
  have hname : place < pair.count → Text.SameName other.text token.text := by
    intro hplace
    obtain ⟨-, hrespelled⟩ := hother hplace
    exact hrespelled.sameName hkind
  have htokenName := Text.SameName.refl token.text
  rcases resolve_cases pair.scope base nullSafe token.text with ⟨expr, hresolve⟩ | hresolve
  · rw [hresolve token pair.scope.finish htokenName]
    apply (hnext expr).look (le_refl place)
    intro hplace
    rw [mirror, hresolve other pair.finish (hname hplace)]
    rfl
  · have hlast : place < pair.tokens.length := lt_length_of_drop htoken
    have hoffset : token.offset = pair.scope.offset (pair.tokens.drop place) := by
      rw [htoken]
      rfl
    rw [hresolve token pair.scope.finish htokenName, hoffset]
    refine .error (le_refl place) hlast.le (le_refl place) (fun _ => rfl) fun hplace => ?_
    obtain ⟨hothers, -⟩ := hother hplace
    rw [mirror, hresolve other pair.finish (hname hplace), hothers,
      getElem?_of_drop htoken, getElem?_of_drop hothers]
    exact ⟨_, rfl, .member _⟩

/-- An operand is read, and its type is checked where it starts. -/
theorem operand {read mirrored : Except ParseError (Expr ω × List Token)}
    (check : Expr ω → Nat → Except ParseError (Expr ω)) (make : Expr ω → Expr ω)
    (hread : pair.InStep start read mirrored)
    (hcheck : ∀ expr, (∃ checked, ∀ offset, check expr offset = .ok checked) ∨
      ∃ cause : ParseError.Cause, cause.kind = .typing ∧
        ∀ offset, check expr offset = .error ⟨offset, cause⟩) :
    pair.InStep start
      (read >>= fun found =>
        check found.1 (pair.scope.offset (pair.tokens.drop start)) >>= fun operand =>
          pure (make operand, found.2))
      (mirrored >>= fun found =>
        check found.1 (pair.mirror.offset (pair.others.drop start)) >>= fun operand =>
          pure (make operand, found.2)) := by
  apply hread.bind
  intro last expr hstart hlast
  apply InStep.check (hcheck expr) hstart hlast
  exact fun checked => .ok (le_refl last) hlast fun _ => rfl

end InStep

/-! The rules. -/

theorem path_of_not_separator {scope : Scope ω} {base : Expr ω}
    (h : ¬ (token.isOperator "." || token.isOperator "?.") = true) :
    scope.path base (token :: rest) = .ok (base, token :: rest) := by
  cases rest <;> rw [Scope.path, if_neg h]

theorem path_stop_inStep (base : Expr ω) (hplace : place ≤ pair.tokens.length)
    (htokens : pair.tokens.drop place = token :: rest)
    (hseparator : ¬ (token.isOperator "." || token.isOperator "?.") = true) :
    pair.InStep place (.ok (base, token :: rest))
      (pair.mirror.path base (pair.others.drop place)) := by
  obtain ⟨first, hfirst⟩ := exists_other htokens
  rw [← htokens]
  refine .ok (le_refl place) hplace fun hcount => ?_
  obtain ⟨hfirst, hseparators⟩ := hfirst hcount
  rw [hfirst, path_of_not_separator (isSeparator_eq hseparators ▸ hseparator)]

theorem path_inStep (base : Expr ω) :
    pair.Reads (pair.scope.path base) (pair.mirror.path base) := by
  intro place hplace
  generalize htokens : pair.tokens.drop place = tokens
  fun_induction Scope.path pair.scope base tokens generalizing place with
  | case1 base separator identifier rest hseparator hidentifier ih =>
      have hnext := drop_succ_of_drop htokens
      have hlast := lt_length_of_drop hnext
      obtain ⟨first, hfirst⟩ := exists_other htokens
      obtain ⟨second, hsecond⟩ := exists_other hnext
      apply InStep.look _ (Nat.le_succ place)
      · intro hcount
        obtain ⟨hfirst, hseparators⟩ := hfirst (by omega)
        obtain ⟨hsecond, hidentifiers⟩ := hsecond hcount
        have hkind : second.kind = .identifier :=
          hidentifiers.kind_eq.symm.trans hidentifier
        rw [hfirst, hsecond, Scope.path, isSeparator_eq hseparators, if_pos hseparator,
          text_eq_of_isSeparator hseparators hseparator, if_pos hkind]
      · apply InStep.resolve hnext hsecond hidentifier
        intro expr
        have hrest := ih expr (place + 2) (by omega) (drop_succ_of_drop hnext)
        exact hrest.look (Nat.le_succ _) fun _ => rfl
  | case2 base separator identifier rest hseparator hidentifier =>
      have hnext := drop_succ_of_drop htokens
      have hlast := lt_length_of_drop hnext
      obtain ⟨first, hfirst⟩ := exists_other htokens
      obtain ⟨second, hsecond⟩ := exists_other hnext
      refine (InStep.fault hlast.le (by rw [hnext]; rfl) fun hcount => ?_).look
        (Nat.le_succ place) fun _ => rfl
      obtain ⟨hfirst, hseparators⟩ := hfirst (by omega)
      obtain ⟨hsecond, hidentifiers⟩ := hsecond hcount
      have hkind : second.kind ≠ .identifier := fun hkind =>
        hidentifier (hidentifiers.kind_eq.trans hkind)
      rw [hfirst, hsecond, Scope.path, isSeparator_eq hseparators, if_pos hseparator,
        if_neg hkind]
      rfl
  | case3 base separator identifier rest hseparator =>
      exact path_stop_inStep base hplace htokens hseparator
  | case4 base separator hseparator =>
      have hnext := drop_succ_of_drop htokens
      have hlast := lt_length_of_drop htokens
      obtain ⟨first, hfirst⟩ := exists_other htokens
      refine (InStep.fault hlast (by rw [hnext]; rfl) fun hcount => ?_).look
        (Nat.le_succ place) fun _ => rfl
      obtain ⟨hfirst, hseparators⟩ := hfirst (by omega)
      rw [hfirst, others_drop_eq_nil hnext hcount, Scope.path, isSeparator_eq hseparators,
        if_pos hseparator]
      rfl
  | case5 base separator hseparator =>
      exact path_stop_inStep base hplace htokens hseparator
  | case6 base =>
      rw [← htokens]
      refine .ok (le_refl place) hplace fun hcount => ?_
      rw [others_drop_eq_nil htokens hcount]
      rfl

theorem operand_of_identifier {scope : Scope ω} {nested : NestedReader ω}
    (hkind : token.kind = .identifier) :
    scope.operand nested (token :: rest) =
      (scope.resolve (.root scope.root) token false >>= fun first =>
        scope.path first rest) := by
  simp only [Scope.operand, hkind]

theorem operand_of_opening {scope : Scope ω} {nested : NestedReader ω}
    (hkind : token.kind = .operator) (htext : token.text = "(") :
    scope.operand nested (token :: rest) =
      (nested .disjunction token.offset rest >>= fun found =>
        match operator? [")"] found.2 with
        | some (_, rest) => .ok (found.1, rest)
        | none => fault (scope.offset found.2) .expectedClosing) := by
  simp only [Scope.operand, hkind]
  exact if_pos htext

theorem operand_of_operator {scope : Scope ω} {nested : NestedReader ω}
    (hkind : token.kind = .operator) (htext : token.text ≠ "(") :
    scope.operand nested (token :: rest) = .error ⟨token.offset, .expectedIdentifier⟩ := by
  simp only [Scope.operand, hkind, if_neg htext, fault]

/-- A symbol that is no name and no operator is a literal or an error by itself. -/
theorem operand_of_symbol {symbol : Symbol} (hidentifier : symbol.kind ≠ .identifier)
    (hoperator : symbol.kind ≠ .operator) :
    (∃ expr : Expr ω, ∀ (scope : Scope ω) nested (token : Token) rest,
      token.symbol = symbol → scope.operand nested (token :: rest) = .ok (expr, rest)) ∨
    ∃ cause, ∀ (scope : Scope ω) nested (token : Token) rest,
      token.symbol = symbol →
        scope.operand nested (token :: rest) = .error ⟨token.offset, cause⟩ := by
  rcases symbol with ⟨kind, text⟩
  cases kind with
  | identifier => exact (hidentifier rfl).elim
  | operator => exact (hoperator rfl).elim
  | number =>
      cases hread : Decimal.parse text.toList with
      | ok number =>
          refine .inl ⟨.literal (.number number), ?_⟩
          rintro scope nested ⟨_, _, offset⟩ rest ⟨⟩
          simp only [Scope.operand, hread]
      | error cause =>
          refine .inr ⟨.number text cause, ?_⟩
          rintro scope nested ⟨_, _, offset⟩ rest ⟨⟩
          simp only [Scope.operand, hread, fault]
  | dateTime =>
      cases hread : Timestamp.parse text.toList with
      | ok timestamp =>
          refine .inl ⟨.literal (.timestamp timestamp), ?_⟩
          rintro scope nested ⟨_, _, offset⟩ rest ⟨⟩
          simp only [Scope.operand, hread]
      | error cause =>
          refine .inr ⟨.timestamp text cause, ?_⟩
          rintro scope nested ⟨_, _, offset⟩ rest ⟨⟩
          simp only [Scope.operand, hread, fault]
  | true => exact .inl ⟨.literal (.bool true), by rintro _ _ ⟨_, _, _⟩ _ ⟨⟩; rfl⟩
  | false => exact .inl ⟨.literal (.bool false), by rintro _ _ ⟨_, _, _⟩ _ ⟨⟩; rfl⟩
  | null => exact .inl ⟨.literal (.null .null), by rintro _ _ ⟨_, _, _⟩ _ ⟨⟩; rfl⟩
  | string =>
      refine .inl ⟨.literal (.string (String.ofList (Text.Quoted.decode text.toList))), ?_⟩
      rintro scope nested ⟨_, _, offset⟩ rest ⟨⟩
      rfl
  | malformed | blank | finish =>
      refine .inr ⟨.expectedIdentifier, ?_⟩
      rintro scope nested ⟨_, _, offset⟩ rest ⟨⟩
      rfl

section Rules

variable {nested mirrored : NestedReader ω} (hnested : pair.ReadsNested nested mirrored)

include hnested

theorem group_inStep (hplace : place < pair.tokens.length) :
    pair.InStep place
      (nested .disjunction (pair.scope.offset (pair.tokens.drop place))
          (pair.tokens.drop (place + 1)) >>= fun found =>
        match operator? [")"] found.2 with
        | some (_, rest) => .ok (found.1, rest)
        | none => fault (pair.scope.offset found.2) .expectedClosing)
      (mirrored .disjunction (pair.mirror.offset (pair.others.drop place))
          (pair.others.drop (place + 1)) >>= fun found =>
        match operator? [")"] found.2 with
        | some (_, rest) => .ok (found.1, rest)
        | none => fault (pair.mirror.offset found.2) .expectedClosing) := by
  apply (hnested .disjunction place (place + 1) (Nat.le_succ place) hplace).bind
  intro last inner hstart hlast
  dsimp only
  cases hoperator : operator? [")"] (pair.tokens.drop last) with
  | none =>
      apply InStep.fault hlast rfl
      intro hcount
      rw [operator?_eq_none (by decide) hoperator hcount]
      rfl
  | some found =>
      obtain ⟨token, rest⟩ := found
      obtain ⟨rfl, hnext, other, hother⟩ := exists_operator (by decide) hoperator
      refine .ok (Nat.le_succ last) hnext fun hcount => ?_
      rw [(hother (by omega)).1]

theorem operand_inStep :
    pair.Reads (pair.scope.operand nested) (pair.mirror.operand mirrored) := by
  intro place hplace
  cases htokens : pair.tokens.drop place with
  | nil =>
      apply InStep.fault hplace (by rw [htokens]; rfl)
      intro hcount
      rw [others_drop_eq_nil htokens hcount]
      rfl
  | cons token rest =>
      have hlast := lt_length_of_drop htokens
      have hnext := drop_succ_of_drop htokens
      obtain ⟨other, hother⟩ := exists_other htokens
      by_cases hidentifier : token.kind = .identifier
      · rw [operand_of_identifier hidentifier, ← hnext]
        apply InStep.look _ (le_refl place)
        · intro hcount
          obtain ⟨hothers, hrespelled⟩ := hother hcount
          rw [hothers, operand_of_identifier (hrespelled.kind_eq.symm.trans hidentifier)]
        · apply InStep.resolve htokens hother hidentifier
          intro first
          exact (path_inStep first (place + 1) hlast).look (Nat.le_succ place) fun _ => rfl
      by_cases hoperator : token.kind = .operator
      · by_cases htext : token.text = "("
        · have hgroup := group_inStep hnested hlast
          rw [operand_of_opening hoperator htext, ← hnext]
          rw [htokens] at hgroup
          apply hgroup.look (le_refl place)
          intro hcount
          obtain ⟨hothers, hrespelled⟩ := hother hcount
          rw [hothers, operand_of_opening (hrespelled.kind_eq.symm.trans hoperator)
            ((text_eq_iff hrespelled (by decide) hoperator).mpr htext)]
          rfl
        · rw [operand_of_operator hoperator htext]
          apply InStep.fault hplace (by rw [htokens]; rfl)
          intro hcount
          obtain ⟨hothers, hrespelled⟩ := hother hcount
          rw [hothers, operand_of_operator (hrespelled.kind_eq.symm.trans hoperator)
            (mt (text_eq_iff hrespelled (by decide) hoperator).mp htext)]
          rfl
      have hsymbol : place < pair.count → other.symbol = token.symbol :=
        fun hcount => (hother hcount).2.eq_of_kind hidentifier hoperator
      rcases @operand_of_symbol ω token.symbol hidentifier hoperator with
        ⟨expr, hread⟩ | ⟨cause, hread⟩
      · rw [hread pair.scope nested token rest rfl, ← hnext]
        refine .ok (Nat.le_succ place) hlast fun hcount => ?_
        have hplace : place < pair.count := by omega
        rw [(hother hplace).1, hread pair.mirror mirrored other _ (hsymbol hplace)]
      · rw [hread pair.scope nested token rest rfl]
        apply InStep.fault hplace (by rw [htokens]; rfl)
        intro hcount
        rw [(hother hcount).1, hread pair.mirror mirrored other _ (hsymbol hcount)]
        rfl

theorem negation_inStep :
    pair.Reads (pair.scope.negation nested) (pair.mirror.negation mirrored) := by
  intro place hplace
  unfold Scope.negation
  cases hoperator : operator? ["!"] (pair.tokens.drop place) with
  | none =>
      apply (operand_inStep hnested place hplace).look (le_refl place)
      intro hcount
      rw [operator?_eq_none (by decide) hoperator hcount]
  | some found =>
      obtain ⟨token, rest⟩ := found
      obtain ⟨rfl, hlast, other, hother⟩ := exists_operator (by decide) hoperator
      apply InStep.look _ (le_refl place)
      · intro hcount
        rw [(hother hcount).1]
      · have hread := hnested .negation (place + 1) (place + 1) (le_refl _) hlast
        have hchecked := hread.operand expectBool Expr.not expectBool_cases
        exact hchecked.look (Nat.le_succ place) fun _ => rfl

theorem comparison_inStep :
    pair.Reads (pair.scope.comparison nested) (pair.mirror.comparison mirrored) := by
  intro start hstart
  apply (negation_inStep hnested start hstart).bind
  intro place left _ hplace
  dsimp only
  cases hordering : ordering? (pair.tokens.drop place) with
  | none =>
      refine .ok (le_refl place) hplace fun hcount => ?_
      rw [ordering?_eq_none hordering hcount]
      rfl
  | some found =>
      obtain ⟨comparison, rest⟩ := found
      obtain ⟨rfl, hlast, hother⟩ := ordering?_eq_some hordering
      apply InStep.look _ (le_refl place)
      · intro hcount
        rw [hother hcount]
      · have hread := hnested .comparison (place + 1) (place + 1) (le_refl _) hlast
        have hchecked := hread.operand (coerceRight · left.type) (.compare comparison left)
          (coerceRight_cases · left.type)
        exact hchecked.look (Nat.le_succ place) fun _ => rfl

theorem equality_inStep :
    pair.Reads (pair.scope.equality nested) (pair.mirror.equality mirrored) := by
  intro start hstart
  apply (comparison_inStep hnested start hstart).bind
  intro place left _ hplace
  dsimp only
  cases hoperator : operator? ["=", "<>", "!="] (pair.tokens.drop place) with
  | none =>
      refine .ok (le_refl place) hplace fun hcount => ?_
      rw [operator?_eq_none (by decide) hoperator hcount]
      rfl
  | some found =>
      obtain ⟨token, rest⟩ := found
      obtain ⟨rfl, hlast, other, hother⟩ := exists_operator (by decide) hoperator
      have hread := comparison_inStep hnested (place + 1) hlast
      have hchecked := hread.operand (coerceRight · left.type) (equality token.text left)
        (coerceRight_cases · left.type)
      apply hchecked.look (Nat.le_succ place)
      intro hcount
      obtain ⟨hothers, hrespelled⟩ := hother (by omega)
      obtain ⟨-, hsymbol, -⟩ := operator?_eq_some hoperator
      have htext : other.text = "=" ↔ token.text = "=" :=
        text_eq_iff hrespelled (by decide) (congrArg Symbol.kind hsymbol)
      simp only [hothers, htext]
      rfl

omit hnested in
theorem connection_inStep {connective : Connective} {operators : List String}
    {inner innerMirrored : Reader ω} {outer outerMirrored : Nat → Reader ω}
    (hclosed : Closed operators) (hinner : pair.Reads inner innerMirrored)
    (houter : ∀ place ≤ pair.tokens.length, pair.InStep place
      (outer (pair.scope.offset (pair.tokens.drop place)) (pair.tokens.drop place))
      (outerMirrored (pair.mirror.offset (pair.others.drop place))
        (pair.others.drop place))) :
    pair.Reads (pair.scope.connection connective operators inner outer)
      (pair.mirror.connection connective operators innerMirrored outerMirrored) := by
  intro start hstart
  apply (hinner start hstart).bind
  intro place left hbefore hplace
  dsimp only
  cases hoperator : operator? operators (pair.tokens.drop place) with
  | none =>
      refine .ok (le_refl place) hplace fun hcount => ?_
      rw [operator?_eq_none hclosed hoperator hcount]
      rfl
  | some found =>
      obtain ⟨token, rest⟩ := found
      obtain ⟨rfl, hlast, other, hother⟩ := exists_operator hclosed hoperator
      apply InStep.look _ (le_refl place)
      · intro hcount
        rw [(hother hcount).1]
      · apply InStep.check (expectBool_cases left) hbefore hplace
        intro left
        have hread := houter (place + 1) hlast
        have hchecked :=
          hread.operand expectBool (.connect connective left) expectBool_cases
        exact hchecked.look (Nat.le_succ place) fun _ => rfl

theorem rule_inStep (rule : Rule) :
    pair.Reads (pair.scope.rule nested rule) (pair.mirror.rule mirrored rule) := by
  have houter : ∀ rule, ∀ place ≤ pair.tokens.length, pair.InStep place
      (nested rule (pair.scope.offset (pair.tokens.drop place)) (pair.tokens.drop place))
      (mirrored rule (pair.mirror.offset (pair.others.drop place))
        (pair.others.drop place)) :=
    fun rule place => hnested rule place place (le_refl place)
  have hconjunction : pair.Reads (pair.scope.conjunction nested)
      (pair.mirror.conjunction mirrored) :=
    connection_inStep (by decide) (equality_inStep hnested) (houter .conjunction)
  cases rule with
  | disjunction => exact connection_inStep (by decide) hconjunction (houter .disjunction)
  | conjunction => exact hconjunction
  | comparison => exact comparison_inStep hnested
  | negation => exact negation_inStep hnested

end Rules

theorem nested_inStep (pair : Pair ω) (depth : Nat) :
    pair.ReadsNested (pair.scope.nested depth) (pair.mirror.nested depth) := by
  induction depth with
  | zero =>
      intro rule blamed place hblamed hplace
      exact .fault (hblamed.trans hplace) rfl fun _ => rfl
  | succ depth ih =>
      intro rule blamed place hblamed hplace
      exact (rule_inStep ih rule place hplace).look hblamed fun _ => rfl

/-- A whole text is decided by the token that its error is at, or by all its tokens. -/
inductive Decides (pair : Pair ω) :
    Except ParseError (Expr ω) → Except ParseError (Expr ω) → Prop
  | ok {expr : Expr ω} {second : Except ParseError (Expr ω)}
      (h : pair.tokens.length < pair.count → second = .ok expr) :
      Decides pair (.ok expr) second
  | error {place last : Nat} {cause : ParseError.Cause}
      {second : Except ParseError (Expr ω)} (hlast : last ≤ pair.tokens.length)
      (hplace : place ≤ last) (htyping : cause.kind ≠ .typing → place = last)
      (h : last < pair.count → ∃ other,
        second = .error ⟨pair.mirror.offset (pair.others.drop place), other⟩ ∧
          Recast pair.tokens[place]? pair.others[place]? cause other) :
      Decides pair (.error ⟨pair.scope.offset (pair.tokens.drop place), cause⟩) second
  | filter {found : StaticType} {second : Except ParseError (Expr ω)}
      (h : pair.tokens.length < pair.count →
        second = .error ⟨0, .filterNotBool found⟩) :
      Decides pair (.error ⟨0, .filterNotBool found⟩) second

theorem parseTokens_decides (pair : Pair ω) :
    pair.Decides (parseTokens pair.scope pair.tokens)
      (parseTokens pair.mirror pair.others) := by
  have hread := rule_inStep (nested_inStep pair maxDepth) .disjunction 0
    (Nat.zero_le _)
  simp only [Scope.rule, List.drop_zero] at hread
  unfold parseTokens
  generalize pair.scope.disjunction (pair.scope.nested maxDepth) pair.tokens = first
    at hread
  generalize pair.mirror.disjunction (pair.mirror.nested maxDepth) pair.others = second
    at hread
  cases hread with
  | error _ hlast hplace htyping h =>
      refine .error hlast hplace htyping fun hcount => ?_
      obtain ⟨other, rfl, hrecast⟩ := h hcount
      exact ⟨other, rfl, hrecast⟩
  | @ok last expr _ _ hlast h =>
      cases htokens : pair.tokens.drop last with
      | cons token rest =>
          have hoffset : token.offset = pair.scope.offset (pair.tokens.drop last) := by
            rw [htokens]
            rfl
          obtain ⟨other, hother⟩ := exists_other htokens
          change pair.Decides (.error ⟨token.offset, .expectedFinish⟩) _
          rw [hoffset]
          refine .error hlast (le_refl last) (fun _ => rfl) fun hcount => ?_
          obtain ⟨hothers, -⟩ := hother hcount
          rw [h hcount, hothers]
          exact ⟨_, rfl, .same _⟩
      | nil =>
          have hfinish : last = pair.tokens.length :=
            le_antisymm hlast (List.drop_eq_nil_iff.mp htokens)
          have hsecond : pair.tokens.length < pair.count → second = .ok (expr, []) := by
            intro hcount
            obtain rfl := hfinish
            rw [h hcount, others_drop_eq_nil htokens hcount]
          change pair.Decides (if expr.type.value = .bool then .ok expr
            else .error ⟨0, .filterNotBool expr.type⟩) _
          split
          · rename_i hbool
            exact .ok fun hcount => by rw [hsecond hcount]; exact if_pos hbool
          · rename_i hbool
            exact .filter fun hcount => by rw [hsecond hcount]; exact if_neg hbool

end Pair

end Grammar

end Sift
