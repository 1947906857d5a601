import Sift.Proofs.Grammar.Derivation
import Sift.Proofs.Outcome

namespace Sift.Grammar

/-! What a rule reads is derived from the symbols it takes. -/

variable {ω : Type}

def Scope.read (scope : Scope ω) (nested : NestedReader ω) : Level → Reader ω
  | .disjunction => scope.disjunction nested
  | .conjunction => scope.conjunction nested
  | .equality => scope.equality nested
  | .comparison => scope.comparison nested
  | .negation => scope.negation nested
  | .operand => scope.operand nested

def Rule.level : Rule → Level
  | .disjunction => .disjunction
  | .conjunction => .conjunction
  | .comparison => .comparison
  | .negation => .negation

theorem Scope.rule_eq_read (scope : Scope ω) (nested : NestedReader ω) (rule : Rule) :
    scope.rule nested rule = scope.read nested rule.level := by
  cases rule <;> rfl

/-- The tokens before the rest derive the expression, nested no deeper than the
bound. -/
def Consumes (scope : Scope ω) (level : Level) (bound : Nat) (tokens : List Token)
    (expr : Expr ω) (rest : List Token) : Prop :=
  ∃ symbols depth,
    tokens.map Token.symbol = symbols ++ rest.map Token.symbol ∧
      Derives scope.registry scope.root level symbols expr depth ∧ depth ≤ bound

theorem Consumes.lift {scope : Scope ω} {inner outer : Level} {bound : Nat}
    {tokens rest : List Token} {expr : Expr ω}
    (hlift : ∀ {symbols depth},
      Derives scope.registry scope.root inner symbols expr depth →
        Derives scope.registry scope.root outer symbols expr depth)
    (h : Consumes scope inner bound tokens expr rest) :
    Consumes scope outer bound tokens expr rest := by
  obtain ⟨symbols, depth, htokens, hderives, hbound⟩ := h
  exact ⟨symbols, depth, htokens, hlift hderives, hbound⟩

def Sound (scope : Scope ω) (level : Level) (bound : Nat) (reader : Reader ω) : Prop :=
  ∀ ⦃tokens expr rest⦄, reader tokens = .ok (expr, rest) →
    Consumes scope level bound tokens expr rest

/-- A nested expression takes one level of the bound. -/
def NestedSound (scope : Scope ω) (bound : Nat) (nested : NestedReader ω) : Prop :=
  ∀ ⦃rule offset tokens expr rest⦄, nested rule offset tokens = .ok (expr, rest) →
    ∃ below, bound = below + 1 ∧ Consumes scope rule.level below tokens expr rest

/-! The readers of single tokens. -/

theorem operator?_eq_some {operators : List String} {tokens rest : List Token}
    {token : Token} (h : operator? operators tokens = some (token, rest)) :
    tokens = token :: rest ∧ token.symbol = .operator token.text ∧
      token.text ∈ operators := by
  cases tokens with
  | nil => simp [operator?] at h
  | cons head tail =>
      simp only [operator?] at h
      split at h
      · rename_i hany
        cases h
        obtain ⟨text, hmem, hoperator⟩ := List.any_eq_true.mp hany
        have hsymbol := Symbol.isOperator_iff.mp hoperator
        have htext : token.text = text := congrArg Symbol.text hsymbol
        exact ⟨rfl, htext ▸ hsymbol, htext ▸ hmem⟩
      · cases h

theorem ordering?_eq_some {tokens rest : List Token} {comparison : Comparison}
    (h : ordering? tokens = some (comparison, rest)) :
    ∃ token text, tokens = token :: rest ∧ token.symbol = .operator text ∧
      Orders text comparison := by
  cases tokens with
  | nil => simp [ordering?] at h
  | cons head tail =>
      simp only [ordering?, Symbol.isOperator_iff] at h
      split at h
      · cases h
        exact ⟨head, _, rfl, ‹_›, .gt⟩
      split at h
      · cases h
        exact ⟨head, _, rfl, ‹_›, .lt⟩
      split at h
      · cases h
        exact ⟨head, _, rfl, ‹_›, .ge⟩
      split at h
      · cases h
        exact ⟨head, _, rfl, ‹_›, .le⟩
      · cases h

/-! The checks on operands. -/

theorem expectBool_eq_ok {expr checked : Expr ω} {offset : Nat} :
    expectBool expr offset = .ok checked ↔
      checked = expr ∧ expr.type.value = .bool := by
  simp only [expectBool, fault]
  split
  · simp_all [eq_comm]
  · simp_all

theorem coerceRight_eq_ok {read right : Expr ω} {target : StaticType}
    {offset : Nat} :
    coerceRight read target offset = .ok right ↔ Coerced target read right := by
  constructor
  · intro h
    unfold coerceRight at h
    split at h
    · split at h
      · cases h
        exact .literal ‹_›
      · cases h
    · rename_i hother
      cases h
      exact .other hother
  · intro h
    cases h with
    | literal hcoerce => simp [coerceRight, hcoerce]
    | other hother =>
        cases read with
        | literal value => exact (hother value rfl).elim
        | _ => rfl

theorem resolve_eq_ok {scope : Scope ω} {base expr : Expr ω} {token : Token}
    {nullSafe : Bool} :
    scope.resolve base token nullSafe = .ok expr ↔
      ∃ owner member, base.type.value = .object owner ∧
        scope.registry.lookup? owner token.text = some member ∧
          expr = .member base member nullSafe := by
  unfold Scope.resolve StaticType.object?
  cases hvalue : base.type.value with
  | object owner =>
      cases hmember : scope.registry.lookup? owner token.text with
      | none => simp [fault, hmember]
      | some member => simp [hmember, eq_comm]
  | _ => simp [fault]

/-! The rules. Each is sound where nested expressions are. -/

variable {scope : Scope ω} {nested : NestedReader ω} {bound : Nat}

theorem path_sound {base expr : Expr ω} {symbols : List Symbol}
    {tokens rest : List Token}
    (hread : scope.path base tokens = .ok (expr, rest))
    (hbase : Path scope.registry scope.root symbols base) :
    ∃ more, tokens.map Token.symbol = more ++ rest.map Token.symbol ∧
      Path scope.registry scope.root (symbols ++ more) expr := by
  fun_induction Scope.path scope base tokens generalizing symbols with
  | case1 base separator identifier tail hseparator hidentifier ih =>
      obtain ⟨next, hresolve, hread⟩ := bind_eq_ok.mp hread
      obtain ⟨owner, member, howner, hmember, rfl⟩ := resolve_eq_ok.mp hresolve
      have hsymbol : ∃ text, (text = "." ∨ text = "?.") ∧
          separator.symbol = .operator text := by
        rcases Bool.or_eq_true _ _ ▸ hseparator with hdot | hdot
        · exact ⟨_, .inl rfl, Symbol.isOperator_iff.mp hdot⟩
        · exact ⟨_, .inr rfl, Symbol.isOperator_iff.mp hdot⟩
      obtain ⟨text, htext, hsymbol⟩ := hsymbol
      have heq : separator.text = text := congrArg Symbol.text hsymbol
      subst heq
      obtain ⟨more, htail, hexpr⟩ :=
        ih _ hread (.next hbase htext howner hmember)
      refine ⟨[.operator separator.text, .identifier identifier.text] ++ more, ?_, ?_⟩
      · simp [hsymbol, Symbol.isIdentifier_iff.mp hidentifier, htail]
      · simpa using hexpr
  | case2 => cases hread
  | case3 base separator identifier tail hseparator =>
      cases hread
      exact ⟨[], rfl, by simpa using hbase⟩
  | case4 => cases hread
  | case5 base separator hseparator =>
      cases hread
      exact ⟨[], rfl, by simpa using hbase⟩
  | case6 =>
      cases hread
      exact ⟨[], rfl, by simpa using hbase⟩

theorem operand_cases {token : Token} {tokens rest : List Token} {expr : Expr ω}
    (hread : scope.operand nested (token :: tokens) = .ok (expr, rest)) :
    (∃ literal, token.symbol.Denotes literal ∧
        expr = .literal literal ∧ rest = tokens) ∨
      (∃ member, token.symbol = .identifier token.text ∧
        scope.registry.lookup? scope.root token.text = some member ∧
          scope.path (.member (.root scope.root) member false) tokens =
            .ok (expr, rest)) ∨
      (∃ closing, token.symbol = .operator "(" ∧ closing.symbol = .operator ")" ∧
        nested .disjunction token.offset tokens = .ok (expr, closing :: rest)) := by
  have constant : ∀ {literal : Literal}, token.symbol.Denotes literal →
      (.ok (.literal literal, tokens) : Except ParseError (Expr ω × List Token)) =
          .ok (expr, rest) →
        ∃ literal, token.symbol.Denotes literal ∧
          expr = .literal literal ∧ rest = tokens := by
    intro literal hliteral heq
    cases heq
    exact ⟨literal, hliteral, rfl, rfl⟩
  rcases token with ⟨kind, text, offset⟩
  cases kind with
  | number =>
      simp only [Scope.operand] at hread
      split at hread
      · exact .inl (constant (.number ‹_›) hread)
      · cases hread
  | true => exact .inl (constant .true hread)
  | false => exact .inl (constant .false hread)
  | null => exact .inl (constant .null hread)
  | string => exact .inl (constant .string hread)
  | dateTime =>
      simp only [Scope.operand] at hread
      split at hread
      · exact .inl (constant (.dateTime ‹_›) hread)
      · cases hread
  | identifier =>
      obtain ⟨first, hfirst, hread⟩ := bind_eq_ok.mp hread
      obtain ⟨owner, member, howner, hmember, rfl⟩ := resolve_eq_ok.mp hfirst
      cases howner
      exact .inr (.inl ⟨member, rfl, hmember, hread⟩)
  | operator =>
      simp only [Scope.operand] at hread
      split at hread
      · rename_i htext
        obtain ⟨⟨inner, middle⟩, hinner, hread⟩ := bind_eq_ok.mp hread
        dsimp only at hread
        split at hread
        · rename_i closing after hclosing
          cases hread
          obtain ⟨rfl, hsymbol, hmem⟩ := operator?_eq_some hclosing
          rw [List.mem_singleton.mp hmem] at hsymbol
          exact .inr (.inr ⟨closing, by rw [Token.symbol, htext]; rfl, hsymbol, hinner⟩)
        · cases hread
      · cases hread
  | malformed | blank | finish => cases hread

theorem operand_sound (hnested : NestedSound scope bound nested) :
    Sound scope .operand bound (scope.operand nested) := by
  intro tokens expr rest hread
  cases tokens with
  | nil => cases hread
  | cons token tokens =>
      rcases operand_cases hread with ⟨literal, hliteral, rfl, rfl⟩ |
        ⟨member, htoken, hmember, hread⟩ | ⟨closing, hopen, hclose, hinner⟩
      · exact ⟨[token.symbol], 0, rfl, .literal hliteral, Nat.zero_le bound⟩
      · obtain ⟨more, htokens, hpath⟩ := path_sound hread (.first hmember)
        refine ⟨_, 0, ?_, .path hpath, Nat.zero_le bound⟩
        simp [htoken, htokens]
      · obtain ⟨below, rfl, symbols, depth, htokens, hderives, hdepth⟩ := hnested hinner
        refine ⟨_, _, ?_, .group hderives, Nat.succ_le_succ hdepth⟩
        simp [htokens, hopen, hclose]

theorem negation_sound (hnested : NestedSound scope bound nested) :
    Sound scope .negation bound (scope.negation nested) := by
  intro tokens expr rest hread
  simp only [Scope.negation] at hread
  split at hread
  · exact Consumes.lift .operand (operand_sound hnested hread)
  · rename_i token after hoperator
    obtain ⟨rfl, hsymbol, hmem⟩ := operator?_eq_some hoperator
    rw [List.mem_singleton.mp hmem] at hsymbol
    obtain ⟨⟨operand, middle⟩, hinner, hread⟩ := bind_eq_ok.mp hread
    obtain ⟨checked, hchecked, hread⟩ := bind_eq_ok.mp hread
    obtain ⟨rfl, hbool⟩ := expectBool_eq_ok.mp hchecked
    cases hread
    obtain ⟨below, rfl, symbols, depth, htokens, hderives, hdepth⟩ := hnested hinner
    refine ⟨_, _, ?_, .not hderives hbool, Nat.succ_le_succ hdepth⟩
    simp [hsymbol, htokens]

theorem comparison_sound (hnested : NestedSound scope bound nested) :
    Sound scope .comparison bound (scope.comparison nested) := by
  intro tokens expr rest hread
  obtain ⟨⟨left, middle⟩, hleft, hread⟩ := bind_eq_ok.mp hread
  have hconsumed := negation_sound hnested hleft
  dsimp only at hread
  split at hread
  · cases hread
    exact Consumes.lift .negation hconsumed
  · rename_i comparison after hoperator
    obtain ⟨token, text, rfl, hsymbol, horders⟩ := ordering?_eq_some hoperator
    obtain ⟨⟨read, last⟩, hinner, hread⟩ := bind_eq_ok.mp hread
    obtain ⟨right, hright, hread⟩ := bind_eq_ok.mp hread
    have hcoerced := coerceRight_eq_ok.mp hright
    cases hread
    obtain ⟨first, leftDepth, hfirst, hleftDerives, hleftDepth⟩ := hconsumed
    obtain ⟨below, rfl, second, rightDepth, hsecond, hrightDerives, hrightDepth⟩ :=
      hnested hinner
    refine ⟨_, _, ?_, .ordering hleftDerives horders hrightDerives hcoerced, ?_⟩
    · simp [hfirst, hsymbol, hsecond]
    · omega

theorem equality_sound (hnested : NestedSound scope bound nested) :
    Sound scope .equality bound (scope.equality nested) := by
  intro tokens expr rest hread
  obtain ⟨⟨left, middle⟩, hleft, hread⟩ := bind_eq_ok.mp hread
  have hconsumed := comparison_sound hnested hleft
  dsimp only at hread
  split at hread
  · cases hread
    exact Consumes.lift .comparison hconsumed
  · rename_i token after hoperator
    obtain ⟨rfl, hsymbol, hmem⟩ := operator?_eq_some hoperator
    obtain ⟨⟨read, last⟩, hinner, hread⟩ := bind_eq_ok.mp hread
    obtain ⟨right, hright, hread⟩ := bind_eq_ok.mp hread
    have hcoerced := coerceRight_eq_ok.mp hright
    cases hread
    obtain ⟨first, leftDepth, hfirst, hleftDerives, hleftDepth⟩ := hconsumed
    obtain ⟨second, rightDepth, hsecond, hrightDerives, hrightDepth⟩ :=
      comparison_sound hnested hinner
    refine ⟨_, _, ?_, .equal hleftDerives hmem hrightDerives hcoerced, ?_⟩
    · simp [hfirst, hsymbol, hsecond]
    · omega

/-- What a chain of a connective reads: one inner expression, or one followed by an
operator and the rest of the chain. -/
theorem connection_cases {connective : Connective} {operators : List String}
    {inner : Reader ω} {outer : Nat → Reader ω} {tokens rest : List Token}
    {expr : Expr ω}
    (hread : scope.connection connective operators inner outer tokens =
      .ok (expr, rest)) :
    inner tokens = .ok (expr, rest) ∨
      ∃ left token middle right offset,
        inner tokens = .ok (left, token :: middle) ∧ left.type.value = .bool ∧
          token.symbol = .operator token.text ∧ token.text ∈ operators ∧
            outer offset middle = .ok (right, rest) ∧ right.type.value = .bool ∧
              expr = .connect connective left right := by
  obtain ⟨⟨left, middle⟩, hleft, hread⟩ := bind_eq_ok.mp hread
  dsimp only at hread
  split at hread
  · cases hread
    exact .inl hleft
  · rename_i token after hoperator
    obtain ⟨rfl, hsymbol, hmem⟩ := operator?_eq_some hoperator
    obtain ⟨checked, hchecked, hread⟩ := bind_eq_ok.mp hread
    obtain ⟨⟨read, last⟩, hinner, hread⟩ := bind_eq_ok.mp hread
    obtain ⟨right, hright, hread⟩ := bind_eq_ok.mp hread
    obtain ⟨rfl, hleftBool⟩ := expectBool_eq_ok.mp hchecked
    obtain ⟨rfl, hrightBool⟩ := expectBool_eq_ok.mp hright
    cases hread
    exact .inr ⟨_, _, _, _, _, hleft, hleftBool, hsymbol, hmem, hinner, hrightBool, rfl⟩

theorem conjunction_sound (hnested : NestedSound scope bound nested) :
    Sound scope .conjunction bound (scope.conjunction nested) := by
  intro tokens expr rest hread
  rcases connection_cases hread with hinner |
    ⟨left, token, middle, right, offset, hleft, hleftBool, hsymbol, hmem, hright,
      hrightBool, rfl⟩
  · exact Consumes.lift .equality (equality_sound hnested hinner)
  · obtain ⟨first, leftDepth, hfirst, hleftDerives, hleftDepth⟩ :=
      equality_sound hnested hleft
    obtain ⟨below, rfl, second, rightDepth, hsecond, hrightDerives, hrightDepth⟩ :=
      hnested hright
    refine ⟨_, _, ?_,
      .and hleftDerives hleftBool hmem hrightDerives hrightBool, ?_⟩
    · simp [hfirst, hsymbol, hsecond]
    · omega

theorem disjunction_sound (hnested : NestedSound scope bound nested) :
    Sound scope .disjunction bound (scope.disjunction nested) := by
  intro tokens expr rest hread
  rcases connection_cases hread with hinner |
    ⟨left, token, middle, right, offset, hleft, hleftBool, hsymbol, hmem, hright,
      hrightBool, rfl⟩
  · exact Consumes.lift .conjunction (conjunction_sound hnested hinner)
  · obtain ⟨first, leftDepth, hfirst, hleftDerives, hleftDepth⟩ :=
      conjunction_sound hnested hleft
    obtain ⟨below, rfl, second, rightDepth, hsecond, hrightDerives, hrightDepth⟩ :=
      hnested hright
    refine ⟨_, _, ?_, .or hleftDerives hleftBool hmem hrightDerives hrightBool, ?_⟩
    · simp [hfirst, hsymbol, hsecond]
    · omega

theorem read_sound (hnested : NestedSound scope bound nested) (level : Level) :
    Sound scope level bound (scope.read nested level) := by
  cases level with
  | disjunction => exact disjunction_sound hnested
  | conjunction => exact conjunction_sound hnested
  | equality => exact equality_sound hnested
  | comparison => exact comparison_sound hnested
  | negation => exact negation_sound hnested
  | operand => exact operand_sound hnested

/-- Every level of nesting that is read costs one of the depth given. -/
theorem nested_sound (scope : Scope ω) (depth : Nat) :
    NestedSound scope depth (scope.nested depth) := by
  induction depth with
  | zero =>
      intro rule offset tokens expr rest hread
      cases hread
  | succ depth ih =>
      intro rule offset tokens expr rest hread
      change scope.rule (scope.nested depth) rule tokens = _ at hread
      rw [Scope.rule_eq_read] at hread
      exact ⟨depth, rfl, read_sound ih rule.level hread⟩

end Sift.Grammar
