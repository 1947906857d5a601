import Sift.Proofs.Grammar.Soundness

namespace Sift.Grammar

/-! What is derived is read, wherever the symbols after it do not carry it on. -/

/-- The operators that carry on an expression of the rule. -/
def Level.operators : Level → List String
  | .operand | .negation => [".", "?."]
  | .comparison => [".", "?.", ">", "<", ">=", "<="]
  | .equality => [".", "?.", ">", "<", ">=", "<=", "=", "<>", "!="]
  | .conjunction =>
      [".", "?.", ">", "<", ">=", "<=", "=", "<>", "!=", "and", ";"]
  | .disjunction =>
      [".", "?.", ">", "<", ">=", "<=", "=", "<>", "!=", "and", ";", "or", ","]

def Avoids (operators : List String) (tokens : List Token) : Prop :=
  ∀ token ∈ tokens.head?, ∀ text ∈ operators, token.symbol ≠ .operator text

def Stops (level : Level) (tokens : List Token) : Prop :=
  Avoids level.operators tokens

namespace Avoids

variable {operators fewer : List String} {tokens : List Token}

theorem mono (hsubset : fewer ⊆ operators) (h : Avoids operators tokens) :
    Avoids fewer tokens :=
  fun token htoken text htext => h token htoken text (hsubset htext)

theorem nil : Avoids operators [] := by
  intro token htoken
  cases htoken

theorem cons {token : Token} {text : String} (hsymbol : token.symbol = .operator text)
    (htext : text ∉ operators) : Avoids operators (token :: tokens) := by
  intro head hhead other hother heq
  cases hhead
  have hsame : text = other := congrArg Symbol.text (hsymbol.symm.trans heq)
  exact htext (hsame ▸ hother)

theorem cons_of_mem {token : Token} {text : String} {others : List String}
    (hsymbol : token.symbol = .operator text) (htext : text ∈ others)
    (hdisjoint : ∀ other ∈ others, other ∉ operators) :
    Avoids operators (token :: tokens) :=
  cons hsymbol (hdisjoint text htext)

theorem operator?_eq_none (h : Avoids operators tokens) :
    operator? operators tokens = none := by
  cases tokens with
  | nil => rfl
  | cons token tokens =>
      have hnone : operators.any token.isOperator = false := by
        rw [List.any_eq_false]
        intro text htext hoperator
        exact h token rfl text htext (Symbol.isOperator_iff.mp hoperator)
      simp [operator?, hnone]

theorem ordering?_eq_none (h : Avoids [">", "<", ">=", "<="] tokens) :
    ordering? tokens = none := by
  cases tokens with
  | nil => rfl
  | cons token tokens =>
      have hhead := h token rfl
      simp [ordering?, Symbol.isOperator_iff, hhead]

end Avoids

theorem operator?_cons {operators : List String} {token : Token} {tokens : List Token}
    {text : String} (hsymbol : token.symbol = .operator text)
    (htext : text ∈ operators) :
    operator? operators (token :: tokens) = some (token, tokens) := by
  have hany : operators.any token.isOperator = true :=
    List.any_eq_true.mpr ⟨text, htext, Symbol.isOperator_iff.mpr hsymbol⟩
  simp [operator?, hany]

theorem ordering?_cons {token : Token} {tokens : List Token} {text : String}
    {comparison : Comparison} (hsymbol : token.symbol = .operator text)
    (horders : Orders text comparison) :
    ordering? (token :: tokens) = some (comparison, tokens) := by
  cases horders <;> simp [ordering?, Symbol.isOperator_iff, hsymbol, Symbol.operator]

variable {ω : Type} {scope : Scope ω} {nested : NestedReader ω}

/-! Operands. -/

theorem operand_literal {token : Token} {literal : Literal} (tokens : List Token)
    (hliteral : token.symbol.Denotes literal) :
    scope.operand nested (token :: tokens) = .ok (.literal literal, tokens) := by
  rcases token with ⟨kind, text, offset⟩
  generalize hsymbol : (Token.symbol ⟨kind, text, offset⟩) = symbol at hliteral
  cases hliteral <;> cases hsymbol <;> simp [Scope.operand, *]

theorem operand_identifier {token : Token} {tokens : List Token} {name : String}
    {member : Member ω} (hsymbol : token.symbol = .identifier name)
    (hmember : scope.registry.lookup? scope.root name = some member) :
    scope.operand nested (token :: tokens) =
      scope.path (.member (.root scope.root) member false) tokens := by
  have hkind : token.kind = .identifier := congrArg Symbol.kind hsymbol
  have hname : token.text = name := congrArg Symbol.text hsymbol
  have hresolve : scope.resolve (.root scope.root) token false =
      .ok (.member (.root scope.root) member false) :=
    resolve_eq_ok.mpr ⟨_, _, rfl, hname ▸ hmember, rfl⟩
  simp [Scope.operand, hkind, hresolve, bind, Except.bind]

theorem path_next {base : Expr ω} {first second : Token} {tokens : List Token}
    {separator name : String} {owner : HostType} {member : Member ω}
    (hfirst : first.symbol = .operator separator)
    (hsecond : second.symbol = .identifier name)
    (hseparator : separator = "." ∨ separator = "?.")
    (howner : base.type.value = .object owner)
    (hmember : scope.registry.lookup? owner name = some member) :
    scope.path base (first :: second :: tokens) =
      scope.path (.member base member (separator = "?.")) tokens := by
  have htext : first.text = separator := congrArg Symbol.text hfirst
  have hname : second.text = name := congrArg Symbol.text hsecond
  have hkind : second.kind = .identifier := congrArg Symbol.kind hsecond
  have hresolve : ∀ nullSafe, scope.resolve base second nullSafe =
      .ok (.member base member nullSafe) := fun nullSafe =>
    resolve_eq_ok.mpr ⟨_, _, howner, hname ▸ hmember, rfl⟩
  have hpath : (first.isOperator "." || first.isOperator "?.") = true := by
    simp only [Bool.or_eq_true, Symbol.isOperator_iff, hfirst]
    exact hseparator.imp (congrArg _) (congrArg _)
  rw [Scope.path]
  simp [hpath, hkind, hresolve, htext, bind, Except.bind]

theorem path_stop {base : Expr ω} {tokens : List Token}
    (hstops : Stops .operand tokens) :
    scope.path base tokens = .ok (base, tokens) := by
  have hseparator : ∀ token ∈ tokens.head?,
      (token.isOperator "." || token.isOperator "?.") = false := by
    intro token htoken
    have hhead := hstops token htoken
    have hdot : token.isOperator "." = false :=
      Bool.eq_false_iff.mpr fun h => hhead "." (by decide) (Symbol.isOperator_iff.mp h)
    have hnullSafe : token.isOperator "?." = false :=
      Bool.eq_false_iff.mpr fun h => hhead "?." (by decide) (Symbol.isOperator_iff.mp h)
    rw [hdot, hnullSafe]
    rfl
  match tokens with
  | [] => rfl
  | [token] => simp [Scope.path, hseparator token rfl]
  | first :: second :: tokens => simp [Scope.path, hseparator first rfl]

/-- Reading a path leads to where its members have been taken, and goes on from
there. -/
theorem operand_path {symbols : List Symbol} {expr : Expr ω}
    (hpath : Path scope.registry scope.root symbols expr) {tokens : List Token}
    (htokens : tokens.map Token.symbol = symbols) (rest : List Token) :
    scope.operand nested (tokens ++ rest) = scope.path expr rest := by
  induction hpath generalizing tokens rest with
  | first hmember =>
      obtain ⟨token, rfl, htoken⟩ := List.map_eq_singleton_iff.mp htokens
      exact operand_identifier htoken hmember
  | next hbase hseparator howner hmember ih =>
      obtain ⟨front, back, rfl, hfront, hback⟩ := List.map_eq_append_iff.mp htokens
      obtain ⟨first, back, rfl, hfirst, hback⟩ := List.map_eq_cons_iff.mp hback
      obtain ⟨second, rfl, hsecond⟩ := List.map_eq_singleton_iff.mp hback
      rw [List.append_assoc, ih hfront]
      exact path_next hfirst hsecond hseparator howner hmember

/-! The rules. Each yields its expression where the depth covers the nesting. -/

variable {depth : Nat}

theorem operand_group {opening closing : Token} {tokens rest : List Token}
    {expr : Expr ω} {cost : Nat} (hopening : opening.symbol = .operator "(")
    (hclosing : closing.symbol = .operator ")")
    (hinner : Yields depth cost (nested .disjunction opening.offset tokens)
      (expr, closing :: rest)) :
    Yields depth cost (scope.operand nested (opening :: tokens)) (expr, rest) := by
  have hkind : opening.kind = .operator := congrArg Symbol.kind hopening
  have htext : opening.text = "(" := congrArg Symbol.text hopening
  simp only [Scope.operand, hkind, htext, if_true]
  apply hinner.bind_ok
  simp [operator?_cons hclosing]

theorem negation_operand {tokens : List Token} (hfirst : Avoids ["!"] tokens) :
    scope.negation nested tokens = scope.operand nested tokens := by
  rw [Scope.negation, hfirst.operator?_eq_none]

theorem negation_not {token : Token} {tokens rest : List Token} {operand : Expr ω}
    {cost : Nat} (htoken : token.symbol = .operator "!")
    (hbool : operand.type.value = .bool)
    (hinner : Yields depth cost (nested .negation (scope.offset tokens) tokens)
      (operand, rest)) :
    Yields depth cost (scope.negation nested (token :: tokens))
      (.not operand, rest) := by
  simp only [Scope.negation, operator?_cons htoken (List.mem_singleton.mpr rfl)]
  apply hinner.bind_ok
  simp [expectBool_eq_ok.mpr ⟨rfl, hbool⟩, bind, Except.bind, pure, Except.pure]

theorem comparison_negation {tokens rest : List Token} {expr : Expr ω} {cost : Nat}
    (hinner : Yields depth cost (scope.negation nested tokens) (expr, rest))
    (hstops : Stops .comparison rest) :
    Yields depth cost (scope.comparison nested tokens) (expr, rest) := by
  apply hinner.bind_ok
  have hnone : ordering? rest = none :=
    Avoids.ordering?_eq_none (hstops.mono (by decide))
  simp [hnone, pure, Except.pure]

theorem comparison_ordering {tokens middle rest : List Token} {operator : Token}
    {left read right : Expr ω} {text : String} {comparison : Comparison}
    {leftCost rightCost : Nat} (hoperator : operator.symbol = .operator text)
    (horders : Orders text comparison) (hcoerced : Coerced left.type read right)
    (hleft : Yields depth leftCost (scope.negation nested tokens)
      (left, operator :: middle))
    (hright : Yields depth rightCost
      (nested .comparison (scope.offset middle) middle) (read, rest)) :
    Yields depth (max leftCost rightCost) (scope.comparison nested tokens)
      (.compare comparison left right, rest) := by
  apply hleft.bind
  simp only [ordering?_cons hoperator horders]
  apply hright.bind_ok
  simp [coerceRight_eq_ok.mpr hcoerced, bind, Except.bind, pure, Except.pure]

theorem equality_comparison {tokens rest : List Token} {expr : Expr ω} {cost : Nat}
    (hinner : Yields depth cost (scope.comparison nested tokens) (expr, rest))
    (hstops : Stops .equality rest) :
    Yields depth cost (scope.equality nested tokens) (expr, rest) := by
  apply hinner.bind_ok
  have hnone : operator? ["=", "<>", "!="] rest = none :=
    Avoids.operator?_eq_none (hstops.mono (by decide))
  simp [hnone, pure, Except.pure]

theorem equality_equal {tokens middle rest : List Token} {operator : Token}
    {left read right : Expr ω} {text : String} {leftCost rightCost : Nat}
    (hoperator : operator.symbol = .operator text)
    (htext : text ∈ ["=", "<>", "!="]) (hcoerced : Coerced left.type read right)
    (hleft : Yields depth leftCost (scope.comparison nested tokens)
      (left, operator :: middle))
    (hright : Yields depth rightCost (scope.comparison nested middle) (read, rest)) :
    Yields depth (max leftCost rightCost) (scope.equality nested tokens)
      (equality text left right, rest) := by
  apply hleft.bind
  simp only [operator?_cons hoperator htext]
  apply hright.bind_ok
  have hspelled : operator.text = text := congrArg Symbol.text hoperator
  simp [coerceRight_eq_ok.mpr hcoerced, equality, hspelled, bind, Except.bind, pure,
    Except.pure]

variable {connective : Connective} {operators : List String} {inner : Reader ω}
  {outer : Nat → Reader ω}

theorem connection_inner {tokens rest : List Token} {expr : Expr ω} {cost : Nat}
    (hinner : Yields depth cost (inner tokens) (expr, rest))
    (hstops : Avoids operators rest) :
    Yields depth cost (scope.connection connective operators inner outer tokens)
      (expr, rest) := by
  apply hinner.bind_ok
  simp [hstops.operator?_eq_none, pure, Except.pure]

theorem connection_connect {tokens middle rest : List Token} {operator : Token}
    {left right : Expr ω} {text : String} {leftCost rightCost : Nat}
    (hoperator : operator.symbol = .operator text) (htext : text ∈ operators)
    (hleftBool : left.type.value = .bool) (hrightBool : right.type.value = .bool)
    (hleft : Yields depth leftCost (inner tokens) (left, operator :: middle))
    (hright : Yields depth rightCost (outer (scope.offset middle) middle)
      (right, rest)) :
    Yields depth (max leftCost rightCost)
      (scope.connection connective operators inner outer tokens)
      (.connect connective left right, rest) := by
  apply hleft.bind
  simp only [operator?_cons hoperator htext, expectBool_eq_ok.mpr ⟨rfl, hleftBool⟩]
  apply hright.bind_ok
  simp [expectBool_eq_ok.mpr ⟨rfl, hrightBool⟩, bind, Except.bind, pure, Except.pure]

theorem nested_rule (rule : Rule) {tokens rest : List Token} {expr : Expr ω}
    {cost : Nat}
    (hread : ∀ depth,
      Yields depth cost (scope.read (scope.nested depth) rule.level tokens)
        (expr, rest))
    (depth offset : Nat) :
    Yields depth (cost + 1) (scope.nested depth rule offset tokens) (expr, rest) := by
  cases depth with
  | zero => simp [Yields, Scope.nested, fault, Except.toOption]
  | succ depth =>
      have h := hread depth
      rw [← Scope.rule_eq_read] at h
      simpa [Yields, Scope.nested] using h

theorem Path.exists_cons {registry : Registry ω} {root : HostType}
    {symbols : List Symbol} {expr : Expr ω} (h : Path registry root symbols expr) :
    ∃ name tail, symbols = .identifier name :: tail := by
  induction h with
  | first => exact ⟨_, _, rfl⟩
  | next _ _ _ _ ih =>
      obtain ⟨name, tail, rfl⟩ := ih
      exact ⟨_, _, rfl⟩

/-- An operand does not begin as a negation does. -/
theorem operand_avoids {registry : Registry ω} {root : HostType}
    {symbols : List Symbol} {expr : Expr ω} {cost : Nat}
    (h : Derives registry root .operand symbols expr cost) {tokens : List Token}
    (htokens : tokens.map Token.symbol = symbols) (rest : List Token) :
    Avoids ["!"] (tokens ++ rest) := by
  have hhead : ∃ symbol tail, symbols = symbol :: tail ∧ symbol ≠ .operator "!" := by
    cases h with
    | literal hliteral =>
        refine ⟨_, _, rfl, ?_⟩
        rintro rfl
        cases hliteral
    | path hpath =>
        obtain ⟨name, tail, rfl⟩ := hpath.exists_cons
        exact ⟨_, _, rfl, by simp [Symbol.identifier, Symbol.operator]⟩
    | group => exact ⟨_, _, rfl, by decide⟩
  obtain ⟨symbol, tail, rfl, hne⟩ := hhead
  obtain ⟨token, tokens, rfl, htoken, -⟩ := List.map_eq_cons_iff.mp htokens
  intro head hhead text htext
  cases hhead
  rw [List.mem_singleton.mp htext, htoken]
  exact hne

theorem exists_infix {tokens : List Token} {first second : List Symbol} {text : String}
    (h : tokens.map Token.symbol = first ++ .operator text :: second) :
    ∃ front token back, tokens = front ++ token :: back ∧
      front.map Token.symbol = first ∧ token.symbol = .operator text ∧
        back.map Token.symbol = second := by
  obtain ⟨front, back, rfl, hfront, hback⟩ := List.map_eq_append_iff.mp h
  obtain ⟨token, back, rfl, htoken, hback⟩ := List.map_eq_cons_iff.mp hback
  exact ⟨front, token, back, rfl, hfront, htoken, hback⟩

theorem read_yields {level : Level} {symbols : List Symbol} {expr : Expr ω}
    {cost : Nat} (h : Derives scope.registry scope.root level symbols expr cost)
    {tokens : List Token} (htokens : tokens.map Token.symbol = symbols)
    (rest : List Token) (hstops : Stops level rest) (depth : Nat) :
    Yields depth cost (scope.read (scope.nested depth) level (tokens ++ rest))
      (expr, rest) := by
  -- Along the derivation, for every rest that stops the rule and for every depth.
  induction h generalizing tokens rest depth with
  | literal hliteral =>
      obtain ⟨token, rfl, rfl⟩ := List.map_eq_singleton_iff.mp htokens
      change Yields _ _ (scope.operand _ (token :: rest)) _
      rw [operand_literal rest hliteral]
      exact .ok _
  | path hpath =>
      change Yields _ _ (scope.operand _ _) _
      rw [operand_path hpath htokens, path_stop hstops]
      exact .ok _
  | group hinner ih =>
      obtain ⟨opening, back, rfl, hopening, hback⟩ := List.map_eq_cons_iff.mp htokens
      obtain ⟨inner, closing, last, rfl, hinner, hclosing, hlast⟩ := exists_infix hback
      obtain rfl := List.map_eq_nil_iff.mp hlast
      have hnext : Stops .disjunction (closing :: rest) :=
        Avoids.cons hclosing (by decide)
      change Yields _ _ (scope.operand _ (opening :: (inner ++ [closing] ++ rest))) _
      rw [List.append_assoc]
      apply operand_group hopening hclosing
      exact nested_rule .disjunction
        (fun depth => ih hinner _ hnext depth) _ _
  | operand hoperand ih =>
      change Yields _ _ (scope.negation _ _) _
      rw [negation_operand (operand_avoids hoperand htokens rest)]
      exact ih htokens rest hstops depth
  | not hoperand hbool ih =>
      obtain ⟨token, tokens, rfl, htoken, htokens⟩ := List.map_eq_cons_iff.mp htokens
      apply negation_not htoken hbool
      apply nested_rule .negation
      exact fun depth => ih htokens rest hstops depth
  | negation hnegation ih =>
      exact comparison_negation (ih htokens rest (hstops.mono (by decide)) depth) hstops
  | ordering hleft horders hright hcoerced ihleft ihright =>
      obtain ⟨first, operator, second, rfl, hfirst, hoperator, hsecond⟩ :=
        exists_infix htokens
      have hnext : Stops .negation (operator :: (second ++ rest)) :=
        Avoids.cons hoperator (by cases horders <;> decide)
      rw [List.append_assoc]
      apply comparison_ordering hoperator horders hcoerced (ihleft hfirst _ hnext depth)
      exact nested_rule .comparison
        (fun depth => ihright hsecond rest hstops depth) _ _
  | comparison hcomparison ih =>
      exact equality_comparison (ih htokens rest (hstops.mono (by decide)) depth) hstops
  | equal hleft htext hright hcoerced ihleft ihright =>
      obtain ⟨first, operator, second, rfl, hfirst, hoperator, hsecond⟩ :=
        exists_infix htokens
      have hnext : Stops .comparison (operator :: (second ++ rest)) :=
        Avoids.cons_of_mem hoperator htext (by decide)
      rw [List.append_assoc]
      exact equality_equal hoperator htext hcoerced (ihleft hfirst _ hnext depth)
        (ihright hsecond rest (hstops.mono (by decide)) depth)
  | equality hequality ih =>
      exact connection_inner (ih htokens rest (hstops.mono (by decide)) depth)
        (hstops.mono (by decide))
  | and hleft hleftBool htext hright hrightBool ihleft ihright =>
      obtain ⟨first, operator, second, rfl, hfirst, hoperator, hsecond⟩ :=
        exists_infix htokens
      have hnext : Stops .equality (operator :: (second ++ rest)) :=
        Avoids.cons_of_mem hoperator htext (by decide)
      rw [List.append_assoc]
      apply connection_connect hoperator htext hleftBool hrightBool
        (ihleft hfirst _ hnext depth)
      exact nested_rule .conjunction
        (fun depth => ihright hsecond rest hstops depth) _ _
  | conjunction hconjunction ih =>
      exact connection_inner (ih htokens rest (hstops.mono (by decide)) depth)
        (hstops.mono (by decide))
  | or hleft hleftBool htext hright hrightBool ihleft ihright =>
      obtain ⟨first, operator, second, rfl, hfirst, hoperator, hsecond⟩ :=
        exists_infix htokens
      have hnext : Stops .conjunction (operator :: (second ++ rest)) :=
        Avoids.cons_of_mem hoperator htext (by decide)
      rw [List.append_assoc]
      apply connection_connect hoperator htext hleftBool hrightBool
        (ihleft hfirst _ hnext depth)
      exact nested_rule .disjunction
        (fun depth => ihright hsecond rest hstops depth) _ _

end Sift.Grammar
