import Sift.Proofs.Expr.Reread
import Sift.Proofs.Grammar.Respelling
import Sift.Proofs.Literal.Quoted
import Sift.Proofs.Sample

namespace Sift

/-! Quoting the literal on the right of a comparison does not change the comparison. -/

namespace Grammar

variable {ω : Type}

def comparisonOperators : List String := ["=", "<>", "!=", "<", "<=", ">", ">="]

theorem comparisonOperators_cases {operator : String}
    (h : operator ∈ comparisonOperators) :
    operator ∈ ["=", "<>", "!="] ∨ ∃ comparison, Orders operator comparison := by
  simp only [comparisonOperators, List.mem_cons, List.not_mem_nil, or_false] at h
  rcases h with rfl | rfl | rfl | rfl | rfl | rfl | rfl
  · exact .inl (by decide)
  · exact .inl (by decide)
  · exact .inl (by decide)
  · exact .inr ⟨_, .lt⟩
  · exact .inr ⟨_, .le⟩
  · exact .inr ⟨_, .gt⟩
  · exact .inr ⟨_, .ge⟩

theorem mem_symbolicOperators_of_comparison :
    ∀ operator ∈ comparisonOperators, operator ∈ Lexeme.symbolicOperators := by
  decide

/-- An operand of a filter, and a comparison operator after it. -/
structure LeftSide (registry : Registry ω) (root : HostType) (front : String)
    (left : Expr ω) (operator : String) : Prop where
  mem : operator ∈ comparisonOperators
  derives : ∃ symbols depth, Grammar.symbols front = symbols ++ [.operator operator] ∧
    Derives registry root .operand symbols left depth ∧ depth ≤ maxDepth

/-! A comparison whose right operand is a literal. -/

section Accepted

variable {registry : Registry ω} {root : HostType} {symbols : List Symbol}
  {left : Expr ω} {depth : Nat} {operator : String}

/-- The comparison that is read depends on the constant alone. -/
theorem exists_comparison (hmem : operator ∈ comparisonOperators)
    (hleft : Derives registry root .operand symbols left depth)
    (hdepth : depth ≤ maxDepth) :
    ∃ make : Literal → Expr ω, ∀ symbol value coerced, symbol.Denotes value →
      value.coerce left.type = .ok coerced →
        (make coerced).type.value = .bool ∧ ∃ cost ≤ maxDepth,
          Derives registry root .disjunction (symbols ++ [.operator operator, symbol])
            (make coerced) cost := by
  rcases comparisonOperators_cases hmem with hequal | ⟨comparison, horders⟩
  · refine ⟨fun coerced => equality operator left (.literal coerced), ?_⟩
    intro symbol value coerced hvalue hcoerce
    refine ⟨?_, max depth 0, by omega, ?_⟩
    · unfold equality
      split <;> rfl
    · have hright : Derives registry root .comparison [symbol] (.literal value) 0 :=
        .negation (.operand (.literal hvalue))
      exact .conjunction (.equality (.equal (.negation (.operand hleft)) hequal hright
        (.literal hcoerce)))
  · refine ⟨fun coerced => .compare comparison left (.literal coerced), ?_⟩
    intro symbol value coerced hvalue hcoerce
    refine ⟨rfl, max depth (0 + 1), ?_, ?_⟩
    · have hone : 0 + 1 ≤ maxDepth := by decide
      exact max_le hdepth hone
    · have hright : Derives registry root .comparison [symbol] (.literal value) 0 :=
        .negation (.operand (.literal hvalue))
      exact .conjunction (.equality (.comparison (.ordering (.operand hleft) horders
        hright (.literal hcoerce))))

end Accepted

section Refused

variable {scope : Scope ω} {nested : NestedReader ω} {tokens : List Token}
  {operator literal : Token} {left : Expr ω} {depth : Nat} {text : String}
  {error : ParseError}

/-- The error is that of the right operand, or of its coercion to the type of the left. -/
def RefusesRight (scope : Scope ω) (target : StaticType) (literal : Token)
    (error : ParseError) : Prop :=
  ∀ nested, (scope.comparison nested [literal] >>= fun read =>
    coerceRight read.1 target literal.offset) = .error error

theorem ok_bind {α β : Type} (value : α) (next : α → Except ParseError β) :
    (Except.ok value >>= next) = next value := rfl

theorem bind_bind_eq_error {α β γ : Type} {result : Except ParseError α}
    {check : α → Except ParseError β} {next : α → β → Except ParseError γ}
    (h : (result >>= check) = .error error) :
    (result >>= fun value => check value >>= next value) = .error error := by
  cases result with
  | error fault =>
      cases h
      rfl
  | ok value =>
      rw [ok_bind] at h ⊢
      rw [h]
      rfl

theorem equality_refused (hoperator : operator.symbol = .operator text)
    (htext : text ∈ ["=", "<>", "!="])
    (hleft : scope.comparison nested tokens = .ok (left, [operator, literal]))
    (hright : RefusesRight scope left.type literal error) :
    scope.equality nested tokens = .error error := by
  simp only [Scope.equality, hleft, ok_bind, operator?_cons hoperator htext]
  exact bind_bind_eq_error (hright nested)

theorem comparison_refused {comparison : Comparison}
    (hoperator : operator.symbol = .operator text) (horders : Orders text comparison)
    (hleft : scope.negation (scope.nested (depth + 1)) tokens =
      .ok (left, [operator, literal]))
    (hright : RefusesRight scope left.type literal error) :
    scope.comparison (scope.nested (depth + 1)) tokens = .error error := by
  simp only [Scope.comparison, hleft, ok_bind, ordering?_cons hoperator horders]
  exact bind_bind_eq_error (hright (scope.nested depth))

theorem parseTokens_of_equality
    (h : scope.equality (scope.nested maxDepth) tokens = .error error) :
    parseTokens scope tokens = .error error := by
  rw [parseTokens, Scope.disjunction, Scope.connection, Scope.conjunction,
    Scope.connection, h]
  rfl

theorem parseTokens_refused (hmem : text ∈ comparisonOperators)
    (hleft : Derives scope.registry scope.root .operand (tokens.map Token.symbol) left depth)
    (hdepth : depth ≤ maxDepth) (hoperator : operator.symbol = .operator text)
    (hright : RefusesRight scope left.type literal error) :
    parseTokens scope (tokens ++ [operator, literal]) = .error error := by
  apply parseTokens_of_equality
  rcases comparisonOperators_cases hmem with hequal | ⟨comparison, horders⟩
  · have hstops : Stops .comparison [operator, literal] :=
      Avoids.cons_of_mem hoperator hequal (by decide)
    have hread := read_yields (.negation (.operand hleft)) rfl _ hstops maxDepth
    exact equality_refused hoperator hequal (hread.eq_ok hdepth) hright
  · have hstops : Stops .negation [operator, literal] :=
      Avoids.cons hoperator (by cases horders <;> decide)
    have hread := read_yields (.operand hleft) rfl _ hstops maxDepth
    have hrefused := comparison_refused hoperator horders (hread.eq_ok hdepth) hright
    rw [Scope.equality, maxDepth, hrefused]
    rfl

/-! The literal alone. -/

theorem negation_of_literal (hkind : literal.kind ≠ .operator) :
    scope.negation nested [literal] = scope.operand nested [literal] := by
  apply negation_operand
  rintro token ⟨rfl⟩ text - hsymbol
  exact hkind (congrArg Symbol.kind hsymbol)

theorem comparison_of_ok {expr : Expr ω} (hkind : literal.kind ≠ .operator)
    (h : scope.operand nested [literal] = .ok (expr, [])) :
    scope.comparison nested [literal] = .ok (expr, []) := by
  rw [Scope.comparison, negation_of_literal hkind, h]
  rfl

theorem refusesRight_of_operand {target : StaticType} (hkind : literal.kind ≠ .operator)
    (h : ∀ nested, scope.operand nested [literal] = .error error) :
    RefusesRight scope target literal error := by
  intro nested
  rw [Scope.comparison, negation_of_literal hkind, h]
  rfl

/-- A constant that cannot be coerced is refused for its type. -/
theorem refusesRight_of_coerce {target : StaticType} {value : Literal}
    {fault : Literal.CoercionFault} (hvalue : literal.symbol.Denotes value)
    (hcoerce : value.coerce target = .error fault) :
    RefusesRight scope target literal ⟨literal.offset, .coercion fault⟩ := by
  intro nested
  rw [comparison_of_ok hvalue.kind_ne_operator (operand_literal [] hvalue), ok_bind,
    coerceRight, hcoerce]
  rfl

/-- A literal that stands for no constant is refused by itself. -/
theorem exists_refusesRight {symbol : Symbol}
    (hkind : symbol.kind ∈ [.number, .true, .false, .string, .dateTime])
    (hnone : ¬ ∃ value, symbol.Denotes value) :
    ∃ cause : ParseError.Cause, cause.kind = .literal ∧
      ∀ (scope : Scope ω) (target : StaticType) (literal : Token),
        literal.symbol = symbol →
          RefusesRight scope target literal ⟨literal.offset, cause⟩ := by
  rcases symbol with ⟨kind, text⟩
  simp only [List.mem_cons, List.not_mem_nil, or_false] at hkind
  rcases hkind with rfl | rfl | rfl | rfl | rfl
  · cases hread : Decimal.parse text.toList with
    | ok number => exact (hnone ⟨_, .number hread⟩).elim
    | error cause =>
        refine ⟨.number text cause, rfl, ?_⟩
        rintro scope target ⟨_, text, offset⟩ ⟨⟩
        refine refusesRight_of_operand (by simp) fun nested => ?_
        simp only [Scope.operand, hread, fault]
  · exact (hnone ⟨_, .true⟩).elim
  · exact (hnone ⟨_, .false⟩).elim
  · exact (hnone ⟨_, .string⟩).elim
  · cases hread : Timestamp.parse text.toList with
    | ok timestamp => exact (hnone ⟨_, .dateTime hread⟩).elim
    | error cause =>
        refine ⟨.timestamp text cause, rfl, ?_⟩
        rintro scope target ⟨_, text, offset⟩ ⟨⟩
        refine refusesRight_of_operand (by simp) fun nested => ?_
        simp only [Scope.operand, hread, fault]

end Refused

/-! The texts. -/

theorem well_of_symbols {text : String}
    (h : ∀ symbol ∈ symbols text, symbol.kind ≠ .malformed) :
    ∀ token ∈ tokenize text, token.kind ≠ .malformed := by
  intro token htoken hkind
  have hsignificant : token ∈ significant (tokenize text) :=
    mem_significant.mpr ⟨htoken, by simp [hkind]⟩
  exact h token.symbol (List.mem_map_of_mem hsignificant) hkind

theorem significant_append (front back : List Token) :
    significant (front ++ back) = significant front ++ significant back :=
  List.filter_append front back

variable {registry : Registry ω} {root : HostType} {front operator : String}
  {left : Expr ω}

theorem LeftSide.endsInOperator (h : LeftSide registry root front left operator) :
    Lexeme.EndsInOperator operator front.toList := by
  obtain ⟨hmem, symbols, depth, hsymbols, hderives, -⟩ := h
  rw [symbols_eq_lexed] at hsymbols
  constructor
  · rw [hsymbols]
    refine List.forall_mem_append.mpr ⟨fun symbol hsymbol => ?_, ?_⟩
    · have hused := hderives.used symbol hsymbol
      exact ⟨hused.kind_ne_malformed, hused.ne_minus⟩
    · refine List.forall_mem_singleton.mpr ⟨nofun, ?_⟩
      rintro ⟨rfl⟩
      revert hmem
      decide
  · rw [hsymbols, List.getLast?_concat]
    rintro symbol ⟨rfl⟩
    rfl

/-- The literal is the last token, whatever literal it is. -/
theorem LeftSide.exists_tokens (h : LeftSide registry root front left operator) :
    ∃ tokens last depth, Derives registry root .operand (tokens.map Token.symbol) left depth ∧
      depth ≤ maxDepth ∧ last.symbol = .operator operator ∧
        ∀ literal : Symbol, literal.LoneLiteral →
          registry.parse root (front ++ literal.text) =
            parseTokens ⟨registry, root, (front ++ literal.text).utf8ByteSize⟩
              (tokens ++ [last, ⟨literal.kind, literal.text, front.utf8ByteSize⟩]) := by
  have hends := h.endsInOperator
  obtain ⟨hmem, symbols, depth, hsymbols, hderives, hdepth⟩ := h
  obtain ⟨all, hall, happend⟩ := exists_tokens_append
    (mem_symbolicOperators_of_comparison operator hmem) front.toList hends 0
  have hmap : (significant all).map Token.symbol = symbols ++ [.operator operator] :=
    hall.trans hsymbols
  obtain ⟨tokens, last, back, hsplit, rfl, hlast, hback⟩ := exists_infix hmap
  obtain rfl := List.map_eq_nil_iff.mp hback
  refine ⟨tokens, last, depth, hderives, hdepth, hlast, fun literal hliteral => ?_⟩
  have htokens : tokenize (front ++ literal.text) = all ++
      [⟨literal.kind, literal.text, front.utf8ByteSize⟩,
        ⟨.finish, "", (front ++ literal.text).utf8ByteSize⟩] := by
    have hshift := Cursor.toList_shift literal.text.toList front.utf8ByteSize 0
    change _ = (tokenize literal.text).map _ at hshift
    rw [hliteral.tokenize_eq, Nat.add_zero] at hshift
    rw [tokenize, Cursor.ofText, String.toList_append, happend _ hliteral.apart,
      Nat.zero_add, ← Text.utf8ByteSize_eq, hshift, String.utf8ByteSize_append]
    rfl
  have hsignificant : significant (tokenize (front ++ literal.text)) =
      tokens ++ [last, ⟨literal.kind, literal.text, front.utf8ByteSize⟩] := by
    rw [htokens, significant_append, hsplit, List.append_assoc]
    simp [significant, hliteral.kind_ne]
  have hwell : ∀ token ∈ tokenize (front ++ literal.text), token.kind ≠ .malformed := by
    apply well_of_symbols
    rw [symbols, hsignificant, List.map_append]
    refine List.forall_mem_append.mpr ⟨fun symbol hsymbol => ?_, ?_⟩
    · exact (hderives.used symbol hsymbol).kind_ne_malformed
    · simp only [List.map_cons, List.map_nil, hlast, List.forall_mem_cons]
      exact ⟨by simp [Symbol.operator], hliteral.kind_ne.1, List.forall_mem_nil _⟩
  rw [parse_eq_parseTokens hwell, hsignificant]

/-- Literals that are coerced to one constant make one filter. -/
theorem LeftSide.exists_parse (h : LeftSide registry root front left operator) :
    ∃ make : Literal → Expr ω, ∀ (literal : Symbol) (value coerced : Literal),
      literal.LoneLiteral → literal.Denotes value →
        value.coerce left.type = .ok coerced →
          registry.parse root (front ++ literal.text) = .ok (make coerced) := by
  obtain ⟨tokens, last, depth, hderives, hdepth, hlast, hparse⟩ := h.exists_tokens
  obtain ⟨make, hmake⟩ := exists_comparison h.mem hderives hdepth
  refine ⟨make, fun literal value coerced hliteral hvalue hcoerce => ?_⟩
  rw [hparse literal hliteral, parseTokens_eq_ok_iff, List.map_append, List.map_cons,
    List.map_singleton, hlast]
  exact hmake literal value coerced hvalue hcoerce

theorem LeftSide.parse_refused (h : LeftSide registry root front left operator)
    {literal : Symbol} (hliteral : literal.LoneLiteral) {cause : ParseError.Cause}
    (hright : ∀ (scope : Scope ω) token, token.symbol = literal →
      RefusesRight scope left.type token ⟨token.offset, cause⟩) :
    registry.parse root (front ++ literal.text) = .error ⟨front.utf8ByteSize, cause⟩ := by
  obtain ⟨tokens, last, depth, hderives, hdepth, hlast, hparse⟩ := h.exists_tokens
  rw [hparse literal hliteral]
  exact parseTokens_refused h.mem hderives hdepth hlast (hright _ _ rfl)

end Grammar

/-- Two texts are read as one filter if the literal decodes. If not they are refused at one
place, the first text for the literal and the second for its type. -/
inductive ReadAlike {ω : Type} (decodes : Prop) (offset : Nat) :
    Except ParseError (Expr ω) → Except ParseError (Expr ω) → Prop
  | accepted (hdecodes : decodes) (expr : Expr ω) :
      ReadAlike decodes offset (.ok expr) (.ok expr)
  | refused (hdecodes : ¬ decodes) {first second : ParseError.Cause}
      (hfirst : first.kind = .literal) (hsecond : second.kind = .typing) :
      ReadAlike decodes offset (.error ⟨offset, first⟩) (.error ⟨offset, second⟩)

open Grammar (LeftSide)

/-- Where the left operand of a comparison has the type of a literal, the literal may
stand between quotes, with blanks around it. -/
theorem readAlike_quoted {ω : Type} {registry : Registry ω} {root : HostType}
    {front operator : String} {left : Expr ω} {bare : Symbol} {inner : String}
    {quote : Char} {before after : String}
    (hleft : LeftSide registry root front left operator)
    (hquotable : Quotable left.type.value bare inner)
    (hquote : Text.Quoted.isQuote quote = true)
    (hbefore : ∀ c ∈ before.toList, Text.isBlank c = true)
    (hafter : ∀ c ∈ after.toList, Text.isBlank c = true) :
    ReadAlike (∃ value, bare.Denotes value) front.utf8ByteSize
      (registry.parse root (front ++ bare.text))
      (registry.parse root
        (front ++ (Symbol.quoted quote (before ++ inner ++ after)).text)) := by
  have hbare := hquotable.loneLiteral
  obtain ⟨hquoted, hstring⟩ := hquotable.denotes hbefore hafter hquote
  obtain ⟨read, hcoerce, hread⟩ :=
    hquotable.exists_read rfl (hquotable.trim_eq hbefore hafter)
  by_cases hdecodes : ∃ value, bare.Denotes value
  · obtain ⟨value, hvalue⟩ := hdecodes
    obtain ⟨make, hmake⟩ := hleft.exists_parse
    rw [(hread value).mpr hvalue] at hcoerce
    rw [hmake bare value value hbare hvalue (hquotable.coerce_bare rfl hvalue),
      hmake _ _ value hquoted hstring hcoerce]
    exact .accepted ⟨value, hvalue⟩ _
  · have hnone : read = none := by
      cases read with
      | none => rfl
      | some value => exact (hdecodes ⟨value, (hread value).mp rfl⟩).elim
    rw [hnone] at hcoerce
    obtain ⟨cause, hcause, hrefuses⟩ :=
      Grammar.exists_refusesRight hbare.kind_mem hdecodes
    rw [hleft.parse_refused hbare fun scope token => hrefuses scope _ token,
      hleft.parse_refused hquoted fun scope token htoken =>
        Grammar.refusesRight_of_coerce (htoken ▸ hstring) hcoerce]
    exact .refused hdecodes hcause rfl

namespace Sample

theorem leftSide_urgent :
    LeftSide orders orderType "urgent <> " (.member (.root orderType) urgentMember false)
      "<>" where
  mem := by decide
  derives := ⟨[.identifier "urgent"], 0, by decide +kernel, .path (.first rfl), by decide⟩

theorem leftSide_one :
    LeftSide orders orderType "1<" (.literal (.number ⟨1, 0, by decide, by decide⟩)) "<" where
  mem := by decide
  derives := ⟨[⟨.number, "1"⟩], 0, by decide +kernel, .literal (.number rfl), by decide⟩

/-- Thirty nines are more than a number holds. -/
def nines : Symbol :=
  ⟨.number, "999999999999999999999999999999"⟩

theorem nines_not_denotes : ¬ ∃ value, nines.Denotes value := by
  rintro ⟨value, hvalue⟩
  cases hvalue with
  | number hread => cases hread

theorem quotable_nines : Quotable .number nines nines.text := by
  have htokens : tokenize nines.text = [⟨.number, nines.text, 0⟩, ⟨.finish, "", 30⟩] := by
    decide +kernel
  have hmem : ⟨.number, nines.text, 0⟩ ∈ tokenize nines.text := by
    rw [htokens]
    exact List.mem_cons_self
  exact .number hmem

end Sample

/-- A word in other case between quotes, and a number out of range. -/
theorem readAlike_quoted_sample :
    (LeftSide Sample.orders Sample.orderType "urgent <> "
        (.member (.root Sample.orderType) Sample.urgentMember false) "<>" ∧
      Quotable .bool ⟨.true, "true"⟩ "TRUE" ∧
      ReadAlike (∃ value, Symbol.Denotes ⟨.true, "true"⟩ value) 10
        (Sample.orders.parse Sample.orderType "urgent <> true")
        (Sample.orders.parse Sample.orderType "urgent <> \"\u00a0TRUE\n\"")) ∧
    Quotable .number Sample.nines Sample.nines.text ∧
    (¬ ∃ value, Sample.nines.Denotes value) ∧
    ReadAlike (∃ value, Sample.nines.Denotes value) 2
      (Sample.orders.parse Sample.orderType "1<999999999999999999999999999999")
      (Sample.orders.parse Sample.orderType
        "1<'\u00a0999999999999999999999999999999\n'") := by
  have hbefore : ∀ c ∈ "\u00a0".toList, Text.isBlank c = true :=
    List.all_eq_true.mp (by decide +kernel)
  have hafter : ∀ c ∈ "\n".toList, Text.isBlank c = true :=
    List.all_eq_true.mp (by decide +kernel)
  have hword : Quotable .bool ⟨.true, "true"⟩ "TRUE" := .boolTrue (by decide)
  have hdouble : Text.Quoted.isQuote '"' = true := rfl
  have hsingle : Text.Quoted.isQuote '\'' = true := rfl
  have haccepted := readAlike_quoted Sample.leftSide_urgent hword hdouble hbefore hafter
  have hrefused := readAlike_quoted Sample.leftSide_one Sample.quotable_nines hsingle
    hbefore hafter
  have hbare : "1<" ++ Sample.nines.text = "1<999999999999999999999999999999" := by
    decide +kernel
  have hquoted : "1<" ++
      (Symbol.quoted '\'' ("\u00a0" ++ Sample.nines.text ++ "\n")).text =
        "1<'\u00a0999999999999999999999999999999\n'" := by
    decide +kernel
  rw [hbare, hquoted] at hrefused
  exact ⟨⟨Sample.leftSide_urgent, hword, haccepted⟩, Sample.quotable_nines,
    Sample.nines_not_denotes, hrefused⟩

end Sift
