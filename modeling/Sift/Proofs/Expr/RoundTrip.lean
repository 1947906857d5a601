import Sift.Proofs.Expr.Equality
import Sift.Proofs.Expr.Written
import Sift.Proofs.Registry.Boundary

namespace Sift

/-! Which filters are read again from what they write. -/

open Grammar

variable {ω : Type}

def keywords : List String := ["true", "false", "null", "in", "and", "or"]

theorem Symbol.kind_word_eq_identifier_iff (name : String) :
    (Symbol.word name).kind = .identifier ↔ name ∉ keywords := by
  have hlist : ∀ text : String, name.toList = text.toList ↔ name = text :=
    fun text => String.toList_inj
  simp only [Symbol.word, Lexeme.kindOfWord, Lexeme.wordKind, Lexeme.wordOperators,
    keywords, hlist, String.ofList_toList, List.mem_cons, List.not_mem_nil, or_false]
  split
  · simp [*]
  split
  · simp [*]
  split
  · simp [*]
  split
  · simp [*]
  · simp_all

theorem Symbol.word_eq_identifier {name : String} (h : name ∉ keywords) :
    Symbol.word name = .identifier name := by
  have hkind := (Symbol.kind_word_eq_identifier_iff name).mpr h
  exact congrArg (Symbol.mk · name) hkind

namespace Expr

def literals : Expr ω → List Literal
  | literal value => [value]
  | root _ => []
  | member base _ _ => base.literals
  | compare _ left right | connect _ left right => left.literals ++ right.literals
  | not operand => operand.literals

/-- How deep the written form nests. Each pair of parentheses and each negation counts,
and so does the right side of every operator but an equality. -/
def depth : Expr ω → Nat
  | literal _ | root _ | member .. => 0
  | compare comparison left right =>
      1 + max left.depth
        (if comparison.isOrdering then 1 + right.depth else right.depth)
  | connect _ left right => 1 + max left.depth (1 + right.depth)
  | not operand => 1 + operand.depth

def NonNegative (expr : Expr ω) : Prop :=
  ∀ number, Literal.number number ∈ expr.literals → 0 ≤ number.coefficient

theorem forall_number_append {first second : List Literal}
    (h : ∀ number, Literal.number number ∈ first ++ second → 0 ≤ number.coefficient) :
    (∀ number, Literal.number number ∈ first → 0 ≤ number.coefficient) ∧
      (∀ number, Literal.number number ∈ second → 0 ≤ number.coefficient) :=
  ⟨fun number hmem => h number (List.mem_append_left _ hmem),
    fun number hmem => h number (List.mem_append_right _ hmem)⟩

def AvoidsKeywords (expr : Expr ω) : Prop :=
  ∀ access ∈ expr.accesses, access.2.name ∉ keywords

end Expr

variable {registry : Registry ω} {root : HostType}

/-! The symbols of an expression derive it. -/

theorem Literal.exists_denotes (value : Literal) (hread : value.Read)
    (hnumber : ∀ number, value = .number number → 0 ≤ number.coefficient) :
    ∃ symbol : Symbol, value.symbols = [symbol] ∧ symbol.Denotes value.untyped := by
  cases value with
  | bool value =>
      cases value
      · exact ⟨_, rfl, .false⟩
      · exact ⟨_, rfl, .true⟩
  | null type => exact ⟨_, rfl, .null⟩
  | number value =>
      have hnonneg := hnumber value rfl
      have hparse := Decimal.parse_writtenMagnitude hnonneg
      refine ⟨_, ?_, .number (by rw [String.toList_ofList]; exact hparse)⟩
      rw [symbols, if_neg (by omega)]
      rfl
  | string value =>
      let written := String.ofList (Text.Quoted.encode value.toList)
      have hdenotes : (Symbol.mk .string written).Denotes
          (.string (String.ofList (Text.Quoted.decode written.toList))) :=
        .string
      rw [String.toList_ofList, Text.Quoted.decode_encode,
        String.ofList_toList] at hdenotes
      exact ⟨_, rfl, hdenotes⟩
  | timestamp value =>
      obtain ⟨text, htext⟩ := hread value rfl
      have hparse := Timestamp.parse_written htext
      exact ⟨_, rfl, .dateTime (by rw [String.toList_ofList]; exact hparse)⟩

theorem Symbol.Denotes.untyped_eq {symbol : Symbol} {value : Literal}
    (h : symbol.Denotes value) : value.untyped = value := by
  cases h <;> rfl

theorem Grammar.Path.derives_symbols {symbols : List Symbol} {expr : Expr ω}
    (h : Path registry root symbols expr) (hnames : expr.AvoidsKeywords) :
    Path registry root expr.symbols expr := by
  induction h with
  | first hmember =>
      have hname := hnames _ (List.mem_singleton_self _)
      rw [Expr.symbols, Symbol.word_eq_identifier hname]
      exact .first (Registry.lookup?_name hmember)
  | @next symbols base separator name owner member hbase hseparator howner hmember ih =>
      obtain ⟨hinner, hname⟩ := List.forall_mem_append.mp hnames
      have hpath :=
        Path.next (ih hinner) hseparator howner (Registry.lookup?_name hmember)
      have hwritten : (if decide (separator = "?.") then "?." else ".") = separator := by
        rcases hseparator with rfl | rfl <;> rfl
      rw [Expr.symbols_member _ _ hbase.ne_root, hwritten,
        Symbol.word_eq_identifier (hname _ (List.mem_singleton_self _))]
      exact hpath

theorem Grammar.Derives.toDisjunction {symbols : List Symbol} {expr : Expr ω}
    {depth : Nat} (h : Derives registry root .negation symbols expr depth) :
    Derives registry root .disjunction symbols expr depth :=
  .conjunction (.equality (.comparison (.negation h)))

theorem derives_infix {left right : List Symbol} {operator : String} {expr : Expr ω}
    {depth : Nat}
    (h : Derives registry root .disjunction (left ++ .operator operator :: right) expr
      depth) :
    Derives registry root .negation (infixSymbols left operator right) expr
      (1 + depth) := by
  rw [Nat.add_comm]
  exact .operand (.group h)

/-- The right operand, written and read again, is coerced to itself. -/
theorem Grammar.Coerced.again {target : StaticType} {read right : Expr ω}
    (h : Coerced target read right) (htyped : read.Typed registry root)
    (hnumbers : right.NonNegative)
    (hread : read.NonNegative →
      Derives registry root .negation read.symbols read read.depth) :
    ∃ again, Derives registry root .negation right.symbols again right.depth ∧
      Coerced target again right := by
  cases h with
  | @literal value coerced hcoerce =>
      obtain ⟨symbol, hliteral⟩ := htyped.exists_denotes
      obtain ⟨written, hwritten, hdenotes⟩ :=
        coerced.exists_denotes (hliteral.read.coerce hcoerce) fun number heq =>
          hnumbers number (by rw [heq]; exact List.mem_singleton_self _)
      refine ⟨.literal coerced.untyped, ?_,
        .literal (Literal.coerce_untyped hliteral.untyped_eq hcoerce)⟩
      rw [Expr.symbols, hwritten]
      exact .operand (.literal hdenotes)
  | other hother => exact ⟨_, hread hnumbers, .other hother⟩

theorem derives_compare {comparison : Comparison} {left right again : Expr ω}
    (hcomparison : comparison ≠ .ne)
    (hleft : Derives registry root .negation left.symbols left left.depth)
    (hright : Derives registry root .negation right.symbols again right.depth)
    (hcoerced : Coerced left.type again right) :
    Derives registry root .negation (Expr.compare comparison left right).symbols
      (.compare comparison left right) (Expr.compare comparison left right).depth := by
  have hordering : ∀ {text}, Orders text comparison →
      Derives registry root .disjunction
        (left.symbols ++ .operator text :: right.symbols)
        (.compare comparison left right) (max left.depth (1 + right.depth)) := by
    intro text horders
    rw [Nat.add_comm]
    exact .conjunction (.equality (.comparison
      (.ordering hleft horders (.negation hright) hcoerced)))
  apply derives_infix
  cases comparison with
  | eq =>
      exact .conjunction (.equality
        (.equal (.negation hleft) (by decide) (.negation hright) hcoerced))
  | ne => exact (hcomparison rfl).elim
  | lt => exact hordering .lt
  | le => exact hordering .le
  | gt => exact hordering .gt
  | ge => exact hordering .ge

theorem derives_connect {connective : Connective} {left right : Expr ω}
    (hleft : Derives registry root .negation left.symbols left left.depth)
    (hleftBool : left.type.value = .bool)
    (hright : Derives registry root .negation right.symbols right right.depth)
    (hrightBool : right.type.value = .bool) :
    Derives registry root .negation (Expr.connect connective left right).symbols
      (.connect connective left right) (Expr.connect connective left right).depth := by
  apply derives_infix
  rw [Nat.add_comm 1]
  cases connective with
  | and =>
      exact .conjunction (.and (.comparison (.negation hleft)) hleftBool (by decide)
        (.equality (.comparison (.negation hright))) hrightBool)
  | or =>
      exact .or (.equality (.comparison (.negation hleft))) hleftBool (by decide)
        hright.toDisjunction hrightBool

theorem Expr.Typed.derives {expr : Expr ω} (h : expr.Typed registry root)
    (hnumbers : expr.NonNegative) (hnames : expr.AvoidsKeywords) :
    Derives registry root .negation expr.symbols expr expr.depth := by
  induction h with
  | @literal symbol value hliteral =>
      obtain ⟨written, hwritten, hdenotes⟩ :=
        value.exists_denotes hliteral.read fun number heq =>
          hnumbers number (by rw [heq]; exact List.mem_singleton_self _)
      rw [hliteral.untyped_eq] at hdenotes
      rw [Expr.symbols, hwritten]
      exact .operand (.literal hdenotes)
  | path hpath =>
      obtain ⟨base, read, nullSafe, rfl⟩ := hpath.exists_member
      exact .operand (.path (hpath.derives_symbols hnames))
  | compare hcomparison _ hread hcoerced ihleft ihread =>
      obtain ⟨hleftNames, hrightNames⟩ := List.forall_mem_append.mp hnames
      rw [hcoerced.accesses_eq] at hrightNames
      obtain ⟨hleftNumbers, hrightNumbers⟩ := Expr.forall_number_append hnumbers
      obtain ⟨again, hagain, hcoercedAgain⟩ := hcoerced.again hread hrightNumbers
        fun hnumbers => ihread hnumbers hrightNames
      exact derives_compare hcomparison (ihleft hleftNumbers hleftNames) hagain
        hcoercedAgain
  | connect _ hleftBool _ hrightBool ihleft ihright =>
      obtain ⟨hleftNames, hrightNames⟩ := List.forall_mem_append.mp hnames
      obtain ⟨hleftNumbers, hrightNumbers⟩ := Expr.forall_number_append hnumbers
      exact derives_connect (ihleft hleftNumbers hleftNames) hleftBool
        (ihright hrightNumbers hrightNames) hrightBool
  | not hoperand hbool ih =>
      rw [Expr.depth, Nat.add_comm]
      exact .not (ih hnumbers hnames) hbool

/-! What a derivation of the symbols tells about the expression. -/

theorem Literal.names_symbols (value : Literal) : Symbol.names value.symbols = [] := by
  cases value with
  | bool value => cases value <;> rfl
  | null type => rfl
  | number value =>
      rw [symbols]
      split <;> rfl
  | string value => rfl
  | timestamp value => rfl

theorem Symbol.names_word (name : String) :
    Symbol.names [.word name] = [name].filter (· ∉ keywords) := by
  by_cases hname : name ∈ keywords
  · have hkind : (Symbol.word name).kind ≠ .identifier := by
      rw [Ne, kind_word_eq_identifier_iff, not_not]
      exact hname
    simp [names, hkind, hname]
  · rw [word_eq_identifier hname]
    simp [hname]

theorem names_infixSymbols (left right : List Symbol) (operator : String) :
    Symbol.names (infixSymbols left operator right) =
      Symbol.names left ++ Symbol.names right := by
  simp [infixSymbols]

/-- The names among the symbols are those of the members, without the keywords. -/
theorem Expr.names_symbols (expr : Expr ω) :
    Symbol.names expr.symbols =
      (expr.accesses.map fun access => access.2.name).filter (· ∉ keywords) := by
  induction expr with
  | literal value => exact value.names_symbols
  | root host => rfl
  | member base read nullSafe ih =>
      have hlast : ∀ separator : String,
          Symbol.names [.operator separator, .word read.name] =
            [read.name].filter (· ∉ keywords) :=
        fun separator => (Symbol.names_operator _ _).trans (Symbol.names_word _)
      rw [Expr.accesses, List.map_append, List.filter_append, ← ih]
      by_cases hroot : ∃ host, base = .root host
      · obtain ⟨host, rfl⟩ := hroot
        exact Symbol.names_word _
      · rw [Expr.symbols_member _ _ fun host heq => hroot ⟨host, heq⟩,
          Symbol.names_append, hlast]
        rfl
  | compare comparison left right ihleft ihright
  | connect connective left right ihleft ihright =>
      rw [Expr.symbols, names_infixSymbols, ihleft, ihright, Expr.accesses,
        List.map_append, List.filter_append]
  | not operand ih =>
      rw [Expr.symbols, Symbol.names_operator]
      exact ih

theorem Expr.avoidsKeywords_of_length {expr : Expr ω}
    (h : (Symbol.names expr.symbols).length = expr.accesses.length) :
    expr.AvoidsKeywords := by
  have hlength : (expr.accesses.map fun access => access.2.name).length =
      expr.accesses.length :=
    List.length_map _
  rw [Expr.names_symbols, ← hlength, List.length_filter_eq_length_iff] at h
  intro access haccess
  simpa using h access.2.name (List.mem_map_of_mem haccess)

theorem minus_mem_symbols {expr : Expr ω} {number : Decimal}
    (h : Literal.number number ∈ expr.literals) (hnegative : number.coefficient < 0) :
    Symbol.operator "-" ∈ expr.symbols := by
  induction expr with
  | literal value =>
      rw [← List.mem_singleton.mp h, Expr.symbols, Literal.symbols, if_pos hnegative]
      exact List.mem_cons_self
  | root host => cases h
  | member base read nullSafe ih =>
      by_cases hroot : ∃ host, base = .root host
      · obtain ⟨host, rfl⟩ := hroot
        cases h
      · rw [Expr.symbols_member _ _ fun host heq => hroot ⟨host, heq⟩]
        exact List.mem_append_left _ (ih h)
  | compare comparison left right ihleft ihright
  | connect connective left right ihleft ihright =>
      have hinfix : Symbol.operator "-" ∈ left.symbols ∨
          Symbol.operator "-" ∈ right.symbols :=
        (List.mem_append.mp h).imp ihleft ihright
      rcases hinfix with hleft | hright
      · simp [Expr.symbols, infixSymbols, hleft]
      · simp [Expr.symbols, infixSymbols, hright]
  | not operand ih => exact List.mem_cons_of_mem _ (ih h)

theorem Grammar.Used.ne_minus {symbol : Symbol} (h : Used symbol) :
    symbol ≠ .operator "-" := by
  rintro rfl
  cases h with
  | literal hliteral => cases hliteral
  | operator hmem => exact absurd hmem (by decide)

theorem nonNegative_of_used {expr : Expr ω} (h : ∀ symbol ∈ expr.symbols, Used symbol) :
    expr.NonNegative := by
  intro number hmem
  by_contra hnegative
  exact (h _ (minus_mem_symbols hmem (by omega))).ne_minus rfl

/-! Filters that have been read. -/

theorem namesWords_of_parse {text : String} {expr : Expr ω}
    (h : registry.parse root text = .ok expr) : expr.NamesWords := by
  obtain ⟨-, depth, -, hderives⟩ := parse_eq_ok_iff.mp h
  intro access haccess
  obtain ⟨name, hname, hsame⟩ := hderives.names.exists_name haccess
  obtain ⟨symbol, hsymbol, rfl⟩ := List.mem_map.mp hname
  obtain ⟨hlexed, hkind⟩ := List.mem_filter.mp hsymbol
  exact Lexeme.isWord_of_sameName hsame
    (isWord_of_mem_lexed hlexed (of_decide_eq_true hkind))

theorem symbols_text {text : String} {expr : Expr ω}
    (h : registry.parse root text = .ok expr) : symbols expr.text = expr.symbols := by
  obtain ⟨-, depth, -, hderives⟩ := parse_eq_ok_iff.mp h
  have hlexes := hderives.typed.lexes (namesWords_of_parse h) [] endsOperand_nil
  rw [lexed_nil, List.append_nil, List.append_nil] at hlexes
  rw [symbols_eq_lexed, Expr.text, String.toList_ofList, hlexes]

/-- A filter is read again from what it writes, and writes the same again, exactly if
it has no negative number and no member named by a keyword, and its written form nests
no deeper than the grammar allows. -/
theorem parse_text_iff [HostObject ω] {text : String} {expr : Expr ω}
    (h : registry.parse root text = .ok expr) :
    (∃ again, registry.parse root expr.text = .ok again ∧ (again == expr) = true ∧
      again.text = expr.text) ↔
    (∀ number, Literal.number number ∈ expr.literals → 0 ≤ number.coefficient) ∧
      (∀ access ∈ expr.accesses,
        access.2.name ∉ ["true", "false", "null", "in", "and", "or"]) ∧
      expr.depth ≤ maxDepth := by
  have hsymbols := symbols_text h
  obtain ⟨hbool, firstDepth, -, hfirst⟩ := parse_eq_ok_iff.mp h
  have hderives := hfirst.typed.derives
  constructor
  · rintro ⟨again, hparse, hequal, -⟩
    obtain ⟨-, depth, hdepth, hagain⟩ := parse_eq_ok_iff.mp hparse
    rw [hsymbols] at hagain
    have hnumbers := nonNegative_of_used hagain.used
    -- A member named by a keyword would leave fewer identifiers than members.
    have hcount : (Symbol.names expr.symbols).length = expr.accesses.length :=
      hagain.names.length_eq.trans (Expr.length_accesses_of_beq hequal)
    have hnames := Expr.avoidsKeywords_of_length hcount
    have hunique := (hderives hnumbers hnames).toDisjunction.unique hagain
    exact ⟨hnumbers, hnames, hunique.2 ▸ hdepth⟩
  · rintro ⟨hnumbers, hnames, hdepth⟩
    have hagain := (hderives hnumbers hnames).toDisjunction
    rw [← hsymbols] at hagain
    exact ⟨expr, parse_eq_ok_iff.mpr ⟨hbool, _, hdepth, hagain⟩, expr.beq_self, rfl⟩

theorem parse_text_iff_sample :
    Sample.orders.parse Sample.orderType "customer?.NAME = 'Ann' or !Urgent" =
        .ok Sample.filter ∧
      ∃ again, Sample.orders.parse Sample.orderType Sample.filter.text = .ok again ∧
        (again == Sample.filter) = true ∧ again.text = Sample.filter.text := by
  refine ⟨Sample.parse_filter, (parse_text_iff Sample.parse_filter).mpr ⟨?_, ?_, ?_⟩⟩
  · intro number hmem
    cases List.mem_singleton.mp hmem
  · decide
  · decide

end Sift
