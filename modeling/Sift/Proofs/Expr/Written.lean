import Sift.Expr.Written
import Sift.Proofs.Expr.Typed
import Sift.Proofs.Literal.Coercion
import Sift.Proofs.Token.Lexing

namespace Sift

/-! The symbols of the written form of an expression. -/

open Grammar (Path Coerced)

/-- The sign of a negative number is a symbol of its own. -/
def Literal.symbols : Literal → List Symbol
  | bool value => [.word (if value then "true" else "false")]
  | number value =>
      (if value.coefficient < 0 then [.operator "-"] else []) ++
        [⟨.number, String.ofList
          (Decimal.writtenMagnitude value.coefficient.natAbs value.scale)⟩]
  | string value => [⟨.string, String.ofList (Text.Quoted.encode value.toList)⟩]
  | timestamp value => [⟨.dateTime, String.ofList value.written⟩]
  | null _ => [.word "null"]

def infixSymbols (left : List Symbol) (operator : String) (right : List Symbol) :
    List Symbol :=
  .operator "(" :: (left ++ .operator operator :: right) ++ [.operator ")"]

def Expr.symbols {ω : Type} : Expr ω → List Symbol
  | literal value => value.symbols
  | root _ => []
  | member (root _) read _ => [.word read.name]
  | member base read nullSafe =>
      base.symbols ++
        [.operator (if nullSafe then "?." else "."), .word read.name]
  | compare comparison left right =>
      infixSymbols left.symbols comparison.text right.symbols
  | connect connective left right =>
      infixSymbols left.symbols connective.text right.symbols
  | not operand => .operator "!" :: operand.symbols

/-! What may follow an operand in a written expression. -/

def EndsOperand (rest : List Char) : Prop :=
  ∀ c ∈ rest.head?, c = ' ' ∨ c = ')'

variable {rest : List Char}

theorem EndsOperand.endsWord (h : EndsOperand rest) : Lexeme.EndsWord rest := by
  intro c hc
  rcases h c hc with rfl | rfl <;> rfl

theorem EndsOperand.endsNumeral (h : EndsOperand rest) : Lexeme.EndsNumeral rest := by
  intro c hc
  rcases h c hc with rfl | rfl <;> decide

theorem endsOperand_nil : EndsOperand [] := by
  intro c hc
  cases hc

theorem endsOperand_blank (rest : List Char) : EndsOperand (' ' :: rest) := by
  intro c hc
  cases hc
  exact .inl rfl

theorem endsOperand_closing (rest : List Char) : EndsOperand (')' :: rest) := by
  intro c hc
  cases hc
  exact .inr rfl

/-- The text has the symbols, however the expression around it goes on. -/
def Lexes (written : List Char) (symbols : List Symbol) : Prop :=
  ∀ rest, EndsOperand rest → lexed (written ++ rest) = symbols ++ lexed rest

/-! Constants. -/

theorem lexes_magnitude (magnitude scale : Nat) :
    Lexes (Decimal.writtenMagnitude magnitude scale)
      [⟨.number, String.ofList (Decimal.writtenMagnitude magnitude scale)⟩] := by
  intro rest hrest
  obtain ⟨whole, fraction, hwhole, hne, hfraction, -, -, hwritten⟩ :=
    Decimal.writtenMagnitude_eq_numeral magnitude scale
  have hscan := Lexeme.scan_numeral hwhole hne hfraction hrest.endsNumeral
  have hnumeral : Decimal.numeral whole fraction ≠ [] :=
    List.append_ne_nil_of_left_ne_nil hne _
  rw [hwritten]
  exact lexed_append hnumeral hscan (by decide)

theorem lexes_number (value : Decimal) :
    Lexes value.written (Literal.number value).symbols := by
  intro rest hrest
  have hmagnitude := lexes_magnitude value.coefficient.natAbs value.scale rest hrest
  by_cases hnegative : value.coefficient < 0
  · rw [Decimal.written, Literal.symbols, if_pos hnegative, if_pos hnegative,
      List.append_assoc, List.append_assoc, ← hmagnitude]
    exact lexed_unextended "-" _ (by decide) (by decide) (by decide)
  · rw [Decimal.written, Literal.symbols, if_neg hnegative, if_neg hnegative]
    exact hmagnitude

theorem Literal.lexes (value : Literal) (hread : value.Read) :
    Lexes value.written value.symbols := by
  intro rest hrest
  cases value with
  | bool value =>
      cases value
      · exact lexed_word "false" (by decide +kernel) hrest.endsWord
      · exact lexed_word "true" (by decide +kernel) hrest.endsWord
  | null type => exact lexed_word "null" (by decide +kernel) hrest.endsWord
  | number value => exact lexes_number value rest hrest
  | string value =>
      have hscan := Lexeme.scan_encode value.toList rest
      exact lexed_append (List.cons_ne_nil _ _) hscan (by decide)
  | timestamp value =>
      obtain ⟨text, htext⟩ := hread value rfl
      obtain ⟨written, hwritten⟩ := Timestamp.exists_read?_written htext rest
      have hpos := Timestamp.Written.length_pos_of_read? hwritten
      exact lexed_append (List.length_pos_iff.mp hpos) (Lexeme.scan_dateTime hwritten)
        (by decide)

/-! Operands in parentheses. -/

theorem lexed_infixOperator {operator : String} {rest : List Char}
    (hoperator : operator ∈ ["=", "!=", "<", "<=", ">", ">=", "and", "or"]) :
    lexed (operator.toList ++ ' ' :: rest) = Symbol.operator operator :: lexed rest := by
  have hbefore : ∀ operator ∈ ["=", "!=", "<", "<=", ">", ">=", "and", "or"],
      operator ∈ Lexeme.operators ∧
        Lexeme.isOperator operator.toList (some ' ') = true ∧
          ∀ longer ∈ Lexeme.operators, ¬ operator.toList ++ [' '] <+: longer.toList := by
    decide
  obtain ⟨hmem, hend, hlongest⟩ := hbefore operator hoperator
  rw [lexed_operator_before hmem hend hlongest, lexed_blank (by decide)]

theorem lexes_writtenInfix {left right : List Char} {operator : String}
    {leftSymbols rightSymbols : List Symbol} (hleft : Lexes left leftSymbols)
    (hoperator : operator ∈ ["=", "!=", "<", "<=", ">", ">=", "and", "or"])
    (hright : Lexes right rightSymbols) :
    Lexes (Expr.writtenInfix left operator right)
      (infixSymbols leftSymbols operator rightSymbols) := by
  intro rest hrest
  have hclosing : lexed (')' :: rest) = .operator ")" :: lexed rest :=
    lexed_unextended ")" rest (by decide) (by decide) (by decide)
  have hopening : ∀ back, lexed ('(' :: back) = .operator "(" :: lexed back :=
    fun back => lexed_unextended "(" back (by decide) (by decide) (by decide)
  simp only [Expr.writtenInfix, List.append_assoc, List.cons_append, List.nil_append]
  rw [hopening, hleft _ (endsOperand_blank _), lexed_blank (by decide),
    lexed_infixOperator hoperator, hright _ (endsOperand_closing _), hclosing]
  simp [infixSymbols]

/-! Members. -/

variable {ω : Type} {registry : Registry ω} {root : HostType}

theorem lexed_separator (nullSafe : Bool) (rest : List Char) :
    lexed ((if nullSafe then "?." else ".").toList ++ rest) =
      .operator (if nullSafe then "?." else ".") :: lexed rest := by
  cases nullSafe
  · exact lexed_unextended "." rest (by decide) (by decide) (by decide)
  · exact lexed_unextended "?." rest (by decide) (by decide) (by decide)

theorem Lexeme.endsWord_separator (nullSafe : Bool) (rest : List Char) :
    Lexeme.EndsWord ((if nullSafe then "?." else ".").toList ++ rest) := by
  intro c hc
  cases nullSafe <;> cases hc <;> rfl

def Expr.NamesWords (expr : Expr ω) : Prop :=
  ∀ access ∈ expr.accesses, Lexeme.IsWord access.2.name.toList

section Member

variable {base : Expr ω} (read : Member ω) (nullSafe : Bool)
  (hbase : ∀ host, base ≠ .root host)

include hbase

theorem Expr.written_member :
    (member base read nullSafe).written =
      base.written ++ (if nullSafe then "?." else ".").toList ++ read.name.toList := by
  rw [written]
  exact hbase

theorem Expr.symbols_member :
    (member base read nullSafe).symbols =
      base.symbols ++
        [.operator (if nullSafe then "?." else "."), .word read.name] := by
  rw [symbols]
  exact hbase

end Member

theorem Grammar.Path.ne_root {symbols : List Symbol} {expr : Expr ω}
    (h : Path registry root symbols expr) (host : HostType) : expr ≠ .root host := by
  obtain ⟨base, read, nullSafe, rfl⟩ := h.exists_member
  nofun

theorem Grammar.Path.lexed_written {symbols : List Symbol} {expr : Expr ω}
    (h : Path registry root symbols expr) (hwords : expr.NamesWords)
    (hrest : Lexeme.EndsWord rest) :
    lexed (expr.written ++ rest) = expr.symbols ++ lexed rest := by
  induction h generalizing rest with
  | first hmember => exact lexed_word _ (hwords _ (List.mem_singleton_self _)) hrest
  | @next symbols base separator name owner member hbase hseparator howner hmember ih =>
      obtain ⟨hinner, hname⟩ := List.forall_mem_append.mp hwords
      rw [Expr.written_member _ _ hbase.ne_root, Expr.symbols_member _ _ hbase.ne_root,
        List.append_assoc, List.append_assoc,
        List.append_assoc, ih hinner (Lexeme.endsWord_separator _ _), lexed_separator,
        lexed_word _ (hname _ (List.mem_singleton_self _)) hrest]
      rfl

/-! Negations. -/

/-- The text begins, and not with an equals sign, which would go with a `!`. -/
def BeginsOperand (written : List Char) : Prop :=
  ∃ c cs, written = c :: cs ∧ c ≠ '='

theorem BeginsOperand.append {written : List Char} (h : BeginsOperand written)
    (rest : List Char) : BeginsOperand (written ++ rest) := by
  obtain ⟨c, cs, rfl, hc⟩ := h
  exact ⟨c, cs ++ rest, rfl, hc⟩

theorem beginsOperand_of_isDigit {c : Char} (h : c.isDigit = true) (cs : List Char) :
    BeginsOperand (c :: cs) := by
  refine ⟨c, cs, rfl, ?_⟩
  rintro rfl
  cases h

theorem beginsOperand_of_isWord {word : List Char} (h : Lexeme.IsWord word) :
    BeginsOperand word := by
  cases word with
  | nil => exact h.elim
  | cons c cs =>
      refine ⟨c, cs, rfl, ?_⟩
      rintro rfl
      cases h.1

theorem Literal.beginsOperand (value : Literal) (hread : value.Read) :
    BeginsOperand value.written := by
  cases value with
  | bool value => cases value <;> exact ⟨_, _, rfl, by decide⟩
  | null type => exact ⟨_, _, rfl, by decide⟩
  | string value => exact ⟨_, _, rfl, by decide⟩
  | number value =>
      obtain ⟨whole, fraction, hwhole, hne, -, -, -, hwritten⟩ :=
        Decimal.writtenMagnitude_eq_numeral value.coefficient.natAbs value.scale
      obtain ⟨first, others, rfl⟩ := List.exists_cons_of_ne_nil hne
      rw [written, Decimal.written, hwritten]
      split
      · exact ⟨_, _, rfl, by decide⟩
      · exact beginsOperand_of_isDigit (hwhole first List.mem_cons_self) _
  | timestamp value =>
      obtain ⟨text, htext⟩ := hread value rfl
      obtain ⟨written, hwritten⟩ := Timestamp.exists_read?_written htext []
      rw [List.append_nil] at hwritten
      have hpos := Timestamp.Written.length_pos_of_read? hwritten
      obtain ⟨c, cs, hcons⟩ := List.exists_cons_of_length_pos hpos
      rw [hcons] at hwritten
      change BeginsOperand value.written
      rw [hcons]
      exact beginsOperand_of_isDigit (Lexeme.isDigit_of_read? hwritten) cs

theorem Grammar.Path.beginsOperand {symbols : List Symbol} {expr : Expr ω}
    (h : Path registry root symbols expr) (hwords : expr.NamesWords) :
    BeginsOperand expr.written := by
  induction h with
  | first hmember => exact beginsOperand_of_isWord (hwords _ (List.mem_singleton_self _))
  | next hbase hseparator howner hmember ih =>
      obtain ⟨hinner, -⟩ := List.forall_mem_append.mp hwords
      rw [Expr.written_member _ _ hbase.ne_root, List.append_assoc]
      exact (ih hinner).append _

theorem Symbol.Denotes.read {symbol : Symbol} {value : Literal}
    (h : symbol.Denotes value) : value.Read := by
  intro timestamp heq
  cases h <;> cases heq
  exact ⟨_, ‹_›⟩

theorem Expr.Typed.beginsOperand {expr : Expr ω} (h : expr.Typed registry root)
    (hwords : expr.NamesWords) : BeginsOperand expr.written := by
  cases h with
  | literal hliteral => exact Literal.beginsOperand _ hliteral.read
  | path hpath => exact hpath.beginsOperand hwords
  | compare | connect | not => exact ⟨_, _, rfl, by decide⟩

theorem lexes_not {written : List Char} {symbols : List Symbol}
    (hbegins : BeginsOperand written) (h : Lexes written symbols) :
    Lexes ('!' :: written) (.operator "!" :: symbols) := by
  intro rest hrest
  obtain ⟨c, cs, rfl, hc⟩ := hbegins
  have hstart : ∀ longer ∈ Lexeme.operators, longer.toList.head? = some '!' →
      longer = "!" ∨ longer = "!=" := by
    decide
  have hlongest : ∀ longer ∈ Lexeme.operators, ¬ "!".toList ++ [c] <+: longer.toList := by
    rintro longer hlonger hstarts
    have hhead : longer.toList.head? = some '!' := by
      obtain ⟨back, hback⟩ := hstarts
      rw [← hback]
      rfl
    rcases hstart longer hlonger hhead with rfl | rfl
    · simp at hstarts
    · exact hc (by simpa using hstarts)
  have hnot : lexed ("!".toList ++ c :: (cs ++ rest)) =
      .operator "!" :: lexed (c :: (cs ++ rest)) :=
    lexed_operator_before (by decide) rfl hlongest
  exact hnot.trans (congrArg (Symbol.operator "!" :: ·) (h rest hrest))

/-! The whole expression. -/

theorem Grammar.Coerced.lexes {target : StaticType} {read right : Expr ω}
    (h : Coerced target read right) (htyped : read.Typed registry root)
    (hread : Lexes read.written read.symbols) : Lexes right.written right.symbols := by
  cases h with
  | literal hcoerce =>
      obtain ⟨symbol, hliteral⟩ := htyped.exists_denotes
      exact Literal.lexes _ (hliteral.read.coerce hcoerce)
  | other => exact hread

theorem Expr.Typed.lexes {expr : Expr ω} (h : expr.Typed registry root)
    (hwords : expr.NamesWords) : Lexes expr.written expr.symbols := by
  induction h with
  | literal hliteral => exact Literal.lexes _ hliteral.read
  | path hpath => exact fun rest hrest => hpath.lexed_written hwords hrest.endsWord
  | @compare comparison left read right hcomparison hleft hread hcoerced ihleft ihread =>
      obtain ⟨hleftWords, hrightWords⟩ := List.forall_mem_append.mp hwords
      rw [hcoerced.accesses_eq] at hrightWords
      refine lexes_writtenInfix (ihleft hleftWords) ?_
        (hcoerced.lexes hread (ihread hrightWords))
      cases comparison <;> decide
  | @connect connective left right hleft _ hright _ ihleft ihright =>
      obtain ⟨hleftWords, hrightWords⟩ := List.forall_mem_append.mp hwords
      refine lexes_writtenInfix (ihleft hleftWords) ?_ (ihright hrightWords)
      cases connective <;> decide
  | not hoperand hbool ih => exact lexes_not (hoperand.beginsOperand hwords) (ih hwords)

end Sift
