import Sift.Proofs.Token.Operator
import Sift.Proofs.Token.Tiling

namespace Sift

/-! Words and operators are as long as they can be. -/

open Lexeme (isWordStart isWordChar operatorChars symbolicOperators)

/-- Of the entries that begin the text it is the longest. -/
structure Longest (entries : List String) (cs : List Char) (entry : String) : Prop where
  mem : entry ∈ entries
  starts : entry.toList <+: cs
  longest : ∀ other ∈ entries, other.toList <+: cs →
    other.toList.length ≤ entry.toList.length

namespace Token

/-- The token is the whole word that the text begins with, and its kind is told by the
word. -/
structure IsWord (token : Token) (cs : List Char) : Prop where
  toList_text : token.text.toList = cs.takeWhile isWordChar
  operator_iff : token.kind = .operator ↔ token.text ∈ ["in", "and", "or"]
  true_iff : token.kind = .true ↔ token.text = "true"
  false_iff : token.kind = .false ↔ token.text = "false"
  null_iff : token.kind = .null ↔ token.text = "null"
  identifier_iff : token.kind = .identifier ↔
    token.text ∉ ["in", "and", "or", "true", "false", "null"]

/-- The token is the longest symbol that the text begins with. A question mark alone is
none. -/
inductive IsSymbol (token : Token) (cs : List Char) : Prop
  | operator (hkind : token.kind = .operator)
      (hlongest : Longest symbolicOperators cs token.text)
  | none (hkind : token.kind = .malformed)
      (hnone : ∀ operator ∈ symbolicOperators, ¬ operator.toList <+: cs)
      (hlone : cs.head? = some '?' ∧ cs[1]? ≠ some '.')

theorem isWord_of_kindOfWord {token : Token} {cs : List Char}
    (htext : token.text.toList = cs.takeWhile isWordChar)
    (hkind : token.kind = Lexeme.kindOfWord token.text.toList) : token.IsWord cs := by
  have hspelled : ∀ word : String, token.text.toList = word.toList ↔ token.text = word :=
    fun word => String.toList_inj
  have hcases : token.kind = if token.text ∈ ["in", "and", "or"] then .operator
      else if token.text = "true" then .true
      else if token.text = "false" then .false
      else if token.text = "null" then .null else .identifier := by
    rw [hkind]
    simp only [Lexeme.kindOfWord, Lexeme.wordKind, Lexeme.wordOperators, hspelled,
      String.ofList_toList]
  constructor
  · exact htext
  all_goals
    rw [hcases]
    grind

end Token

namespace Cursor

variable {cs : List Char} {kind : TokenKind} {length : Nat}

theorem next_of_ne_nil (hne : cs ≠ []) (offset : Nat) :
    ∃ after, (Cursor.mk cs offset false).next =
      (some ⟨(Lexeme.front cs).kind, String.ofList (cs.take (Lexeme.front cs).length),
        offset⟩, after) := by
  simp [next, hne]

theorem next_word {c : Char} (hstart : isWordStart c = true) (cs : List Char)
    (offset : Nat) :
    ∃ token after, (Cursor.mk (c :: cs) offset false).next = (some token, after) ∧
      token.IsWord (c :: cs) := by
  have hc : isWordChar c = true := Lexeme.isWordChar_iff.mpr (.inl hstart)
  have hword : Lexeme.IsWord ((c :: cs).takeWhile isWordChar) := by
    rw [List.takeWhile_cons, if_pos hc]
    exact ⟨hstart, List.all_takeWhile⟩
  have hscan := Lexeme.scan_word hword (Lexeme.head_dropWhile isWordChar (c :: cs))
  rw [List.takeWhile_append_dropWhile] at hscan
  have hwell : (Lexeme.scan (c :: cs)).kind ≠ .malformed := by
    rw [hscan]
    rcases kindOfWord_cases ((c :: cs).takeWhile isWordChar) with h | h | h | h | h <;>
      simp [h]
  obtain ⟨after, hnext⟩ := next_of_ne_nil (List.cons_ne_nil c cs) offset
  rw [Lexeme.front_of_well hwell, hscan] at hnext
  refine ⟨_, after, hnext, ?_⟩
  have htake : (c :: cs).take ((c :: cs).takeWhile isWordChar).length =
      (c :: cs).takeWhile isWordChar :=
    (List.prefix_iff_eq_take.mp (List.takeWhile_prefix isWordChar)).symm
  apply Token.isWord_of_kindOfWord <;> simp only [htake, String.toList_ofList]

theorem next_symbol {c : Char} (hmem : c ∈ operatorChars) (halpha : c.isAlpha = false)
    (cs : List Char) (offset : Nat) :
    ∃ token after, (Cursor.mk (c :: cs) offset false).next = (some token, after) ∧
      token.IsSymbol (c :: cs) := by
  obtain ⟨after, hnext⟩ := next_of_ne_nil (List.cons_ne_nil c cs) offset
  refine ⟨_, after, hnext, ?_⟩
  have hscan := Lexeme.scan_symbol hmem halpha cs
  cases hfound : Lexeme.operator? (c :: cs) with
  | none =>
      have hnone := Lexeme.no_symbol_of_operator? hfound
      obtain ⟨hc, hhead⟩ := Lexeme.lone_of_no_symbol hmem halpha hnone
      rw [hfound] at hscan
      apply Token.IsSymbol.none
      · rw [Lexeme.front_kind, hscan]
        rfl
      · exact hnone
      · rw [List.head?_eq_getElem?] at hhead
        exact ⟨congrArg some hc, hhead⟩
  | some lexeme =>
      rw [hfound, Option.getD_some] at hscan
      have hkind := Lexeme.kind_of_operator? hfound
      have hwell : (Lexeme.scan (c :: cs)).kind ≠ .malformed := by
        rw [hscan, hkind]
        decide
      obtain ⟨operator, hoperator, rest, htext, hlength, -, hlongest⟩ :=
        Lexeme.exists_longest_of_operator? hfound
      have hsymbolic : operator ∈ symbolicOperators := by
        refine Lexeme.mem_symbolicOperators.mpr ⟨hoperator, ?_⟩
        apply Lexeme.any_isAlpha_of_head operator hoperator
        cases hchars : operator.toList with
        | nil => rfl
        | cons first others =>
            rw [hchars] at htext
            cases htext
            exact halpha
      have htake : String.ofList ((c :: cs).take lexeme.length) = operator := by
        rw [← hlength, htext, List.take_left, String.ofList_toList]
      rw [Lexeme.front_of_well hwell, hscan, htake]
      refine .operator hkind ⟨hsymbolic, ⟨rest, htext.symm⟩, fun other hother hstarts => ?_⟩
      rw [hlength]
      exact hlongest other (Lexeme.mem_symbolicOperators.mp hother).1 hstarts
        (Lexeme.isOperator_of_symbolic hother _)

end Cursor

/-- At every place of a text a word is taken to its end, and its kind is told by the whole
of it; of the symbols that begin there the longest is taken, whatever follows it. Looking at
no more characters than an operator has finds the operator that looking at all would. -/
theorem next_longest :
    (∀ c cs offset, isWordStart c = true →
      ∃ token after, (Cursor.mk (c :: cs) offset false).next = (some token, after) ∧
        token.IsWord (c :: cs)) ∧
    (∀ c cs offset, c ∈ operatorChars → c.isAlpha = false →
      ∃ token after, (Cursor.mk (c :: cs) offset false).next = (some token, after) ∧
        token.IsSymbol (c :: cs)) ∧
    ∀ cs, Lexeme.operator? cs = Lexeme.unboundedOperator? cs :=
  ⟨fun _ cs offset hstart => Cursor.next_word hstart cs offset,
    fun _ cs offset hmem halpha => Cursor.next_symbol hmem halpha cs offset,
    Lexeme.operator?_eq_unboundedOperator?⟩

/-- A word that begins as an operator does, an operator that two letters follow, and a
question mark alone. -/
theorem next_longest_mixed :
    (isWordStart 'a' = true ∧ ∃ token after,
      (Cursor.mk "and1=2".toList 0 false).next = (some token, after) ∧
        token.kind = .identifier ∧ token.text = "and1") ∧
    ('<' ∈ operatorChars ∧ '<'.isAlpha = false ∧ ∃ token after,
      (Cursor.mk "<=in".toList 7 false).next = (some token, after) ∧
        token.kind = .operator ∧ token.text = "<=") ∧
    '?' ∈ operatorChars ∧ '?'.isAlpha = false ∧ ∃ token after,
      (Cursor.mk "?in".toList 0 false).next = (some token, after) ∧
        token.kind = .malformed := by
  obtain ⟨word, afterWord, hword, hisWord⟩ :=
    next_longest.1 'a' "nd1=2".toList 0 (by decide)
  have htext : word.text = "and1" := String.toList_injective hisWord.toList_text
  obtain ⟨symbol, afterSymbol, hsymbol, hisSymbol⟩ :=
    next_longest.2.1 '<' "=in".toList 7 (by decide) (by decide)
  have hless : "<=" ∈ symbolicOperators ∧ "<=".toList <+: "<=in".toList := by decide
  have hsymbols : ∀ entry ∈ symbolicOperators, entry.toList <+: "<=in".toList →
      2 ≤ entry.toList.length → entry = "<=" := by
    decide
  obtain ⟨lone, afterLone, hlone, hisLone⟩ :=
    next_longest.2.1 '?' "in".toList 0 (by decide) (by decide)
  have hnone : ∀ entry ∈ symbolicOperators, ¬ entry.toList <+: "?in".toList := by decide
  refine ⟨⟨by decide, word, afterWord, hword, ?_, htext⟩,
    ⟨by decide, by decide, symbol, afterSymbol, hsymbol, ?_⟩,
    by decide, by decide, lone, afterLone, hlone, ?_⟩
  · rw [hisWord.identifier_iff, htext]
    decide
  · cases hisSymbol with
    | operator hkind hlongest =>
        exact ⟨hkind, hsymbols _ hlongest.mem hlongest.starts
          (hlongest.longest "<=" hless.1 hless.2)⟩
    | none _ hnone => exact (hnone "<=" hless.1 hless.2).elim
  · cases hisLone with
    | operator _ hlongest => exact (hnone _ hlongest.mem hlongest.starts).elim
    | none hkind => exact hkind

end Sift
