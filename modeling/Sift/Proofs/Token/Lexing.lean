import Sift.Proofs.Grammar.Derivation
import Sift.Proofs.Token.Lexeme

namespace Sift

/-! The symbols of a text, lexeme by lexeme, wherever the text stands. -/

namespace Cursor

theorem toList_of_some {cursor after : Cursor} {token : Token}
    (h : cursor.next = (some token, after)) : cursor.toList = token :: after.toList := by
  rw [toList]
  split
  · rename_i found hfound
    rw [h] at hfound
    cases hfound
    rfl
  · rename_i hnone
    rw [h] at hnone
    cases hnone

theorem toList_of_none {cursor after : Cursor} (h : cursor.next = (none, after)) :
    cursor.toList = [] := by
  rw [toList]
  split
  · rename_i hsome
    rw [h] at hsome
    cases hsome
  · rfl

theorem toList_finished (rest : List Char) (offset : Nat) :
    (Cursor.mk rest offset true).toList = [] :=
  toList_of_none rfl

theorem toList_nil (offset : Nat) :
    (Cursor.mk [] offset false).toList = [⟨.finish, "", offset⟩] := by
  have hnext : (Cursor.mk [] offset false).next =
      (some ⟨.finish, "", offset⟩, Cursor.mk [] offset true) := rfl
  rw [toList_of_some hnext, toList_finished]

theorem toList_of_ne_nil {rest : List Char} (hne : rest ≠ []) (offset : Nat) :
    (Cursor.mk rest offset false).toList =
      ⟨(Lexeme.front rest).kind, String.ofList (rest.take (Lexeme.front rest).length),
        offset⟩ ::
        (Cursor.mk (rest.drop (Lexeme.front rest).length)
          (offset + Text.byteLength (rest.take (Lexeme.front rest).length))
          false).toList := by
  apply toList_of_some
  simp [next, hne]

end Cursor

namespace Lexeme

theorem length_drop_front_lt {cs : List Char} (hne : cs ≠ []) :
    (cs.drop (front cs).length).length < cs.length := by
  have hfront := front_length_pos hne
  have hpos := List.length_pos_iff.mpr hne
  rw [List.length_drop]
  omega

/-- What holds at the end of a text, and before a lexeme where it holds after it, holds
throughout the text. -/
theorem front_induction {motive : List Char → Prop} (finish : motive [])
    (lexeme : ∀ cs, cs ≠ [] → motive (cs.drop (front cs).length) → motive cs)
    (cs : List Char) : motive cs := by
  generalize hlength : cs.length = length
  -- On the length of what is left: every lexeme takes a character at least.
  induction length using Nat.strongRecOn generalizing cs with
  | ind length ih =>
      by_cases hne : cs = []
      · exact hne ▸ finish
      · exact lexeme cs hne (ih _ (hlength ▸ length_drop_front_lt hne) _ rfl)

end Lexeme

open Grammar (significant symbols)

/-- The symbols of a text, of which blanks are none. -/
def lexed (cs : List Char) : List Symbol :=
  (significant (Cursor.mk cs 0 false).toList).map Token.symbol

def Symbol.visible (symbol : Symbol) : List Symbol :=
  if symbol.kind ≠ .blank ∧ symbol.kind ≠ .finish then [symbol] else []

theorem symbols_eq_lexed (text : String) : symbols text = lexed text.toList := rfl

theorem symbol_significant_cons (token : Token) (tokens : List Token) :
    (significant (token :: tokens)).map Token.symbol =
      token.symbol.visible ++ (significant tokens).map Token.symbol := by
  by_cases hkind : token.kind ≠ .blank ∧ token.kind ≠ .finish
  · have hvisible : token.symbol.visible = [token.symbol] := if_pos hkind
    rw [significant, List.filter_cons_of_pos (by simpa using hkind), hvisible]
    rfl
  · have hvisible : token.symbol.visible = [] := if_neg hkind
    rw [significant, List.filter_cons_of_neg (by simpa using hkind), hvisible]
    rfl

theorem lexed_offset (cs : List Char) (offset : Nat) :
    (significant (Cursor.mk cs offset false).toList).map Token.symbol = lexed cs := by
  induction cs using Lexeme.front_induction generalizing offset with
  | finish =>
      rw [lexed, Cursor.toList_nil, Cursor.toList_nil]
      rfl
  | lexeme cs hne ih =>
      rw [lexed, Cursor.toList_of_ne_nil hne, Cursor.toList_of_ne_nil hne,
        symbol_significant_cons, symbol_significant_cons, ih, ih]
      rfl

theorem lexed_nil : lexed [] = [] := by
  rw [lexed, Cursor.toList_nil]
  rfl

theorem lexed_of_ne_nil {cs : List Char} (hne : cs ≠ []) :
    lexed cs =
      (Symbol.mk (Lexeme.front cs).kind
        (String.ofList (cs.take (Lexeme.front cs).length))).visible ++
        lexed (cs.drop (Lexeme.front cs).length) := by
  rw [lexed, Cursor.toList_of_ne_nil hne, symbol_significant_cons, lexed_offset]
  rfl

theorem exists_front_of_mem_lexed {symbol : Symbol} {cs : List Char}
    (h : symbol ∈ lexed cs) :
    ∃ back : List Char, symbol.kind = (Lexeme.front back).kind ∧
      symbol.text = String.ofList (back.take (Lexeme.front back).length) := by
  induction cs using Lexeme.front_induction with
  | finish =>
      rw [lexed_nil] at h
      cases h
  | lexeme cs hne ih =>
      rw [lexed_of_ne_nil hne] at h
      rcases List.mem_append.mp h with h | h
      · unfold Symbol.visible at h
        split at h
        · rw [List.mem_singleton.mp h]
          exact ⟨cs, rfl, rfl⟩
        · cases h
      · exact ih h

theorem isWord_of_mem_lexed {symbol : Symbol} {cs : List Char} (h : symbol ∈ lexed cs)
    (hkind : symbol.kind = .identifier) : Lexeme.IsWord symbol.text.toList := by
  obtain ⟨back, hfront, htext⟩ := exists_front_of_mem_lexed h
  rw [hkind] at hfront
  rw [htext, String.toList_ofList]
  unfold Lexeme.front at hfront ⊢
  simp only at hfront ⊢
  split at hfront
  · cases hfront
  · rename_i hwell
    rw [if_neg hwell]
    exact Lexeme.isWord_of_word? (Lexeme.word?_of_scan hfront.symm)

/-! One lexeme in front of a text. -/

theorem lexed_append {front rest : List Char} {kind : TokenKind} (hne : front ≠ [])
    (hscan : Lexeme.scan (front ++ rest) = ⟨kind, front.length⟩)
    (hkind : kind ≠ .malformed) :
    lexed (front ++ rest) =
      (Symbol.mk kind (String.ofList front)).visible ++ lexed rest := by
  have hfront : Lexeme.front (front ++ rest) = ⟨kind, front.length⟩ := by
    simp only [Lexeme.front, hscan, if_neg hkind]
  rw [lexed_of_ne_nil (List.append_ne_nil_of_left_ne_nil hne rest), hfront,
    List.take_left, List.drop_left]

theorem lexed_drop_blanks (cs : List Char) :
    lexed (cs.drop (cs.takeWhile Text.isBlank).length) = lexed cs := by
  by_cases hzero : (cs.takeWhile Text.isBlank).length = 0
  · rw [hzero, List.drop_zero]
  · have hne : cs ≠ [] := by
      rintro rfl
      exact hzero rfl
    have hscan : Lexeme.scan cs = ⟨.blank, (cs.takeWhile Text.isBlank).length⟩ := by
      rw [Lexeme.scan_eq, Lexeme.blanks?, if_neg hzero]
      rfl
    have hfront : Lexeme.front cs = ⟨.blank, (cs.takeWhile Text.isBlank).length⟩ := by
      simp [Lexeme.front, hscan]
    rw [lexed_of_ne_nil hne, hfront]
    rfl

theorem lexed_blank {c : Char} (hblank : Text.isBlank c = true) (rest : List Char) :
    lexed (c :: rest) = lexed rest := by
  have hdrop := lexed_drop_blanks (c :: rest)
  rw [List.takeWhile_cons, hblank] at hdrop
  exact hdrop.symm.trans (lexed_drop_blanks rest)

theorem lexed_blanks {blanks : List Char} (h : ∀ c ∈ blanks, Text.isBlank c = true)
    (rest : List Char) : lexed (blanks ++ rest) = lexed rest := by
  induction blanks with
  | nil => rfl
  | cons c blanks ih =>
      obtain ⟨hc, hblanks⟩ := List.forall_mem_cons.mp h
      rw [List.cons_append, lexed_blank hc, ih hblanks]

section Operator

variable {operator : String} {c : Char} {rest : List Char}

theorem lexed_operator (hmem : operator ∈ Lexeme.operators)
    (hend : Lexeme.isOperator operator.toList rest.head? = true)
    (hlongest : ∀ longer ∈ Lexeme.operators,
      longer.toList <+: operator.toList ++ rest →
        longer.toList.length ≤ operator.toList.length) :
    lexed (operator.toList ++ rest) = Symbol.operator operator :: lexed rest := by
  have hscan := Lexeme.scan_operator hmem hend hlongest
  have hne := (Lexeme.operators_chars operator hmem).1
  rw [lexed_append hne hscan (by decide), String.ofList_toList]
  rfl

/-- The operator is the beginning of no other, and is no word. -/
theorem lexed_unextended (operator : String) (rest : List Char)
    (hmem : operator ∈ Lexeme.operators)
    (hend : operator.toList.getLast?.any Char.isAlpha = false)
    (hlongest : ∀ longer ∈ Lexeme.operators,
      operator.toList <+: longer.toList → longer = operator) :
    lexed (operator.toList ++ rest) = Symbol.operator operator :: lexed rest := by
  apply lexed_operator hmem
  · simp [Lexeme.isOperator, hend, hmem]
  · exact Lexeme.longest_of_unextended hlongest

theorem lexed_operator_before (hmem : operator ∈ Lexeme.operators)
    (hend : Lexeme.isOperator operator.toList (some c) = true)
    (hlongest : ∀ longer ∈ Lexeme.operators,
      ¬ operator.toList ++ [c] <+: longer.toList) :
    lexed (operator.toList ++ c :: rest) =
      Symbol.operator operator :: lexed (c :: rest) :=
  lexed_operator hmem hend (Lexeme.longest_before hlongest)

end Operator

/-! Words. -/

namespace Symbol

def word (name : String) : Symbol :=
  ⟨Lexeme.kindOfWord name.toList, name⟩

end Symbol

theorem kindOfWord_cases (word : List Char) :
    Lexeme.kindOfWord word = .operator ∨ Lexeme.kindOfWord word = .true ∨
      Lexeme.kindOfWord word = .false ∨ Lexeme.kindOfWord word = .null ∨
        Lexeme.kindOfWord word = .identifier := by
  unfold Lexeme.kindOfWord Lexeme.wordKind
  split
  · exact .inl rfl
  split
  · exact .inr (.inl rfl)
  split
  · exact .inr (.inr (.inl rfl))
  split
  · exact .inr (.inr (.inr (.inl rfl)))
  · exact .inr (.inr (.inr (.inr rfl)))

theorem lexed_word (name : String) {rest : List Char}
    (hname : Lexeme.IsWord name.toList) (hrest : Lexeme.EndsWord rest) :
    lexed (name.toList ++ rest) = Symbol.word name :: lexed rest := by
  have hne : name.toList ≠ [] := by
    intro hnil
    rw [hnil] at hname
    exact hname
  have hvisible : (Symbol.word name).visible = [Symbol.word name] := by
    unfold Symbol.visible Symbol.word
    rcases kindOfWord_cases name.toList with h | h | h | h | h <;> simp [h]
  have hkind : Lexeme.kindOfWord name.toList ≠ .malformed := by
    rcases kindOfWord_cases name.toList with h | h | h | h | h <;> simp [h]
  have happend := lexed_append hne (Lexeme.scan_word hname hrest) hkind
  rw [String.ofList_toList] at happend
  exact happend.trans (congrArg (· ++ lexed rest) hvisible)

end Sift
