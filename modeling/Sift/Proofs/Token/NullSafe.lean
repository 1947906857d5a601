import Sift.Proofs.Token.Lookahead
import Sift.Proofs.Token.Tiling

namespace Sift

open Grammar (significant symbols)

/-! Dots of a text made null-safe. -/

/-- The token itself, or the null-safe dot in place of a chosen dot. -/
def Token.nullSafe (chosen : Token → Bool) (token : Token) : Token :=
  if token.isOperator "." && chosen token then { token with text := "?." } else token

/-- The text with the chosen ones of its dots null-safe, and all else as it was. -/
def nullSafe (chosen : Token → Bool) (text : String) : String :=
  String.join ((tokenize text).map fun token => (token.nullSafe chosen).text)

variable {chosen : Token → Bool}

theorem Token.kind_nullSafe (token : Token) :
    (token.nullSafe chosen).kind = token.kind := by
  unfold nullSafe
  split <;> rfl

theorem Token.nullSafe_cases (chosen : Token → Bool) (token : Token) :
    (token.symbol = .operator "." ∧ (token.nullSafe chosen).symbol = .operator "?.") ∨
      token.nullSafe chosen = token := by
  unfold nullSafe
  split
  · rename_i h
    have hdot := Symbol.isOperator_iff.mp (Bool.and_eq_true_iff.mp h).1
    have hkind : token.kind = .operator := congrArg Symbol.kind hdot
    exact .inl ⟨hdot, by rw [symbol, hkind]; rfl⟩
  · exact .inr rfl

namespace Cursor

/-- The characters from a place on, the chosen dots null-safe. -/
def nullSafeRest (chosen : Token → Bool) (cs : List Char) (offset : Nat) : List Char :=
  (Cursor.mk cs offset false).toList.flatMap fun token =>
    (token.nullSafe chosen).text.toList

theorem nullSafeRest_nil (offset : Nat) : nullSafeRest chosen [] offset = [] := by
  rw [nullSafeRest, toList_nil]
  rfl

/-- Only a question mark may begin what did not begin so. -/
theorem head_nullSafeRest (chosen : Token → Bool) (cs : List Char) (offset : Nat) :
    (nullSafeRest chosen cs offset).head? = cs.head? ∨
      ∀ c ∈ (nullSafeRest chosen cs offset).head?, c = '?' := by
  cases cs with
  | nil => exact .inl (by rw [nullSafeRest_nil])
  | cons c cs =>
      have hne : c :: cs ≠ [] := List.cons_ne_nil c cs
      obtain ⟨length, hlength⟩ :=
        Nat.exists_eq_add_one_of_ne_zero (Lexeme.front_length_pos hne).ne'
      rw [nullSafeRest, toList_of_ne_nil hne, List.flatMap_cons, hlength]
      generalize htoken : Token.mk _ (String.ofList _) offset = token
      rcases token.nullSafe_cases chosen with ⟨-, hsafe⟩ | hsame
      · right
        have htext : (token.nullSafe chosen).text = "?." := congrArg Symbol.text hsafe
        intro c hc
        rw [htext] at hc
        cases hc
        rfl
      · left
        rw [hsame, ← htoken, String.toList_ofList]
        rfl

end Cursor

open Cursor (nullSafeRest)

theorem lexed_nullSafe_append (chosen : Token → Bool) {front rest : List Char}
    {kind : TokenKind} (hne : front ≠ [])
    (hscan : Lexeme.scan (front ++ rest) = ⟨kind, front.length⟩) (hkind : kind ≠ .malformed)
    (offset : Nat) {token : Token} (htoken : token = ⟨kind, String.ofList front, offset⟩) :
    lexed ((token.nullSafe chosen).text.toList ++ rest) =
      (token.nullSafe chosen).symbol.visible ++ lexed rest := by
  rcases token.nullSafe_cases chosen with ⟨-, hsafe⟩ | hsame
  · have htext : (token.nullSafe chosen).text = "?." := congrArg Symbol.text hsafe
    rw [htext, hsafe]
    exact lexed_unextended "?." rest (by decide) (by decide) (by decide)
  · rw [hsame, htoken, String.toList_ofList]
    exact lexed_append hne hscan hkind

theorem head_ne_hyphen {cs : List Char} (h : ∀ symbol ∈ lexed cs, symbol ≠ .operator "-") :
    cs.head? ≠ some '-' := by
  intro hhead
  obtain ⟨rest, rfl⟩ := List.head?_eq_some_iff.mp hhead
  have hlexed := lexed_unextended "-" rest (by decide) (by decide) (by decide)
  exact h (.operator "-") (hlexed ▸ List.mem_cons_self) rfl

theorem scan_kind_ne_malformed {cs : List Char} (hne : cs ≠ [])
    (h : ∀ symbol ∈ lexed cs, symbol.kind ≠ .malformed) :
    (Lexeme.scan cs).kind ≠ .malformed := by
  intro hmalformed
  rw [lexed_of_ne_nil hne, Lexeme.front_kind, hmalformed] at h
  exact h _ List.mem_cons_self rfl

/-- The lexeme before a dot stays when the dot is made null-safe. -/
theorem scan_nullSafeRest (chosen : Token → Bool) {cs : List Char}
    (hkind : (Lexeme.scan cs).kind ≠ .malformed) :
    ∃ front rest, cs = front ++ rest ∧ front.length = (Lexeme.scan cs).length ∧
      (rest.head? ≠ some '-' → ∀ offset,
        Lexeme.scan (front ++ nullSafeRest chosen rest offset) = Lexeme.scan cs) := by
  rcases hscan : Lexeme.scan cs with ⟨kind, length⟩
  rw [hscan] at hkind
  obtain ⟨front, rest, hcs, hlength, hsettled⟩ := Lexeme.scan_settled hscan hkind
  refine ⟨front, rest, hcs, hlength, fun hhyphen offset => ?_⟩
  have hhead := Cursor.head_nullSafeRest chosen rest offset
  apply hsettled
  · refine hhead.imp_right fun hmark c hc => ?_
    rw [hmark c hc]
    decide
  · intro _ hother
    rcases hhead with hsame | hmark
    · exact hhyphen (hsame.symm.trans hother)
    · exact absurd (hmark _ hother) (by decide)
  · intro _
    refine hhead.imp_right fun hmark c hc => ?_
    rw [hmark c hc]
    decide

/-- Only the chosen dots change, unless a hyphen after a number could make it a date. -/
theorem lexed_nullSafeRest (chosen : Token → Bool) (cs : List Char) (offset : Nat)
    (h : ∀ symbol ∈ lexed cs, symbol.kind ≠ .malformed ∧ symbol ≠ .operator "-") :
    lexed (nullSafeRest chosen cs offset) =
      (significant ((Cursor.mk cs offset false).toList.map (Token.nullSafe chosen))).map
        Token.symbol := by
  induction cs using Lexeme.front_induction generalizing offset with
  | finish =>
      rw [Cursor.nullSafeRest_nil, lexed_nil, Cursor.toList_nil]
      rfl
  | lexeme cs hne ih =>
      have hkind := scan_kind_ne_malformed hne fun symbol hsymbol => (h symbol hsymbol).1
      have hpos := Lexeme.scan_length_pos cs
      obtain ⟨front, rest, rfl, hlength, hsettled⟩ := scan_nullSafeRest chosen hkind
      rw [← hlength] at hpos
      have hfront : front ≠ [] := List.length_pos_iff.mp hpos
      have hscan : Lexeme.scan (front ++ rest) =
          ⟨(Lexeme.scan (front ++ rest)).kind, front.length⟩ := by rw [hlength]
      rw [Lexeme.front_of_well hkind, ← hlength, List.drop_left] at ih
      rw [lexed_append hfront hscan hkind] at h
      obtain ⟨-, hrest⟩ := List.forall_mem_append.mp h
      have hhyphen := head_ne_hyphen fun symbol hsymbol => (hrest symbol hsymbol).2
      rw [nullSafeRest, Cursor.toList_append hfront hscan hkind, List.map_cons,
        List.flatMap_cons, symbol_significant_cons, ← ih _ hrest, ← nullSafeRest]
      exact lexed_nullSafe_append chosen hfront ((hsettled hhyphen _).trans hscan) hkind
        offset rfl

/-- The same symbol, or a null-safe dot for a dot. -/
inductive Symbol.Safer : Symbol → Symbol → Prop
  | same (symbol : Symbol) : Safer symbol symbol
  | dot : Safer (.operator ".") (.operator "?.")

theorem Token.safer_nullSafe (chosen : Token → Bool) (token : Token) :
    token.symbol.Safer (token.nullSafe chosen).symbol := by
  rcases token.nullSafe_cases chosen with ⟨hdot, hsafe⟩ | hsame
  · rw [hdot, hsafe]
    exact .dot
  · rw [hsame]
    exact .same token.symbol

theorem significant_map_nullSafe (chosen : Token → Bool) (tokens : List Token) :
    significant (tokens.map (Token.nullSafe chosen)) =
      (significant tokens).map (Token.nullSafe chosen) := by
  simp only [significant, List.filter_map, Function.comp_def, Token.kind_nullSafe]

theorem toList_nullSafe (chosen : Token → Bool) (text : String) :
    (nullSafe chosen text).toList = nullSafeRest chosen text.toList 0 := by
  rw [nullSafe, String.toList_join, List.flatMap_map]
  rfl

theorem symbols_nullSafe (chosen : Token → Bool) {text : String}
    (h : ∀ symbol ∈ symbols text, symbol.kind ≠ .malformed ∧ symbol ≠ .operator "-") :
    List.Forall₂ Symbol.Safer (symbols text) (symbols (nullSafe chosen text)) := by
  rw [symbols_eq_lexed (nullSafe chosen text), toList_nullSafe,
    lexed_nullSafeRest chosen text.toList 0 h, significant_map_nullSafe, List.map_map]
  rw [symbols, List.forall₂_map_left_iff, List.forall₂_map_right_iff]
  exact List.forall₂_same.mpr fun token _ => token.safer_nullSafe chosen

end Sift
