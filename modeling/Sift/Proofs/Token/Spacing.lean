import Sift.Proofs.Token.Lookahead
import Sift.Proofs.Token.Tiling

namespace Sift

/-! Lexemes that are set apart by blanks are read one by one. -/

/-- The text is a token of the kind when nothing else stands beside it. -/
def Symbol.Alone (symbol : Symbol) : Prop :=
  symbol.kind ≠ .malformed ∧ symbol.kind ≠ .blank ∧
    (tokenize symbol.text).map Token.kind = [symbol.kind, .finish]

instance : DecidablePred Symbol.Alone :=
  fun _ => inferInstanceAs (Decidable (_ ∧ _ ∧ _))

def IsGap (text : String) : Prop :=
  text ≠ "" ∧ text.toList.all Text.isBlank = true

instance : DecidablePred IsGap :=
  fun _ => inferInstanceAs (Decidable (_ ∧ _))

/-- The lexemes with a gap after each of them but the last. -/
def spaced : List Symbol → List String → List Symbol
  | first :: second :: lexemes, gap :: gaps =>
      first :: ⟨.blank, gap⟩ :: spaced (second :: lexemes) gaps
  | lexemes, _ => lexemes

def joined (symbols : List Symbol) : String :=
  String.join (symbols.map Symbol.text)

namespace Lexeme

theorem not_joins_of_isBlank {c : Char} (h : Text.isBlank c = true) : ¬ Joins c := by
  rintro (hword | hmark)
  · rcases isWordChar_iff.mp hword with hstart | hdigit
    · cases h.symm.trans (isBlank_of_isWordStart hstart)
    · cases h.symm.trans (isBlank_of_isDigit hdigit)
  · have hmarks : ['.', ':', '+', '-', '=', '>'].all (fun c => !Text.isBlank c) = true := by
      decide
    simpa [h] using List.all_eq_true.mp hmarks c hmark

theorem kind_scan_of_isBlank {c : Char} (h : Text.isBlank c = true) (cs : List Char) :
    (scan (c :: cs)).kind = .blank := by
  simp [scan_eq, blanks?, h]

theorem meets_of_isBlank {other : List Char}
    (h : ∀ c ∈ other.head?, Text.isBlank c = true) : Meets [] other :=
  .inr fun c hc => not_joins_of_isBlank (h c hc)

end Lexeme

namespace Symbol.Alone

variable {symbol : Symbol} (h : symbol.Alone)

include h

theorem toList_ne_nil : symbol.text.toList ≠ [] := by
  intro hnil
  have hkinds := h.2.2
  rw [tokenize, Cursor.ofText, hnil, Cursor.toList_nil] at hkinds
  simp at hkinds

theorem front_eq :
    (Lexeme.front symbol.text.toList).kind = symbol.kind ∧
      symbol.text.toList.drop (Lexeme.front symbol.text.toList).length = [] := by
  have hkinds := h.2.2
  rw [tokenize, Cursor.ofText, Cursor.toList_of_ne_nil h.toList_ne_nil, List.map_cons,
    List.cons.injEq] at hkinds
  refine ⟨hkinds.1, ?_⟩
  by_contra hne
  have hsecond := hkinds.2
  rw [Cursor.toList_of_ne_nil hne, List.map_cons, List.cons.injEq] at hsecond
  exact Lexeme.front_kind_ne_finish _ hsecond.1

/-- The lexeme is the same when blanks follow it. -/
theorem scan_append {rest : List Char} (hrest : ∀ c ∈ rest.head?, Text.isBlank c = true) :
    Lexeme.scan (symbol.text.toList ++ rest) =
      ⟨symbol.kind, symbol.text.toList.length⟩ := by
  obtain ⟨hkind, hdrop⟩ := h.front_eq
  have hwell : (Lexeme.scan symbol.text.toList).kind ≠ .malformed := by
    rw [← Lexeme.front_kind, hkind]
    exact h.1
  rw [Lexeme.front_of_well hwell] at hkind hdrop
  rcases hscan : Lexeme.scan symbol.text.toList with ⟨kind, length⟩
  rw [hscan] at hwell hdrop hkind
  obtain rfl : kind = symbol.kind := hkind
  obtain ⟨front, back, hsplit, rfl, hsettled⟩ := Lexeme.scan_settled hscan hwell
  obtain rfl : back = [] := by rwa [hsplit, List.drop_left] at hdrop
  rw [List.append_nil] at hsplit
  rw [hsplit]
  apply hsettled rest (Lexeme.meets_of_isBlank hrest)
  · rintro - hhyphen
    have hblank := hrest '-' hhyphen
    revert hblank
    decide
  · exact fun hblank => (h.2.1 hblank).elim

theorem head_not_blank :
    ∀ c ∈ symbol.text.toList.head?, Text.isBlank c = false := by
  intro c hc
  obtain ⟨others, hothers⟩ := List.head?_eq_some_iff.mp hc
  have hscan : Lexeme.scan (symbol.text.toList ++ []) = ⟨symbol.kind, _⟩ :=
    h.scan_append nofun
  rw [List.append_nil, hothers] at hscan
  by_contra hblank
  have hkind := Lexeme.kind_scan_of_isBlank (Bool.of_not_eq_false hblank) others
  rw [hscan] at hkind
  exact h.2.1 hkind

end Symbol.Alone

/-! One token, and those of the text after it. -/

theorem symbols_append {front rest : String} {kind : TokenKind} (hne : front.toList ≠ [])
    (hscan : Lexeme.scan (front.toList ++ rest.toList) = ⟨kind, front.toList.length⟩)
    (hkind : kind ≠ .malformed) :
    (tokenize (front ++ rest)).map Token.symbol =
      ⟨kind, front⟩ :: (tokenize rest).map Token.symbol := by
  rw [tokenize_append hne hscan hkind, List.map_cons, List.map_map]
  rfl

theorem Symbol.Alone.symbols_append {symbol : Symbol} (h : symbol.Alone) {rest : String}
    (hrest : ∀ c ∈ rest.toList.head?, Text.isBlank c = true) :
    (tokenize (symbol.text ++ rest)).map Token.symbol =
      symbol :: (tokenize rest).map Token.symbol :=
  Sift.symbols_append h.toList_ne_nil (h.scan_append hrest) h.1

theorem IsGap.toList_ne_nil {gap : String} (h : IsGap gap) : gap.toList ≠ [] :=
  fun hnil => h.1 (String.toList_eq_nil_iff.mp hnil)

theorem IsGap.isBlank_of_mem {gap : String} (h : IsGap gap) :
    ∀ c ∈ gap.toList, Text.isBlank c = true :=
  List.all_eq_true.mp h.2

theorem IsGap.symbols_append {gap : String} (h : IsGap gap) {rest : String}
    (hrest : ∀ c ∈ rest.toList.head?, Text.isBlank c = false) :
    (tokenize (gap ++ rest)).map Token.symbol =
      ⟨.blank, gap⟩ :: (tokenize rest).map Token.symbol :=
  Sift.symbols_append h.toList_ne_nil
    (Lexeme.scan_blanks h.toList_ne_nil h.isBlank_of_mem hrest) (by decide)

section Spaced

variable {lexemes : List Symbol} {gaps : List String}

theorem joined_cons (symbol : Symbol) (symbols : List Symbol) :
    joined (symbol :: symbols) = symbol.text ++ joined symbols := by
  rw [joined, List.map_cons, String.join_cons, joined]

theorem head_append {front : String} (hne : front.toList ≠ []) (rest : String) :
    (front ++ rest).toList.head? = front.toList.head? := by
  rw [String.toList_append, List.head?_append_of_ne_nil _ hne]

theorem spaced_cons (first : Symbol) (lexemes : List Symbol) (gaps : List String) :
    ∃ others, spaced (first :: lexemes) gaps = first :: others := by
  unfold spaced
  split
  · rename_i heq
    cases heq
    exact ⟨_, rfl⟩
  · exact ⟨_, rfl⟩

/-- Lexemes with blanks between them are read as they are: none is split, joined to its
neighbour or taken for something else. -/
theorem tokenize_spaced (hlexemes : ∀ lexeme ∈ lexemes, lexeme.Alone)
    (hgaps : ∀ gap ∈ gaps, IsGap gap) (hlength : lexemes.length ≤ gaps.length + 1) :
    (tokenize (joined (spaced lexemes gaps))).map Token.symbol =
      spaced lexemes gaps ++ [⟨.finish, ""⟩] := by
  fun_induction spaced lexemes gaps with
  | case1 first second lexemes gap gaps ih =>
      obtain ⟨hfirst, hothers⟩ := List.forall_mem_cons.mp hlexemes
      obtain ⟨hgap, hgaps⟩ := List.forall_mem_cons.mp hgaps
      have hsecond := hothers second List.mem_cons_self
      obtain ⟨others, hspaced⟩ := spaced_cons second lexemes gaps
      rw [joined_cons, joined_cons, hfirst.symbols_append, hgap.symbols_append,
        ih hothers hgaps (by simpa using hlength)]
      · rfl
      · rw [hspaced, joined_cons, head_append hsecond.toList_ne_nil]
        exact hsecond.head_not_blank
      · rw [head_append hgap.toList_ne_nil]
        exact fun c hc => hgap.isBlank_of_mem c (List.mem_of_mem_head? hc)
  | case2 lexemes gaps hshort =>
      rcases lexemes with _ | ⟨last, _ | ⟨second, lexemes⟩⟩
      · exact congrArg (List.map Token.symbol) (Cursor.toList_nil 0)
      · have hlast := hlexemes last List.mem_cons_self
        have hrest : ∀ c ∈ (joined []).toList.head?, Text.isBlank c = true := nofun
        rw [joined_cons, hlast.symbols_append hrest]
        exact congrArg (last :: List.map Token.symbol ·) (Cursor.toList_nil 0)
      · cases gaps with
        | nil => simp at hlength
        | cons gap gaps => exact (hshort _ _ _ _ _ rfl rfl).elim

end Spaced

theorem tokenize_spaced_mixed :
    ((∀ lexeme ∈ ([⟨.dateTime, "2019-01-01"⟩, ⟨.operator, "or"⟩, ⟨.number, "7"⟩,
          ⟨.string, "'a b'"⟩] : List Symbol), lexeme.Alone) ∧
        ∀ gap ∈ ["\t", " \u00a0", "\n"], IsGap gap) ∧
      (tokenize "2019-01-01\tor \u00a07\n'a b'").map Token.symbol =
        [⟨.dateTime, "2019-01-01"⟩, ⟨.blank, "\t"⟩, ⟨.operator, "or"⟩, ⟨.blank, " \u00a0"⟩,
          ⟨.number, "7"⟩, ⟨.blank, "\n"⟩, ⟨.string, "'a b'"⟩, ⟨.finish, ""⟩] := by
  have hlexemes : ∀ lexeme ∈ ([⟨.dateTime, "2019-01-01"⟩, ⟨.operator, "or"⟩,
      ⟨.number, "7"⟩, ⟨.string, "'a b'"⟩] : List Symbol), lexeme.Alone := by
    decide +kernel
  have hgaps : ∀ gap ∈ ["\t", " \u00a0", "\n"], IsGap gap := by decide +kernel
  exact ⟨⟨hlexemes, hgaps⟩, tokenize_spaced hlexemes hgaps (by decide)⟩

end Sift
