import Mathlib.Data.List.Chain
import Sift.Proofs.Token.Lexing

namespace Sift

/-! The tokens of a text, one after another, are the text. -/

namespace Text

theorem utf8ByteSize_ofList (cs : List Char) :
    (String.ofList cs).utf8ByteSize = byteLength cs := by
  induction cs with
  | nil => rfl
  | cons c cs ih =>
      rw [String.ofList_cons, String.utf8ByteSize_append, String.utf8ByteSize_singleton, ih]
      rfl

theorem utf8ByteSize_eq (text : String) : text.utf8ByteSize = byteLength text.toList := by
  rw [← utf8ByteSize_ofList, String.ofList_toList]

theorem byteLength_eq_zero {cs : List Char} : byteLength cs = 0 ↔ cs = [] := by
  cases cs with
  | nil => simp
  | cons c cs =>
      have hpos := c.utf8Size_pos
      rw [byteLength_cons]
      simp
      omega

theorem append_inj_of_byteLength {front back otherFront otherBack : List Char}
    (h : front ++ back = otherFront ++ otherBack)
    (hlength : byteLength front = byteLength otherFront) :
    front = otherFront ∧ back = otherBack := by
  rcases List.append_eq_append_iff.mp h with ⟨between, rfl, rfl⟩ | ⟨between, rfl, rfl⟩
  · rw [byteLength_append] at hlength
    obtain rfl := byteLength_eq_zero.mp (by omega : byteLength between = 0)
    simp
  · rw [byteLength_append] at hlength
    obtain rfl := byteLength_eq_zero.mp (by omega : byteLength between = 0)
    simp

end Text

/-! Runs of malformed lexemes and of blanks are as long as can be, so neighbouring lexemes
are not both malformed, nor both blank. -/

namespace Lexeme

/-- Blanks are read by their rule alone, and no rule reads the end of a text. -/
theorem scan_cases (cs : List Char) :
    blanks? cs = some (scan cs) ∨ (scan cs).kind ≠ .blank ∧ (scan cs).kind ≠ .finish := by
  by_cases hmalformed : (scan cs).kind = .malformed
  · exact .inr (by simp [hmalformed])
  rcases exists_rule hmalformed with
    ⟨hrule, -⟩ | ⟨-, hkind⟩ | ⟨-, hkind⟩ | ⟨-, hkind⟩ | ⟨-, word, hkind⟩ | ⟨-, hkind⟩
  · exact .inl hrule
  · simp [hkind]
  · simp [hkind]
  · simp [hkind]
  · rcases wordKind_cases word with hword | hword | hword | hword <;> simp [hkind, hword]
  · simp [hkind]

theorem front_kind (cs : List Char) : (front cs).kind = (scan cs).kind := by
  rw [front]
  split
  · exact Eq.symm ‹_›
  · rfl

theorem front_kind_ne_finish (cs : List Char) : (front cs).kind ≠ .finish := by
  rw [front_kind]
  rcases scan_cases cs with hblanks | ⟨-, hfinish⟩
  · rw [kind_of_blanks? hblanks]
    decide
  · exact hfinish

theorem front_of_malformed {cs : List Char} (h : (scan cs).kind = .malformed) :
    (front cs).length = malformedRun cs := by
  simp only [front, h, if_true]

theorem front_of_well {cs : List Char} (h : (scan cs).kind ≠ .malformed) :
    front cs = scan cs :=
  if_neg h

theorem scan_drop_malformedRun {cs : List Char} (hne : cs.drop (malformedRun cs) ≠ []) :
    (scan (cs.drop (malformedRun cs))).kind ≠ .malformed := by
  fun_induction malformedRun cs with
  | case1 => exact (hne rfl).elim
  | case2 cs hcs lexeme hkind ih =>
      rw [← List.drop_drop] at hne ⊢
      exact ih hne
  | case3 cs hcs lexeme hkind => exact hkind

theorem scan_drop_blanks {cs : List Char} (h : blanks? cs = some (scan cs)) :
    (scan (cs.drop (scan cs).length)).kind ≠ .blank := by
  have hlength : (scan cs).length = (cs.takeWhile Text.isBlank).length := by
    simp only [blanks?] at h
    split at h
    · cases h
    · exact congrArg length (Option.some.inj h).symm
  rw [hlength, drop_length_takeWhile]
  have hhead := List.head?_dropWhile_not Text.isBlank cs
  rcases scan_cases (cs.dropWhile Text.isBlank) with hblanks | ⟨hblank, -⟩
  · cases hrest : cs.dropWhile Text.isBlank with
    | nil =>
        rw [hrest] at hblanks
        cases hblanks
    | cons c rest =>
        rw [hrest] at hblanks hhead
        rw [blanks?_eq_none hhead] at hblanks
        cases hblanks
  · exact hblank

theorem front_kind_drop {cs : List Char} (hne : cs.drop (front cs).length ≠ [])
    (hkind : (front cs).kind = (front (cs.drop (front cs).length)).kind) :
    (front cs).kind ≠ .malformed ∧ (front cs).kind ≠ .blank := by
  rw [front_kind (cs.drop _)] at hkind
  by_cases hmalformed : (scan cs).kind = .malformed
  · rw [front_of_malformed hmalformed] at hne hkind
    rw [front_kind, hmalformed] at hkind
    exact (scan_drop_malformedRun hne hkind.symm).elim
  · rw [front_of_well hmalformed] at hkind ⊢
    refine ⟨hmalformed, fun hblank => ?_⟩
    rcases scan_cases cs with hblanks | ⟨hnot, -⟩
    · exact scan_drop_blanks hblanks (hkind.symm.trans hblank)
    · exact hnot hblank

end Lexeme

/-- A token is a lexeme where its text begins. -/
theorem exists_scan_of_mem_tokenize {source : String} {token : Token}
    (h : token ∈ tokenize source) (hwell : token.kind ≠ .malformed)
    (hvisible : token.kind ≠ .blank ∧ token.kind ≠ .finish) :
    ∃ rest, (Lexeme.scan rest).kind = token.kind ∧
      token.text.toList = rest.take (Lexeme.scan rest).length := by
  have hsymbol : token.symbol ∈ lexed source.toList := by
    rw [← symbols_eq_lexed]
    exact List.mem_map_of_mem (List.mem_filter.mpr ⟨h, by simpa using hvisible⟩)
  obtain ⟨rest, hfront, htext⟩ := exists_front_of_mem_lexed hsymbol
  change token.kind = _ at hfront
  change token.text = _ at htext
  rw [Lexeme.front_kind] at hfront
  rw [Lexeme.front_of_well (hfront ▸ hwell)] at htext
  exact ⟨rest, hfront.symm, by rw [htext, String.toList_ofList]⟩

/-- The same token with more of the text before it. -/
def Token.shift (token : Token) (count : Nat) : Token :=
  { token with offset := count + token.offset }

/-! The tokens from a place in a text to its end. -/

namespace Cursor

variable {cs : List Char} {offset : Nat} {before after : List Token} {token : Token}

theorem toList_append {front rest : List Char} {kind : TokenKind} (hne : front ≠ [])
    (hscan : Lexeme.scan (front ++ rest) = ⟨kind, front.length⟩) (hkind : kind ≠ .malformed)
    (offset : Nat) :
    (Cursor.mk (front ++ rest) offset false).toList =
      ⟨kind, String.ofList front, offset⟩ ::
        (Cursor.mk rest (offset + Text.byteLength front) false).toList := by
  have hwell : (Lexeme.scan (front ++ rest)).kind ≠ .malformed := hscan ▸ hkind
  rw [toList_of_ne_nil (List.append_ne_nil_of_left_ne_nil hne rest),
    Lexeme.front_of_well hwell, hscan, List.take_left, List.drop_left]

theorem toList_shift (cs : List Char) (count offset : Nat) :
    (Cursor.mk cs (count + offset) false).toList =
      (Cursor.mk cs offset false).toList.map fun token => token.shift count := by
  induction cs using Lexeme.front_induction generalizing offset with
  | finish =>
      rw [toList_nil, toList_nil]
      rfl
  | lexeme cs hne ih =>
      rw [toList_of_ne_nil hne, toList_of_ne_nil hne, Nat.add_assoc, ih]
      rfl

theorem offset_of_toList_eq_cons
    (h : (Cursor.mk cs offset false).toList = token :: after) : token.offset = offset := by
  by_cases hne : cs = []
  · obtain rfl := hne
    rw [toList_nil] at h
    cases h
    rfl
  · rw [toList_of_ne_nil hne] at h
    cases h
    rfl

/-- The tokens before a token are the text before it, and those from it on are the
tokens of the text from there on. -/
theorem exists_append_of_toList_eq
    (h : (Cursor.mk cs offset false).toList = before ++ token :: after) :
    ∃ front rest, cs = front ++ rest ∧ token.offset = offset + Text.byteLength front ∧
      (before.map Token.length).sum = Text.byteLength front ∧
        (Cursor.mk rest token.offset false).toList = token :: after := by
  induction before generalizing cs offset with
  | nil =>
      have hoffset := offset_of_toList_eq_cons h
      exact ⟨[], cs, rfl, hoffset, rfl, hoffset ▸ h⟩
  | cons first before ih =>
      by_cases hne : cs = []
      · obtain rfl := hne
        rw [toList_nil] at h
        cases before <;> cases h
      · rw [toList_of_ne_nil hne, List.cons_append] at h
        obtain ⟨hfirst, hafter⟩ := List.cons.inj h
        obtain ⟨front, rest, hdrop, hoffset, hsum, hrest⟩ := ih hafter
        refine ⟨cs.take (Lexeme.front cs).length ++ front, rest, ?_, ?_, ?_, hrest⟩
        · rw [List.append_assoc, ← hdrop, List.take_append_drop]
        · rw [hoffset, Text.byteLength_append, Nat.add_assoc]
        · rw [List.map_cons, List.sum_cons, hsum, Text.byteLength_append, ← hfirst,
            Token.length, Text.utf8ByteSize_ofList]

theorem join_toList (cs : List Char) (offset : Nat) :
    String.join ((Cursor.mk cs offset false).toList.map Token.text) = String.ofList cs := by
  induction cs using Lexeme.front_induction generalizing offset with
  | finish =>
      rw [toList_nil]
      rfl
  | lexeme cs hne ih =>
      rw [toList_of_ne_nil hne, List.map_cons, String.join_cons, ih,
        ← String.ofList_append, List.take_append_drop]

theorem exists_pieces (cs : List Char) (offset : Nat) :
    ∃ pieces, (Cursor.mk cs offset false).toList =
        pieces ++ [⟨.finish, "", offset + Text.byteLength cs⟩] ∧
      ∀ token ∈ pieces, token.kind ≠ .finish ∧ token.text ≠ "" := by
  induction cs using Lexeme.front_induction generalizing offset with
  | finish => exact ⟨[], toList_nil offset, List.forall_mem_nil _⟩
  | lexeme cs hne ih =>
      obtain ⟨pieces, hpieces, hproper⟩ :=
        ih (offset + Text.byteLength (cs.take (Lexeme.front cs).length))
      rw [toList_of_ne_nil hne, hpieces, Nat.add_assoc, ← Text.byteLength_append,
        List.take_append_drop]
      refine ⟨_ :: pieces, rfl, List.forall_mem_cons.mpr ⟨⟨?_, ?_⟩, hproper⟩⟩
      · exact Lexeme.front_kind_ne_finish cs
      · have hpos := Lexeme.front_length_pos hne
        intro hempty
        have hnil := congrArg String.toList hempty
        rw [String.toList_ofList] at hnil
        rcases List.take_eq_nil_iff.mp hnil with hzero | hcs
        · omega
        · exact hne hcs

theorem isChain_toList (cs : List Char) (offset : Nat) :
    (Cursor.mk cs offset false).toList.IsChain fun first second =>
      first.kind = second.kind → first.kind ≠ .malformed ∧ first.kind ≠ .blank := by
  induction cs using Lexeme.front_induction generalizing offset with
  | finish =>
      rw [toList_nil]
      exact .singleton _
  | lexeme cs hne ih =>
      rw [toList_of_ne_nil hne, List.isChain_cons]
      refine ⟨?_, ih _⟩
      intro next hnext hkind
      by_cases hrest : cs.drop (Lexeme.front cs).length = []
      · rw [hrest, toList_nil] at hnext
        cases hnext
        exact (Lexeme.front_kind_ne_finish cs hkind).elim
      · rw [toList_of_ne_nil hrest] at hnext
        cases hnext
        exact Lexeme.front_kind_drop hrest hkind

/-! Asking for one token after another. -/

/-- The place after a number of tokens have been asked for. -/
def advance (cursor : Cursor) : Nat → Cursor
  | 0 => cursor
  | count + 1 => cursor.next.2.advance count

theorem eq_of_next_eq_none {cursor after : Cursor} (h : cursor.next = (none, after)) :
    after = cursor := by
  unfold next at h
  split at h
  · exact (congrArg Prod.snd h).symm
  split at h <;> cases h

theorem next_advance (cursor : Cursor) (count : Nat) :
    (cursor.advance count).next.1 = cursor.toList[count]? := by
  induction count generalizing cursor with
  | zero =>
      rcases hnext : cursor.next with ⟨_ | token, after⟩
      · rw [toList_of_none hnext, advance, hnext]
        rfl
      · rw [toList_of_some hnext, advance, hnext]
        rfl
  | succ count ih =>
      rcases hnext : cursor.next with ⟨_ | token, after⟩
      · have hafter := eq_of_next_eq_none hnext
        rw [advance, hnext, ih, hafter, toList_of_none hnext]
        rfl
      · rw [advance, hnext, ih, toList_of_some hnext, List.getElem?_cons_succ]

end Cursor

/-- The tokens are the text, cut where they meet. -/
structure Tiling (text : String) (tokens : List Token) : Prop where
  join_eq : String.join (tokens.map Token.text) = text
  placed {before after : List Token} {token : Token} :
    tokens = before ++ token :: after →
      token.offset = (before.map Token.length).sum ∧
        ∃ front back, text = front ++ token.text ++ back ∧
          front.utf8ByteSize = token.offset
  finish : ∃ pieces, tokens = pieces ++ [⟨.finish, "", text.utf8ByteSize⟩] ∧
    ∀ token ∈ pieces, token.kind ≠ .finish ∧ token.text ≠ ""
  apart : tokens.IsChain fun first second =>
    first.kind = second.kind → first.kind ≠ .malformed ∧ first.kind ≠ .blank

theorem tiling_tokenize (text : String) : Tiling text (tokenize text) where
  join_eq := by
    rw [tokenize, Cursor.ofText, Cursor.join_toList, String.ofList_toList]
  placed {before after token} h := by
    obtain ⟨front, rest, hsplit, hoffset, hsum, hrest⟩ :=
      Cursor.exists_append_of_toList_eq h
    rw [Nat.zero_add] at hoffset
    refine ⟨hoffset.trans hsum.symm, String.ofList front,
      String.join (after.map Token.text), ?_, ?_⟩
    · have hjoin := Cursor.join_toList rest token.offset
      rw [hrest, List.map_cons, String.join_cons] at hjoin
      rw [String.append_assoc, hjoin, ← String.ofList_append, ← hsplit,
        String.ofList_toList]
    · rw [Text.utf8ByteSize_ofList, hoffset]
  finish := by
    obtain ⟨pieces, hpieces, hproper⟩ := Cursor.exists_pieces text.toList 0
    rw [Nat.zero_add, ← Text.utf8ByteSize_eq] at hpieces
    exact ⟨pieces, hpieces, hproper⟩
  apart := Cursor.isChain_toList text.toList 0

theorem tokenize_back {text front back : String} {before after : List Token}
    {token : Token} (htokens : tokenize text = before ++ token :: after)
    (htext : text = front ++ back) (hfront : front.utf8ByteSize = token.offset) :
    token :: after = (tokenize back).map fun piece => piece.shift token.offset := by
  obtain ⟨start, rest, hsplit, hoffset, -, hrest⟩ :=
    Cursor.exists_append_of_toList_eq htokens
  rw [htext, String.toList_append] at hsplit
  rw [Text.utf8ByteSize_eq, hoffset, Nat.zero_add] at hfront
  obtain ⟨-, rfl⟩ := Text.append_inj_of_byteLength hsplit hfront
  exact hrest.symm.trans (Cursor.toList_shift back.toList token.offset 0)

/-- A lexeme in front of a text is a token before those of the text. -/
theorem tokenize_append {front rest : String} {kind : TokenKind} (hne : front.toList ≠ [])
    (hscan : Lexeme.scan (front.toList ++ rest.toList) = ⟨kind, front.toList.length⟩)
    (hkind : kind ≠ .malformed) :
    tokenize (front ++ rest) = ⟨kind, front, 0⟩ ::
      (tokenize rest).map fun token => token.shift front.utf8ByteSize := by
  rw [tokenize, Cursor.ofText, String.toList_append, Cursor.toList_append hne hscan hkind,
    String.ofList_toList, Nat.add_comm, ← Text.utf8ByteSize_eq, Cursor.toList_shift]
  rfl

/-- The tokens of a text tile it, are what asking for one token after another gives, and
from any of them on are the tokens of the text from there on. -/
theorem tokenize_tiles (text : String) :
    Tiling text (tokenize text) ∧
    (∀ count, ((Cursor.ofText text).advance count).next.1 = (tokenize text)[count]?) ∧
    ∀ before token after front back, tokenize text = before ++ token :: after →
      text = front ++ back → front.utf8ByteSize = token.offset →
        token :: after = (tokenize back).map fun piece => piece.shift token.offset :=
  ⟨tiling_tokenize text, Cursor.next_advance (Cursor.ofText text),
    fun _ _ _ _ _ => tokenize_back⟩

theorem tokenize_tiles_sample :
    (tokenize "é a" =
        [⟨.malformed, "é", 0⟩, ⟨.blank, " ", 2⟩] ++ ⟨.identifier, "a", 3⟩ ::
          [⟨.finish, "", 4⟩] ∧
      "é a" = "é " ++ "a" ∧ "é ".utf8ByteSize = 3) ∧
    [⟨.identifier, "a", 3⟩, ⟨.finish, "", 4⟩] =
      (tokenize "a").map fun piece => piece.shift 3 := by
  have htokens : tokenize "é a" =
      [⟨.malformed, "é", 0⟩, ⟨.blank, " ", 2⟩] ++ ⟨.identifier, "a", 3⟩ ::
        [⟨.finish, "", 4⟩] := by
    decide +kernel
  obtain ⟨-, -, hback⟩ := tokenize_tiles "é a"
  exact ⟨⟨htokens, rfl, rfl⟩, hback _ _ _ "é " "a" htokens rfl rfl⟩

end Sift
