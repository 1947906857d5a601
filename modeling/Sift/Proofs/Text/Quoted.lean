import Sift.Text.Quoted

namespace Sift.Text.Quoted

/-! What quoted text is made of, and what it stands for. -/

/-- A character that is neither the quote nor a backslash, or a backslash with the
character after it, whichever that is. -/
inductive Piece (quote : Char) where
  | plain (c : Char) (hquote : c ≠ quote) (hbackslash : c ≠ '\\')
  | pair (c : Char)

namespace Piece

variable {quote : Char}

def written : Piece quote → List Char
  | plain c _ _ => [c]
  | pair c => ['\\', c]

/-- What the pairs that stand for one character stand for. -/
def meanings (quote : Char) : List (Char × Char) :=
  [('\\', '\\'), (quote, quote), ('n', '\n'), ('r', '\r'), ('b', '\x08'), ('t', '\t'),
    ('v', '\x0b')]

def value : Piece quote → List Char
  | plain c _ _ => [c]
  | pair c =>
      match (meanings quote).lookup c with
      | some meaning => [meaning]
      | none => ['\\', c]

theorem value_pair (hquote : isQuote quote = true) (c : Char) :
    (pair c : Piece quote).value = escaped quote c := by
  simp only [isQuote, Bool.or_eq_true, decide_eq_true_eq] at hquote
  unfold escaped
  split
  case h_7 hbackslash hn hr hb ht hv =>
    have hothers : (c == '\\') = false ∧ (c == 'n') = false ∧ (c == 'r') = false ∧
        (c == 'b') = false ∧ (c == 't') = false ∧ (c == 'v') = false := by
      simp only [beq_eq_false_iff_ne]
      exact ⟨hbackslash, hn, hr, hb, ht, hv⟩
    simp only [value, meanings, List.lookup_cons, List.lookup_nil, hothers]
    by_cases hc : c = quote
    · simp [hc]
    · rw [if_neg hc, beq_false_of_ne hc]
  all_goals rcases hquote with rfl | rfl <;> rfl

end Piece

/-- The pieces between two quotes. -/
def enclosed {quote : Char} (pieces : List (Piece quote)) : List Char :=
  quote :: pieces.flatMap Piece.written ++ [quote]

theorem enclosed_append {quote : Char} (pieces : List (Piece quote)) (rest : List Char) :
    enclosed pieces ++ rest =
      quote :: (pieces.flatMap Piece.written ++ quote :: rest) := by
  simp [enclosed]

theorem ne_backslash_of_isQuote {quote : Char} (h : isQuote quote = true) :
    quote ≠ '\\' := by
  rintro rfl
  cases h

theorem closing?_of_ne {quote c : Char} (hbackslash : c ≠ '\\') (hquote : c ≠ quote)
    (cs : List Char) : closing? quote (c :: cs) = (closing? quote cs).map (· + 1) := by
  rw [closing?.eq_def]
  split
  · rename_i heq
    exact (hbackslash (List.cons.inj heq).1).elim
  · rename_i heq
    cases heq
    rw [if_neg hquote]
  · rename_i heq
    cases heq

theorem closing?_quote {quote : Char} (hbackslash : quote ≠ '\\') (cs : List Char) :
    closing? quote (quote :: cs) = some 1 := by
  rw [closing?, if_pos rfl]
  exact fun _ _ heq => (hbackslash heq).elim

theorem unescape_of_ne {c : Char} (quote : Char) (hbackslash : c ≠ '\\')
    (cs : List Char) : unescape quote (c :: cs) = c :: unescape quote cs := by
  rw [unescape.eq_def]
  split
  · rename_i heq
    exact (hbackslash (List.cons.inj heq).1).elim
  · rename_i heq
    exact (hbackslash (List.cons.inj heq).1).elim
  · rename_i heq
    cases heq
    rfl
  · rename_i heq
    cases heq

section Pieces

variable {quote : Char}

theorem closing?_pieces (hbackslash : quote ≠ '\\') (pieces : List (Piece quote))
    (rest : List Char) :
    closing? quote (pieces.flatMap Piece.written ++ quote :: rest) =
      some ((pieces.flatMap Piece.written).length + 1) := by
  induction pieces with
  | nil => exact closing?_quote hbackslash rest
  | cons piece pieces ih =>
      rw [List.flatMap_cons, List.append_assoc]
      cases piece with
      | plain c hne hplain =>
          rw [Piece.written, List.singleton_append, closing?_of_ne hplain hne, ih]
          simp
      | pair c =>
          rw [Piece.written, List.cons_append, List.singleton_append, closing?, ih]
          simp

/-- A text that is closed is made of pieces up to the quote that closes it. -/
theorem exists_pieces_of_closing? {cs : List Char} {length : Nat}
    (h : closing? quote cs = some length) :
    ∃ (pieces : List (Piece quote)) (rest : List Char),
      cs = pieces.flatMap Piece.written ++ quote :: rest := by
  fun_induction closing? quote cs generalizing length with
  | case1 c cs ih =>
      obtain ⟨inner, hinner, -⟩ := Option.map_eq_some_iff.mp h
      obtain ⟨pieces, rest, rfl⟩ := ih hinner
      exact ⟨.pair c :: pieces, rest, rfl⟩
  | case2 cs hescape => exact ⟨[], cs, rfl⟩
  | case3 c cs hescape hne ih =>
      obtain ⟨inner, hinner, -⟩ := Option.map_eq_some_iff.mp h
      have hbackslash : c ≠ '\\' := by
        intro heq
        cases cs with
        | nil => cases hinner
        | cons next cs => exact hescape next cs heq rfl
      obtain ⟨pieces, rest, rfl⟩ := ih hinner
      exact ⟨.plain c hne hbackslash :: pieces, rest, rfl⟩
  | case4 => cases h

theorem pieces_unique (hbackslash : quote ≠ '\\') {pieces others : List (Piece quote)}
    {rest back : List Char}
    (h : pieces.flatMap Piece.written ++ quote :: rest =
      others.flatMap Piece.written ++ quote :: back) :
    pieces = others ∧ rest = back := by
  induction pieces generalizing others with
  | nil =>
      rcases others with _ | ⟨⟨c, hne, hplain⟩ | c, others⟩
      · exact ⟨rfl, (List.cons.inj h).2⟩
      · exact (hne (List.cons.inj h).1.symm).elim
      · exact (hbackslash (List.cons.inj h).1).elim
  | cons piece pieces ih =>
      rcases piece with ⟨c, hne, hplain⟩ | c <;>
        rcases others with _ | ⟨⟨d, hneOther, hplainOther⟩ | d, others⟩
      · exact (hne (List.cons.inj h).1).elim
      · obtain ⟨rfl, hrest⟩ := List.cons.inj h
        obtain ⟨rfl, rfl⟩ := ih hrest
        exact ⟨rfl, rfl⟩
      · exact (hplain (List.cons.inj h).1).elim
      · exact (hbackslash (List.cons.inj h).1.symm).elim
      · exact (hplainOther (List.cons.inj h).1.symm).elim
      · obtain ⟨rfl, hrest⟩ := List.cons.inj (List.cons.inj h).2
        obtain ⟨rfl, rfl⟩ := ih hrest
        exact ⟨rfl, rfl⟩

theorem unescape_pieces (hquote : isQuote quote = true) (pieces : List (Piece quote)) :
    unescape quote (pieces.flatMap Piece.written) = pieces.flatMap Piece.value := by
  induction pieces with
  | nil => rfl
  | cons piece pieces ih =>
      rw [List.flatMap_cons, List.flatMap_cons, ← ih]
      cases piece with
      | plain c _ hplain => exact unescape_of_ne quote hplain _
      | pair c =>
          rw [Piece.value_pair hquote, Piece.written, List.cons_append,
            List.singleton_append, unescape]

theorem decode_enclosed (hquote : isQuote quote = true) (pieces : List (Piece quote)) :
    decode (enclosed pieces) = pieces.flatMap Piece.value := by
  rw [enclosed, List.cons_append, decode, List.dropLast_concat, unescape_pieces hquote]

end Pieces

/-! Text that is written between quotes reads back as it was. -/

/-- A character stands for itself, or a backslash and a mark stand for it. -/
theorem encodeChar_cases (c : Char) :
    (encodeChar c = [c] ∧ c ≠ '\\' ∧ c ≠ '\'') ∨
      ∃ mark, encodeChar c = ['\\', mark] ∧ escaped '\'' mark = [c] := by
  unfold encodeChar
  split
  case h_8 hquote hbackslash _ _ _ _ _ =>
    exact .inl ⟨rfl, hbackslash, hquote⟩
  all_goals exact .inr ⟨_, rfl, rfl⟩

theorem exists_pieces_encodeChar (text : List Char) :
    ∃ pieces : List (Piece '\''), text.flatMap encodeChar = pieces.flatMap Piece.written ∧
      pieces.flatMap Piece.value = text := by
  induction text with
  | nil => exact ⟨[], rfl, rfl⟩
  | cons c text ih =>
      obtain ⟨pieces, hwritten, hvalue⟩ := ih
      rcases encodeChar_cases c with ⟨hchar, hbackslash, hquote⟩ | ⟨mark, hchar, hmark⟩
      · refine ⟨.plain c hquote hbackslash :: pieces, ?_, ?_⟩
        · rw [List.flatMap_cons, hchar, hwritten]
          rfl
        · rw [List.flatMap_cons, hvalue]
          rfl
      · refine ⟨.pair mark :: pieces, ?_, ?_⟩
        · rw [List.flatMap_cons, hchar, hwritten]
          rfl
        · rw [List.flatMap_cons, Piece.value_pair rfl, hmark, hvalue]
          rfl

theorem exists_enclosed_encode (text : List Char) :
    ∃ pieces : List (Piece '\''), encode text = enclosed pieces ∧
      pieces.flatMap Piece.value = text := by
  obtain ⟨pieces, hwritten, hvalue⟩ := exists_pieces_encodeChar text
  exact ⟨pieces, by rw [encode, hwritten, enclosed], hvalue⟩

theorem decode_encode (text : List Char) : decode (encode text) = text := by
  obtain ⟨pieces, hencode, hvalue⟩ := exists_enclosed_encode text
  rw [hencode, decode_enclosed rfl, hvalue]

end Sift.Text.Quoted
