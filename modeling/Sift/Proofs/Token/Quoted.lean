import Sift.Literal
import Sift.Proofs.Token.Tiling

namespace Sift

open Text.Quoted (Piece decode enclosed isQuote)

/-! Quoted text is one token as far as the quote that closes it, and all of the text where
none does. -/

/-- The front is one token, which stands for the value, and the rest is read as it is. -/
structure ReadsQuoted (front rest : String) (value : List Char) : Prop where
  tokens : tokenize (front ++ rest) = ⟨.string, front, 0⟩ ::
    (tokenize rest).map fun token => token.shift front.utf8ByteSize
  decode_eq : decode front.toList = value

theorem readsQuoted_enclosed {quote : Char} (hquote : isQuote quote = true)
    (pieces : List (Piece quote)) (rest : String) :
    ReadsQuoted (String.ofList (enclosed pieces)) rest (pieces.flatMap Piece.value) where
  tokens := by
    apply tokenize_append
    · rw [String.toList_ofList]
      exact List.cons_ne_nil _ _
    · rw [String.toList_ofList]
      exact Lexeme.scan_enclosed hquote pieces rest.toList
    · decide
  decode_eq := by
    rw [String.toList_ofList]
    exact Text.Quoted.decode_enclosed hquote pieces

theorem readsQuoted_written (value rest : String) :
    ReadsQuoted (String.ofList (Literal.string value).written) rest value.toList := by
  obtain ⟨pieces, hencode, hvalue⟩ := Text.Quoted.exists_enclosed_encode value.toList
  rw [Literal.written, hencode, ← hvalue]
  exact readsQuoted_enclosed rfl pieces rest

theorem quoted_cases {quote : Char} {text : String}
    (hhead : text.toList.head? = some quote) :
    (∃ (pieces : List (Piece quote)) (rest : String),
      text = String.ofList (enclosed pieces) ++ rest) ∨
      ∃ cs, text.toList = quote :: cs ∧ Text.Quoted.closing? quote cs = none := by
  obtain ⟨cs, hcs⟩ := List.head?_eq_some_iff.mp hhead
  cases hclosing : Text.Quoted.closing? quote cs with
  | none => exact .inr ⟨cs, hcs, hclosing⟩
  | some length =>
      obtain ⟨pieces, rest, rfl⟩ := Text.Quoted.exists_pieces_of_closing? hclosing
      refine .inl ⟨pieces, String.ofList rest, String.toList_injective ?_⟩
      rw [hcs, ← String.ofList_append, String.toList_ofList, Text.Quoted.enclosed_append]

theorem tokenize_of_malformed {text : String} (hne : text.toList ≠ [])
    (hscan : Lexeme.scan text.toList = ⟨.malformed, text.toList.length⟩) :
    tokenize text = [⟨.malformed, text, 0⟩, ⟨.finish, "", text.utf8ByteSize⟩] := by
  have hrun : Lexeme.malformedRun text.toList = text.toList.length := by
    rw [Lexeme.malformedRun, if_neg hne]
    simp [hscan, Lexeme.malformedRun]
  have hfront : Lexeme.front text.toList = ⟨.malformed, text.toList.length⟩ := by
    simp [Lexeme.front, hscan, hrun]
  rw [tokenize, Cursor.ofText, Cursor.toList_of_ne_nil hne, hfront, List.take_length,
    List.drop_length, Cursor.toList_nil, String.ofList_toList, Nat.zero_add,
    ← Text.utf8ByteSize_eq]

theorem tokenize_of_unclosed {quote : Char} (hquote : isQuote quote = true) {text : String}
    {cs : List Char} (htext : text.toList = quote :: cs)
    (hclosing : Text.Quoted.closing? quote cs = none) :
    tokenize text = [⟨.malformed, text, 0⟩, ⟨.finish, "", text.utf8ByteSize⟩] := by
  apply tokenize_of_malformed
  · rw [htext]
    exact List.cons_ne_nil quote cs
  · rw [htext]
    apply Lexeme.scan_quoted hquote
    simp [Lexeme.quoted?, hquote, hclosing]

theorem toList_enclosed_append {quote : Char} (pieces : List (Piece quote)) (rest : String) :
    (String.ofList (enclosed pieces) ++ rest).toList =
      quote :: (pieces.flatMap Piece.written ++ quote :: rest.toList) := by
  rw [String.toList_append, String.toList_ofList, Text.Quoted.enclosed_append]

theorem enclosed_unique {quote : Char} (hquote : isQuote quote = true)
    {pieces others : List (Piece quote)} {rest back : String}
    (h : String.ofList (enclosed pieces) ++ rest = String.ofList (enclosed others) ++ back) :
    pieces = others ∧ rest = back := by
  have hchars := congrArg String.toList h
  rw [toList_enclosed_append, toList_enclosed_append] at hchars
  obtain ⟨hpieces, hrest⟩ := Text.Quoted.pieces_unique
    (Text.Quoted.ne_backslash_of_isQuote hquote) (List.cons.inj hchars).2
  exact ⟨hpieces, String.toList_injective hrest⟩

/-- Text that begins with a quote is made of pieces up to a quote in one way at most; so far
it is a token, which stands for what its pieces do. Where it is not so made, all of it is
malformed. What is written for a string is read as the string, whatever follows. -/
theorem tokenize_quoted :
    (∀ (quote : Char) (text : String), isQuote quote = true →
      text.toList.head? = some quote →
        (∀ (pieces : List (Piece quote)) (rest : String),
          text = String.ofList (enclosed pieces) ++ rest →
            ReadsQuoted (String.ofList (enclosed pieces)) rest
              (pieces.flatMap Piece.value) ∧
            ∀ (others : List (Piece quote)) (back : String),
              text = String.ofList (enclosed others) ++ back →
                others = pieces ∧ back = rest) ∧
        ((∀ (pieces : List (Piece quote)) (rest : String),
          text ≠ String.ofList (enclosed pieces) ++ rest) →
            tokenize text = [⟨.malformed, text, 0⟩, ⟨.finish, "", text.utf8ByteSize⟩])) ∧
    ∀ value rest : String,
      ReadsQuoted (String.ofList (Literal.string value).written) rest value.toList := by
  refine ⟨fun quote text hquote hhead => ⟨fun pieces rest htext => ⟨?_, ?_⟩, ?_⟩,
    readsQuoted_written⟩
  · exact readsQuoted_enclosed hquote pieces rest
  · intro others back hback
    exact enclosed_unique hquote (hback.symm.trans htext)
  · intro hnone
    rcases quoted_cases hhead with ⟨pieces, rest, htext⟩ | ⟨cs, htext, hclosing⟩
    · exact (hnone pieces rest htext).elim
    · exact tokenize_of_unclosed hquote htext hclosing

namespace Sample

/-- An escaped quote, a pair without a meaning, the other quote and a backslash. -/
def pieces : List (Piece '\'') :=
  [.plain 'a' (by decide) (by decide), .pair '\'', .pair 'q',
    .plain '"' (by decide) (by decide), .pair '\\']

end Sample

theorem tokenize_quoted_pieces :
    ("'a\\'\\q\"\\\\' x" = String.ofList (enclosed Sample.pieces) ++ " x" ∧
      ReadsQuoted "'a\\'\\q\"\\\\'" " x" "a'\\q\"\\".toList) ∧
    tokenize "'a\\'" = [⟨.malformed, "'a\\'", 0⟩, ⟨.finish, "", 4⟩] := by
  have hclosed := (tokenize_quoted.1 '\'' "'a\\'\\q\"\\\\' x" rfl rfl).1
  have htext : "'a\\'\\q\"\\\\' x" = String.ofList (enclosed Sample.pieces) ++ " x" := by
    decide +kernel
  refine ⟨⟨htext, (hclosed Sample.pieces " x" htext).1⟩, ?_⟩
  apply (tokenize_quoted.1 '\'' "'a\\'" rfl rfl).2
  intro pieces rest htext
  have hchars := congrArg String.toList htext
  rw [toList_enclosed_append] at hchars
  have hclosing := Text.Quoted.closing?_pieces (by decide) pieces rest.toList
  have hopen : Text.Quoted.closing? '\'' ['a', '\\', '\''] = none := by decide
  rw [← (List.cons.inj hchars).2] at hclosing
  cases hopen.symm.trans hclosing

end Sift
