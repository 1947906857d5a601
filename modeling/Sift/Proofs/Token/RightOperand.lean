import Sift.Proofs.Token.NullSafe
import Sift.Proofs.Token.Operator

namespace Sift

/-! What follows an operator is read apart from the text up to the operator. -/

open Grammar (significant symbols)

namespace Lexeme

variable {operator : String} {cs rest : List Char}

/-- The text does not begin as an operator goes on, or with a blank. -/
def BeginsApart (rest : List Char) : Prop :=
  ∀ c ∈ rest.head?, Text.isBlank c = false ∧ c ≠ '=' ∧ c ≠ '>'

/-- No operator goes on with another character than these. -/
theorem longest_of_head (hmem : operator ∈ operators)
    (hrest : ∀ c ∈ rest.head?, c ≠ '=' ∧ c ≠ '>') :
    ∀ longer ∈ operators, longer.toList <+: operator.toList ++ rest →
      longer.toList.length ≤ operator.toList.length := by
  intro longer hlonger hstarts
  by_contra hlength
  have hextends : operator.toList <+: longer.toList :=
    List.prefix_of_prefix_length_le (List.prefix_append _ _) hstarts (by omega)
  have hhead : ∀ c, longer.toList = operator.toList ++ [c] → c ∈ rest.head? := by
    intro c hlonger
    rw [hlonger, List.prefix_append_right_inj] at hstarts
    obtain ⟨others, rfl⟩ := hstarts
    rfl
  rcases operators_extended operator hmem longer hlonger hextends with rfl | heq | hgt
  · exact hlength (Nat.le_refl _)
  · exact (hrest '=' (hhead '=' heq)).1 rfl
  · exact (hrest '>' (hhead '>' hgt)).2 rfl

theorem scan_symbolic (hmem : operator ∈ symbolicOperators) (hrest : BeginsApart rest) :
    scan (operator.toList ++ rest) = ⟨.operator, operator.toList.length⟩ :=
  scan_operator (mem_symbolicOperators.mp hmem).1 (isOperator_of_symbolic hmem _)
    (longest_of_head (mem_symbolicOperators.mp hmem).1 fun c hc => (hrest c hc).2)

/-- All lexemes of the text may stand in a filter, and the operator is the last of them. -/
structure EndsInOperator (operator : String) (cs : List Char) : Prop where
  used : ∀ symbol ∈ lexed cs, symbol.kind ≠ .malformed ∧ symbol ≠ .operator "-"
  last : ∀ symbol ∈ (lexed cs).getLast?, symbol = .operator operator

theorem EndsInOperator.of_append {symbols : List Symbol} {back : List Char}
    (h : EndsInOperator operator cs) (hlexed : lexed cs = symbols ++ lexed back) :
    EndsInOperator operator back where
  used symbol hsymbol := h.used symbol (hlexed ▸ List.mem_append_right symbols hsymbol)
  last symbol hsymbol := by
    apply h.last
    rw [hlexed, List.getLast?_append_of_ne_nil]
    · exact hsymbol
    · rintro hnil
      rw [hnil] at hsymbol
      cases hsymbol

/-- A lexeme that ends the text is a run of blanks or the operator, and stays itself. -/
theorem EndsInOperator.scan_last (h : EndsInOperator operator cs) (hne : cs ≠ [])
    (hmem : operator ∈ symbolicOperators) (hlength : (scan cs).length = cs.length)
    (hrest : BeginsApart rest) : scan (cs ++ rest) = scan cs := by
  have hkind := scan_kind_ne_malformed hne fun symbol hsymbol => (h.used symbol hsymbol).1
  rcases hscan : scan cs with ⟨kind, length⟩
  rw [hscan] at hkind hlength
  obtain rfl : length = cs.length := hlength
  have hlexed : lexed (cs ++ []) = _ := lexed_append hne (by rwa [List.append_nil]) hkind
  rw [List.append_nil, lexed_nil, List.append_nil] at hlexed
  rcases scan_cases cs with hblanks | ⟨hblank, hfinish⟩
  · rw [hscan] at hblanks
    obtain rfl : kind = .blank := kind_of_blanks? hblanks
    obtain ⟨front, back, rfl, hfront, -, hall, -⟩ := blanks?_eq_some hblanks
    obtain rfl : back = [] := by simpa using hfront
    rw [List.append_nil] at hne ⊢
    exact scan_blanks hne hall fun c hc => (hrest c hc).1
  · rw [hscan] at hblank hfinish
    rw [Symbol.visible, if_pos ⟨hblank, hfinish⟩] at hlexed
    have hlast := h.last ⟨kind, String.ofList cs⟩ (by rw [hlexed]; rfl)
    obtain ⟨rfl, htext⟩ := Symbol.mk.inj hlast
    obtain rfl : cs = operator.toList := by rw [← htext, String.toList_ofList]
    exact scan_symbolic hmem hrest

/-- Each lexeme of the text is the same when other text follows the operator. -/
theorem EndsInOperator.exists_front (h : EndsInOperator operator cs) (hne : cs ≠ [])
    (hmem : operator ∈ symbolicOperators) :
    ∃ front back, cs = front ++ back ∧ front.length = (scan cs).length ∧
      ∀ rest, BeginsApart rest → scan (front ++ (back ++ rest)) = scan cs := by
  have hkind := scan_kind_ne_malformed hne fun symbol hsymbol => (h.used symbol hsymbol).1
  rcases hscan : scan cs with ⟨kind, length⟩
  rw [hscan] at hkind
  obtain ⟨front, back, rfl, rfl, hsettled⟩ := scan_settled hscan hkind
  refine ⟨front, back, rfl, rfl, fun rest hrest => ?_⟩
  by_cases hback : back = []
  · subst hback
    rw [List.nil_append, ← hscan, List.append_nil]
    rw [List.append_nil] at h hne hscan
    exact h.scan_last hne hmem (by rw [hscan]) hrest
  · obtain ⟨c, others, rfl⟩ := List.exists_cons_of_ne_nil hback
    have hfront : front ≠ [] := by
      have hpos := scan_length_pos (front ++ c :: others)
      rw [hscan] at hpos
      exact List.length_pos_iff.mp hpos
    have hafter := h.of_append (lexed_append hfront hscan hkind)
    have hhyphen : (c :: others).head? ≠ some '-' :=
      head_ne_hyphen fun symbol hsymbol => (hafter.used symbol hsymbol).2
    exact hsettled _ (.inl rfl) (fun _ => hhyphen) fun _ => .inl rfl

end Lexeme

open Lexeme (BeginsApart EndsInOperator symbolicOperators)

/-- The tokens of a text that ends in an operator do not depend on what follows it. -/
theorem exists_tokens_append {operator : String} (hmem : operator ∈ symbolicOperators)
    (cs : List Char) : EndsInOperator operator cs → ∀ offset, ∃ tokens,
      (significant tokens).map Token.symbol = lexed cs ∧
        ∀ rest, BeginsApart rest → (Cursor.mk (cs ++ rest) offset false).toList =
          tokens ++ (Cursor.mk rest (offset + Text.byteLength cs) false).toList := by
  induction cs using Lexeme.front_induction with
  | finish => exact fun _ offset => ⟨[], lexed_nil.symm, fun rest _ => rfl⟩
  | lexeme cs hne ih =>
      intro h offset
      have hkind := scan_kind_ne_malformed hne
        fun symbol hsymbol => (h.used symbol hsymbol).1
      have hpos := Lexeme.scan_length_pos cs
      obtain ⟨front, back, rfl, hlength, hscan⟩ := h.exists_front hne hmem
      rw [← hlength] at hpos
      have hfront : front ≠ [] := List.length_pos_iff.mp hpos
      rw [Lexeme.front_of_well hkind, ← hlength, List.drop_left] at ih
      have heq : Lexeme.scan (front ++ back) =
          ⟨(Lexeme.scan (front ++ back)).kind, front.length⟩ := by rw [hlength]
      have hlexed := lexed_append hfront heq hkind
      obtain ⟨tokens, hsymbols, htokens⟩ :=
        ih (h.of_append hlexed) (offset + Text.byteLength front)
      refine ⟨⟨(Lexeme.scan (front ++ back)).kind, String.ofList front, offset⟩ :: tokens,
        ?_, fun rest hrest => ?_⟩
      · rw [symbol_significant_cons, hsymbols, hlexed]
        rfl
      · rw [List.append_assoc,
          Cursor.toList_append hfront ((hscan rest hrest).trans heq) hkind,
          htokens rest hrest, Text.byteLength_append, ← Nat.add_assoc]
        rfl

end Sift
