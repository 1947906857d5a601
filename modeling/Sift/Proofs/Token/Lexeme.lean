import Mathlib.Data.List.TakeWhile
import Sift.Proofs.Decimal.Written
import Sift.Proofs.Text.Quoted
import Sift.Proofs.Timestamp.Written
import Sift.Proofs.Token.Word

namespace Sift.Lexeme

/-! The lexeme at the front of a text that is known to begin with a word, an operator or
a constant. -/

variable {c : Char} {cs rest : List Char}

/-- A run of characters is taken up to where it ends. -/
theorem takeWhile_append {holds : Char → Bool} (hrun : ∀ c ∈ cs, holds c = true)
    (hend : ∀ c ∈ rest.head?, holds c = false) : (cs ++ rest).takeWhile holds = cs := by
  rw [List.takeWhile_append_of_pos hrun]
  cases rest with
  | nil => exact List.append_nil cs
  | cons c rest =>
      rw [List.takeWhile_cons, hend c rfl, if_neg (by decide), List.append_nil]

theorem drop_length_takeWhile (holds : Char → Bool) (cs : List Char) :
    cs.drop (cs.takeWhile holds).length = cs.dropWhile holds := by
  induction cs with
  | nil => rfl
  | cons c cs ih => by_cases hc : holds c <;> simp [hc, ih]

theorem head_dropWhile (holds : Char → Bool) (cs : List Char) :
    ∀ c ∈ (cs.dropWhile holds).head?, holds c = false := by
  intro c hc
  have hhead := List.head?_dropWhile_not holds cs
  rw [hc] at hhead
  exact hhead

/-! Rules that do not apply. -/

theorem blanks?_eq_none (h : Text.isBlank c = false) : blanks? (c :: cs) = none := by
  simp [blanks?, h]

theorem isDigit_of_read? {written : Timestamp.Written} {length : Nat}
    (h : Timestamp.Written.read? (c :: cs) = some (written, length)) :
    c.isDigit = true := by
  simp only [Timestamp.Written.read?, Option.bind_eq_bind, Option.bind_eq_some_iff] at h
  obtain ⟨year, hyear, -⟩ := h
  unfold Text.digits? at hyear
  simp only [List.take_succ_cons, List.all_cons, Bool.and_eq_true] at hyear
  split at hyear
  · rename_i hdigits
    exact hdigits.2.1
  · cases hyear

theorem dateTime?_eq_none (h : c.isDigit = false) : dateTime? (c :: cs) = none := by
  unfold dateTime?
  cases hread : Timestamp.Written.read? (c :: cs) with
  | none => rfl
  | some read => cases (isDigit_of_read? hread).symm.trans h

theorem number?_eq_none (h : c.isDigit = false) : number? (c :: cs) = none := by
  simp [number?, h]

theorem word?_eq_none (h : isWordStart c = false) : word? (c :: cs) = none := by
  simp [word?, h]

theorem scan_eq (cs : List Char) :
    scan cs = ((blanks? cs).or <| (dateTime? cs).or <| (number? cs).or <|
      (operator? cs).or <| (word? cs).or <| quoted? cs).getD ⟨.malformed, 1⟩ := by
  simp only [scan, rules, List.findSome?_cons, List.findSome?_nil]
  cases blanks? cs <;> cases dateTime? cs <;> cases number? cs <;> cases operator? cs <;>
    cases word? cs <;> cases quoted? cs <;> rfl

/-! Operators. -/

theorem operators_chars :
    ∀ operator ∈ operators, operator.toList ≠ [] ∧
      operator.toList.length ≤ longestOperator ∧
        operator.toList.all operatorChars.contains = true := by
  decide +kernel

/-- Where lengths are tried from the longest, the greatest one that does is found. -/
theorem find?_reverse_range' {holds : Nat → Bool} {bound length : Nat}
    (hpos : 1 ≤ length) (hle : length ≤ bound) (hlength : holds length = true)
    (hgreatest : ∀ longer, length < longer → longer ≤ bound → holds longer = false) :
    (List.range' 1 bound).reverse.find? holds = some length := by
  induction bound with
  | zero => omega
  | succ bound ih =>
      rw [List.range'_1_concat, List.reverse_concat, List.find?_cons]
      by_cases hlast : length = 1 + bound
      · rw [← hlast, hlength]
      · rw [hgreatest (1 + bound) (by omega) (by omega)]
        apply ih (by omega)
        intro longer hlonger hbound
        exact hgreatest longer hlonger (by omega)

/-- The leading operator characters that are looked at. -/
def operatorRun (cs : List Char) : List Char :=
  (cs.take longestOperator).takeWhile operatorChars.contains

theorem length_operatorRun_le (cs : List Char) : (operatorRun cs).length ≤ cs.length :=
  Nat.le_trans (List.takeWhile_sublist _).length_le (List.take_sublist _ _).length_le

theorem operator?_eq (cs : List Char) :
    operator? cs =
      ((List.range' 1 (operatorRun cs).length).reverse.find? fun length =>
        isOperator (cs.take length) cs[length]?).map
          fun length => ⟨.operator, length⟩ := rfl

theorem le_length_operatorRun {operator : String} (hmem : operator ∈ operators)
    (rest : List Char) :
    operator.toList.length ≤ (operatorRun (operator.toList ++ rest)).length := by
  obtain ⟨-, hlength, hchars⟩ := operators_chars operator hmem
  rw [operatorRun, List.take_append, List.take_of_length_le hlength,
    List.takeWhile_append_of_pos (List.all_eq_true.mp hchars), List.length_append]
  exact Nat.le_add_right _ _

theorem exists_operator_of_isOperator {length : Nat} (hlength : length ≤ cs.length)
    {next : Option Char} (h : isOperator (cs.take length) next = true) :
    ∃ operator ∈ operators, operator.toList <+: cs ∧ operator.toList.length = length ∧
      isOperator operator.toList next = true := by
  have hmem : String.ofList (cs.take length) ∈ operators := by
    simp only [isOperator, Bool.and_eq_true, List.contains_iff_mem] at h
    exact h.1
  refine ⟨_, hmem, ?_, ?_, ?_⟩
  · rw [String.toList_ofList]
    exact List.take_prefix _ _
  · rw [String.toList_ofList, List.length_take, Nat.min_eq_left hlength]
  · rwa [String.toList_ofList]

theorem operator?_eq_some {operator : String} (hmem : operator ∈ operators)
    (hend : isOperator operator.toList rest.head? = true)
    (hlongest : ∀ longer ∈ operators, longer.toList <+: operator.toList ++ rest →
      longer.toList.length ≤ operator.toList.length) :
    operator? (operator.toList ++ rest) = some ⟨.operator, operator.toList.length⟩ := by
  have hpos := List.length_pos_iff.mpr (operators_chars operator hmem).1
  have hnext : (operator.toList ++ rest)[operator.toList.length]? = rest.head? := by
    rw [List.getElem?_append_right (Nat.le_refl _), Nat.sub_self, List.head?_eq_getElem?]
  rw [operator?_eq, find?_reverse_range' hpos (le_length_operatorRun hmem rest)]
  · rfl
  · rw [hnext, List.take_left, hend]
  · intro longer hlonger hbound
    rw [← Bool.not_eq_true]
    intro hfound
    have hle := Nat.le_trans hbound (length_operatorRun_le _)
    obtain ⟨found, hfound, hstarts, hlength, -⟩ :=
      exists_operator_of_isOperator hle hfound
    have hshort := hlongest found hfound hstarts
    omega

theorem operator?_eq_none
    (h : ∀ operator ∈ operators, operator.toList <+: cs →
      isOperator operator.toList cs[operator.toList.length]? = false) :
    operator? cs = none := by
  rw [operator?_eq, Option.map_eq_none_iff, List.find?_eq_none]
  intro length hlength hfound
  have hle : length ≤ (operatorRun cs).length := by
    simp only [List.mem_reverse, List.mem_range'_1] at hlength
    omega
  obtain ⟨found, hmem, hstarts, rfl, hoperator⟩ :=
    exists_operator_of_isOperator (Nat.le_trans hle (length_operatorRun_le _)) hfound
  cases hoperator.symm.trans (h found hmem hstarts)

theorem operator?_eq_none_of_head
    (h : ∀ operator ∈ operators, operator.toList.head? ≠ some c) :
    operator? (c :: cs) = none := by
  apply operator?_eq_none
  rintro operator hmem ⟨back, hstarts⟩
  cases hchars : operator.toList with
  | nil => exact ((operators_chars operator hmem).1 hchars).elim
  | cons first others =>
      rw [hchars] at hstarts
      cases hstarts
      exact (h operator hmem (by rw [hchars]; rfl)).elim

/-! Where no longer operator begins. -/

theorem longest_of_unextended {operator : String}
    (h : ∀ longer ∈ operators, operator.toList <+: longer.toList → longer = operator) :
    ∀ longer ∈ operators, longer.toList <+: operator.toList ++ rest →
      longer.toList.length ≤ operator.toList.length := by
  intro longer hlonger hstarts
  rcases List.prefix_or_prefix_of_prefix hstarts (List.prefix_append _ rest) with
    hshort | hlong
  · exact hshort.length_le
  · rw [h longer hlonger hlong]

theorem longest_before {operator : String}
    (h : ∀ longer ∈ operators, ¬ operator.toList ++ [c] <+: longer.toList) :
    ∀ longer ∈ operators, longer.toList <+: operator.toList ++ c :: rest →
      longer.toList.length ≤ operator.toList.length := by
  intro longer hlonger hstarts
  have hnext : operator.toList ++ [c] <+: operator.toList ++ c :: rest :=
    ⟨rest, by simp⟩
  rcases List.prefix_or_prefix_of_prefix hstarts hnext with hshort | hlong
  · have hlength := hshort.length_le
    rw [List.length_append, List.length_singleton] at hlength
    by_cases heq : longer.toList.length = operator.toList.length + 1
    · have hsame : longer.toList = operator.toList ++ [c] :=
        hshort.eq_of_length (by simpa using heq)
      exact (h longer hlonger (hsame ▸ List.prefix_refl _)).elim
    · omega
  · exact (h longer hlonger hlong).elim

theorem operators_head :
    ∀ operator ∈ operators, operator.toList.head?.any Text.isBlank = false ∧
      operator.toList.head?.any Char.isDigit = false := by
  decide +kernel

theorem scan_operator {operator : String} (hmem : operator ∈ operators)
    (hend : isOperator operator.toList rest.head? = true)
    (hlongest : ∀ longer ∈ operators, longer.toList <+: operator.toList ++ rest →
      longer.toList.length ≤ operator.toList.length) :
    scan (operator.toList ++ rest) = ⟨.operator, operator.toList.length⟩ := by
  have hfound := operator?_eq_some hmem hend hlongest
  cases hchars : operator.toList with
  | nil => exact ((operators_chars operator hmem).1 hchars).elim
  | cons first others =>
      obtain ⟨hblank, hdigit⟩ := operators_head operator hmem
      rw [hchars, List.head?_cons, Option.any_some] at hblank hdigit
      rw [hchars] at hfound
      rw [List.cons_append] at hfound ⊢
      rw [scan_eq, blanks?_eq_none hblank, dateTime?_eq_none hdigit,
        number?_eq_none hdigit, hfound]
      rfl

/-! Words. -/

def wordOperators : List String := ["in", "and", "or"]

def kindOfWord (word : List Char) : TokenKind :=
  if String.ofList word ∈ wordOperators then .operator else wordKind word

def EndsWord (rest : List Char) : Prop :=
  ∀ c ∈ rest.head?, isWordChar c = false

theorem wordOperators_iff :
    ∀ operator ∈ operators, operator ∈ wordOperators ↔
      operator.toList.head?.any isWordStart = true := by
  decide +kernel

theorem wordOperators_chars :
    ∀ operator ∈ wordOperators, operator.toList.all isWordChar = true ∧
      operator.toList.getLast?.any Char.isAlpha = true ∧ operator ∈ operators := by
  decide +kernel

theorem word?_eq_some {word : List Char} (hword : IsWord word) (hrest : EndsWord rest) :
    word? (word ++ rest) = some ⟨wordKind word, word.length⟩ := by
  cases word with
  | nil => exact hword.elim
  | cons first others =>
      have htake : (others ++ rest).takeWhile isWordChar = others :=
        takeWhile_append (List.all_eq_true.mp hword.2) hrest
      simp [word?, hword.1, htake]

section Word

variable {word : List Char} (hword : IsWord word) (hrest : EndsWord rest)
  {operator : String} (hmem : operator ∈ operators)
  (hstarts : operator.toList <+: word ++ rest)

include hword hmem hstarts

theorem mem_wordOperators_of_starts : operator ∈ wordOperators := by
  cases word with
  | nil => exact hword.elim
  | cons first others =>
      rw [wordOperators_iff operator hmem]
      obtain ⟨back, hback⟩ := hstarts
      cases hchars : operator.toList with
      | nil => exact ((operators_chars operator hmem).1 hchars).elim
      | cons head tail =>
          rw [hchars] at hback
          obtain ⟨rfl, -⟩ := List.cons.inj hback
          exact hword.1

include hrest

theorem prefix_word : operator.toList <+: word := by
  obtain ⟨hchars, -⟩ := wordOperators_chars operator
    (mem_wordOperators_of_starts hword hmem hstarts)
  rcases List.prefix_or_prefix_of_prefix hstarts (List.prefix_append word rest) with
    hshort | ⟨tail, htail⟩
  · exact hshort
  cases tail with
  | nil => exact ⟨[], by rw [← htail, List.append_nil, List.append_nil]⟩
  | cons c tail =>
      rw [← htail] at hstarts
      obtain ⟨back, hback⟩ := (List.prefix_append_right_inj word).mp hstarts
      have hc : isWordChar c = true := List.all_eq_true.mp hchars c (by simp [← htail])
      cases hc.symm.trans (hrest c (by rw [← hback]; rfl))

/-- An operator that ends within a word is none. -/
theorem eq_word_of_isOperator
    (hend : isOperator operator.toList (word ++ rest)[operator.toList.length]? = true) :
    operator.toList = word := by
  obtain ⟨-, hlast, -⟩ := wordOperators_chars operator
    (mem_wordOperators_of_starts hword hmem hstarts)
  obtain ⟨tail, htail⟩ := prefix_word hword hrest hmem hstarts
  cases tail with
  | nil => rw [← htail, List.append_nil]
  | cons c tail =>
      have hc : isWordChar c = true := hword.isWordChar_of_mem (by simp [← htail])
      have hnext : (word ++ rest)[operator.toList.length]? = some c := by
        rw [← htail]
        simp
      rw [hnext, isOperator, hlast, Option.any_some, hc] at hend
      simp at hend

end Word

theorem operator?_word {word : List Char} (hword : IsWord word) (hrest : EndsWord rest)
    (hname : String.ofList word ∉ wordOperators) : operator? (word ++ rest) = none := by
  apply operator?_eq_none
  intro operator hmem hstarts
  rw [← Bool.not_eq_true]
  intro hend
  have heq := eq_word_of_isOperator hword hrest hmem hstarts hend
  rw [← heq, String.ofList_toList] at hname
  exact hname (mem_wordOperators_of_starts hword hmem hstarts)

theorem scan_wordOperator {word : List Char} (hword : IsWord word)
    (hrest : EndsWord rest) (hname : String.ofList word ∈ wordOperators) :
    scan (word ++ rest) = ⟨.operator, word.length⟩ := by
  obtain ⟨-, -, hmem⟩ := wordOperators_chars _ hname
  have hnext : rest.head?.any isWordChar = false := by
    cases rest with
    | nil => rfl
    | cons c rest => exact hrest c rfl
  have hend : isOperator (String.ofList word).toList rest.head? = true := by
    simp only [isOperator, String.ofList_toList, hnext, Bool.and_false, Bool.not_false,
      Bool.and_true, List.contains_iff_mem]
    exact hmem
  have hscan := scan_operator hmem hend
  rw [String.toList_ofList] at hscan
  exact hscan fun longer hlonger hstarts =>
    (prefix_word hword hrest hlonger hstarts).length_le

theorem scan_word {word : List Char} (hword : IsWord word) (hrest : EndsWord rest) :
    scan (word ++ rest) = ⟨kindOfWord word, word.length⟩ := by
  by_cases hname : String.ofList word ∈ wordOperators
  · rw [scan_wordOperator hword hrest hname, kindOfWord, if_pos hname]
  · have hoperator := operator?_word hword hrest hname
    have hfound := word?_eq_some hword hrest
    rw [kindOfWord, if_neg hname]
    cases word with
    | nil => exact hword.elim
    | cons first others =>
        have hdigit := isDigit_of_isWordStart hword.1
        rw [List.cons_append] at hoperator hfound ⊢
        rw [scan_eq, blanks?_eq_none (isBlank_of_isWordStart hword.1),
          dateTime?_eq_none hdigit, number?_eq_none hdigit, hoperator, hfound]
        rfl

/-! What a rule reads is of its own kind. -/

theorem kind_of_blanks? {lexeme : Lexeme} (h : blanks? cs = some lexeme) :
    lexeme.kind = .blank := by
  simp only [blanks?] at h
  split at h <;> cases h
  rfl

theorem kind_of_dateTime? {lexeme : Lexeme} (h : dateTime? cs = some lexeme) :
    lexeme.kind = .dateTime := by
  obtain ⟨read, -, rfl⟩ := Option.map_eq_some_iff.mp h
  rfl

theorem kind_of_number? {lexeme : Lexeme} (h : number? cs = some lexeme) :
    lexeme.kind = .number ∨ lexeme.kind = .malformed := by
  simp only [number?] at h
  split at h
  · cases h
  split at h
  · split at h <;> cases h
    · exact .inr rfl
    · exact .inl rfl
  · cases h
    exact .inl rfl

theorem kind_of_operator? {lexeme : Lexeme} (h : operator? cs = some lexeme) :
    lexeme.kind = .operator := by
  obtain ⟨length, -, rfl⟩ := Option.map_eq_some_iff.mp h
  rfl

theorem wordKind_cases (word : List Char) :
    wordKind word = .true ∨ wordKind word = .false ∨ wordKind word = .null ∨
      wordKind word = .identifier := by
  unfold wordKind
  split
  · exact .inl rfl
  split
  · exact .inr (.inl rfl)
  split
  · exact .inr (.inr (.inl rfl))
  · exact .inr (.inr (.inr rfl))

theorem kind_of_word? {lexeme : Lexeme} (h : word? cs = some lexeme) :
    ∃ word, lexeme.kind = wordKind word := by
  unfold word? at h
  split at h
  · split at h <;> cases h
    exact ⟨_, rfl⟩
  · cases h

theorem kind_of_quoted? {lexeme : Lexeme} (h : quoted? cs = some lexeme) :
    lexeme.kind = .string ∨ lexeme.kind = .malformed := by
  unfold quoted? at h
  split at h
  · split at h
    · split at h <;> cases h
      · exact .inl rfl
      · exact .inr rfl
    · cases h
  · cases h

theorem exists_rule (hwell : (scan cs).kind ≠ .malformed) :
    blanks? cs = some (scan cs) ∧ (scan cs).kind = .blank ∨
      dateTime? cs = some (scan cs) ∧ (scan cs).kind = .dateTime ∨
      number? cs = some (scan cs) ∧ (scan cs).kind = .number ∨
      operator? cs = some (scan cs) ∧ (scan cs).kind = .operator ∨
      word? cs = some (scan cs) ∧ (∃ word, (scan cs).kind = wordKind word) ∨
      quoted? cs = some (scan cs) ∧ (scan cs).kind = .string := by
  unfold scan at hwell ⊢
  cases hfound : rules.findSome? (fun rule => rule cs) with
  | none =>
      rw [hfound] at hwell
      exact (hwell rfl).elim
  | some lexeme =>
      rw [hfound, Option.getD_some] at hwell
      obtain ⟨rule, hrule, hlexeme⟩ := List.exists_of_findSome?_eq_some hfound
      simp only [rules, List.mem_cons, List.not_mem_nil, or_false] at hrule
      rw [Option.getD_some]
      rcases hrule with rfl | rfl | rfl | rfl | rfl | rfl
      · simp [hlexeme, kind_of_blanks? hlexeme]
      · simp [hlexeme, kind_of_dateTime? hlexeme]
      · simp [hlexeme, (kind_of_number? hlexeme).resolve_right hwell]
      · simp [hlexeme, kind_of_operator? hlexeme]
      · simp [hlexeme, kind_of_word? hlexeme]
      · simp [hlexeme, (kind_of_quoted? hlexeme).resolve_right hwell]

theorem word?_of_scan (h : (scan cs).kind = .identifier) : word? cs = some (scan cs) := by
  have hwell : (scan cs).kind ≠ .malformed := by simp [h]
  rcases exists_rule hwell with
    ⟨-, hkind⟩ | ⟨-, hkind⟩ | ⟨-, hkind⟩ | ⟨-, hkind⟩ | ⟨hrule, -⟩ | ⟨-, hkind⟩
  · cases hkind.symm.trans h
  · cases hkind.symm.trans h
  · cases hkind.symm.trans h
  · cases hkind.symm.trans h
  · exact hrule
  · cases hkind.symm.trans h

theorem dateTime?_of_scan (h : (scan cs).kind = .dateTime) :
    dateTime? cs = some (scan cs) := by
  have hwell : (scan cs).kind ≠ .malformed := by simp [h]
  rcases exists_rule hwell with
    ⟨-, hkind⟩ | ⟨hrule, -⟩ | ⟨-, hkind⟩ | ⟨-, hkind⟩ | ⟨-, word, hkind⟩ | ⟨-, hkind⟩
  · cases hkind.symm.trans h
  · exact hrule
  · cases hkind.symm.trans h
  · cases hkind.symm.trans h
  · rcases wordKind_cases word with hword | hword | hword | hword <;>
      cases (hkind.trans hword).symm.trans h
  · cases hkind.symm.trans h

theorem isWord_of_word? {lexeme : Lexeme} (h : word? cs = some lexeme) :
    IsWord (cs.take lexeme.length) := by
  unfold word? at h
  split at h
  · rename_i first others
    split at h <;> cases h
    rename_i hstart
    rw [List.length_cons, List.take_succ_cons,
      ← List.prefix_iff_eq_take.mp (List.takeWhile_prefix isWordChar)]
    exact ⟨hstart, List.all_eq_true.mpr fun c hc => List.mem_takeWhile_imp hc⟩
  · cases h

/-! Constants. -/

theorem scan_quoted {quote : Char} (hquote : Text.Quoted.isQuote quote = true)
    {lexeme : Lexeme} (h : quoted? (quote :: cs) = some lexeme) :
    scan (quote :: cs) = lexeme := by
  simp only [Text.Quoted.isQuote, Bool.or_eq_true, decide_eq_true_eq] at hquote
  rcases hquote with rfl | rfl
  · have hoperator : operator? ('\'' :: cs) = none := operator?_eq_none_of_head (by decide)
    rw [scan_eq, blanks?_eq_none (by decide), dateTime?_eq_none (by decide),
      number?_eq_none (by decide), hoperator, word?_eq_none (by decide), h]
    rfl
  · have hoperator : operator? ('"' :: cs) = none := operator?_eq_none_of_head (by decide)
    rw [scan_eq, blanks?_eq_none (by decide), dateTime?_eq_none (by decide),
      number?_eq_none (by decide), hoperator, word?_eq_none (by decide), h]
    rfl

open Text.Quoted (Piece enclosed)

theorem scan_enclosed {quote : Char} (hquote : Text.Quoted.isQuote quote = true)
    (pieces : List (Piece quote)) (rest : List Char) :
    scan (enclosed pieces ++ rest) = ⟨.string, (enclosed pieces).length⟩ := by
  have hclosing := Text.Quoted.closing?_pieces
    (Text.Quoted.ne_backslash_of_isQuote hquote) pieces rest
  rw [Text.Quoted.enclosed_append]
  apply scan_quoted hquote
  simp [quoted?, hquote, hclosing, enclosed]

theorem scan_encode (text rest : List Char) :
    scan (Text.Quoted.encode text ++ rest) =
      ⟨.string, (Text.Quoted.encode text).length⟩ := by
  obtain ⟨pieces, hencode, -⟩ := Text.Quoted.exists_enclosed_encode text
  rw [hencode, scan_enclosed rfl]

theorem scan_dateTime {text : List Char} {written : Timestamp.Written}
    (h : Timestamp.Written.read? (text ++ rest) = some (written, text.length)) :
    scan (text ++ rest) = ⟨.dateTime, text.length⟩ := by
  have hpos := Timestamp.Written.length_pos_of_read? h
  obtain ⟨first, others, rfl⟩ := List.exists_cons_of_length_pos hpos
  have hdate : dateTime? (first :: others ++ rest) =
      some ⟨.dateTime, (first :: others).length⟩ := by
    rw [dateTime?, h]
    rfl
  rw [List.cons_append] at h hdate ⊢
  rw [scan_eq, blanks?_eq_none (isBlank_of_isDigit (isDigit_of_read? h)), hdate]
  rfl

def EndsNumeral (rest : List Char) : Prop :=
  ∀ c ∈ rest.head?, c ≠ '-' ∧ c ≠ '.' ∧ c.isDigit = false

open Decimal (numeral Digits)

section Numeral

variable {whole fraction : List Char} (hwhole : Digits whole) (hne : whole ≠ [])
  (hfraction : Digits fraction)
  (hend : ∀ c ∈ rest.head?, c ≠ '-' ∧ c.isDigit = false)
  (hpoint : fraction = [] → ∀ c ∈ rest.head?, c ≠ '.')

include hwhole hfraction in
theorem hyphen_not_mem_numeral : '-' ∉ numeral whole fraction := by
  have hw : '-' ∉ whole := fun hmem => hwhole.ne rfl _ hmem rfl
  have hf : '-' ∉ fraction := fun hmem => hfraction.ne rfl _ hmem rfl
  unfold numeral
  split
  · simpa using hw
  · simp [hw, hf]

theorem exists_hyphen_of_read? {written : Timestamp.Written} {length : Nat}
    (h : Timestamp.Written.read? cs = some (written, length)) :
    ∃ before after, cs = before ++ '-' :: after ∧ Digits before := by
  simp only [Timestamp.Written.read?, Option.bind_eq_bind, Option.bind_eq_some_iff] at h
  obtain ⟨⟨year, back⟩, hyear, after, hafter, -⟩ := h
  unfold Text.digits? at hyear
  simp only at hyear
  split at hyear
  · rename_i hdigits
    cases hyear
    refine ⟨cs.take 4, after, ?_, List.all_eq_true.mp hdigits.2⟩
    rw [← Text.after?_eq_some.mp hafter, List.take_append_drop]
  · cases hyear

include hwhole hfraction hend in
theorem dateTime?_numeral : dateTime? (numeral whole fraction ++ rest) = none := by
  have hhyphen := hyphen_not_mem_numeral hwhole hfraction
  -- A date-time has a hyphen after digits, which neither part of the text gives.
  unfold dateTime?
  cases hread : Timestamp.Written.read? (numeral whole fraction ++ rest) with
  | none => rfl
  | some read =>
      obtain ⟨before, after, hsplit, hbefore⟩ := exists_hyphen_of_read? hread
      have hstart : ∀ back, rest ≠ '-' :: back := by
        rintro back rfl
        exact (hend '-' rfl).1 rfl
      rcases List.append_eq_append_iff.mp hsplit with
        ⟨digits, rfl, hback⟩ | ⟨others, hfront, hback⟩
      · cases digits with
        | nil => exact (hstart _ hback).elim
        | cons c digits =>
            have hdigit := hbefore c (by simp)
            cases hdigit.symm.trans (hend c (by rw [hback]; rfl)).2
      · cases others with
        | nil => exact (hstart _ hback.symm).elim
        | cons c others =>
            obtain ⟨rfl, -⟩ := List.cons.inj hback
            exact (hhyphen (by simp [hfront])).elim

include hwhole hne hfraction hend hpoint

theorem number?_numeral :
    number? (numeral whole fraction ++ rest) =
      some ⟨.number, (numeral whole fraction).length⟩ := by
  have hlength : ¬ whole.length = 0 := fun hzero => hne (List.length_eq_zero_iff.mp hzero)
  have hdigits : ∀ c ∈ rest.head?, c.isDigit = false := fun c hc => (hend c hc).2
  rw [numeral, List.append_assoc]
  split
  · rename_i hnil
    rw [List.nil_append, List.append_nil, number?, takeWhile_append hwhole hdigits]
    simp only [if_neg hlength, List.drop_left]
    split
    · exact (hpoint hnil '.' rfl rfl).elim
    · rfl
  · rename_i hnil
    have hplaces : ¬ fraction.length = 0 :=
      fun hzero => hnil (List.length_eq_zero_iff.mp hzero)
    have hmark : ∀ c ∈ ('.' :: (fraction ++ rest)).head?, c.isDigit = false := by
      intro c hc
      cases hc
      rfl
    have hwholeTake := takeWhile_append hwhole hmark
    have hfractionTake := takeWhile_append hfraction hdigits
    rw [List.cons_append, number?]
    simp only [hwholeTake, if_neg hlength, List.drop_left, hfractionTake, if_neg hplaces,
      List.length_append, List.length_cons]
    rw [Nat.add_assoc, Nat.add_comm 1]

theorem scan_numeral_of_head :
    scan (numeral whole fraction ++ rest) =
      ⟨.number, (numeral whole fraction).length⟩ := by
  have hdate := dateTime?_numeral hwhole hfraction hend
  have hnumber := number?_numeral hwhole hne hfraction hend hpoint
  obtain ⟨first, others, rfl⟩ := List.exists_cons_of_ne_nil hne
  have hblank := isBlank_of_isDigit (hwhole first List.mem_cons_self)
  rw [numeral, List.cons_append, List.cons_append] at hdate hnumber ⊢
  rw [scan_eq, blanks?_eq_none hblank, hdate, hnumber]
  rfl

omit hend hpoint in
theorem scan_numeral (hrest : EndsNumeral rest) :
    scan (numeral whole fraction ++ rest) =
      ⟨.number, (numeral whole fraction).length⟩ := by
  apply scan_numeral_of_head hwhole hne hfraction
  · exact fun c hc => ⟨(hrest c hc).1, (hrest c hc).2.2⟩
  · exact fun _ c hc => (hrest c hc).2.1

end Numeral

end Sift.Lexeme
