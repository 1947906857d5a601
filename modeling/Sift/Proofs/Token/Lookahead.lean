import Sift.Proofs.Timestamp.Form
import Sift.Proofs.Token.Lexeme

namespace Sift

/-! A lexeme looks no further ahead than the character after it. -/

namespace Lexeme

/-- Some lexeme goes on with the character. Blanks, with which only blanks go on, are left
out. -/
def Joins (c : Char) : Prop :=
  isWordChar c = true ∨ c ∈ ['.', ':', '+', '-', '=', '>']

instance : DecidablePred Joins :=
  fun _ => inferInstanceAs (Decidable (_ ∨ _))

/-- Where the one text ends a lexeme, so does the other. -/
def Meets (rest other : List Char) : Prop :=
  other.head? = rest.head? ∨ ∀ c ∈ other.head?, ¬ Joins c

section Meets

variable {rest other : List Char} (h : Meets rest other)

include h

theorem Meets.head {holds : Char → Prop} (hrest : ∀ c ∈ rest.head?, holds c)
    (hsevers : ∀ c, ¬ Joins c → holds c) : ∀ c ∈ other.head?, holds c := by
  rcases h with heq | hsevered
  · rwa [heq]
  · exact fun c hc => hsevers c (hsevered c hc)

theorem Meets.head_not_mem {marks : List Char}
    (hmarks : (marks.all fun mark => Joins mark) = true)
    (hrest : ∀ c ∈ rest.head?, c ∉ marks) : ∀ c ∈ other.head?, c ∉ marks :=
  h.head hrest fun c hc hmem =>
    hc (of_decide_eq_true (List.all_eq_true.mp hmarks c hmem))

end Meets

theorem isWordChar_of_not_joins {c : Char} (h : ¬ Joins c) : isWordChar c = false :=
  Bool.eq_false_iff.mpr fun hword => h (.inl hword)

theorem isDigit_of_not_joins {c : Char} (h : ¬ Joins c) : c.isDigit = false :=
  Bool.eq_false_iff.mpr fun hdigit => h (.inl (isWordChar_iff.mpr (.inr hdigit)))

end Lexeme

namespace Timestamp

open Lexeme (Joins Meets)

theorem joins_of_isDigit {c : Char} (h : c.isDigit = true) : Joins c :=
  .inl (Lexeme.isWordChar_iff.mpr (.inr h))

/-- No lexeme ends within a date-time. -/
theorem Form.joins {ending : Ending} {text : List Char} (h : Form ending text) :
    ∀ c ∈ text, Joins c := by
  have hdigits {count : Nat} {digits : List Char} (h : Text.IsDigits count digits) :
      ∀ c ∈ digits, Joins c := fun c hc => joins_of_isDigit (h.2 c hc)
  have hpair {highest : Char} {pair : List Char} (h : Text.IsPair highest pair) :
      ∀ c ∈ pair, Joins c := fun c hc => joins_of_isDigit (h.isDigit_of_mem c hc)
  have hhyphen : Joins '-' := by decide
  have hcolon : Joins ':' := by decide
  induction h with
  | date hyear hmonth hday =>
      simp only [List.forall_mem_append, List.forall_mem_cons]
      exact ⟨⟨hdigits hyear, hhyphen, hdigits hmonth⟩, hhyphen, hdigits hday⟩
  | clock hdate hhour hminute hsecond ih =>
      have hmark : Joins 'T' := by decide
      simp only [List.forall_mem_append, List.forall_mem_cons]
      exact ⟨⟨⟨ih, hmark, hpair hhour⟩, hcolon, hpair hminute⟩, hcolon, hpair hsecond⟩
  | fraction htime hfraction ih =>
      have hpoint : Joins '.' := by decide
      simp only [List.forall_mem_append, List.forall_mem_cons]
      exact ⟨ih, hpoint, hdigits hfraction⟩
  | utc htime hending ih =>
      have hmark : Joins 'Z' := by decide
      simp only [List.forall_mem_append, List.forall_mem_singleton]
      exact ⟨ih, hmark⟩
  | zoneHour htime hending hsign hhour ih =>
      simp only [List.forall_mem_append, List.forall_mem_cons]
      refine ⟨ih, ?_, hpair hhour⟩
      rcases hsign with rfl | rfl <;> decide
  | zoneMinute hzoned hminute ih =>
      simp only [List.forall_mem_append, List.forall_mem_cons]
      exact ⟨ih, hcolon, hpair hminute⟩

theorem Ending.Stops.of_meets {ending : Ending} {rest other : List Char}
    (h : ending.Stops rest) (hmeets : Meets rest other) : ending.Stops other :=
  hmeets.head_not_mem (by cases ending <;> decide) h

namespace Written

variable {cs : List Char} {written : Written} {length : Nat}

/-- What is read of a text is read of every text with the same front that goes on alike. -/
theorem read?_settled (h : read? cs = some (written, length)) :
    ∃ front rest, cs = front ++ rest ∧ front.length = length ∧
      ∀ other, Meets rest other → read? (front ++ other) = some (written, length) := by
  obtain ⟨front, ⟨ending, rest, rfl, hform, hstops⟩, rfl⟩ := exists_begins_of_read? h
  obtain ⟨found, hread⟩ := read?_of_form hform
  rw [hread, continue?_of_stops found hstops] at h
  refine ⟨front, rest, rfl, rfl, fun other hmeets => ?_⟩
  rw [hread, continue?_of_stops found (hstops.of_meets hmeets), h]

theorem joins_of_read? (h : read? cs = some (written, cs.length)) : ∀ c ∈ cs, Joins c := by
  obtain ⟨front, ⟨ending, rest, hcs, hform, -⟩, hlength⟩ := exists_begins_of_read? h
  have hprefix : front <+: cs := ⟨rest, hcs.symm⟩
  rw [← hprefix.eq_of_length hlength]
  exact hform.joins

end Written

end Timestamp

/-! Lexemes. -/

namespace Lexeme

variable {text rest other : List Char}

/-! The front that each rule takes. -/

variable {cs rest : List Char} {kind : TokenKind} {length : Nat}

theorem blanks?_eq_some (h : blanks? cs = some ⟨kind, length⟩) :
    ∃ front rest, cs = front ++ rest ∧ front.length = length ∧ length ≠ 0 ∧
      (∀ c ∈ front, Text.isBlank c = true) ∧
        ∀ c ∈ rest.head?, Text.isBlank c = false := by
  simp only [blanks?] at h
  split at h
  · cases h
  · rename_i hlength
    cases h
    exact ⟨cs.takeWhile Text.isBlank, cs.dropWhile Text.isBlank,
      List.takeWhile_append_dropWhile.symm, rfl, hlength,
      fun c hc => List.mem_takeWhile_imp hc, head_dropWhile Text.isBlank cs⟩

theorem number?_eq_some (h : number? cs = some ⟨.number, length⟩) :
    ∃ whole fraction rest, cs = Decimal.numeral whole fraction ++ rest ∧
      (Decimal.numeral whole fraction).length = length ∧ Decimal.Digits whole ∧
        whole ≠ [] ∧ Decimal.Digits fraction ∧
          ∀ c ∈ rest.head?, c.isDigit = false ∧ (fraction = [] → c ≠ '.') := by
  simp only [number?, drop_length_takeWhile] at h
  split at h
  · cases h
  rename_i hlength
  have hsplit : cs = cs.takeWhile Char.isDigit ++ cs.dropWhile Char.isDigit :=
    List.takeWhile_append_dropWhile.symm
  have hhead := head_dropWhile Char.isDigit cs
  have hwhole : Decimal.Digits (cs.takeWhile Char.isDigit) :=
    fun c hc => List.mem_takeWhile_imp hc
  have hne : cs.takeWhile Char.isDigit ≠ [] := fun hnil => hlength (by rw [hnil]; rfl)
  generalize cs.takeWhile Char.isDigit = whole at *
  generalize cs.dropWhile Char.isDigit = back at *
  split at h
  · rename_i digits
    split at h
    · cases h
    · rename_i hplaces
      cases h
      have hfraction : digits.takeWhile Char.isDigit ≠ [] :=
        fun hnil => hplaces (by rw [hnil]; rfl)
      have hsplitDigits : digits.takeWhile Char.isDigit ++ digits.dropWhile Char.isDigit =
          digits := List.takeWhile_append_dropWhile
      refine ⟨whole, digits.takeWhile Char.isDigit, digits.dropWhile Char.isDigit, ?_, ?_,
        hwhole, hne, fun c hc => List.mem_takeWhile_imp hc,
        fun c hc => ⟨head_dropWhile _ _ c hc, fun hnil => (hfraction hnil).elim⟩⟩
      · rw [Decimal.numeral, if_neg hfraction, List.append_assoc, List.cons_append,
          hsplitDigits, hsplit]
      · rw [Decimal.numeral, if_neg hfraction, List.length_append, List.length_cons]
        omega
  · rename_i hpoint
    cases h
    refine ⟨whole, [], back, ?_, ?_, hwhole, hne, List.forall_mem_nil _,
      fun c hc => ⟨hhead c hc, ?_⟩⟩
    · rw [Decimal.numeral, if_pos rfl, List.append_nil, hsplit]
    · rw [Decimal.numeral, if_pos rfl, List.append_nil]
    · rintro - rfl
      obtain ⟨digits, hdigits⟩ := List.head?_eq_some_iff.mp hc
      exact hpoint digits hdigits

theorem word?_eq_some_iff (h : word? cs = some ⟨kind, length⟩) :
    ∃ word rest, cs = word ++ rest ∧ word.length = length ∧ IsWord word ∧
      EndsWord rest := by
  unfold word? at h
  split at h
  · rename_i c cs
    split at h
    · rename_i hstart
      cases h
      refine ⟨c :: cs.takeWhile isWordChar, cs.dropWhile isWordChar, ?_, rfl, ?_, ?_⟩
      · rw [List.cons_append, List.takeWhile_append_dropWhile]
      · exact ⟨hstart, List.all_takeWhile⟩
      · exact head_dropWhile isWordChar cs
    · cases h
  · cases h

theorem le_of_find?_reverse_range' {holds : Nat → Bool} {bound length longer : Nat}
    (hfound : (List.range' 1 bound).reverse.find? holds = some length)
    (hle : longer ≤ bound) (hpos : 1 ≤ longer) (hlonger : holds longer = true) :
    longer ≤ length := by
  induction bound with
  | zero => omega
  | succ bound ih =>
      rw [List.range'_1_concat, List.reverse_concat, List.find?_cons] at hfound
      split at hfound
      · cases hfound
        omega
      · rename_i hlast
        apply ih hfound
        have hne : longer ≠ 1 + bound := by
          rintro rfl
          cases hlonger.symm.trans hlast
        omega

/-- The operator that is found is the longest one that counts. -/
theorem exists_longest_of_operator? (h : operator? cs = some ⟨kind, length⟩) :
    ∃ operator ∈ operators, ∃ rest, cs = operator.toList ++ rest ∧
      operator.toList.length = length ∧ isOperator operator.toList rest.head? = true ∧
        ∀ longer ∈ operators, longer.toList <+: cs →
          isOperator longer.toList cs[longer.toList.length]? = true →
            longer.toList.length ≤ length := by
  rw [operator?_eq, Option.map_eq_some_iff] at h
  obtain ⟨found, hfound, hlexeme⟩ := h
  cases hlexeme
  have hoperator := List.find?_some hfound
  have hle : length ≤ (operatorRun cs).length := by
    have hmem := List.mem_of_find?_eq_some hfound
    simp only [List.mem_reverse, List.mem_range'_1] at hmem
    omega
  obtain ⟨operator, hmem, ⟨rest, rfl⟩, rfl, hend⟩ :=
    exists_operator_of_isOperator (hle.trans (length_operatorRun_le cs)) hoperator
  refine ⟨operator, hmem, rest, rfl, rfl, ?_, ?_⟩
  · rw [List.getElem?_append_right (Nat.le_refl _), Nat.sub_self,
      ← List.head?_eq_getElem?] at hend
    exact hend
  · rintro longer hlonger ⟨back, hback⟩ hcounts
    rw [← hback] at hfound hcounts
    apply le_of_find?_reverse_range' hfound (le_length_operatorRun hlonger back)
    · exact List.length_pos_iff.mpr (operators_chars longer hlonger).1
    · rwa [List.take_left]

theorem quoted?_eq_some (h : quoted? cs = some ⟨.string, length⟩) :
    ∃ quote front rest, cs = quote :: front ++ rest ∧ front.length + 1 = length ∧
      Text.Quoted.isQuote quote = true ∧
        ∀ other, quoted? (quote :: front ++ other) = some ⟨.string, length⟩ := by
  unfold quoted? at h
  split at h
  · rename_i quote cs
    split at h
    · rename_i hquote
      split at h
      · rename_i inner hclosing
        cases h
        obtain ⟨pieces, rest, rfl⟩ := Text.Quoted.exists_pieces_of_closing? hclosing
        have hread := Text.Quoted.closing?_pieces
          (Text.Quoted.ne_backslash_of_isQuote hquote) pieces
        cases (hread rest).symm.trans hclosing
        refine ⟨quote, pieces.flatMap Text.Quoted.Piece.written ++ [quote], rest, by simp,
          by simp, hquote, fun other => ?_⟩
        simp [quoted?, hquote, hread other]
      · cases h
    · cases h
  · cases h

/-! Each rule finds its front again. -/

theorem scan_blanks {front : List Char} (hne : front ≠ [])
    (hfront : ∀ c ∈ front, Text.isBlank c = true)
    (hrest : ∀ c ∈ rest.head?, Text.isBlank c = false) :
    scan (front ++ rest) = ⟨.blank, front.length⟩ := by
  have hlength : ¬ front.length = 0 := fun hzero => hne (List.length_eq_zero_iff.mp hzero)
  have hblanks : blanks? (front ++ rest) = some ⟨.blank, front.length⟩ := by
    rw [blanks?, takeWhile_append hfront hrest, if_neg hlength]
  rw [scan_eq, hblanks]
  rfl

theorem operators_extended :
    ∀ operator ∈ operators, ∀ longer ∈ operators, operator.toList <+: longer.toList →
      longer = operator ∨ longer.toList = operator.toList ++ ['='] ∨
        longer.toList = operator.toList ++ ['>'] := by
  decide +kernel

theorem exists_joining {operator longer : String} (hmem : operator ∈ operators)
    (hlonger : longer ∈ operators) (hstarts : operator.toList <+: longer.toList)
    (hne : longer ≠ operator) :
    ∃ c, longer.toList = operator.toList ++ [c] ∧ c.isAlpha = false ∧ Joins c := by
  rcases operators_extended operator hmem longer hlonger hstarts with hsame | heq | hgt
  · exact (hne hsame).elim
  · exact ⟨'=', heq, by decide, by decide⟩
  · exact ⟨'>', hgt, by decide, by decide⟩

section Operator

variable {operator : String} (hmeets : Meets rest other)

include hmeets

theorem isOperator_of_meets (h : isOperator operator.toList rest.head? = true) :
    isOperator operator.toList other.head? = true := by
  simp only [isOperator, Bool.and_eq_true, Bool.not_eq_true'] at h ⊢
  refine ⟨h.1, ?_⟩
  cases halpha : operator.toList.getLast?.any Char.isAlpha with
  | false => rfl
  | true =>
      have hrest : ∀ c ∈ rest.head?, isWordChar c = false := by
        intro c hc
        have hnext := h.2
        rwa [halpha, hc] at hnext
      have hother := hmeets.head hrest fun _ => isWordChar_of_not_joins
      cases hhead : other.head? with
      | none => rfl
      | some c => exact hother c hhead

theorem longest_of_meets (hmem : operator ∈ operators)
    (hlongest : ∀ longer ∈ operators, longer.toList <+: operator.toList ++ rest →
      isOperator longer.toList
          (operator.toList ++ rest)[longer.toList.length]? = true →
        longer.toList.length ≤ operator.toList.length) :
    ∀ longer ∈ operators, longer.toList <+: operator.toList ++ other →
      longer.toList.length ≤ operator.toList.length := by
  intro longer hlonger hstarts
  rcases List.prefix_or_prefix_of_prefix hstarts (List.prefix_append _ other) with
    hshort | hlong
  · exact hshort.length_le
  by_cases hsame : longer = operator
  · rw [hsame]
  obtain ⟨c, hlast, halpha, hjoins⟩ :=
    exists_joining hmem hlonger hlong hsame
  rw [hlast, List.prefix_append_right_inj] at hstarts
  obtain ⟨back, rfl⟩ := hstarts
  rcases hmeets with hsame | hsevered
  · obtain ⟨others, rfl⟩ := List.head?_eq_some_iff.mp hsame.symm
    apply hlongest longer hlonger
    · exact ⟨others, by rw [hlast, List.append_assoc]; rfl⟩
    · rw [isOperator, String.ofList_toList, List.contains_iff_mem.mpr hlonger, hlast,
        List.getLast?_concat, Option.any_some, halpha]
      rfl
  · exact (hsevered c rfl hjoins).elim

end Operator

/-- The lexeme at the front of a text is that of every text with the same front that goes
on alike. A hyphen after a number may make a date of it. -/
theorem scan_settled (h : scan cs = ⟨kind, length⟩) (hkind : kind ≠ .malformed) :
    ∃ front rest, cs = front ++ rest ∧ front.length = length ∧
      ∀ other, Meets rest other → (kind = .number → other.head? ≠ some '-') →
        (kind = .blank → other.head? = rest.head? ∨
          ∀ c ∈ other.head?, Text.isBlank c = false) →
          scan (front ++ other) = ⟨kind, length⟩ := by
  have hrule : (scan cs).kind ≠ .malformed := h ▸ hkind
  have hcases := exists_rule hrule
  rw [h] at hcases
  rcases hcases with ⟨hfound, rfl⟩ | ⟨hfound, -⟩ | ⟨hfound, rfl⟩ | ⟨hfound, rfl⟩ |
    ⟨hfound, -⟩ | ⟨hfound, rfl⟩
  · obtain ⟨front, rest, rfl, rfl, hlength, hfront, hrest⟩ := blanks?_eq_some hfound
    have hne : front ≠ [] := fun hnil => hlength (by rw [hnil]; rfl)
    refine ⟨front, rest, rfl, rfl, fun other _ _ hblank => scan_blanks hne hfront ?_⟩
    rcases hblank rfl with hsame | hother
    · rwa [hsame]
    · exact hother
  · obtain ⟨⟨written, taken⟩, hread, hlexeme⟩ := Option.map_eq_some_iff.mp hfound
    cases hlexeme
    obtain ⟨front, rest, rfl, rfl, hsettled⟩ := Timestamp.Written.read?_settled hread
    exact ⟨front, rest, rfl, rfl, fun other hmeets _ _ =>
      scan_dateTime (hsettled other hmeets)⟩
  · obtain ⟨whole, fraction, rest, rfl, rfl, hwhole, hne, hfraction, hrest⟩ :=
      number?_eq_some hfound
    refine ⟨_, rest, rfl, rfl, fun other hmeets hhyphen _ => ?_⟩
    apply scan_numeral_of_head hwhole hne hfraction
    · have hdigit :=
        hmeets.head (fun c hc => (hrest c hc).1) fun _ => isDigit_of_not_joins
      refine fun c hc => ⟨?_, hdigit c hc⟩
      rintro rfl
      exact hhyphen rfl hc
    · intro hnil c hc hpoint
      have hpoints : ∀ c ∈ rest.head?, c ∉ ['.'] := fun c hc hmem =>
        (hrest c hc).2 hnil (List.mem_singleton.mp hmem)
      exact hmeets.head_not_mem (by decide) hpoints c hc (List.mem_singleton.mpr hpoint)
  · obtain ⟨operator, hmem, rest, rfl, rfl, hend, hlongest⟩ :=
      exists_longest_of_operator? hfound
    exact ⟨operator.toList, rest, rfl, rfl, fun other hmeets _ _ =>
      scan_operator hmem (isOperator_of_meets hmeets hend)
        (longest_of_meets hmeets hmem hlongest)⟩
  · obtain ⟨word, rest, rfl, rfl, hword, hrest⟩ := word?_eq_some_iff hfound
    obtain rfl : kindOfWord word = kind :=
      congrArg Lexeme.kind ((scan_word hword hrest).symm.trans h)
    refine ⟨word, rest, rfl, rfl, fun other hmeets _ _ => scan_word hword ?_⟩
    exact hmeets.head hrest fun _ => isWordChar_of_not_joins
  · obtain ⟨quote, front, rest, rfl, rfl, hquote, hread⟩ := quoted?_eq_some hfound
    exact ⟨quote :: front, rest, rfl, rfl, fun other _ _ _ =>
      scan_quoted hquote (hread other)⟩

end Lexeme

end Sift
