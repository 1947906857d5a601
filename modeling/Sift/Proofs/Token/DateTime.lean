import Sift.Proofs.Timestamp.Decoding
import Sift.Proofs.Timestamp.Form
import Sift.Proofs.Token.Munch

namespace Sift

/-! A date-time is a token as a whole or not at all. Where its form is broken off, a number
is read from its first digit on. -/

open Decimal (Digits numeral)
open Timestamp (Begins)

/-- The token is the number that the characters begin with. A point that no digit follows
spoils the number, and with it what else is malformed behind the point. -/
inductive Token.IsNumber (token : Token) (cs : List Char) : Prop
  | number {whole fraction rest : List Char} (hkind : token.kind = .number)
      (htext : token.text.toList = numeral whole fraction)
      (hcs : cs = numeral whole fraction ++ rest) (hne : whole ≠ [])
      (hwhole : Digits whole) (hfraction : Digits fraction)
      (hend : ∀ c ∈ rest.head?, c.isDigit = false ∧ (fraction = [] → c ≠ '.'))
  | spoiled {whole rest : List Char} (hkind : token.kind = .malformed)
      (htext : whole ++ ['.'] <+: token.text.toList)
      (hcs : cs = whole ++ '.' :: rest) (hne : whole ≠ []) (hwhole : Digits whole)
      (hend : ∀ c ∈ rest.head?, c.isDigit = false)

namespace Lexeme

variable {cs : List Char} {length : Nat}

theorem number?_eq_malformed (h : number? cs = some ⟨.malformed, length⟩) :
    ∃ whole rest, cs = whole ++ '.' :: rest ∧ whole.length + 1 = length ∧ whole ≠ [] ∧
      Digits whole ∧ ∀ c ∈ rest.head?, c.isDigit = false := by
  simp only [number?, drop_length_takeWhile] at h
  split at h
  · cases h
  rename_i hlength
  split at h
  · rename_i rest hpoint
    split at h
    · rename_i hplaces
      cases h
      refine ⟨cs.takeWhile Char.isDigit, rest, ?_, rfl, ?_, ?_, ?_⟩
      · rw [← hpoint, List.takeWhile_append_dropWhile]
      · exact fun hnil => hlength (by rw [hnil]; rfl)
      · exact fun c hc => List.mem_takeWhile_imp hc
      · have hrest := head_dropWhile Char.isDigit rest
        rwa [← drop_length_takeWhile, hplaces, List.drop_zero] at hrest
    · cases h
  · cases h

theorem le_malformedRun (hne : cs ≠ []) (hkind : (scan cs).kind = .malformed) :
    (scan cs).length ≤ malformedRun cs := by
  rw [malformedRun, if_neg hne]
  simp only [hkind, if_true]
  exact Nat.le_add_right _ _

/-- Characters that begin with a digit and with no date-time are read by the number rule. -/
theorem number?_of_isDigit {c : Char} (hdigit : c.isDigit = true)
    (hnone : ∀ text, ¬ Begins text (c :: cs)) :
    number? (c :: cs) = some (scan (c :: cs)) := by
  have hdate : dateTime? (c :: cs) = none := by
    unfold dateTime?
    cases hread : Timestamp.Written.read? (c :: cs) with
    | none => rfl
    | some read =>
        obtain ⟨text, hbegins, -⟩ := Timestamp.Written.exists_begins_of_read? hread
        exact (hnone text hbegins).elim
  obtain ⟨lexeme, hnumber⟩ : ∃ lexeme, number? (c :: cs) = some lexeme := by
    rw [← Option.isSome_iff_exists, Option.isSome_iff_ne_none]
    simp only [number?, List.takeWhile_cons, hdigit, if_true, List.length_cons]
    split
    · omega
    · split
      · split <;> exact Option.some_ne_none _
      · exact Option.some_ne_none _
  rw [scan_eq, blanks?_eq_none (isBlank_of_isDigit hdigit), hdate, hnumber]
  rfl

end Lexeme

namespace Cursor

variable {cs : List Char}

theorem next_of_scan {front rest : List Char} {kind : TokenKind} (hne : front ≠ [])
    (hscan : Lexeme.scan (front ++ rest) = ⟨kind, front.length⟩) (hkind : kind ≠ .malformed)
    (offset : Nat) :
    ∃ after, (Cursor.mk (front ++ rest) offset false).next =
      (some ⟨kind, String.ofList front, offset⟩, after) := by
  have hwell : (Lexeme.scan (front ++ rest)).kind ≠ .malformed := by rwa [hscan]
  obtain ⟨after, hnext⟩ :=
    next_of_ne_nil (List.append_ne_nil_of_left_ne_nil hne rest) offset
  rw [Lexeme.front_of_well hwell, hscan, List.take_left] at hnext
  exact ⟨after, hnext⟩

/-- A date-time token is what a text begins with by the forms of date-times. -/
theorem next_dateTime_iff (text : List Char) (offset : Nat) :
    (∃ token after, (Cursor.mk cs offset false).next = (some token, after) ∧
      token.kind = .dateTime ∧ token.text.toList = text) ↔ Begins text cs := by
  constructor
  · rintro ⟨token, after, hnext, hkind, rfl⟩
    by_cases hne : cs = []
    · obtain rfl := hne
      cases hnext
      cases hkind
    obtain ⟨place, hfront⟩ := next_of_ne_nil hne offset
    rw [hfront] at hnext
    cases hnext
    have hscan : (Lexeme.scan cs).kind = .dateTime := (Lexeme.front_kind cs).symm.trans hkind
    have hwell : (Lexeme.scan cs).kind ≠ .malformed := by simp [hscan]
    obtain ⟨written, hread⟩ := Lexeme.read?_of_scan hscan
    obtain ⟨text, hbegins, hlength⟩ := Timestamp.Written.exists_begins_of_read? hread
    obtain ⟨ending, rest, rfl, -⟩ := id hbegins
    rwa [Lexeme.front_of_well hwell, ← hlength, List.take_left, String.toList_ofList]
  · intro h
    obtain ⟨written, hread⟩ := Timestamp.Written.read?_of_begins h
    obtain ⟨ending, rest, rfl, -⟩ := h
    have hpos := Timestamp.Written.length_pos_of_read? hread
    obtain ⟨after, hnext⟩ := next_of_scan (List.length_pos_iff.mp hpos)
      (Lexeme.scan_dateTime hread) (by decide) offset
    exact ⟨_, after, hnext, rfl, String.toList_ofList⟩

theorem next_number {c : Char} (hdigit : c.isDigit = true)
    (hnone : ∀ text, ¬ Begins text (c :: cs)) (offset : Nat) :
    ∃ token after, (Cursor.mk (c :: cs) offset false).next = (some token, after) ∧
      token.offset = offset ∧ token.IsNumber (c :: cs) := by
  have hnumber := Lexeme.number?_of_isDigit hdigit hnone
  have hne := List.cons_ne_nil c cs
  generalize c :: cs = text at *
  rcases hscan : Lexeme.scan text with ⟨kind, length⟩
  rw [hscan] at hnumber
  rcases Lexeme.kind_of_number? hnumber with rfl | rfl
  · obtain ⟨whole, fraction, rest, rfl, rfl, hwhole, hwholeNe, hfraction, hend⟩ :=
      Lexeme.number?_eq_some hnumber
    have hnumeral : numeral whole fraction ≠ [] :=
      List.append_ne_nil_of_left_ne_nil hwholeNe _
    obtain ⟨after, hnext⟩ := next_of_scan hnumeral hscan (by decide) offset
    exact ⟨_, after, hnext, rfl,
      .number rfl String.toList_ofList rfl hwholeNe hwhole hfraction hend⟩
  · obtain ⟨whole, rest, rfl, rfl, hwholeNe, hwhole, hend⟩ :=
      Lexeme.number?_eq_malformed hnumber
    have hkind : (Lexeme.scan (whole ++ '.' :: rest)).kind = .malformed := by rw [hscan]
    obtain ⟨after, hnext⟩ := next_of_ne_nil hne offset
    refine ⟨_, after, hnext, rfl, .spoiled (Lexeme.front_kind _ |>.trans hkind) ?_ rfl hwholeNe
      hwhole hend⟩
    have hlength := Lexeme.le_malformedRun hne hkind
    rw [hscan] at hlength
    rw [Lexeme.front_of_malformed hkind, String.toList_ofList, List.prefix_take_iff]
    refine ⟨⟨rest, by simp⟩, ?_⟩
    rwa [List.length_append]

end Cursor

/-- At every place of a text the next token is a date-time exactly if the text goes on with
one from end to end. Where it begins with a digit and with no date-time, the next token is
the number at that place, or begins with the number that its point spoils. -/
theorem next_dateTime_or_number :
    (∀ cs offset text,
      (∃ token after, (Cursor.mk cs offset false).next = (some token, after) ∧
        token.kind = .dateTime ∧ token.text.toList = text) ↔ Begins text cs) ∧
    ∀ c cs offset, c.isDigit = true → (∀ text, ¬ Begins text (c :: cs)) →
      ∃ token after, (Cursor.mk (c :: cs) offset false).next = (some token, after) ∧
        token.offset = offset ∧ token.IsNumber (c :: cs) :=
  ⟨fun _ offset text => Cursor.next_dateTime_iff text offset,
    fun _ _ offset hdigit hnone => Cursor.next_number hdigit hnone offset⟩

theorem not_begins_of_read? {cs : List Char} (h : Timestamp.Written.read? cs = none)
    (text : List Char) : ¬ Begins text cs := by
  intro hbegins
  obtain ⟨written, hread⟩ := Timestamp.Written.read?_of_begins hbegins
  cases h.symm.trans hread

/-- A zone with a mark behind it that is none of its own, a time that is broken off, and a
point without a digit. -/
theorem next_dateTime_or_number_broken :
    Begins "2019-01-01T12:00:00.250-05:30".toList
        "2019-01-01T12:00:00.250-05:30Z".toList ∧
      ('2'.isDigit = true ∧ (∀ text, ¬ Begins text "2019-01-01T12:00:00.1Z".toList) ∧
        ∃ token after,
          (Cursor.mk "2019-01-01T12:00:00.1Z".toList 3 false).next = (some token, after) ∧
            token.IsNumber "2019-01-01T12:00:00.1Z".toList ∧ token.kind = .number ∧
              token.text = "2019") ∧
      '1'.isDigit = true ∧ (∀ text, ¬ Begins text "12.é#a".toList) ∧
        ∃ token after, (Cursor.mk "12.é#a".toList 0 false).next = (some token, after) ∧
          token.IsNumber "12.é#a".toList ∧ token.kind = .malformed ∧
            token.text = "12.é#" := by
  have hzoned : ((Cursor.mk "2019-01-01T12:00:00.250-05:30Z".toList 0 false).next).1 =
      some ⟨.dateTime, "2019-01-01T12:00:00.250-05:30", 0⟩ := by
    decide +kernel
  have hbroken : ((Cursor.mk "2019-01-01T12:00:00.1Z".toList 3 false).next).1 =
      some ⟨.number, "2019", 3⟩ := by
    decide +kernel
  have hpoint : ((Cursor.mk "12.é#a".toList 0 false).next).1 =
      some ⟨.malformed, "12.é#", 0⟩ := by
    decide +kernel
  have htime : ∀ text, ¬ Begins text "2019-01-01T12:00:00.1Z".toList :=
    not_begins_of_read? (by decide +kernel)
  have hshort : ∀ text, ¬ Begins text "12.é#a".toList :=
    not_begins_of_read? (by decide +kernel)
  obtain ⟨number, afterNumber, hnumber, -, hisNumber⟩ :=
    next_dateTime_or_number.2 '2' "019-01-01T12:00:00.1Z".toList 3 rfl htime
  obtain ⟨spoiled, afterSpoiled, hspoiled, -, hisSpoiled⟩ :=
    next_dateTime_or_number.2 '1' "2.é#a".toList 0 rfl hshort
  obtain rfl := Option.some.inj ((congrArg Prod.fst hnumber).symm.trans hbroken)
  obtain rfl := Option.some.inj ((congrArg Prod.fst hspoiled).symm.trans hpoint)
  refine ⟨(next_dateTime_or_number.1 _ 0 _).mp ⟨_, _, Prod.ext hzoned rfl, rfl, rfl⟩,
    ⟨rfl, htime, _, _, hnumber, hisNumber, rfl, rfl⟩, rfl, hshort, _, _, hspoiled, hisSpoiled,
    rfl, rfl⟩

end Sift
