import Sift.Proofs.Text.Digits
import Sift.Timestamp.Written

namespace Sift

/-! The forms of a date-time, component by component. Reading takes the form that a text
begins with, unless the text goes on as if a further component were to come. -/

namespace Text

def IsDigits (count : Nat) (digits : List Char) : Prop :=
  digits.length = count ∧ ∀ c ∈ digits, c.isDigit = true

/-- Two digits, the first of them no higher than the given one. -/
def IsPair (highest : Char) : List Char → Prop
  | [tens, units] => tens.isDigit = true ∧ tens ≤ highest ∧ units.isDigit = true
  | _ => False

variable {cs rest : List Char} {value : Nat}

theorem IsDigits.digits?_append {count : Nat} {digits : List Char}
    (h : IsDigits count digits) (rest : List Char) :
    digits? count (digits ++ rest) = some (digitsValue digits, rest) := by
  obtain ⟨rfl, hdigits⟩ := h
  exact Text.digits?_append hdigits rest

theorem exists_isDigits_of_digits? {count : Nat}
    (h : digits? count cs = some (value, rest)) :
    ∃ digits, cs = digits ++ rest ∧ IsDigits count digits := by
  unfold digits? at h
  simp only at h
  split at h
  · rename_i hdigits
    cases h
    exact ⟨cs.take count, (List.take_append_drop count cs).symm, hdigits.1,
      List.all_eq_true.mp hdigits.2⟩
  · cases h

theorem IsPair.length_eq {highest : Char} {pair : List Char} (h : IsPair highest pair) :
    pair.length = 2 := by
  unfold IsPair at h
  split at h
  · rfl
  · exact h.elim

theorem IsPair.isDigit_of_mem {highest : Char} {pair : List Char} (h : IsPair highest pair) :
    ∀ c ∈ pair, c.isDigit = true := by
  unfold IsPair at h
  split at h
  · exact List.forall_mem_cons.mpr ⟨h.1, List.forall_mem_singleton.mpr h.2.2⟩
  · exact h.elim

theorem IsPair.pair?_append {highest : Char} {pair : List Char} (h : IsPair highest pair)
    (rest : List Char) : pair? highest (pair ++ rest) = some (digitsValue pair, rest) := by
  unfold IsPair at h
  split at h
  · exact if_pos h
  · exact h.elim

theorem exists_isPair_of_pair? {highest : Char}
    (h : pair? highest cs = some (value, rest)) :
    ∃ pair, cs = pair ++ rest ∧ IsPair highest pair := by
  unfold pair? at h
  split at h
  · rename_i tens units cs
    split at h
    · rename_i hdigits
      cases h
      exact ⟨[tens, units], rfl, hdigits⟩
    · cases h
  · cases h

end Text

namespace Timestamp

open Text (IsDigits IsPair exists_isDigits_of_digits? exists_isPair_of_pair?)

/-- The component that a date-time ends with. -/
inductive Ending where
  | date
  | clock
  | fraction
  | utc
  | zoneHour
  | zoneMinute
deriving DecidableEq

/-- The characters that begin a component that may follow. -/
def Ending.marks : Ending → List Char
  | date => ['T']
  | clock => ['.', 'Z', '+', '-']
  | fraction => ['Z', '+', '-']
  | utc => []
  | zoneHour => [':']
  | zoneMinute => []

/-- The text does not go on with a further component. -/
def Ending.Stops (ending : Ending) (rest : List Char) : Prop :=
  ∀ c ∈ rest.head?, c ∉ ending.marks

/-- The texts that are date-times, by the component that they end with. -/
inductive Form : Ending → List Char → Prop
  | date {year month day : List Char} (hyear : IsDigits 4 year) (hmonth : IsDigits 2 month)
      (hday : IsDigits 2 day) :
      Form .date (year ++ '-' :: month ++ '-' :: day)
  | clock {date hour minute second : List Char} (hdate : Form .date date)
      (hhour : IsPair '2' hour) (hminute : IsPair '5' minute)
      (hsecond : IsPair '5' second) :
      Form .clock (date ++ 'T' :: hour ++ ':' :: minute ++ ':' :: second)
  | fraction {time digits : List Char} (htime : Form .clock time)
      (hdigits : IsDigits 3 digits) :
      Form .fraction (time ++ '.' :: digits)
  | utc {ending : Ending} {time : List Char} (htime : Form ending time)
      (hending : ending = .clock ∨ ending = .fraction) :
      Form .utc (time ++ ['Z'])
  | zoneHour {ending : Ending} {time hour : List Char} {sign : Char}
      (htime : Form ending time) (hending : ending = .clock ∨ ending = .fraction)
      (hsign : sign = '+' ∨ sign = '-') (hhour : IsPair '2' hour) :
      Form .zoneHour (time ++ sign :: hour)
  | zoneMinute {zoned minute : List Char} (hzoned : Form .zoneHour zoned)
      (hminute : IsPair '5' minute) :
      Form .zoneMinute (zoned ++ ':' :: minute)

/-- The text is all of the date-time that the characters begin with. -/
def Begins (text cs : List Char) : Prop :=
  ∃ ending rest, cs = text ++ rest ∧ Form ending text ∧ ending.Stops rest

namespace Written

variable {cs : List Char}

/-! Parts that may be missing, told by their first character. -/

theorem zoneMinute?_eq_none (written : Written) (h : ∀ c ∈ cs.head?, c ∉ [':']) :
    zoneMinute? written cs = some (written, 0) := by
  unfold zoneMinute?
  split
  · exact (h ':' rfl (by decide)).elim
  · rfl

theorem zone?_eq_none (written : Written) (h : ∀ c ∈ cs.head?, c ∉ ['Z', '+', '-']) :
    zone? written cs = some (written, 0) := by
  unfold zone?
  split
  · exact (h 'Z' rfl (by decide)).elim
  · exact (h '+' rfl (by decide)).elim
  · exact (h '-' rfl (by decide)).elim
  · rfl

theorem fraction?_eq_zone? (written : Written) (h : ∀ c ∈ cs.head?, c ∉ ['.']) :
    fraction? written cs = zone? written cs := by
  unfold fraction?
  split
  · exact (h '.' rfl (by decide)).elim
  · rfl

theorem clock?_eq_none (written : Written) (h : ∀ c ∈ cs.head?, c ∉ ['T']) :
    clock? written cs = some (written, 0) := by
  unfold clock?
  split
  · exact (h 'T' rfl (by decide)).elim
  · rfl

/-- A text begins with one of the marks, or with none of them. -/
theorem head_cases (cs marks : List Char) :
    (∃ mark ∈ marks, ∃ back, cs = mark :: back) ∨ ∀ c ∈ cs.head?, c ∉ marks := by
  cases cs with
  | nil => exact .inr nofun
  | cons c cs =>
      by_cases hmem : c ∈ marks
      · exact .inl ⟨c, hmem, cs, rfl⟩
      · right
        intro head hhead
        cases hhead
        exact hmem

/-! What is read of a form that other text follows. -/

/-- What may be read after the component. -/
def continue? (written : Written) : Ending → List Char → Option (Written × Nat)
  | .date => clock? written
  | .clock => fraction? written
  | .fraction => zone? written
  | .zoneHour => zoneMinute? written
  | .utc | .zoneMinute => fun _ => some (written, 0)

/-- The number of characters read, with those that were read before. -/
def further (count : Nat) (read : Option (Written × Nat)) : Option (Written × Nat) :=
  read.map fun (written, length) => (written, count + length)

theorem further_further (first second : Nat) (read : Option (Written × Nat)) :
    further first (further second read) = further (first + second) read := by
  cases read with
  | none => rfl
  | some read => simp [further, Nat.add_assoc]

theorem bind_further (read : Option (Written × Nat)) (count : Nat) :
    (read.bind fun (written, length) => some (written, count + length)) =
      further count read := by
  cases read <;> rfl

section Append

variable (written : Written)

theorem time?_append {hour minute second : List Char} (hhour : IsPair '2' hour)
    (hminute : IsPair '5' minute) (hsecond : IsPair '5' second) :
    ∃ timed, ∀ rest, time? written (hour ++ ':' :: (minute ++ ':' :: (second ++ rest))) =
      further 8 (fraction? timed rest) := by
  refine ⟨{ written with
    hour := Text.digitsValue hour
    minute := Text.digitsValue minute
    second := Text.digitsValue second }, fun rest => ?_⟩
  rw [← bind_further]
  simp [time?, hour?, sexagesimal?, Text.after?, hhour.pair?_append, hminute.pair?_append,
    hsecond.pair?_append]

theorem fraction?_append {digits : List Char} (hdigits : IsDigits 3 digits) :
    ∃ timed, ∀ rest, fraction? written ('.' :: (digits ++ rest)) =
      further 4 (zone? timed rest) := by
  refine ⟨{ written with milliseconds := Fin.ofNat 1000 (Text.digitsValue digits) },
    fun rest => ?_⟩
  rw [← bind_further]
  simp [fraction?, hdigits.digits?_append]

theorem zone?_sign {sign : Char} (hsign : sign = '+' ∨ sign = '-') :
    ∃ signed, ∀ cs, zone? written (sign :: cs) = further 1 (zoneHour? signed cs) := by
  rcases hsign with rfl | rfl
  · exact ⟨written, fun cs => bind_further _ 1⟩
  · exact ⟨{ written with west := true }, fun cs => bind_further _ 1⟩

theorem zoneHour?_append {hour : List Char} (hhour : IsPair '2' hour) :
    ∃ zoned, ∀ rest, zoneHour? written (hour ++ rest) =
      further 2 (zoneMinute? zoned rest) := by
  refine ⟨{ written with zoneHour := Text.digitsValue hour }, fun rest => ?_⟩
  rw [← bind_further]
  simp [zoneHour?, hour?, hhour.pair?_append]

theorem zoneMinute?_append {minute : List Char} (hminute : IsPair '5' minute) :
    ∃ zoned, ∀ rest, zoneMinute? written (':' :: (minute ++ rest)) = some (zoned, 3) := by
  refine ⟨{ written with zoneMinute := Text.digitsValue minute }, fun rest => ?_⟩
  simp [zoneMinute?, sexagesimal?, hminute.pair?_append]

/-- A zone follows the seconds as it does a fraction. -/
theorem continue?_zone {ending : Ending} (hending : ending = .clock ∨ ending = .fraction)
    {cs : List Char} (hcs : ∀ c ∈ cs.head?, c ∉ ['.']) :
    continue? written ending cs = zone? written cs := by
  rcases hending with rfl | rfl
  · exact fraction?_eq_zone? written hcs
  · rfl

end Append

/-- Behind a form, reading goes on with what may follow its last component. -/
theorem read?_of_form {ending : Ending} {text : List Char} (h : Form ending text) :
    ∃ written, ∀ rest,
      read? (text ++ rest) = further text.length (continue? written ending rest) := by
  induction h with
  | @date year month day hyear hmonth hday =>
      refine ⟨onDate (Text.digitsValue year) (Text.digitsValue month)
        (Text.digitsValue day), fun rest => ?_⟩
      have hlength : (year ++ '-' :: month ++ '-' :: day).length = 10 := by
        simp [hyear.1, hmonth.1, hday.1]
      rw [hlength, continue?, ← bind_further]
      simp [read?, Text.after?, hyear.digits?_append, hmonth.digits?_append,
        hday.digits?_append]
  | @clock date hour minute second hdate hhour hminute hsecond ih =>
      obtain ⟨written, hread⟩ := ih
      obtain ⟨timed, htime⟩ := time?_append written hhour hminute hsecond
      refine ⟨timed, fun rest => ?_⟩
      have hlength : (date ++ 'T' :: hour ++ ':' :: minute ++ ':' :: second).length =
          date.length + (1 + 8) := by
        simp [hhour.length_eq, hminute.length_eq, hsecond.length_eq]
      have hclock (cs : List Char) :
          clock? written ('T' :: cs) = further 1 (time? written cs) := bind_further _ 1
      simp only [List.append_assoc, List.cons_append] at hlength ⊢
      rw [hlength, hread, continue?, hclock, htime, further_further, further_further]
      rfl
  | @fraction time digits htime hdigits ih =>
      obtain ⟨written, hread⟩ := ih
      obtain ⟨timed, hfraction⟩ := fraction?_append written hdigits
      refine ⟨timed, fun rest => ?_⟩
      rw [List.append_assoc, List.cons_append, hread, continue?, hfraction,
        further_further, List.length_append, List.length_cons, hdigits.1]
      rfl
  | @utc ending time htime hending ih =>
      obtain ⟨written, hread⟩ := ih
      refine ⟨written, fun rest => ?_⟩
      have hzone : continue? written ending ('Z' :: rest) = some (written, 1) :=
        continue?_zone written hending (by simp)
      rw [List.append_assoc, List.singleton_append, hread, hzone, List.length_append]
      rfl
  | @zoneHour ending time hour sign htime hending hsign hhour ih =>
      obtain ⟨written, hread⟩ := ih
      obtain ⟨signed, hzone⟩ := zone?_sign written hsign
      obtain ⟨zoned, hzoneHour⟩ := zoneHour?_append signed hhour
      refine ⟨zoned, fun rest => ?_⟩
      have hpoint : sign ∉ ['.'] := by rcases hsign with rfl | rfl <;> decide
      rw [List.append_assoc, List.cons_append, hread,
        continue?_zone written hending (by simpa using hpoint), hzone, hzoneHour,
        further_further, further_further, List.length_append, List.length_cons,
        hhour.length_eq]
      rfl
  | @zoneMinute zone minute hzone hminute ih =>
      obtain ⟨written, hread⟩ := ih
      obtain ⟨zoned, hzoneMinute⟩ := zoneMinute?_append written hminute
      refine ⟨zoned, fun rest => ?_⟩
      rw [List.append_assoc, List.cons_append, hread, continue?, hzoneMinute,
        List.length_append, List.length_cons, hminute.length_eq]
      rfl

/-- Where no further component begins, the form is all that is read. -/
theorem continue?_of_stops (written : Written) {ending : Ending} {rest : List Char}
    (h : ending.Stops rest) : continue? written ending rest = some (written, 0) := by
  cases ending with
  | date => exact clock?_eq_none written h
  | clock =>
      have hpoint : ∀ c ∈ rest.head?, c ∉ ['.'] :=
        fun c hc hmem => h c hc (List.mem_of_mem_take (i := 1) hmem)
      have hzone : ∀ c ∈ rest.head?, c ∉ ['Z', '+', '-'] :=
        fun c hc hmem => h c hc (List.mem_cons_of_mem _ hmem)
      exact (fraction?_eq_zone? written hpoint).trans (zone?_eq_none written hzone)
  | fraction => exact zone?_eq_none written h
  | zoneHour => exact zoneMinute?_eq_none written h
  | utc | zoneMinute => rfl

theorem read?_of_begins {text cs : List Char} (h : Begins text cs) :
    ∃ written, read? cs = some (written, text.length) := by
  obtain ⟨ending, rest, rfl, hform, hstops⟩ := h
  obtain ⟨written, hread⟩ := read?_of_form hform
  exact ⟨written, by rw [hread, continue?_of_stops written hstops]; rfl⟩

/-! What has been read is of a form. -/

/-- Behind a form, the characters go on with so many of a longer one. -/
def Extends (front cs : List Char) (count : Nat) : Prop :=
  ∃ part ending rest, cs = part ++ rest ∧ part.length = count ∧
    Form ending (front ++ part) ∧ ending.Stops rest

variable {written result : Written} {front cs : List Char} {length : Nat}

theorem Extends.stop {ending : Ending} (hfront : Form ending front)
    (hstops : ending.Stops cs) : Extends front cs 0 :=
  ⟨[], ending, cs, rfl, rfl, by rwa [List.append_nil], hstops⟩

theorem Extends.append {part : List Char} (h : Extends (front ++ part) cs length) :
    Extends front (part ++ cs) (part.length + length) := by
  obtain ⟨further, ending, rest, rfl, rfl, hform, hstops⟩ := h
  refine ⟨part ++ further, ending, rest, by simp, by simp, ?_, hstops⟩
  rwa [← List.append_assoc]

theorem zoneMinute?_extends (hfront : Form .zoneHour front)
    (h : zoneMinute? written cs = some (result, length)) : Extends front cs length := by
  rcases head_cases cs [':'] with ⟨mark, hmark, cs, rfl⟩ | hcs
  · obtain rfl := List.mem_singleton.mp hmark
    simp only [zoneMinute?, Option.bind_eq_bind, Option.bind_eq_some_iff] at h
    obtain ⟨⟨value, rest⟩, hread, h⟩ := h
    cases h
    obtain ⟨minute, rfl, hminute⟩ := exists_isPair_of_pair? hread
    exact ⟨':' :: minute, .zoneMinute, rest, rfl, congrArg Nat.succ hminute.length_eq,
      .zoneMinute hfront hminute, fun _ _ => List.not_mem_nil⟩
  · cases (zoneMinute?_eq_none written hcs).symm.trans h
    exact .stop hfront hcs

section Zone

variable {ending : Ending} (hfront : Form ending front)
  (hending : ending = .clock ∨ ending = .fraction)

include hfront hending

theorem zoneHour?_extends {sign : Char} (hsign : sign = '+' ∨ sign = '-')
    (h : zoneHour? written cs = some (result, length)) :
    Extends front (sign :: cs) (1 + length) := by
  simp only [zoneHour?, Option.bind_eq_bind, Option.bind_eq_some_iff] at h
  obtain ⟨⟨value, after⟩, hread, ⟨zoned, taken⟩, hminute, h⟩ := h
  cases h
  obtain ⟨hour, rfl, hhour⟩ := exists_isPair_of_pair? hread
  have hextends : Extends front (sign :: hour ++ after) ((sign :: hour).length + taken) :=
    .append (zoneMinute?_extends (.zoneHour hfront hending hsign hhour) hminute)
  rwa [List.length_cons, hhour.length_eq, Nat.add_comm 2, Nat.add_assoc] at hextends

theorem zone?_extends (hpoint : ending = .clock → ∀ c ∈ cs.head?, c ∉ ['.'])
    (h : zone? written cs = some (result, length)) : Extends front cs length := by
  rcases head_cases cs ['Z', '+', '-'] with ⟨mark, hmark, back, rfl⟩ | hcs
  · by_cases hutc : mark = 'Z'
    · obtain rfl := hutc
      cases h
      exact ⟨['Z'], .utc, back, rfl, rfl, .utc hfront hending, fun _ _ => List.not_mem_nil⟩
    · have hsign : mark = '+' ∨ mark = '-' := by simpa [hutc] using hmark
      obtain ⟨signed, hzone⟩ := zone?_sign written hsign
      rw [hzone] at h
      obtain ⟨⟨zoned, taken⟩, hread, hlength⟩ := Option.map_eq_some_iff.mp h
      cases hlength
      exact zoneHour?_extends hfront hending hsign hread
  · cases (zone?_eq_none written hcs).symm.trans h
    apply Extends.stop hfront
    rcases hending with rfl | rfl
    · intro c hc hmem
      rcases List.mem_cons.mp hmem with rfl | hmem
      · exact hpoint rfl '.' hc (List.mem_singleton_self '.')
      · exact hcs c hc hmem
    · exact hcs

end Zone

theorem fraction?_extends (hfront : Form .clock front)
    (h : fraction? written cs = some (result, length)) : Extends front cs length := by
  rcases head_cases cs ['.'] with ⟨mark, hmark, back, rfl⟩ | hcs
  · obtain rfl := List.mem_singleton.mp hmark
    simp only [fraction?, Option.bind_eq_bind, Option.bind_eq_some_iff] at h
    obtain ⟨⟨value, after⟩, hread, ⟨zoned, taken⟩, hzone, h⟩ := h
    cases h
    obtain ⟨digits, rfl, hdigits⟩ := exists_isDigits_of_digits? hread
    have hextends :
        Extends front ('.' :: digits ++ after) (('.' :: digits).length + taken) :=
      .append (zone?_extends (.fraction hfront hdigits) (.inr rfl) (by simp) hzone)
    rwa [List.length_cons, hdigits.1] at hextends
  · rw [fraction?_eq_zone? written hcs] at h
    exact zone?_extends hfront (.inl rfl) (fun _ => hcs) h

theorem clock?_extends (hfront : Form .date front)
    (h : clock? written cs = some (result, length)) : Extends front cs length := by
  rcases head_cases cs ['T'] with ⟨mark, hmark, back, rfl⟩ | hcs
  · obtain rfl := List.mem_singleton.mp hmark
    simp only [clock?, time?, Option.bind_eq_bind, Option.bind_eq_some_iff] at h
    obtain ⟨⟨_, taken⟩, ⟨⟨_, _⟩, hreadHour, _, hfirst, ⟨_, _⟩, hreadMinute, _, hsecondMark,
      ⟨_, _⟩, hreadSecond, ⟨timed, more⟩, hfraction, htaken⟩, h⟩ := h
    cases htaken
    cases h
    obtain ⟨hour, rfl, hhour⟩ := exists_isPair_of_pair? hreadHour
    obtain rfl := Text.after?_eq_some.mp hfirst
    obtain ⟨minute, rfl, hminute⟩ := exists_isPair_of_pair? hreadMinute
    obtain rfl := Text.after?_eq_some.mp hsecondMark
    obtain ⟨second, rfl, hsecond⟩ := exists_isPair_of_pair? hreadSecond
    have hform := Form.clock hfront hhour hminute hsecond
    simp only [List.append_assoc, List.cons_append] at hform
    have hcount : ('T' :: (hour ++ ':' :: (minute ++ ':' :: second))).length = 1 + 8 := by
      simp [hhour.length_eq, hminute.length_eq, hsecond.length_eq]
    have hextends := Extends.append (fraction?_extends hform hfraction)
    rw [hcount, Nat.add_assoc] at hextends
    simpa using hextends
  · cases (clock?_eq_none written hcs).symm.trans h
    exact .stop hfront hcs

theorem exists_begins_of_read? (h : read? cs = some (result, length)) :
    ∃ text, Begins text cs ∧ text.length = length := by
  simp only [read?, Option.bind_eq_bind, Option.bind_eq_some_iff] at h
  obtain ⟨⟨_, _⟩, hreadYear, _, hfirst, ⟨_, _⟩, hreadMonth, _, hsecond, ⟨_, _⟩, hreadDay,
    ⟨clocked, taken⟩, hclock, h⟩ := h
  cases h
  obtain ⟨year, rfl, hyear⟩ := exists_isDigits_of_digits? hreadYear
  obtain rfl := Text.after?_eq_some.mp hfirst
  obtain ⟨month, rfl, hmonth⟩ := exists_isDigits_of_digits? hreadMonth
  obtain rfl := Text.after?_eq_some.mp hsecond
  obtain ⟨day, rfl, hday⟩ := exists_isDigits_of_digits? hreadDay
  obtain ⟨part, ending, rest, rfl, rfl, hform, hstops⟩ :=
    clock?_extends (.date hyear hmonth hday) hclock
  refine ⟨year ++ '-' :: month ++ '-' :: day ++ part, ⟨ending, rest, by simp, hform, hstops⟩,
    ?_⟩
  simp [hyear.1, hmonth.1, hday.1]
  omega

end Written

end Timestamp

end Sift
