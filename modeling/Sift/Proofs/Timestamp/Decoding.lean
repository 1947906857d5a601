import Sift.Proofs.Timestamp.Written
import Sift.Proofs.Token.Lookahead
import Sift.Proofs.Token.Tiling

namespace Sift

/-! A date-time that has been lexed is read as a timestamp, unless a component of it is out
of range. -/

namespace Timestamp

namespace Component

variable {written : Written}

/-- The day is one of its month, in the calendar of its year. -/
def InRange (written : Written) : Component → Prop
  | month => 1 ≤ written.month ∧ written.month ≤ 12
  | day =>
      1 ≤ written.day ∧ written.day ≤ Calendar.daysInMonth written.year written.month
  | zoneHour => written.zoneHour ≤ 25
  | zoneMinute => written.zoneMinute ≤ 59
  | hour => written.hour ≤ 23
  | minute => written.minute ≤ 59
  | second => written.second ≤ 59

instance (written : Written) : DecidablePred (InRange written)
  | month => inferInstanceAs (Decidable (_ ∧ _))
  | day => inferInstanceAs (Decidable (_ ∧ _))
  | zoneHour | zoneMinute | hour | minute | second => inferInstanceAs (Decidable (_ ≤ _))

/-- The components that a date-time may have out of range, in the order in which they are
checked. Minutes and seconds are below sixty by their digits. -/
def order : List Component :=
  [month, day, zoneHour, hour]

def firstOutOfRange? (written : Written) : Option Component :=
  order.find? fun component => ¬ component.InRange written

theorem firstOutOfRange?_eq_none :
    firstOutOfRange? written = none ↔ ∀ component ∈ order, InRange written component := by
  simp [firstOutOfRange?]

theorem outOfRange?_eq (hwritten : written.WellFormed) :
    written.outOfRange? = firstOutOfRange? written := by
  have hmonth : (written.month < 1 ∨ 12 < written.month) ↔ ¬ InRange written month := by
    unfold InRange
    omega
  have hday (h : InRange written month) : written.date.Valid ↔ InRange written day :=
    ⟨fun hvalid => hvalid.2.2, fun hday => ⟨h.1, h.2, hday⟩⟩
  have hzone : 25 < written.zoneHour ↔ ¬ InRange written zoneHour := Nat.not_le.symm
  have hhour : 23 < written.hour ↔ ¬ InRange written hour := Nat.not_le.symm
  have hzoneMinute : ¬ 59 < written.zoneMinute :=
    Nat.not_lt.mpr (Nat.le_of_lt_succ hwritten.zoneMinute_lt)
  have hminute : ¬ 59 < written.minute :=
    Nat.not_lt.mpr (Nat.le_of_lt_succ hwritten.minute_lt)
  have hsecond : ¬ 59 < written.second :=
    Nat.not_lt.mpr (Nat.le_of_lt_succ hwritten.second_lt)
  unfold Written.outOfRange? firstOutOfRange? order
  simp only [hmonth, hzone, hhour, if_neg hzoneMinute, if_neg hminute, if_neg hsecond,
    List.find?_cons, List.find?_nil]
  by_cases hin : InRange written month
  · simp only [hin, hday hin]
    by_cases hinDay : InRange written day
    · by_cases hinZone : InRange written zoneHour
      · by_cases hinHour : InRange written hour <;> simp [hinDay, hinZone, hinHour]
      · simp [hinDay, hinZone]
    · simp [hinDay]
  · simp [hin]

end Component

/-- The timestamp shows the date and the time that were written, at the signed offset. -/
structure Shows (timestamp : Timestamp) (written : Written) : Prop where
  offset_eq : timestamp.offset =
    (if written.west then -1 else 1) *
      (3600 * written.zoneHour + 60 * written.zoneMinute)
  date_eq : timestamp.date =
    { year := written.year, month := written.month, day := written.day }
  secondOfDay_eq : timestamp.secondOfDay =
    3600 * written.hour + 60 * written.minute + written.second
  nanoseconds_eq : timestamp.nanoseconds.val = 1000000 * written.milliseconds.val
  /-- The instant is the one at which the offset clock shows all that. -/
  seconds_eq : timestamp.seconds =
    86400 * timestamp.date.dayNumber + timestamp.secondOfDay - timestamp.offset

theorem Written.shows_timestamp {written : Written} (hwritten : written.WellFormed)
    (hrange : written.outOfRange? = none) : Shows written.timestamp written where
  offset_eq := by
    simp only [timestamp, offset]
    split <;> omega
  date_eq := date_timestamp hwritten hrange
  secondOfDay_eq := secondOfDay_timestamp hwritten hrange
  nanoseconds_eq := Nat.mul_comm _ _
  seconds_eq := by
    rw [date_timestamp hwritten hrange, secondOfDay_timestamp hwritten hrange]
    simp only [timestamp]
    omega

/-- What is written of a timestamp is one date-time, and is read as the same timestamp. -/
structure Rereads (timestamp : Timestamp) : Prop where
  tokenize_eq :
    tokenize (String.ofList timestamp.written) =
      [⟨.dateTime, String.ofList timestamp.written, 0⟩,
        ⟨.finish, "", (String.ofList timestamp.written).utf8ByteSize⟩]
  parse_eq : parse timestamp.written = .ok timestamp

theorem rereads_of_parse {text : List Char} {timestamp : Timestamp}
    (h : parse text = .ok timestamp) : Rereads timestamp where
  tokenize_eq := by
    obtain ⟨written, hread⟩ := exists_read?_written h []
    have hscan := Lexeme.scan_dateTime hread
    have hne : timestamp.written ≠ [] := by
      intro hnil
      have hpos := Written.length_pos_of_read? hread
      rw [hnil] at hpos
      cases hpos
    rw [tokenize, Cursor.ofText, String.toList_ofList]
    have hsplit := Cursor.toList_append hne hscan (by decide) 0
    rw [List.append_nil] at hsplit
    rw [hsplit, Cursor.toList_nil, Nat.zero_add, Text.utf8ByteSize_ofList]
  parse_eq := parse_written h

/-- All that reading a date-time as a timestamp comes to, by the components at their
places in it, which are those that it was lexed with. -/
structure Decodes (text : List Char) (written : Written) : Prop where
  read_eq : Written.read? text = some (written, text.length)
  slices_eq : slices? text = some written
  not_malformed : parse text ≠ .error .malformed
  accepted : (∃ timestamp, parse text = .ok timestamp) ↔
    ∀ component ∈ Component.order, Component.InRange written component
  refused (component : Component) : parse text = .error (.outOfRange component) ↔
    Component.firstOutOfRange? written = some component
  shows {timestamp : Timestamp} : parse text = .ok timestamp → Shows timestamp written
  rereads {timestamp : Timestamp} : parse text = .ok timestamp → Rereads timestamp

variable {text : List Char} {written : Written}

theorem decodes_of_read? (h : Written.read? text = some (written, text.length)) :
    Decodes text written := by
  have hwritten := Written.read?_wellFormed h
  have hparse := parse_of_read? h
  rw [Component.outOfRange?_eq hwritten] at hparse
  exact {
    read_eq := h
    slices_eq := Written.read?_slices h
    not_malformed := by
      rw [hparse]
      split <;> simp
    accepted := by
      rw [← Component.firstOutOfRange?_eq_none, hparse]
      split <;> simp [*]
    refused := fun component => by
      rw [hparse]
      split <;> simp [*]
    shows := fun {timestamp} haccepted => by
      rw [hparse] at haccepted
      split at haccepted
      · cases haccepted
      · rename_i hrange
        cases haccepted
        rw [← Component.outOfRange?_eq hwritten] at hrange
        exact Written.shows_timestamp hwritten hrange
    rereads := rereads_of_parse }

end Timestamp

/-! The text of a date-time token is a date-time from end to end. -/

theorem Lexeme.read?_of_scan {cs : List Char} (h : (scan cs).kind = .dateTime) :
    ∃ written, Timestamp.Written.read? cs = some (written, (scan cs).length) := by
  obtain ⟨⟨written, length⟩, hread, hlexeme⟩ :=
    Option.map_eq_some_iff.mp (dateTime?_of_scan h)
  rw [← hlexeme]
  exact ⟨written, hread⟩

theorem read?_of_mem_tokenize {source : String} {token : Token}
    (h : token ∈ tokenize source) (hkind : token.kind = .dateTime) :
    ∃ written, Timestamp.Written.read? token.text.toList =
      some (written, token.text.toList.length) := by
  obtain ⟨rest, hscan, htext⟩ :=
    exists_scan_of_mem_tokenize h (by simp [hkind]) (by simp [hkind])
  obtain ⟨written, hread⟩ := Lexeme.read?_of_scan (hscan.trans hkind)
  obtain ⟨front, back, rfl, hlength, hsettled⟩ := Timestamp.Written.read?_settled hread
  have halone := hsettled [] (.inr nofun)
  rw [← hlength, List.take_left] at htext
  rw [List.append_nil, ← hlength] at halone
  rw [htext]
  exact ⟨written, halone⟩

/-- Every date-time token of a text decodes by its components. -/
theorem decodes_of_mem_tokenize {source : String} {token : Token}
    (h : token ∈ tokenize source) (hkind : token.kind = .dateTime) :
    ∃ written, Timestamp.Decodes token.text.toList written := by
  obtain ⟨written, hread⟩ := read?_of_mem_tokenize h hkind
  exact ⟨written, Timestamp.decodes_of_read? hread⟩

theorem decodes_of_mem_tokenize_leapDay :
    ⟨.dateTime, "2020-02-29T23:59:58.007-00:30", 1⟩ ∈
        tokenize "<2020-02-29T23:59:58.007-00:30" ∧
      ∃ timestamp, Timestamp.parse "2020-02-29T23:59:58.007-00:30".toList = .ok timestamp ∧
        timestamp.offset = -1800 ∧ timestamp.secondOfDay = 86398 := by
  have htokens : tokenize "<2020-02-29T23:59:58.007-00:30" =
      [⟨.operator, "<", 0⟩, ⟨.dateTime, "2020-02-29T23:59:58.007-00:30", 1⟩,
        ⟨.finish, "", 30⟩] := by
    decide +kernel
  have hmem : ⟨.dateTime, "2020-02-29T23:59:58.007-00:30", 1⟩ ∈
      tokenize "<2020-02-29T23:59:58.007-00:30" := by
    simp [htokens]
  obtain ⟨written, hdecodes⟩ := decodes_of_mem_tokenize hmem rfl
  have hslices : Timestamp.slices? "2020-02-29T23:59:58.007-00:30".toList =
      some ⟨2020, 2, 29, 23, 59, 58, 7, true, 0, 30⟩ := by
    decide +kernel
  obtain rfl := Option.some.inj (hdecodes.slices_eq.symm.trans hslices)
  obtain ⟨timestamp, hparse⟩ := hdecodes.accepted.mpr (by decide)
  exact ⟨hmem, timestamp, hparse, (hdecodes.shows hparse).offset_eq,
    (hdecodes.shows hparse).secondOfDay_eq⟩

/-- The first component to fail is named, whatever comes after it. -/
example : Timestamp.parse "2019-02-29T24:00:00+26:00".toList =
    .error (.outOfRange .day) := by
  decide +kernel

end Sift
