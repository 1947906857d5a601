import Sift.Proofs.Calendar
import Sift.Proofs.Timestamp.Slices

namespace Sift.Timestamp

/-! A timestamp that has been read is written in a form that reads back as it. -/

namespace Written

/-- The bounds that the digits of a date-time obey. -/
structure WellFormed (written : Written) : Prop where
  year_lt : written.year < 10000
  minute_lt : written.minute < 60
  second_lt : written.second < 60
  zoneMinute_lt : written.zoneMinute < 60

variable {written result : Written} {cs : List Char} {length : Nat}

theorem sexagesimal?_lt {value : Nat} {rest : List Char}
    (h : sexagesimal? cs = some (value, rest)) : value < 60 :=
  Text.pair?_lt h

theorem zoneMinute?_wellFormed
    (h : zoneMinute? written cs = some (result, length))
    (hwritten : written.WellFormed) : result.WellFormed := by
  unfold zoneMinute? at h
  split at h
  · simp only [Option.bind_eq_bind, Option.bind_eq_some_iff] at h
    obtain ⟨⟨minute, rest⟩, hminute, h⟩ := h
    cases h
    exact { hwritten with zoneMinute_lt := sexagesimal?_lt hminute }
  · cases h
    exact hwritten

theorem zoneHour?_wellFormed
    (h : zoneHour? written cs = some (result, length))
    (hwritten : written.WellFormed) : result.WellFormed := by
  simp only [zoneHour?, Option.bind_eq_bind, Option.bind_eq_some_iff] at h
  obtain ⟨⟨hour, rest⟩, -, ⟨zoned, taken⟩, hminute, h⟩ := h
  cases h
  exact zoneMinute?_wellFormed hminute { hwritten with }

theorem zone?_wellFormed
    (h : zone? written cs = some (result, length))
    (hwritten : written.WellFormed) : result.WellFormed := by
  unfold zone? at h
  split at h
  · cases h
    exact hwritten
  · simp only [Option.bind_eq_bind, Option.bind_eq_some_iff] at h
    obtain ⟨⟨zoned, taken⟩, hhour, h⟩ := h
    cases h
    exact zoneHour?_wellFormed hhour hwritten
  · simp only [Option.bind_eq_bind, Option.bind_eq_some_iff] at h
    obtain ⟨⟨zoned, taken⟩, hhour, h⟩ := h
    cases h
    exact zoneHour?_wellFormed hhour { hwritten with }
  · cases h
    exact hwritten

theorem fraction?_wellFormed
    (h : fraction? written cs = some (result, length))
    (hwritten : written.WellFormed) : result.WellFormed := by
  unfold fraction? at h
  split at h
  · simp only [Option.bind_eq_bind, Option.bind_eq_some_iff] at h
    obtain ⟨⟨milliseconds, rest⟩, -, ⟨zoned, taken⟩, hzone, h⟩ := h
    cases h
    exact zone?_wellFormed hzone { hwritten with }
  · exact zone?_wellFormed h hwritten

theorem time?_wellFormed
    (h : time? written cs = some (result, length))
    (hwritten : written.WellFormed) : result.WellFormed := by
  simp only [time?, Option.bind_eq_bind, Option.bind_eq_some_iff] at h
  obtain ⟨⟨hour, rest⟩, -, _, -, ⟨minute, _⟩, hminute, _, -, ⟨second, _⟩, hsecond,
    ⟨zoned, taken⟩, hfraction, h⟩ := h
  cases h
  refine fraction?_wellFormed hfraction ?_
  exact { hwritten with
    minute_lt := sexagesimal?_lt hminute
    second_lt := sexagesimal?_lt hsecond }

theorem clock?_wellFormed
    (h : clock? written cs = some (result, length))
    (hwritten : written.WellFormed) : result.WellFormed := by
  unfold clock? at h
  split at h
  · simp only [Option.bind_eq_bind, Option.bind_eq_some_iff] at h
    obtain ⟨⟨timed, taken⟩, htime, h⟩ := h
    cases h
    exact time?_wellFormed htime hwritten
  · cases h
    exact hwritten

theorem read?_wellFormed (h : read? cs = some (result, length)) : result.WellFormed := by
  simp only [read?, Option.bind_eq_bind, Option.bind_eq_some_iff] at h
  obtain ⟨⟨year, _⟩, hyear, _, -, ⟨month, _⟩, -, _, -, ⟨day, _⟩, -, ⟨clocked, taken⟩,
    hclock, h⟩ := h
  cases h
  refine clock?_wellFormed hclock ?_
  exact {
    year_lt := Text.digits?_lt hyear
    minute_lt := Nat.succ_pos _
    second_lt := Nat.succ_pos _
    zoneMinute_lt := Nat.succ_pos _ }

theorem inRange (hrange : written.outOfRange? = none) :
    written.date.Valid ∧ written.zoneHour ≤ 25 ∧ written.zoneMinute ≤ 59 ∧
      written.hour ≤ 23 ∧ written.minute ≤ 59 ∧ written.second ≤ 59 := by
  unfold outOfRange? at hrange
  iterate 7
    split at hrange
    · cases hrange
  rename_i hdate hzone hzoneMinute hhour hminute hsecond
  exact ⟨Decidable.not_not.mp hdate, by omega, by omega, by omega, by omega, by omega⟩

theorem wellFormed_of_inRange (hyear : written.year < 10000)
    (hrange : written.outOfRange? = none) : written.WellFormed := by
  obtain ⟨-, -, hzoneMinute, -, hminute, hsecond⟩ := inRange hrange
  exact {
    year_lt := hyear
    minute_lt := Nat.lt_succ_of_le hminute
    second_lt := Nat.lt_succ_of_le hsecond
    zoneMinute_lt := Nat.lt_succ_of_le hzoneMinute }

/-! The parts of a timestamp are those that were read. -/

theorem natAbs_offset (written : Written) :
    written.offset.natAbs = 3600 * written.zoneHour + 60 * written.zoneMinute := by
  unfold offset
  split <;> simp only [Int.natAbs_neg] <;> omega

theorem localSeconds_timestamp (written : Written) :
    written.timestamp.localSeconds =
      86400 * written.date.dayNumber +
        (3600 * written.hour + 60 * written.minute + written.second) := by
  simp only [localSeconds, timestamp]
  omega

section Parts

variable (hwritten : written.WellFormed) (hrange : written.outOfRange? = none)

include hwritten

theorem zoneHour_offset : written.offset.natAbs / 3600 = written.zoneHour := by
  have hminute := hwritten.zoneMinute_lt
  rw [natAbs_offset]
  omega

theorem zoneMinute_offset : written.offset.natAbs / 60 % 60 = written.zoneMinute := by
  have hminute := hwritten.zoneMinute_lt
  rw [natAbs_offset]
  omega

include hrange

theorem date_timestamp : written.timestamp.date = written.date := by
  obtain ⟨hdate, -, -, hhour, -⟩ := inRange hrange
  obtain ⟨-, hminute, hsecond, -⟩ := hwritten
  have hday : written.timestamp.localSeconds / 86400 = written.date.dayNumber := by
    rw [localSeconds_timestamp]
    omega
  rw [Timestamp.date, hday, Date.ofDayNumber_dayNumber hdate]

theorem secondOfDay_timestamp :
    written.timestamp.secondOfDay =
      3600 * written.hour + 60 * written.minute + written.second := by
  obtain ⟨-, -, -, hhour, -⟩ := inRange hrange
  obtain ⟨-, hminute, hsecond, -⟩ := hwritten
  rw [secondOfDay, localSeconds_timestamp]
  omega

end Parts

/-! Each part reads back, whatever follows it. -/

section Rest

variable (rest : List Char)

theorem hour?_zeroPadded {hour : Nat} (h : hour ≤ 25) :
    hour? (Text.zeroPadded 2 hour ++ rest) = some (hour, rest) :=
  Text.pair?_zeroPadded 2 (by omega) (by decide) rest

theorem sexagesimal?_zeroPadded {value : Nat} (h : value < 60) :
    sexagesimal? (Text.zeroPadded 2 value ++ rest) = some (value, rest) :=
  Text.pair?_zeroPadded 5 (by omega) (by decide) rest

def inZone (written : Written) (offset : Int) : Written :=
  { written with
    west := decide (offset < 0)
    zoneHour := offset.natAbs / 3600
    zoneMinute := offset.natAbs / 60 % 60 }

theorem offset_inZone (written : Written) {offset : Int} (h : offset.natAbs % 60 = 0) :
    (written.inZone offset).offset = offset := by
  unfold inZone Written.offset
  simp only [decide_eq_true_eq]
  split <;> omega

theorem timestamp_inZone (written : Written) :
    (written.inZone written.offset).timestamp = written.timestamp := by
  have hoffset : (written.inZone written.offset).offset = written.offset := by
    apply offset_inZone
    rw [natAbs_offset]
    omega
  simp only [timestamp, hoffset]
  rfl

variable (written) {offset : Int} (hwest : written.west = false)
  (hoffset : offset.natAbs / 3600 ≤ 25)

include hoffset

theorem length_writtenOffset : (writtenOffset offset).length = 6 := by
  have hhour := Text.length_zeroPadded 2 (offset.natAbs / 3600) (by decide) (by omega)
  have hminute :=
    Text.length_zeroPadded 2 (offset.natAbs / 60 % 60) (by decide) (by omega)
  simp [writtenOffset, hhour, hminute]

include hwest

theorem zone?_writtenOffset :
    zone? written (writtenOffset offset ++ rest) = some (written.inZone offset, 6) := by
  have hminute : offset.natAbs / 60 % 60 < 60 := Nat.mod_lt _ (by decide)
  unfold writtenOffset inZone
  split
  · simp [zone?, zoneHour?, zoneMinute?, hour?_zeroPadded _ hoffset,
      sexagesimal?_zeroPadded _ hminute, *]
  · simp [zone?, zoneHour?, zoneMinute?, hour?_zeroPadded _ hoffset,
      sexagesimal?_zeroPadded _ hminute, *]

theorem fraction?_writtenFraction (milliseconds : Fin 1000)
    (hmilliseconds : written.milliseconds = 0) :
    fraction? written
        (writtenFraction (milliseconds * 1000000) ++ (writtenOffset offset ++ rest)) =
      some ({ written with milliseconds := milliseconds }.inZone offset,
        (writtenFraction (milliseconds * 1000000)).length + 6) := by
  unfold writtenFraction
  split
  · rename_i hzero
    have hnone : milliseconds = 0 := by
      apply Fin.ext
      change milliseconds.val = 0
      omega
    have hfraction : fraction? written (writtenOffset offset ++ rest) =
        zone? written (writtenOffset offset ++ rest) := by
      unfold writtenOffset
      split <;> rfl
    rw [List.nil_append, hfraction, zone?_writtenOffset written rest hwest hoffset, hnone,
      ← hmilliseconds]
    rfl
  · have hlt : milliseconds.val < 10 ^ 3 := milliseconds.isLt
    have hread := Text.digits?_zeroPadded (by decide) hlt (writtenOffset offset ++ rest)
    have hlength := Text.length_zeroPadded 3 milliseconds (by decide) hlt
    have hzone := zone?_writtenOffset { written with milliseconds := milliseconds } rest
      hwest hoffset
    rw [Nat.mul_div_cancel _ (by decide), List.cons_append, fraction?, hread]
    simp [hzone, hlength]

theorem time?_writtenClock {hour minute second : Nat} (hhour : hour ≤ 23)
    (hminute : minute < 60) (hsecond : second < 60) (milliseconds : Fin 1000)
    (hmilliseconds : written.milliseconds = 0) :
    time? written (writtenClock (3600 * hour + 60 * minute + second) ++
        (writtenFraction (milliseconds * 1000000) ++ (writtenOffset offset ++ rest))) =
      some (
        { written with
          hour := hour
          minute := minute
          second := second
          milliseconds := milliseconds }.inZone offset,
        8 + ((writtenFraction (milliseconds * 1000000)).length + 6)) := by
  have hhours : (3600 * hour + 60 * minute + second) / 3600 = hour := by omega
  have hminutes : (3600 * hour + 60 * minute + second) / 60 % 60 = minute := by omega
  have hseconds : (3600 * hour + 60 * minute + second) % 60 = second := by omega
  have hfraction := fraction?_writtenFraction
    { written with hour := hour, minute := minute, second := second } rest hwest hoffset
    milliseconds hmilliseconds
  rw [writtenClock, hhours, hminutes, hseconds]
  simp only [List.append_assoc, List.cons_append]
  simp only [time?, Option.bind_eq_bind, Option.bind_eq_some_iff]
  exact ⟨_, hour?_zeroPadded _ (Nat.le_trans hhour (by decide)),
    _, Text.after?_eq_some.mpr rfl, _, sexagesimal?_zeroPadded _ hminute,
    _, Text.after?_eq_some.mpr rfl, _, sexagesimal?_zeroPadded _ hsecond,
    _, hfraction, rfl⟩

end Rest

theorem clock?_of_time? (h : time? written cs = some (result, length)) :
    clock? written ('T' :: cs) = some (result, 1 + length) := by
  rw [clock?, h]
  rfl

theorem length_writtenClock {second : Nat} (h : second < 86400) :
    (writtenClock second).length = 8 := by
  have hhour := Text.length_zeroPadded 2 (second / 3600) (by decide) (by omega)
  have hminute := Text.length_zeroPadded 2 (second / 60 % 60) (by decide) (by omega)
  have hsecond := Text.length_zeroPadded 2 (second % 60) (by decide) (by omega)
  simp [writtenClock, hhour, hminute, hsecond]

theorem month_lt (hrange : written.outOfRange? = none) : written.month < 10 ^ 2 := by
  obtain ⟨⟨-, hmonth, -⟩, -⟩ := inRange hrange
  exact Nat.lt_of_le_of_lt hmonth (by decide)

theorem day_lt (hrange : written.outOfRange? = none) : written.day < 10 ^ 2 := by
  obtain ⟨⟨-, -, -, hday⟩, -⟩ := inRange hrange
  have hlength : Calendar.daysInMonth written.date.year written.date.month ≤ 31 := by
    unfold Calendar.daysInMonth
    split
    · split <;> decide
    · split <;> decide
  exact Nat.lt_of_le_of_lt (Nat.le_trans hday hlength) (by decide)

section Whole

variable {written : Written} (hwritten : written.WellFormed)
  (hrange : written.outOfRange? = none)

include hwritten hrange

theorem written_timestamp :
    written.timestamp.written =
      Text.zeroPadded 4 written.year ++
        '-' :: (Text.zeroPadded 2 written.month ++
          '-' :: (Text.zeroPadded 2 written.day ++
            'T' :: (writtenClock
              (3600 * written.hour + 60 * written.minute + written.second) ++
              (writtenFraction (written.milliseconds * 1000000) ++
                writtenOffset written.offset)))) := by
  have hyear : ¬ written.date.year < 0 := by simp [date]
  simp only [Timestamp.written, writtenDate, date_timestamp hwritten hrange,
    secondOfDay_timestamp hwritten hrange, if_neg hyear, List.nil_append,
    List.append_assoc, List.cons_append]
  rfl

/-- What is read back of a timestamp: only the sign of an empty offset may change. -/
theorem read?_written (rest : List Char) :
    read? (written.timestamp.written ++ rest) =
      some (written.inZone written.offset, written.timestamp.written.length) := by
  obtain ⟨-, hzone, -, hhour, -⟩ := inRange hrange
  have hoffset : written.offset.natAbs / 3600 ≤ 25 := by
    rw [zoneHour_offset hwritten]
    exact hzone
  have hyear : written.year < 10 ^ 4 := hwritten.year_lt
  have hmonth := month_lt hrange
  have hday := day_lt hrange
  have hminute := hwritten.minute_lt
  have hsecond := hwritten.second_lt
  have htime := time?_writtenClock (onDate written.year written.month written.day) rest rfl
    hoffset hhour hminute hsecond written.milliseconds rfl
  have hclock : (writtenClock
      (3600 * written.hour + 60 * written.minute + written.second)).length = 8 :=
    length_writtenClock (by omega)
  have hlength : written.timestamp.written.length = 10 + (1 + (8 +
      ((writtenFraction (written.milliseconds * 1000000)).length + 6))) := by
    rw [written_timestamp hwritten hrange]
    simp only [List.length_append, List.length_cons,
      Text.length_zeroPadded 4 _ (by decide) hyear,
      Text.length_zeroPadded 2 _ (by decide) hmonth,
      Text.length_zeroPadded 2 _ (by decide) hday, hclock, length_writtenOffset hoffset]
    omega
  rw [hlength, written_timestamp hwritten hrange]
  simp only [List.append_assoc, List.cons_append]
  simp only [read?, Option.bind_eq_bind, Option.bind_eq_some_iff]
  exact ⟨_, Text.digits?_zeroPadded (by decide) hyear _,
    _, Text.after?_eq_some.mpr rfl, _, Text.digits?_zeroPadded (by decide) hmonth _,
    _, Text.after?_eq_some.mpr rfl, _, Text.digits?_zeroPadded (by decide) hday _,
    _, clock?_of_time? htime, rfl⟩

theorem outOfRange?_inZone : (written.inZone written.offset).outOfRange? = none := by
  rw [← hrange]
  simp only [outOfRange?, inZone, zoneHour_offset hwritten, zoneMinute_offset hwritten]
  rfl

end Whole

end Written

variable {text : List Char} {timestamp : Timestamp}

theorem parse_eq_ok (h : parse text = .ok timestamp) :
    ∃ written : Written, written.WellFormed ∧ written.outOfRange? = none ∧
      timestamp = written.timestamp := by
  unfold parse at h
  split at h
  · cases h
  rename_i written hslices
  split at h
  · cases h
  rename_i hrange
  cases h
  exact ⟨written, Written.wellFormed_of_inRange (year_lt_of_slices? hslices) hrange, hrange,
    rfl⟩

/-- On a date-time, taking the components at their places is reading them. -/
theorem parse_of_read? {written : Written}
    (h : Written.read? text = some (written, text.length)) :
    parse text =
      match written.outOfRange? with
      | some component => .error (.outOfRange component)
      | none => .ok written.timestamp := by
  have hslices := Written.read?_slices h
  cases hrange : written.outOfRange? with
  | none => simp only [parse, hslices, hrange]
  | some component => simp only [parse, hslices, hrange]

theorem parse_written (h : parse text = .ok timestamp) :
    parse timestamp.written = .ok timestamp := by
  obtain ⟨written, hwritten, hrange, rfl⟩ := parse_eq_ok h
  have hread := Written.read?_written hwritten hrange []
  rw [List.append_nil] at hread
  rw [parse_of_read? hread, Written.outOfRange?_inZone hwritten hrange,
    Written.timestamp_inZone]

theorem exists_read?_written (h : parse text = .ok timestamp) (rest : List Char) :
    ∃ written, Written.read? (timestamp.written ++ rest) =
      some (written, timestamp.written.length) := by
  obtain ⟨written, hwritten, hrange, rfl⟩ := parse_eq_ok h
  exact ⟨_, Written.read?_written hwritten hrange rest⟩

end Sift.Timestamp
