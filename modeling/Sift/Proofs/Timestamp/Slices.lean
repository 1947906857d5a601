import Sift.Proofs.Timestamp.Form
import Sift.Timestamp.Decoding

namespace Sift

/-! A date-time told by the places of its components. -/

namespace Text

variable {text rest : List Char} {start value : Nat}

theorem slice?_drop (text : List Char) (count start stop : Nat) :
    slice? (text.drop count) start stop = slice? text (count + start) (count + stop) := by
  unfold slice?
  rw [List.take_drop, List.drop_drop, Nat.add_sub_add_left]

theorem slice?_lt {stop : Nat} (h : slice? text start stop = some value) :
    value < 10 ^ (stop - start) := by
  unfold slice? at h
  simp only at h
  split at h
  · rename_i hdigits
    cases h
    have hlt := digitsValue_lt (List.all_eq_true.mp hdigits.2)
    rwa [hdigits.1] at hlt
  · cases h

theorem slice?_of_digits? {count : Nat}
    (h : digits? count (text.drop start) = some (value, rest)) :
    slice? text start (start + count) = some value ∧ rest = text.drop (start + count) := by
  have hslice := slice?_drop text start 0 count
  rw [Nat.add_zero] at hslice
  rw [← hslice]
  unfold digits? at h
  unfold slice?
  simp only [List.drop_zero, Nat.sub_zero] at h ⊢
  split at h
  · rename_i hdigits
    cases h
    exact ⟨if_pos hdigits, List.drop_drop⟩
  · cases h

theorem digits?_of_pair? {highest : Char} {cs : List Char}
    (h : pair? highest cs = some (value, rest)) : digits? 2 cs = some (value, rest) := by
  unfold pair? at h
  split at h
  · split at h
    · rename_i hdigits
      cases h
      simp [digits?, hdigits]
    · cases h
  · cases h

theorem drop_of_after? {mark : Char} (h : after? mark (text.drop start) = some rest) :
    rest = text.drop (start + 1) := by
  rw [← List.tail_drop, after?_eq_some.mp h]
  rfl

end Text

namespace Timestamp

namespace Written

open Text (slice?_of_digits? digits?_of_pair? drop_of_after?)

variable {written result : Written} {text : List Char}

/-! Each part that is read to the end of a text is the slices of it. A text may end before
the minutes of its zone, which are then those that were there before: none. -/

theorem zoneMinute?_slices
    (h : zoneMinute? written (text.drop 3) = some (result, (text.drop 3).length))
    (hminute : written.zoneMinute = 0) :
    (minuteSlice? text).map (fun minute => { written with zoneMinute := minute }) =
      some result := by
  unfold minuteSlice?
  rcases head_cases (text.drop 3) [':'] with ⟨mark, hmark, back, hback⟩ | hnone
  · obtain rfl := List.mem_singleton.mp hmark
    have hlong : 3 < text.length := by
      have hlength := congrArg List.length hback
      rw [List.length_drop, List.length_cons] at hlength
      omega
    obtain rfl : back = text.drop 4 := drop_of_after? (Text.after?_eq_some.mpr hback)
    rw [hback] at h
    simp only [zoneMinute?, Option.bind_eq_bind, Option.bind_eq_some_iff] at h
    obtain ⟨⟨minute, rest⟩, hread, h⟩ := h
    obtain ⟨rfl, -⟩ := Prod.mk.inj (Option.some.inj h)
    obtain ⟨hslice, -⟩ := slice?_of_digits? (digits?_of_pair? hread)
    rw [if_pos hlong, hslice]
    rfl
  · rw [zoneMinute?_eq_none written hnone] at h
    obtain ⟨rfl, hlength⟩ := Prod.mk.inj (Option.some.inj h)
    rw [List.length_drop] at hlength
    rw [if_neg (by omega), ← hminute]
    rfl

theorem zoneHour?_slices
    (h : zoneHour? written (text.drop 1) = some (result, (text.drop 1).length))
    (hminute : written.zoneMinute = 0) : hourSlices? written text = some result := by
  simp only [zoneHour?, Option.bind_eq_bind, Option.bind_eq_some_iff] at h
  obtain ⟨⟨hour, after⟩, hhour, ⟨zoned, taken⟩, hread, h⟩ := h
  obtain ⟨rfl, hlength⟩ := Prod.mk.inj (Option.some.inj h)
  obtain ⟨hslice, rfl⟩ := slice?_of_digits? (digits?_of_pair? hhour)
  obtain rfl : taken = (text.drop 3).length := by
    simp only [List.length_drop] at hlength ⊢
    omega
  obtain ⟨minute, hminuteSlice, rfl⟩ :=
    Option.map_eq_some_iff.mp (zoneMinute?_slices hread hminute)
  simp [hourSlices?, hslice, hminuteSlice]

theorem signedZone_slices {sign : Char} {back : List Char}
    (h : (do
      let (zoned, taken) ← zoneHour? written back
      some (zoned, 1 + taken)) = some (result, (sign :: back).length))
    (hminute : written.zoneMinute = 0) : hourSlices? written (sign :: back) = some result := by
  simp only [Option.bind_eq_bind, Option.bind_eq_some_iff] at h
  obtain ⟨⟨zoned, taken⟩, hread, h⟩ := h
  obtain ⟨rfl, hlength⟩ := Prod.mk.inj (Option.some.inj h)
  obtain rfl : taken = back.length := by
    rw [List.length_cons] at hlength
    omega
  exact zoneHour?_slices hread hminute

theorem zone?_slices (h : zone? written text = some (result, text.length))
    (hminute : written.zoneMinute = 0) : zoneSlices? written text = some result := by
  rcases head_cases text ['Z', '+', '-'] with ⟨mark, hmark, back, rfl⟩ | hnone
  · simp only [List.mem_cons, List.not_mem_nil, or_false] at hmark
    rcases hmark with rfl | rfl | rfl
    · obtain ⟨rfl, -⟩ := Prod.mk.inj (Option.some.inj h)
      rfl
    · exact signedZone_slices h hminute
    · exact signedZone_slices h hminute
  · rw [zone?_eq_none written hnone] at h
    obtain ⟨rfl, hlength⟩ := Prod.mk.inj (Option.some.inj h)
    rw [List.eq_nil_of_length_eq_zero hlength.symm]
    rfl

theorem fraction?_slices (h : fraction? written text = some (result, text.length))
    (hminute : written.zoneMinute = 0) : fractionSlices? written text = some result := by
  unfold fractionSlices?
  rcases head_cases text ['.'] with ⟨mark, hmark, back, rfl⟩ | hnone
  · obtain rfl := List.mem_singleton.mp hmark
    simp only [fraction?, Option.bind_eq_bind, Option.bind_eq_some_iff] at h
    obtain ⟨⟨milliseconds, after⟩, hdigits, ⟨zoned, taken⟩, hzone, h⟩ := h
    obtain ⟨rfl, hlength⟩ := Prod.mk.inj (Option.some.inj h)
    change Text.digits? 3 (('.' :: back).drop 1) = some (milliseconds, after) at hdigits
    obtain ⟨hslice, rfl⟩ := slice?_of_digits? hdigits
    obtain rfl : taken = (('.' :: back).drop 4).length := by
      rw [List.length_drop]
      omega
    have hlt : milliseconds < 1000 := Text.digits?_lt hdigits
    have hofNat : Fin.ofNat 1000 milliseconds = ⟨milliseconds, hlt⟩ :=
      Fin.ext (Nat.mod_eq_of_lt hlt)
    rw [hofNat] at hzone
    simp only [List.head?_cons, if_true, hslice, Option.bind_eq_bind, Option.bind_some,
      dif_pos hlt]
    exact zone?_slices hzone hminute
  · rw [fraction?_eq_zone? written hnone] at h
    rw [if_neg ?_, zone?_slices h hminute]
    exact fun hpoint => hnone '.' hpoint (List.mem_singleton_self '.')

theorem time?_slices
    (h : time? written (text.drop 11) = some (result, (text.drop 11).length))
    (hlong : ¬ text.length < 11) (hminute : written.zoneMinute = 0) :
    clockSlices? written text = some result := by
  simp only [time?, Option.bind_eq_bind, Option.bind_eq_some_iff] at h
  obtain ⟨⟨hour, _⟩, hhour, _, hfirst, ⟨minute, _⟩, hminutes, _, hsecondMark, ⟨second, _⟩,
    hsecond, ⟨timed, taken⟩, hfraction, h⟩ := h
  obtain ⟨rfl, hlength⟩ := Prod.mk.inj (Option.some.inj h)
  obtain ⟨hhourSlice, rfl⟩ := slice?_of_digits? (digits?_of_pair? hhour)
  obtain rfl := drop_of_after? hfirst
  obtain ⟨hminuteSlice, rfl⟩ := slice?_of_digits? (digits?_of_pair? hminutes)
  obtain rfl := drop_of_after? hsecondMark
  obtain ⟨hsecondSlice, rfl⟩ := slice?_of_digits? (digits?_of_pair? hsecond)
  obtain rfl : taken = (text.drop 19).length := by
    simp only [List.length_drop] at hlength ⊢
    omega
  simp only [clockSlices?, if_neg hlong, Option.bind_eq_bind, Option.bind_eq_some_iff]
  exact ⟨hour, hhourSlice, minute, hminuteSlice, second, hsecondSlice,
    fraction?_slices hfraction hminute⟩

theorem clock?_slices
    (h : clock? written (text.drop 10) = some (result, (text.drop 10).length))
    (hlong : 10 ≤ text.length) (hminute : written.zoneMinute = 0) :
    clockSlices? written text = some result := by
  rcases head_cases (text.drop 10) ['T'] with ⟨mark, hmark, back, hback⟩ | hnone
  · obtain rfl := List.mem_singleton.mp hmark
    obtain rfl : back = text.drop 11 := drop_of_after? (Text.after?_eq_some.mpr hback)
    have hlonger := congrArg List.length hback
    rw [List.length_cons, List.length_drop] at hlonger
    rw [hback] at h
    simp only [clock?, Option.bind_eq_bind, Option.bind_eq_some_iff] at h
    obtain ⟨⟨timed, taken⟩, htime, h⟩ := h
    obtain ⟨rfl, hlength⟩ := Prod.mk.inj (Option.some.inj h)
    obtain rfl : taken = (text.drop 11).length := by
      rw [List.length_cons] at hlength
      omega
    exact time?_slices htime (by omega) hminute
  · rw [clock?_eq_none written hnone] at h
    obtain ⟨rfl, hlength⟩ := Prod.mk.inj (Option.some.inj h)
    rw [List.length_drop] at hlength
    rw [clockSlices?, if_pos (by omega)]

theorem read?_slices (h : read? text = some (result, text.length)) :
    slices? text = some result := by
  simp only [read?, Option.bind_eq_bind, Option.bind_eq_some_iff] at h
  obtain ⟨⟨year, _⟩, hyear, _, hfirst, ⟨month, _⟩, hmonth, _, hsecond, ⟨day, _⟩, hday,
    ⟨clocked, taken⟩, hclock, h⟩ := h
  obtain ⟨rfl, hlength⟩ := Prod.mk.inj (Option.some.inj h)
  change Text.digits? 4 (text.drop 0) = some (year, _) at hyear
  obtain ⟨hyearSlice, rfl⟩ := slice?_of_digits? hyear
  obtain rfl := drop_of_after? hfirst
  obtain ⟨hmonthSlice, rfl⟩ := slice?_of_digits? hmonth
  obtain rfl := drop_of_after? hsecond
  obtain ⟨hdaySlice, rfl⟩ := slice?_of_digits? hday
  obtain rfl : taken = (text.drop 10).length := by
    rw [List.length_drop]
    omega
  simp only [slices?, Option.bind_eq_bind, Option.bind_eq_some_iff]
  exact ⟨year, hyearSlice, month, hmonthSlice, day, hdaySlice,
    clock?_slices hclock (by omega) rfl⟩

end Written

/-! The year is the one at the front of the text; nothing behind it changes it. -/

variable {written result : Written} {text : List Char}

theorem year_of_hourSlices? (h : hourSlices? written text = some result) :
    result.year = written.year := by
  simp only [hourSlices?, Option.bind_eq_bind, Option.bind_eq_some_iff] at h
  obtain ⟨hour, -, minute, -, h⟩ := h
  cases h
  rfl

theorem year_of_zoneSlices? (h : zoneSlices? written text = some result) :
    result.year = written.year := by
  unfold zoneSlices? at h
  split at h
  · cases h
    rfl
  · cases h
    rfl
  · rw [year_of_hourSlices? h]
  · rw [year_of_hourSlices? h]
  · cases h

theorem year_of_fractionSlices? (h : fractionSlices? written text = some result) :
    result.year = written.year := by
  unfold fractionSlices? at h
  split at h
  · simp only [Option.bind_eq_bind, Option.bind_eq_some_iff] at h
    obtain ⟨milliseconds, -, h⟩ := h
    split at h
    · rw [year_of_zoneSlices? h]
    · cases h
  · rw [year_of_zoneSlices? h]

theorem year_of_clockSlices? (h : clockSlices? written text = some result) :
    result.year = written.year := by
  unfold clockSlices? at h
  split at h
  · cases h
    rfl
  · simp only [Option.bind_eq_bind, Option.bind_eq_some_iff] at h
    obtain ⟨hour, -, minute, -, second, -, h⟩ := h
    rw [year_of_fractionSlices? h]

theorem year_lt_of_slices? (h : slices? text = some written) : written.year < 10000 := by
  simp only [slices?, Option.bind_eq_bind, Option.bind_eq_some_iff] at h
  obtain ⟨year, hyear, month, -, day, -, h⟩ := h
  rw [year_of_clockSlices? h]
  exact Text.slice?_lt hyear

end Timestamp

end Sift
