import Sift.Timestamp.Written

namespace Sift.Timestamp

/-! The instant that a date-time stands for. Its text is that of a token, which has only
digits where a component stands; each component is taken from its place. -/

open Text (slice?)

inductive Component where
  | month
  | day
  | zoneHour
  | zoneMinute
  | hour
  | minute
  | second
deriving DecidableEq

def Component.name : Component → String
  | .month => "month"
  | .day => "day"
  | .zoneHour => "offset hour"
  | .zoneMinute => "offset minute"
  | .hour => "hour"
  | .minute => "minute"
  | .second => "second"

inductive Fault where
  | malformed
  | outOfRange (component : Component)
deriving DecidableEq

-- A zone ends with its hours, or goes on with a mark and its minutes.
def minuteSlice? (zone : List Char) : Option Nat :=
  if 3 < zone.length then slice? zone 4 6 else some 0

def hourSlices? (written : Written) (zone : List Char) : Option Written := do
  let hour ← slice? zone 1 3
  let minute ← minuteSlice? zone
  some { written with zoneHour := hour, zoneMinute := minute }

def zoneSlices? (written : Written) (zone : List Char) : Option Written :=
  match zone.head? with
  | none => some written
  | some 'Z' => some written
  | some '+' => hourSlices? written zone
  | some '-' => hourSlices? { written with west := true } zone
  | some _ => none

def fractionSlices? (written : Written) (rest : List Char) : Option Written :=
  if rest.head? = some '.' then do
    let milliseconds ← slice? rest 1 4
    if h : milliseconds < 1000 then
      zoneSlices? { written with milliseconds := ⟨milliseconds, h⟩ } (rest.drop 4)
    else none
  else zoneSlices? written rest

def clockSlices? (written : Written) (text : List Char) : Option Written :=
  if text.length < 11 then some written
  else do
    let hour ← slice? text 11 13
    let minute ← slice? text 14 16
    let second ← slice? text 17 19
    fractionSlices? { written with hour := hour, minute := minute, second := second }
      (text.drop 19)

def slices? (text : List Char) : Option Written := do
  let year ← slice? text 0 4
  let month ← slice? text 5 7
  let day ← slice? text 8 10
  clockSlices? (.onDate year month day) text

namespace Written

def date (written : Written) : Date :=
  { year := written.year, month := written.month, day := written.day }

/-- Seconds ahead of UTC; the sign applies to hours and minutes alike. -/
def offset (written : Written) : Int :=
  let ahead : Int := 3600 * written.zoneHour + 60 * written.zoneMinute
  if written.west then -ahead else ahead

/-- The first component that is out of range, the zone before the clock time. -/
def outOfRange? (written : Written) : Option Component :=
  if written.month < 1 ∨ 12 < written.month then some .month
  else if ¬ written.date.Valid then some .day
  else if 25 < written.zoneHour then some .zoneHour
  else if 59 < written.zoneMinute then some .zoneMinute
  else if 23 < written.hour then some .hour
  else if 59 < written.minute then some .minute
  else if 59 < written.second then some .second
  else none

/-- The instant, the offset taken off the written date and time. -/
def timestamp (written : Written) : Timestamp where
  seconds :=
    86400 * written.date.dayNumber + 3600 * written.hour +
      60 * written.minute + written.second - written.offset
  nanoseconds :=
    ⟨written.milliseconds * 1000000, by have := written.milliseconds.isLt; omega⟩
  offset := written.offset

end Written

/-- The timestamp that the text of a date-time token writes. -/
def parse (text : List Char) : Except Fault Timestamp :=
  -- A token lacks no component, so all of them are taken before the first is checked.
  match slices? text with
  | none => .error .malformed
  | some written =>
      match written.outOfRange? with
      | some component => .error (.outOfRange component)
      | none => .ok written.timestamp

end Sift.Timestamp
