import Sift.Calendar
import Sift.Text.Digits

namespace Sift

/-! An instant of time together with the offset from UTC it is shown in. -/

structure Timestamp where
  /-- Seconds since 1970-01-01T00:00:00 UTC. -/
  seconds : Int
  nanoseconds : Fin 1000000000
  /-- Seconds by which the shown clock is ahead of UTC. -/
  offset : Int
deriving DecidableEq

namespace Timestamp

def compare (first second : Timestamp) : Ordering :=
  (Ord.compare first.seconds second.seconds).then
    (Ord.compare first.nanoseconds second.nanoseconds)

def sameInstant (first second : Timestamp) : Bool :=
  first.compare second = .eq

def localSeconds (timestamp : Timestamp) : Int :=
  timestamp.seconds + timestamp.offset

def date (timestamp : Timestamp) : Date :=
  Date.ofDayNumber (timestamp.localSeconds / 86400)

def secondOfDay (timestamp : Timestamp) : Nat :=
  (timestamp.localSeconds % 86400).toNat

/-! The written form `YYYY-MM-DDTHH:MM:SS[.mmm]±HH:MM`. -/

def writtenDate (date : Date) : List Char :=
  (if date.year < 0 then ['-'] else []) ++
    Text.zeroPadded 4 date.year.natAbs ++
      '-' :: Text.zeroPadded 2 date.month ++ '-' :: Text.zeroPadded 2 date.day

def writtenClock (secondOfDay : Nat) : List Char :=
  Text.zeroPadded 2 (secondOfDay / 3600) ++
    ':' :: Text.zeroPadded 2 (secondOfDay / 60 % 60) ++
      ':' :: Text.zeroPadded 2 (secondOfDay % 60)

def writtenFraction (nanoseconds : Nat) : List Char :=
  if nanoseconds = 0 then []
  else '.' :: Text.zeroPadded 3 (nanoseconds / 1000000)

def writtenOffset (offset : Int) : List Char :=
  (if offset < 0 then '-' else '+') ::
    Text.zeroPadded 2 (offset.natAbs / 3600) ++
      ':' :: Text.zeroPadded 2 (offset.natAbs / 60 % 60)

def written (timestamp : Timestamp) : List Char :=
  writtenDate timestamp.date ++ 'T' :: writtenClock timestamp.secondOfDay ++
    writtenFraction timestamp.nanoseconds ++ writtenOffset timestamp.offset

end Timestamp

end Sift
