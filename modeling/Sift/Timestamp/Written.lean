import Sift.Timestamp

namespace Sift.Timestamp

/-! A date-time as written: `DDDD-DD-DD`, and optionally `THH:MM:SS`, a fraction and a zone. -/

structure Written where
  year : Nat
  month : Nat
  day : Nat
  hour : Nat := 0
  minute : Nat := 0
  second : Nat := 0
  milliseconds : Fin 1000 := 0
  /-- The zone carries a minus sign. -/
  west : Bool := false
  zoneHour : Nat := 0
  zoneMinute : Nat := 0
deriving DecidableEq

namespace Written

def onDate (year month day : Nat) : Written :=
  { year := year, month := month, day := day }

/-! A part that may be missing is committed to by its first character: when the rest of it
does not follow, the whole date-time is refused. Each reader also counts what it took. -/

def hour? : List Char → Option (Nat × List Char) :=
  Text.pair? '2'

def sexagesimal? : List Char → Option (Nat × List Char) :=
  Text.pair? '5'

def zoneMinute? (written : Written) : List Char → Option (Written × Nat)
  | ':' :: cs => do
      let (minute, _) ← sexagesimal? cs
      some ({ written with zoneMinute := minute }, 3)
  | _ => some (written, 0)

def zoneHour? (written : Written) (cs : List Char) : Option (Written × Nat) := do
  let (hour, cs) ← hour? cs
  let (written, length) ← zoneMinute? { written with zoneHour := hour } cs
  some (written, 2 + length)

def zone? (written : Written) : List Char → Option (Written × Nat)
  | 'Z' :: _ => some (written, 1)
  | '+' :: cs => do
      let (written, length) ← zoneHour? written cs
      some (written, 1 + length)
  | '-' :: cs => do
      let (written, length) ← zoneHour? { written with west := true } cs
      some (written, 1 + length)
  | _ => some (written, 0)

def fraction? (written : Written) : List Char → Option (Written × Nat)
  | '.' :: cs => do
      let (milliseconds, cs) ← Text.digits? 3 cs
      let (written, length) ←
        zone? { written with milliseconds := Fin.ofNat 1000 milliseconds } cs
      some (written, 4 + length)
  | cs => zone? written cs

def time? (written : Written) (cs : List Char) : Option (Written × Nat) := do
  let (hour, cs) ← hour? cs
  let cs ← Text.after? ':' cs
  let (minute, cs) ← sexagesimal? cs
  let cs ← Text.after? ':' cs
  let (second, cs) ← sexagesimal? cs
  let (written, length) ←
    fraction? { written with hour := hour, minute := minute, second := second } cs
  some (written, 8 + length)

def clock? (written : Written) : List Char → Option (Written × Nat)
  | 'T' :: cs => do
      let (written, length) ← time? written cs
      some (written, 1 + length)
  | _ => some (written, 0)

def read? (cs : List Char) : Option (Written × Nat) := do
  let (year, cs) ← Text.digits? 4 cs
  let cs ← Text.after? '-' cs
  let (month, cs) ← Text.digits? 2 cs
  let cs ← Text.after? '-' cs
  let (day, cs) ← Text.digits? 2 cs
  let (written, length) ← clock? (onDate year month day) cs
  some (written, 10 + length)

theorem length_pos_of_read? {cs : List Char} {written : Written} {length : Nat}
    (h : read? cs = some (written, length)) : 0 < length := by
  simp only [read?, Option.bind_eq_bind, Option.bind_eq_some_iff, Option.some.injEq,
    Prod.mk.injEq] at h
  obtain ⟨_, _, _, _, _, _, _, _, _, _, _, _, _, hlength⟩ := h
  omega

end Written

end Sift.Timestamp
