/-
**Timestamps: reading them with an offset and writing them in universal time.**

A timestamp is a date, a time of day and an offset.  The second 60 is a second of its own and stays
one.  An offset is less than a day, so that universal time is on the same day, the day before or the
day after.

Main definitions:

* `Schemata.Timestamp` — date, time and milliseconds;
* `Schemata.Timestamp.read?` — the timestamp of a text, moved to universal time;
* `Schemata.Timestamp.text` — the form with milliseconds and a `Z`.
-/

set_option relaxedAutoImplicit false
set_option autoImplicit false

namespace Schemata

/-- A day of the calendar. -/
structure Date where
  year : Int
  month : Nat
  day : Nat
deriving DecidableEq

namespace Date

/-- Whether a year has a leap day. -/
def isLeapYear (year : Int) : Bool :=
  year % 4 == 0 && (year % 100 != 0 || year % 400 == 0)

/-- The number of days of a month. -/
def daysIn (year : Int) (month : Nat) : Nat :=
  if month = 2 then (if isLeapYear year then 29 else 28)
  else if month = 4 ∨ month = 6 ∨ month = 9 ∨ month = 11 then 30
  else 31

/-- Whether the calendar has the day. -/
def isValid (d : Date) : Bool :=
  decide (1 ≤ d.month ∧ d.month ≤ 12 ∧ 1 ≤ d.day ∧ d.day ≤ daysIn d.year d.month)

/-- The day after. -/
def next (d : Date) : Date :=
  if d.day < daysIn d.year d.month then { d with day := d.day + 1 }
  else if d.month < 12 then ⟨d.year, d.month + 1, 1⟩
  else ⟨d.year + 1, 1, 1⟩

/-- The day before. -/
def previous (d : Date) : Date :=
  if 1 < d.day then { d with day := d.day - 1 }
  else if 1 < d.month then ⟨d.year, d.month - 1, daysIn d.year (d.month - 1)⟩
  else ⟨d.year - 1, 12, 31⟩

end Date

/-- A moment in universal time. -/
structure Timestamp where
  date : Date
  /-- Minutes since midnight. -/
  minute : Nat
  second : Nat
  millisecond : Nat
deriving DecidableEq

namespace Timestamp

/-- The moment at a local date and minute that is `offset` minutes ahead of universal time. -/
def ofLocal (date : Date) (minute : Nat) (offset : Int) (second millisecond : Nat) : Timestamp :=
  let m : Int := minute - offset
  if m < 0 then ⟨date.previous, (m + 1440).toNat, second, millisecond⟩
  else if 1440 ≤ m then ⟨date.next, (m - 1440).toNat, second, millisecond⟩
  else ⟨date, m.toNat, second, millisecond⟩

/-! ### Reading -/

/-- So many decimal digits in front of a text. -/
def fixedNumber : Nat → Nat → List Char → Option (Nat × List Char)
  | 0, acc, cs => some (acc, cs)
  | _ + 1, _, [] => none
  | n + 1, acc, c :: rest =>
      if c.isDigit then fixedNumber n (acc * 10 + (c.toNat - '0'.toNat)) rest else none

/-- A character that has to come next. -/
def expect (c : Char) : List Char → Option (List Char)
  | d :: rest => if d = c then some rest else none
  | [] => none

/-- The milliseconds of a fraction, if there is one; further digits are dropped. -/
def fraction (cs : List Char) : Option (Nat × List Char) :=
  match cs with
  | '.' :: rest =>
      let ds := rest.takeWhile Char.isDigit
      if ds.isEmpty then none
      else
        let three := (ds ++ ['0', '0', '0']).take 3
        let value := three.foldl (fun n d => n * 10 + (d.toNat - '0'.toNat)) 0
        some (value, rest.dropWhile Char.isDigit)
  | cs => some (0, cs)

/-- The minutes that an offset is ahead of universal time; nothing may follow it. -/
def offset (cs : List Char) : Option Int :=
  match cs with
  | ['Z'] => some 0
  | ['z'] => some 0
  | sign :: rest => do
      let ahead ←
        if sign = '+' then some true
        else if sign = '-' || sign.toNat = 0x2212 then some false
        else none
      let (hours, rest) ← fixedNumber 2 0 rest
      let rest ← expect ':' rest
      let (minutes, rest) ← fixedNumber 2 0 rest
      if rest.isEmpty && decide (hours ≤ 23 ∧ minutes ≤ 59) then
        let total : Int := hours * 60 + minutes
        some (if ahead then total else -total)
      else none
  | [] => none

/-- **The timestamp of a text**, moved to universal time. -/
def read? (s : String) : Option Timestamp := do
  let (year, cs) ← fixedNumber 4 0 s.toList
  let cs ← expect '-' cs
  let (month, cs) ← fixedNumber 2 0 cs
  let cs ← expect '-' cs
  let (day, cs) ← fixedNumber 2 0 cs
  let cs ← match cs with
    | 'T' :: rest => some rest
    | 't' :: rest => some rest
    | ' ' :: rest => some rest
    | _ => none
  let (hour, cs) ← fixedNumber 2 0 cs
  let cs ← expect ':' cs
  let (minute, cs) ← fixedNumber 2 0 cs
  let cs ← expect ':' cs
  let (second, cs) ← fixedNumber 2 0 cs
  let (millisecond, cs) ← fraction cs
  let ahead ← offset cs
  let date : Date := ⟨year, month, day⟩
  if date.isValid && decide (hour ≤ 23 ∧ minute ≤ 59 ∧ second ≤ 60) then
    some (ofLocal date (hour * 60 + minute) ahead second millisecond)
  else none

/-! ### Writing -/

/-- A number with zeros in front, at least so many digits. -/
def padded (width n : Nat) : String :=
  let ds := Nat.toDigits 10 n
  String.ofList (List.replicate (width - ds.length) '0' ++ ds)

/-- A year: four digits, and outside of `0` to `9999` a sign as well. -/
def yearText (year : Int) : String :=
  if year < 0 then "-" ++ padded 4 year.natAbs
  else if 9999 < year then "+" ++ padded 5 year.natAbs
  else padded 4 year.natAbs

/-- **The timestamp in universal time, with milliseconds.** -/
def text (t : Timestamp) : String :=
  yearText t.date.year ++ "-" ++ padded 2 t.date.month ++ "-" ++ padded 2 t.date.day ++ "T" ++
    padded 2 (t.minute / 60) ++ ":" ++ padded 2 (t.minute % 60) ++ ":" ++ padded 2 t.second ++
    "." ++ padded 3 t.millisecond ++ "Z"

end Timestamp

end Schemata
