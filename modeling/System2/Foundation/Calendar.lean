import System2.Foundation.PyValue

/-!
# Dates and times

A moment is a number of microseconds since the start of year 1, inside the
years 1 to 9999. Text is read as Python's `datetime.fromisoformat` reads it.
A time without an offset is local, and the host says what that means.

## Implementation notes

The reader works on characters and looks one character past the end of the
text, as the C implementation does; that character is NUL.
-/

namespace Foundation

/-! ### The proleptic Gregorian calendar -/

def isLeap (year : ℤ) : Bool := year % 4 == 0 && (year % 100 != 0 || year % 400 == 0)

def daysInMonth (year month : ℤ) : ℤ :=
  if month = 2 then (if isLeap year then 29 else 28)
  else if month = 4 ∨ month = 6 ∨ month = 9 ∨ month = 11 then 30
  else 31

/-- Days before January 1st of a year, counted from year 1. -/
def daysBeforeYear (year : ℤ) : ℤ :=
  let y := year - 1
  y * 365 + y / 4 - y / 100 + y / 400

/-- Days before the first of a month within its year. -/
def daysBeforeMonth (year month : ℤ) : ℤ :=
  ((List.range (month - 1).toNat).map fun m => daysInMonth year (m + 1)).sum

/-- Days since January 1st of year 1. -/
def dayNumber (year month day : ℤ) : ℤ :=
  daysBeforeYear year + daysBeforeMonth year month + (day - 1)

/-- Day 0 is a Monday, and Monday is 0. -/
def weekdayOf (day : ℤ) : ℤ := day % 7

/-- The Monday that starts the first ISO week of a year. -/
def isoWeek1Monday (year : ℤ) : ℤ :=
  let first := daysBeforeYear year
  let monday := first - weekdayOf first
  if weekdayOf first > 3 then monday + 7 else monday

/-- The day of an ISO week date. -/
def isoWeekDay? (year week day : ℤ) : Option ℤ :=
  let firstWeekday := weekdayOf (daysBeforeYear year)
  let hasWeek53 := firstWeekday = 3 ∨ (firstWeekday = 2 ∧ isLeap year)
  if year < 1 ∨ 9999 < year then none
  else if ¬((0 < week ∧ week < 53) ∨ (week = 53 ∧ hasWeek53)) then none
  else if ¬(0 < day ∧ day < 8) then none
  else some (isoWeek1Monday year + (week - 1) * 7 + (day - 1))

/-! ### Moments -/

def secondMicros : ℤ := 1000000
def hourMicros : ℤ := 3600 * secondMicros
def dayMicros : ℤ := 24 * hourMicros

/-- One past the last microsecond of year 9999. -/
def endOfTime : ℤ := 3652059 * dayMicros

/-- A UTC moment that a `datetime` can hold. -/
structure Moment where
  micros : ℤ
  lower : 0 ≤ micros
  upper : micros < endOfTime
  deriving DecidableEq

namespace Moment

@[ext] theorem ext {a b : Moment} (h : a.micros = b.micros) : a = b := by
  cases a
  cases b
  simpa using h

instance : LinearOrder Moment :=
  LinearOrder.lift' micros fun _ _ h => ext h

theorem le_iff {a b : Moment} : a ≤ b ↔ a.micros ≤ b.micros := Iff.rfl

/-- The moment at a number of microseconds, when a `datetime` can hold it. -/
def ofMicros? (n : ℤ) : Option Moment :=
  if h : 0 ≤ n ∧ n < endOfTime then some ⟨n, h.1, h.2⟩ else none

/-- The start of the calendar, a Monday. -/
def first : Moment := ⟨0, le_refl 0, by decide⟩

/-- A second of the first day. -/
def atSecond (n : Fin 86400) : Moment where
  micros := n * secondMicros
  lower := by simp [secondMicros]
  upper := by simp [secondMicros, endOfTime, dayMicros, hourMicros]; omega

/-- `datetime.weekday`: Monday is 0. -/
def weekday (t : Moment) : ℤ := weekdayOf (t.micros / dayMicros)

/-- `datetime.hour`. -/
def hour (t : Moment) : ℤ := t.micros % dayMicros / hourMicros

/-- `(a - b).total_seconds()`. -/
def secondsSince (a b : Moment) : Binary64 :=
  .ofRat (((a.micros - b.micros : ℤ) : ℚ) / secondMicros)

/-- A later reading of the clock against an earlier mark is no shorter. -/
theorem secondsSince_mono {a b c d : Moment} (hab : a ≤ b) (hcd : c ≤ d) :
    (a.secondsSince d).le (b.secondsSince c) = true := by
  apply Binary64.ofRat_mono
  have hpos : (0 : ℚ) < secondMicros := by norm_num [secondMicros]
  have hsub : a.micros - d.micros ≤ b.micros - c.micros := by
    rw [le_iff] at hab hcd
    omega
  exact div_le_div_of_nonneg_right (by exact_mod_cast hsub) hpos.le

end Moment

/-- A `datetime` as read: its fields as microseconds, and its UTC offset if it has one. -/
structure DateTime where
  fields : Moment
  utcoffset : Option ℤ
  deriving DecidableEq

/-- How the host turns a local time without an offset into UTC. -/
abbrev LocalZone := Moment → Except PyErr Moment

/-- `dt.astimezone(timezone.utc)`. -/
def DateTime.toUtc (host : LocalZone) (dt : DateTime) : Except PyErr Moment :=
  match dt.utcoffset with
  | none => host dt.fields
  | some offset =>
      match Moment.ofMicros? (dt.fields.micros - offset) with
      | some t => .ok t
      | none => .error .overflowError

/-- `a < b` of two dates: one with an offset and one without cannot be compared. -/
def DateTime.isBefore (a b : DateTime) : Except PyErr Bool :=
  match a.utcoffset, b.utcoffset with
  | some x, some y => .ok (decide (a.fields.micros - x < b.fields.micros - y))
  | none, none => .ok (decide (a.fields < b.fields))
  | _, _ => .error .typeError

/-! ### Reading -/

/-- The number written by exactly `n` ASCII digits, and what follows. -/
def readDigits : ℕ → List Char → Option (ℤ × List Char) := fun n s =>
  let (value, count, _) := takeDigits 0 0 (s.take n)
  if count = n then some (value, s.drop n) else none

/-- Where the date part of the text ends. -/
def dateSeparator (s : List Char) : Option ℕ :=
  let at' (i : ℕ) : Char := s.getD i '\x00'
  let len := s.length
  if len = 7 then some 7
  else if at' 4 = '-' then
    if at' 5 = 'W' then
      if len < 8 then none
      else if 8 < len ∧ at' 8 = '-' then
        if len = 9 then none
        else if 10 < len ∧ (asciiDigit? (at' 10)).isSome then some 8
        else some 10
      else some 8
    else some 10
  else if at' 4 = 'W' then
    let idx := 7 + ((s.drop 7).takeWhile fun c => (asciiDigit? c).isSome).length
    if idx < 9 then some idx else if idx % 2 = 0 then some 7 else some 8
  else some 8

/-- The day that a date text names. -/
def readDate (s : List Char) : Option ℤ := do
  let (year, rest) ← readDigits 4 s
  let dashed := rest.head? = some '-'
  let rest := if dashed then rest.drop 1 else rest
  if rest.head? = some 'W' then
    let (week, rest) ← readDigits 2 (rest.drop 1)
    if rest.isEmpty then isoWeekDay? year week 1
    else if dashed ∧ rest.head? ≠ some '-' then none
    else
      let (day, _) ← readDigits 1 (if dashed then rest.drop 1 else rest)
      isoWeekDay? year week day
  else
    let (month, rest) ← readDigits 2 rest
    if dashed ∧ rest.head? ≠ some '-' then none
    else
      let (day, _) ← readDigits 2 (if dashed then rest.drop 1 else rest)
      if 1 ≤ year ∧ 1 ≤ month ∧ month ≤ 12 ∧ 1 ≤ day ∧ day ≤ daysInMonth year month then
        some (dayNumber year month day)
      else none

/-- The fraction of a second as microseconds; digits after the sixth are cut. The
flag says that the text does not end there. -/
def readFraction (after : Char) (s : List Char) : Option (ℤ × Bool) := do
  let size := min 6 s.length
  let (value, rest) ← readDigits size s
  let rest := rest.dropWhile fun c => (asciiDigit? c).isSome
  some (value * 10 ^ (6 - size), rest.headD after ≠ '\x00')

/-- `HH[:?MM[:?SS[{.,}ffffff]]]`, with `after` the character behind the slice. The
numbers come back with a flag that says that the text does not end there. -/
def readClock (after : Char) :
    ℕ → Bool → List ℤ → List Char → Option (List ℤ × ℤ × Bool)
  | 0, _, parts, s => do
      let (micros, more) ← readFraction after s
      some (parts, micros, more)
  | n + 1, separated, parts, s => do
      let (value, rest) ← readDigits 2 s
      let c := rest.headD after
      let separated := if parts.isEmpty then c == ':' else separated
      let parts := parts ++ [value]
      if rest.length ≤ 1 then some (parts, 0, c ≠ '\x00')
      else if separated ∧ c = ':' then readClock after n separated parts (rest.drop 1)
      else if c = '.' ∨ c = ',' then do
        let (micros, more) ← readFraction after (rest.drop 1)
        some (parts, micros, more)
      else if !separated then readClock after n separated parts rest
      else none

/-- Seconds of hours, minutes and seconds, absent ones being zero. -/
def clockSeconds (parts : List ℤ) : ℤ :=
  parts.getD 0 0 * 3600 + parts.getD 1 0 * 60 + parts.getD 2 0

/-- The offset text after a sign, in microseconds. A zero number of seconds is
UTC whatever its fraction, and an offset is shorter than a day. -/
def readOffset (negative : Bool) (s : List Char) : Option ℤ := do
  let (parts, micros, more) ← readClock '\x00' 3 false [] s
  if more then none
  else
    let seconds := clockSeconds parts
    if seconds = 0 then some 0
    else
      let size := seconds * secondMicros + micros
      if size < dayMicros then some (if negative then -size else size) else none

/-- The time of day as microseconds, and the offset if there is one. -/
def readTime (s : List Char) : Option (ℤ × Option ℤ) := do
  let slice := s.takeWhile fun c => c ≠ '+' ∧ c ≠ '-' ∧ c ≠ 'Z'
  let zone := s.drop slice.length
  let (parts, micros, more) ← readClock (zone.headD '\x00') 3 false [] slice
  if ¬(parts.getD 0 0 < 24 ∧ parts.getD 1 0 < 60 ∧ parts.getD 2 0 < 60) then none
  else
    let time := clockSeconds parts * secondMicros + micros
    match zone with
    | [] => if more then none else some (time, none)
    | 'Z' :: rest => if rest.isEmpty then some (time, some 0) else none
    | sign :: rest => (readOffset (sign = '-') rest).map fun offset => (time, some offset)

/-- `datetime.fromisoformat`; `none` where it raises `ValueError`. -/
def fromisoformat (text : String) : Option DateTime := do
  let s := text.toList
  if s.length < 7 then none
  else
    let sep ← dateSeparator s
    let day ← readDate (s.take sep)
    let (time, offset) ←
      if s.length ≤ sep then some (0, none) else readTime (s.drop (sep + 1))
    let fields ← Moment.ofMicros? (day * dayMicros + time)
    some ⟨fields, offset⟩

end Foundation
