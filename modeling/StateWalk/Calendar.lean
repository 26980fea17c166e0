/-!
# Dates and times

A date or a time on a date comes as an ISO text: `YYYY-MM-DD`, for a time also `THH:MM:SS`, a fraction
of six digits if it is not zero, and the offset from universal time if one is known.
`Moment.ofIso` reads the fields.

`Moment.instant?` is the place on the time line of a time with a known offset. Two such times agree
if they are the same instant. `Moment.isBefore?` orders moments of one kind: dates, times by the clock,
and instants.
-/

namespace StateWalk

/-- A time of day. -/
structure Clock where
  hour : Nat
  minute : Nat
  second : Nat
  microsecond : Nat
  /-- How far the clock is ahead of universal time, in microseconds. -/
  offset : Option Int
  deriving DecidableEq

/-- A date, or a time on a date. -/
structure Moment where
  year : Nat
  month : Nat
  day : Nat
  clock : Option Clock
  deriving DecidableEq

namespace Moment

def number (digits : List Char) : Nat :=
  digits.foldl (fun n c => 10 * n + (c.toNat - '0'.toNat)) 0

/-- The numbers that are written in a text. -/
def numbers (cs : List Char) : List Nat :=
  ((cs.splitBy fun a b => a.isDigit == b.isDigit).filter fun run => run.all Char.isDigit).map number

def microsecondsPerDay : Int := 86400000000

/-- Hours, minutes, seconds and microseconds; the last ones may be missing. -/
def microseconds (fields : List Nat) : Nat :=
  let field (i : Nat) := (fields[i]?).getD 0
  ((field 0 * 60 + field 1) * 60 + field 2) * 1000000 + field 3

/-- A signed offset, or none for the empty text. -/
def offset? : List Char → Option Int
  | [] => none
  | sign :: cs =>
    let size : Int := microseconds (numbers cs)
    some (if sign = '-' then -size else size)

def clockOfIso (cs : List Char) : Clock :=
  let isSign (c : Char) : Bool := c == '+' || c == '-'
  let fields := numbers (cs.takeWhile fun c => !isSign c)
  let field (i : Nat) := (fields[i]?).getD 0
  ⟨field 0, field 1, field 2, field 3, offset? (cs.dropWhile fun c => !isSign c)⟩

def ofIso (iso : String) : Moment :=
  let cs := iso.toList
  let fields := numbers (cs.takeWhile (· != 'T'))
  let field (i : Nat) := (fields[i]?).getD 0
  let clock := match cs.dropWhile (· != 'T') with
    | [] => none
    | _ :: time => some (clockOfIso time)
  ⟨field 0, field 1, field 2, clock⟩

def isLeapYear (year : Nat) : Bool := year % 4 == 0 && (year % 100 != 0 || year % 400 == 0)

/-- The days of a year before the first of a month. -/
def daysBeforeMonth (year month : Nat) : Nat :=
  let common := [0, 31, 59, 90, 120, 151, 181, 212, 243, 273, 304, 334]
  (common[month - 1]?).getD 0 + if 2 < month ∧ isLeapYear year then 1 else 0

/-- The number of a date, counted from the first of January of the year 1. -/
def dayNumber (m : Moment) : Nat :=
  let before := m.year - 1
  365 * before + before / 4 - before / 100 + before / 400 + daysBeforeMonth m.year m.month + (m.day - 1)

/-- The microseconds since the start of the year 1 by the clock of the moment. -/
def sinceStart (m : Moment) : Int :=
  let ofDay := m.clock.elim 0 fun c => microseconds [c.hour, c.minute, c.second, c.microsecond]
  m.dayNumber * microsecondsPerDay + ofDay

/-- The microseconds of universal time since the start of the year 1, if the offset is known. -/
def instant? (m : Moment) : Option Int := do
  let offset ← (← m.clock).offset
  return m.sinceStart - offset

/-- Two moments are the same date, the same clock time, or the same instant. -/
def agree (m n : Moment) : Bool :=
  match m.instant?, n.instant? with
  | some i, some j => i == j
  | none, none => decide (m = n)
  | _, _ => false

/-- Whether a moment comes before another one; unknown if they are not of one kind. -/
def isBefore? (m n : Moment) : Option Bool :=
  match m.instant?, n.instant? with
  | some i, some j => some (decide (i < j))
  | none, none =>
    if m.clock.isSome = n.clock.isSome then some (decide (m.sinceStart < n.sinceStart)) else none
  | _, _ => none

end Moment

end StateWalk
