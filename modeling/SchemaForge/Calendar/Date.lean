/-!
# Calendar dates and moments

A `Date` is a day of the proleptic Gregorian calendar from year 1 to year 9999. A
`Moment` adds a time of day to the microsecond and perhaps an offset from UTC. The
ranges are part of the types, so every value is a real day and a real time.
-/
namespace SchemaForge

/-- Whether a year has a twenty-ninth of February. -/
def isLeap (year : Nat) : Bool := year % 4 == 0 && (year % 100 != 0 || year % 400 == 0)

/-- The number of days of a month; zero for a month out of range. -/
def daysIn (year month : Nat) : Nat :=
  match month with
  | 1 | 3 | 5 | 7 | 8 | 10 | 12 => 31
  | 4 | 6 | 9 | 11 => 30
  | 2 => if isLeap year then 29 else 28
  | _ => 0

/-- A day of the calendar. -/
structure Date where
  /-- Year from 1 to 9999. -/
  year : Nat
  /-- Month from 1. -/
  month : Nat
  /-- Day from 1. -/
  day : Nat
  /-- The day exists. -/
  exist : (1 ≤ year ∧ year ≤ 9999) ∧ (1 ≤ day ∧ day ≤ daysIn year month)
  deriving DecidableEq

namespace Date

/-- The day with these numbers, if there is one. -/
def of? (year month day : Nat) : Option Date :=
  if h : (1 ≤ year ∧ year ≤ 9999) ∧ (1 ≤ day ∧ day ≤ daysIn year month) then
    some ⟨year, month, day, h⟩
  else none

theorem of?_self (d : Date) : of? d.year d.month d.day = some d := by
  simp [of?, d.exist]

/-- The number of days before a year, counted from year 1. -/
def daysBeforeYear (year : Nat) : Nat :=
  let y := year - 1
  y * 365 + y / 4 - y / 100 + y / 400

/-- The number of days of a year before a month. -/
def daysBeforeMonth (year : Nat) : Nat → Nat
  | 0 => 0
  | 1 => 0
  | m + 1 => daysBeforeMonth year m + daysIn year m

/-- The number of a day, the first day of year 1 being 1. -/
def ordinal (d : Date) : Nat :=
  daysBeforeYear d.year + daysBeforeMonth d.year d.month + d.day

/-- The month and day at a place in a year, found by counting months down. -/
def monthAndDay (year : Nat) : Nat → Nat → Nat → Nat × Nat
  | 0, month, rest => (month, rest)
  | n + 1, month, rest =>
    if rest ≤ daysIn year month then (month, rest)
    else monthAndDay year n (month + 1) (rest - daysIn year month)

/-- The last year from `year` on, at most `n` later, that starts before a day. -/
def yearFrom (ordinal : Nat) : Nat → Nat → Nat
  | 0, year => year
  | n + 1, year =>
    if daysBeforeYear (year + 1) < ordinal then yearFrom ordinal n (year + 1) else year

/-- The day with an ordinal, if the calendar reaches it. Years of 366 days give a first
guess, at most thirty years early. -/
def ofOrdinal? (n : Nat) : Option Date :=
  let year := yearFrom n 30 (n / 366 + 1)
  let (month, day) := monthAndDay year 12 1 (n - daysBeforeYear year)
  of? year month day

/-- The day of the week of an ordinal, Monday being 0. -/
def weekday (ordinal : Nat) : Nat := (ordinal + 6) % 7

/-- The ordinal of the Monday of the first ISO week of a year. It can fall before the
first day of the calendar, hence an integer. -/
def firstMonday (year : Nat) : Int :=
  let firstDay := daysBeforeYear year + 1
  let w := weekday firstDay
  let monday : Int := (firstDay : Int) - w
  if 3 < w then monday + 7 else monday

/-- Whether an ISO year has a fifty-third week. -/
def hasLongYear (year : Nat) : Bool :=
  let w := weekday (daysBeforeYear year + 1)
  w == 3 || (w == 2 && isLeap year)

/-- The day of an ISO year, week and weekday, if there is one. -/
def ofWeek? (year week day : Nat) : Option Date :=
  if 1 ≤ year ∧ 1 ≤ week ∧ (week ≤ 52 ∨ (week = 53 ∧ hasLongYear year)) ∧ 1 ≤ day ∧ day ≤ 7 then
    let n := firstMonday year + ((week - 1) * 7 + day - 1 : Nat)
    if 1 ≤ n then ofOrdinal? n.toNat else none
  else none

end Date

/-- One hour in microseconds. -/
def hourMicros : Nat := 3600000000

/-- One day in microseconds. -/
def dayMicros : Nat := 24 * hourMicros

/-- A time of a day, perhaps with its distance from UTC. -/
structure Moment where
  /-- The day. -/
  date : Date
  /-- Hour below 24. -/
  hour : Nat
  /-- Minute below 60. -/
  minute : Nat
  /-- Second below 60. -/
  second : Nat
  /-- Microsecond below a million. -/
  micro : Nat
  /-- Microseconds ahead of UTC; none for a local time without a place. -/
  offset : Option Int
  /-- The time exists, and the offset is less than a day. -/
  exist : (hour < 24 ∧ minute < 60 ∧ second < 60 ∧ micro < 1000000) ∧
    ∀ o ∈ offset, o.natAbs < dayMicros
  deriving DecidableEq

namespace Moment

/-- The moment with these numbers, if there is one. -/
def of? (date : Date) (hour minute second micro : Nat) (offset : Option Int) : Option Moment :=
  if h : (hour < 24 ∧ minute < 60 ∧ second < 60 ∧ micro < 1000000) ∧
      ∀ o ∈ offset, o.natAbs < dayMicros then
    some ⟨date, hour, minute, second, micro, offset, h⟩
  else none

theorem of?_self (t : Moment) :
    of? t.date t.hour t.minute t.second t.micro t.offset = some t := by
  have h := t.exist
  simp only [of?]
  rw [dif_pos h]

/-- Microseconds since the start of year 1, on the clock of the moment. -/
def clock (t : Moment) : Int :=
  (t.date.ordinal : Int) * dayMicros + t.hour * hourMicros + t.minute * 60000000
    + t.second * 1000000 + t.micro

/-- Microseconds since the start of year 1 in UTC, a moment without offset as it is. -/
def instant (t : Moment) : Int := t.clock - t.offset.getD 0

/-- Whether the offset is known. -/
def isAware (t : Moment) : Bool := t.offset.isSome

/-- The order of two moments; none when only one of them has an offset. -/
def compare? (s t : Moment) : Option Ordering :=
  if s.isAware == t.isAware then some (compare s.instant t.instant) else none

/-- Whether two moments are the same instant. -/
def same (s t : Moment) : Bool := compare? s t == some .eq

@[simp] theorem compare?_self (t : Moment) : compare? t t = some .eq := by simp [compare?]

end Moment
end SchemaForge
