import SchemaForge.Calendar.Date
import SchemaForge.Text.Digits

/-!
# ISO 8601 notation

`Date.iso` and `Moment.iso` write the extended format. The readers accept it, the
basic format, ISO weeks, any one character between date and time, a point or a comma
before the fraction of a second, of which six digits count, and offsets down to the
microsecond. Positions count bytes, as the places of the separators do: `widen` gives
a character outside ASCII as many places as its encoding has.
-/
namespace SchemaForge
namespace Iso

open Text

/-- Read exactly `n` ASCII digits. -/
def digits (n : Nat) (cs : List Char) : Option (Nat × List Char) :=
  let ds := (cs.take n).filterMap asciiDigit?
  if ds.length = n then some (ofDigits 10 ds, cs.drop n) else none

/-- A text with one place for each byte of its encoding. -/
def widen (cs : List Char) : List Char :=
  cs.flatMap fun c => List.replicate c.utf8Size c

@[simp] theorem widen_nil : widen [] = [] := rfl

/-- Read a date from text of `len` places: year, month and day, or ISO year, week and
perhaps weekday, with hyphens between all parts or none. What stands after the day is
not looked at. -/
def readDate (len : Nat) (cs : List Char) : Option Date := do
  let (year, rest) ← digits 4 cs
  let hyphens := rest.head? == some '-'
  let rest := if hyphens then rest.drop 1 else rest
  if rest.head? == some 'W' then
    let (week, rest) ← digits 2 (rest.drop 1)
    if cs.length - rest.length < len then
      if hyphens && rest.head? != some '-' then none
      else
        let (day, _) ← digits 1 (if hyphens then rest.drop 1 else rest)
        Date.ofWeek? year week day
    else Date.ofWeek? year week 1
  else
    let (month, rest) ← digits 2 rest
    if hyphens && rest.head? != some '-' then none
    else
      let (day, _) ← digits 2 (if hyphens then rest.drop 1 else rest)
      Date.of? year month day

/-- A date on its own takes 7, 8 or 10 places. -/
def date? (s : String) : Option Date :=
  let cs := widen s.toList
  if cs.length = 7 ∨ cs.length = 8 ∨ cs.length = 10 then readDate cs.length cs else none

/-- The place where the date ends and the separator stands. -/
def separatorPlace (cs : List Char) : Option Nat :=
  let len := cs.length
  let at? (n : Nat) := cs[n]?
  let isDigitAt (n : Nat) := (at? n).any isAsciiDigit
  if len = 7 then some 7
  else if at? 4 == some '-' then
    if at? 5 == some 'W' then
      if 8 < len ∧ at? 8 == some '-' then
        if len = 9 then none
        else if isDigitAt 10 then some 8
        else some 10
      else some 8
    else some 10
  else if at? 4 == some 'W' then
    let pos := 7 + ((cs.drop 7).takeWhile isAsciiDigit).length
    if pos < 9 then some pos
    else if pos % 2 = 0 then some 7 else some 8
  else some 8

/-- A clock reading: hour, minute, second and microsecond. -/
structure Clock where
  /-- Hours. -/
  hour : Nat := 0
  /-- Minutes. -/
  minute : Nat := 0
  /-- Seconds. -/
  second : Nat := 0
  /-- Microseconds. -/
  micro : Nat := 0

/-- Read the fraction of a second at `cs`, of which `len` places belong to the clock.
Digits after the sixth are dropped. The flag tells whether text is left. -/
def fraction (len : Nat) (cs : List Char) (clock : Clock) : Option (Clock × Bool) := do
  let n := min len 6
  let (value, rest) ← digits n cs
  let micro := if n = 0 then value else value * Nat.pow 10 (6 - n)
  return ({ clock with micro }, !(rest.dropWhile isAsciiDigit).isEmpty)

/-- Set the `i`-th component of a clock. -/
def Clock.put (clock : Clock) (i value : Nat) : Clock :=
  match i with
  | 0 => { clock with hour := value }
  | 1 => { clock with minute := value }
  | _ => { clock with second := value }

/-- Read hours, minutes and seconds from the first `len` places of `cs`, and then the
fraction. `colons` tells whether the parts are separated, which the first part settles.
The flag of the answer tells whether text follows. -/
def components (i fuel len : Nat) (colons : Bool) (cs : List Char) (clock : Clock) :
    Option (Clock × Bool) :=
  match fuel with
  | 0 => fraction len cs clock
  | fuel + 1 => do
    let (value, rest) ← digits 2 cs
    let clock := clock.put i value
    let next := rest.head?
    let colons := if i = 0 then next == some ':' else colons
    let left := len - 3
    if len ≤ 3 then return (clock, next.isSome)
    else if colons && next == some ':' then
      components (i + 1) fuel left colons (rest.drop 1) clock
    else if next == some '.' || next == some ',' then fraction left (rest.drop 1) clock
    else if colons then none
    else components (i + 1) fuel (len - 2) colons rest clock

/-- Read a clock from the first `len` places. -/
def clock (len : Nat) (cs : List Char) : Option (Clock × Bool) :=
  components 0 3 len true cs {}

/-- Whether a character starts an offset. -/
def startsOffset (c : Char) : Bool := c == '+' || c == '-' || c == 'Z'

/-- A signed offset in microseconds. Whole seconds of zero mean UTC itself. -/
def Clock.offset (negative : Bool) (c : Clock) : Int :=
  let seconds : Int := (c.hour * 3600 + c.minute * 60 + c.second : Nat)
  let sign : Int := if negative then -1 else 1
  if seconds = 0 then 0 else sign * (seconds * 1000000 + c.micro)

/-- Read a time with its offset, if it has one. -/
def time (cs : List Char) : Option (Clock × Option Int) := do
  let before := (cs.takeWhile fun c => !startsOffset c).length
  let (reading, more) ← clock before cs
  match cs.drop before with
  | [] => if more then none else return (reading, none)
  | mark :: rest =>
    if mark == 'Z' then
      if rest.isEmpty then return (reading, some 0) else none
    else
      let (distance, more) ← clock rest.length rest
      if more then none else return (reading, some (distance.offset (mark == '-')))

/-- A moment: a date, any one character and a time, or a date alone for midnight. -/
def moment? (s : String) : Option Moment := do
  let cs := widen s.toList
  if cs.length < 7 then none
  else
    let place ← separatorPlace cs
    let date ← readDate place cs
    if cs.length ≤ place then Moment.of? date 0 0 0 0 none
    else
      let skip := ((cs[place]?).map Char.utf8Size).getD 1
      let (c, offset) ← time (cs.drop (place + skip))
      Moment.of? date c.hour c.minute c.second c.micro offset

/-- The extended format of a day. -/
def writeDate (d : Date) : List Char :=
  padded 4 d.year ++ '-' :: padded 2 d.month ++ '-' :: padded 2 d.day

/-- Hours, minutes and seconds, and six digits of the microsecond unless it is zero. -/
def writeClock (hour minute second micro : Nat) : List Char :=
  padded 2 hour ++ ':' :: padded 2 minute ++ ':' :: padded 2 second
    ++ (if micro = 0 then [] else '.' :: padded 6 micro)

/-- An offset: hours and minutes, with seconds and a fraction unless they are zero. -/
def writeOffset (o : Int) : List Char :=
  let n := o.natAbs
  let micro := n % 1000000
  let seconds := n / 1000000
  let short := padded 2 (seconds / 3600) ++ ':' :: padded 2 (seconds / 60 % 60)
  (if o < 0 then '-' else '+') ::
    (if seconds % 60 = 0 ∧ micro = 0 then short
     else short ++ ':' :: padded 2 (seconds % 60) ++ (if micro = 0 then [] else '.' :: padded 6 micro))

/-- The extended format of a moment with a chosen separator. -/
def writeMoment (separator : Char) (t : Moment) : List Char :=
  writeDate t.date ++ separator :: writeClock t.hour t.minute t.second t.micro
    ++ (t.offset.map writeOffset).getD []

end Iso

/-- A day in the extended format. -/
def Date.iso (d : Date) : String := String.ofList (Iso.writeDate d)

/-- A moment in the extended format, with `T` before the time. -/
def Moment.iso (t : Moment) : String := String.ofList (Iso.writeMoment 'T' t)

/-- A moment in the extended format, with a blank before the time. -/
def Moment.spaced (t : Moment) : String := String.ofList (Iso.writeMoment ' ' t)

end SchemaForge
