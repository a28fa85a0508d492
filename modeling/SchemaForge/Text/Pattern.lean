/-!
# Patterns over texts

A small language: characters, `.` for any but a line feed, `[...]` classes with ranges
and `^` for the complement, groups, `|`, repetition by `{n}`, `{n,m}`, `*`, `+` and
`?`, and the anchors `^` and `$`. `Pattern.ends` gives every text that can be left
after a match, so `matches` between a pattern and a text is membership and a search
asks for any place at which something can be left. `$` also holds before a final line
feed.
-/
namespace SchemaForge

/-- A pattern. -/
inductive Pattern where
  /-- Matches the empty text. -/
  | empty
  /-- Holds at the start of the text. -/
  | start
  /-- Holds at the end of the text. -/
  | stop
  /-- Any character but a line feed. -/
  | any
  /-- One character. -/
  | char (c : Char)
  /-- A character in one of the ranges, or in none of them. -/
  | range (complement : Bool) (ranges : List (Char × Char))
  /-- One after the other. -/
  | seq (p q : Pattern)
  /-- Either. -/
  | alt (p q : Pattern)
  /-- At least `least` times, and at most `most` times if that is given. -/
  | many (p : Pattern) (least : Nat) (most : Option Nat)

namespace Pattern

/-- Match one character that satisfies a test. -/
def one (test : Char → Bool) : List Char → List (List Char)
  | c :: cs => if test c then [cs] else []
  | [] => []

/-- Apply a step `n` times to all texts of a list. -/
def times (step : List Char → List (List Char)) : Nat → List (List Char) → List (List Char)
  | 0, texts => texts
  | n + 1, texts => times step n (texts.flatMap step)

/-- All texts that are left after at most `n` steps. -/
def upTo (step : List Char → List (List Char)) : Nat → List (List Char) → List (List Char)
  | 0, texts => texts
  | n + 1, texts => texts ++ upTo step n (texts.flatMap step)

/-- Whether a character lies in a range. -/
def inRange (c : Char) (r : Char × Char) : Bool := r.1 ≤ c && c ≤ r.2

/-- The texts that a match can leave, where the whole text has `total` characters. -/
def ends (total : Nat) : Pattern → List Char → List (List Char)
  | empty, cs => [cs]
  | start, cs => if cs.length = total then [cs] else []
  | stop, cs => if cs.isEmpty || cs == ['\n'] then [cs] else []
  | any, cs => one (· != '\n') cs
  | char c, cs => one (· == c) cs
  | range complement ranges, cs => one (fun c => ranges.any (inRange c) != complement) cs
  | seq p q, cs => (ends total p cs).flatMap (ends total q)
  | alt p q, cs => ends total p cs ++ ends total q cs
  | many p least most, cs =>
    let extra := match most with
      | some m => m - least
      | none => cs.length
    upTo (ends total p) extra (times (ends total p) least [cs])

/-- Whether a pattern matches somewhere in a text. -/
def search (p : Pattern) (s : String) : Bool :=
  let cs := s.toList
  (List.range (cs.length + 1)).any fun i => !(ends cs.length p (cs.drop i)).isEmpty

/-- Read the rest of a class after its opening bracket, up to the closing one. -/
def readRanges : Nat → List (Char × Char) → List Char → Option (List (Char × Char) × List Char)
  | 0, _, _ => none
  | n + 1, acc, cs =>
    match cs with
    | ']' :: rest => if acc.isEmpty then readRanges n [(']', ']')] rest else some (acc, rest)
    | a :: '-' :: b :: rest =>
      if b == ']' then some (('-', '-') :: (a, a) :: acc, rest)
      else readRanges n ((a, b) :: acc) rest
    | '\\' :: a :: rest => readRanges n ((a, a) :: acc) rest
    | a :: rest => readRanges n ((a, a) :: acc) rest
    | [] => none

/-- Read a run of digits. -/
def readCount (cs : List Char) : Option Nat × List Char :=
  let ds := cs.takeWhile Char.isDigit
  (if ds.isEmpty then none else some (ds.foldl (fun n d => n * 10 + (d.toNat - 48)) 0),
    cs.dropWhile Char.isDigit)

/-- Apply the repetition marks that follow an item. -/
def readRepetition (p : Pattern) (cs : List Char) : Pattern × List Char :=
  match cs with
  | '*' :: rest => (many p 0 none, rest)
  | '+' :: rest => (many p 1 none, rest)
  | '?' :: rest => (many p 0 (some 1), rest)
  | '\x7b' :: rest =>
    match readCount rest with
    | (some n, '\x7d' :: rest) => (many p n (some n), rest)
    | (some n, ',' :: rest) =>
      match readCount rest with
      | (m, '\x7d' :: rest) => (many p n m, rest)
      | _ => (p, cs)
    | _ => (p, cs)
  | _ => (p, cs)

mutual

/-- Read alternatives. -/
def readAlt : Nat → List Char → Option (Pattern × List Char)
  | 0, _ => none
  | n + 1, cs =>
    match readSeq n empty cs with
    | none => none
    | some (p, '|' :: rest) => (readAlt n rest).map fun (q, r) => (alt p q, r)
    | some (p, rest) => some (p, rest)

/-- Read items one after the other. -/
def readSeq : Nat → Pattern → List Char → Option (Pattern × List Char)
  | 0, _, _ => none
  | n + 1, done, cs =>
    let next (p : Pattern) (rest : List Char) :=
      let (p, rest) := readRepetition p rest
      readSeq n (seq done p) rest
    match cs with
    | [] => some (done, [])
    | '|' :: _ => some (done, cs)
    | ')' :: _ => some (done, cs)
    | '(' :: rest =>
      match readAlt n rest with
      | some (p, ')' :: rest) => next p rest
      | _ => none
    | '[' :: '^' :: rest =>
      match readRanges (rest.length + 1) [] rest with
      | some (ranges, rest) => next (range true ranges) rest
      | none => none
    | '[' :: rest =>
      match readRanges (rest.length + 1) [] rest with
      | some (ranges, rest) => next (range false ranges) rest
      | none => none
    | '^' :: rest => next start rest
    | '$' :: rest => next stop rest
    | '.' :: rest => next any rest
    | '\\' :: c :: rest => next (char c) rest
    | c :: rest => next (char c) rest

end

/-- The pattern that a text spells. -/
def ofString? (s : String) : Option Pattern :=
  let cs := s.toList
  match readAlt (3 * cs.length + 3) cs with
  | some (p, []) => some p
  | _ => none

@[simp] theorem ends_empty (total : Nat) (cs : List Char) : ends total empty cs = [cs] := rfl

end Pattern
end SchemaForge
