import SchemaForge.Calendar.Iso
import SchemaForge.Number.Shortest
import SchemaForge.Text.Quoted
import SchemaForge.Value.Basic

/-!
# Values as JSON text

`Value.json` writes a value on one line, in ASCII, with a blank after each comma and
colon; a number keeps its kind, since a floating-point number always shows a point or
an exponent. `Value.ofJson?` reads a text that is one JSON value and nothing else. A
number with a point or an exponent becomes a floating-point number, and of two members
with one name the later value stands at the earlier place.
-/
namespace SchemaForge
namespace Json

open Text

mutual

/-- A value as JSON text. Days and moments become texts in ISO notation. -/
def write : Value → String
  | .null => "null"
  | .bool true => "true"
  | .bool false => "false"
  | .int n => String.ofList (ofInt n)
  | .real x => x.text Real64.notation64
  | .text s => literal s
  | .date d => literal d.iso
  | .moment t => literal t.iso
  | .list xs => "[" ++ String.intercalate ", " (writeAll xs) ++ "]"
  | .tuple xs => "[" ++ String.intercalate ", " (writeAll xs) ++ "]"
  | .record fs => "\x7b" ++ String.intercalate ", " (writeFields fs) ++ "\x7d"
  | .object _ fs => "\x7b" ++ String.intercalate ", " (writeFields fs) ++ "\x7d"
  | .pattern s => literal s
  | .entity m _ => literal m
  | .cell _ => "[]"

/-- Several values as JSON texts. -/
def writeAll : List Value → List String
  | [] => []
  | x :: xs => write x :: writeAll xs

/-- Members as JSON texts. -/
def writeFields : List (String × Value) → List String
  | [] => []
  | (k, v) :: fs => (literal k ++ ": " ++ write v) :: writeFields fs

end

/-- Whether a character may stand between tokens. -/
def isSpace (c : Char) : Bool := c == ' ' || c == '\t' || c == '\n' || c == '\r'

/-- Drop the characters between tokens. -/
def skip (cs : List Char) : List Char := cs.dropWhile isSpace

/-- The value of a hexadecimal digit. -/
def hexValue? (c : Char) : Option Nat :=
  let n := c.toNat
  if '0'.toNat ≤ n ∧ n ≤ '9'.toNat then some (n - '0'.toNat)
  else if 'a'.toNat ≤ n ∧ n ≤ 'f'.toNat then some (n - 'a'.toNat + 10)
  else if 'A'.toNat ≤ n ∧ n ≤ 'F'.toNat then some (n - 'A'.toNat + 10)
  else none

/-- Read four hexadecimal digits. -/
def hex4 (cs : List Char) : Option (Nat × List Char) :=
  let ds := (cs.take 4).filterMap hexValue?
  if ds.length = 4 then some (ofDigits 16 ds, cs.drop 4) else none

/-- The second unit of a surrogate pair, if it stands next. -/
def lowSurrogate (cs : List Char) : Option (Nat × List Char) :=
  match cs with
  | '\\' :: 'u' :: rest =>
    match hex4 rest with
    | some (n, rest) => if 0xDC00 ≤ n ∧ n < 0xE000 then some (n, rest) else none
    | none => none
  | _ => none

/-- Read the code of a `\u` escape; two surrogate units make one character. -/
def unicode (cs : List Char) : Option (Char × List Char) := do
  let (n, rest) ← hex4 cs
  if 0xD800 ≤ n ∧ n < 0xDC00 then
    match lowSurrogate rest with
    | some (m, rest) => return (Char.ofNat (65536 + (n - 0xD800) * 1024 + (m - 0xDC00)), rest)
    | none => return ('\uFFFD', rest)
  else if 0xDC00 ≤ n ∧ n < 0xE000 then return ('\uFFFD', rest)
  else return (Char.ofNat n, rest)

/-- The character of a one-letter escape. -/
def shortEscape? : Char → Option Char
  | '"' => some '"'
  | '\\' => some '\\'
  | '/' => some '/'
  | 'b' => some '\x08'
  | 'f' => some '\x0c'
  | 'n' => some '\n'
  | 'r' => some '\r'
  | 't' => some '\t'
  | _ => none

/-- Read a text after its opening quote. Control characters must be escaped. -/
def string : Nat → List Char → List Char → Option (String × List Char)
  | 0, _, _ => none
  | _ + 1, _, [] => none
  | n + 1, acc, c :: cs =>
    if c == '"' then some (String.ofList acc.reverse, cs)
    else if c == '\\' then
      match cs with
      | 'u' :: rest =>
        match unicode rest with
        | some (d, rest) => string n (d :: acc) rest
        | none => none
      | e :: rest =>
        match shortEscape? e with
        | some d => string n (d :: acc) rest
        | none => none
      | [] => none
    else if c.toNat < 32 then none
    else string n (c :: acc) cs

/-- Split off the leading ASCII digits. -/
def digits (cs : List Char) : List Nat × List Char :=
  ((cs.takeWhile isAsciiDigit).filterMap asciiDigit?, cs.dropWhile isAsciiDigit)

/-- The digits after a point, if both stand next. -/
def fractionPart (cs : List Char) : List Nat × List Char :=
  match cs with
  | '.' :: rest =>
    let (ds, rest') := digits rest
    if ds.isEmpty then ([], cs) else (ds, rest')
  | _ => ([], cs)

/-- The exponent, if one stands next. -/
def exponentPart (cs : List Char) : Option Int × List Char :=
  match cs with
  | e :: rest =>
    if e == 'e' || e == 'E' then
      let (negative, rest) := match rest with
        | '-' :: r => (true, r)
        | '+' :: r => (false, r)
        | r => (false, r)
      let (ds, rest) := digits rest
      if ds.isEmpty then (none, cs)
      else
        let n : Int := ofDigits 10 ds
        (some (if negative then -n else n), rest)
    else (none, cs)
  | [] => (none, cs)

/-- Read a number. -/
def number (cs : List Char) : Option (Value × List Char) := do
  let (negative, cs) := match cs with
    | '-' :: rest => (true, rest)
    | rest => (false, rest)
  let (whole, rest) := match cs with
    | '0' :: rest => ([0], rest)
    | rest => digits rest
  if whole.isEmpty then none
  else
    let (frac, rest) := fractionPart rest
    let (exp, rest) := exponentPart rest
    if frac.isEmpty && exp.isNone then
      let n : Int := ofDigits 10 whole
      return (.int (if negative then -n else n), rest)
    else
      let power : Int := exp.getD 0 - frac.length
      return (.real (Real64.ofDecimal negative (ofDigits 10 (whole ++ frac)) power), rest)

/-- Match a fixed word. -/
def word (w : String) (cs : List Char) : Option (List Char) :=
  if w.toList.isPrefixOf cs then some (cs.drop w.length) else none

/-- The words that are values. -/
def words : List (String × Value) :=
  [("null", .null), ("true", .bool true), ("false", .bool false), ("NaN", .real Real64.nan),
    ("Infinity", .real (Real64.infinity false)), ("-Infinity", .real (Real64.infinity true))]

/-- Read one of the words. -/
def namedValue (cs : List Char) : Option (Value × List Char) :=
  words.findSome? fun (w, v) => (word w cs).map fun rest => (v, rest)

mutual

/-- Read a value that starts at once. -/
def value : Nat → List Char → Option (Value × List Char)
  | 0, _ => none
  | n + 1, cs =>
    match cs with
    | [] => none
    | '"' :: rest => (string (rest.length + 1) [] rest).map fun (s, r) => (.text s, r)
    | '[' :: rest =>
      match skip rest with
      | ']' :: r => some (.list [], r)
      | r => items n [] r
    | '\x7b' :: rest =>
      match skip rest with
      | '\x7d' :: r => some (.record [], r)
      | r => members n [] r
    | rest => match namedValue rest with
      | some found => some found
      | none => number rest

/-- Read items up to the closing bracket. -/
def items : Nat → List Value → List Char → Option (Value × List Char)
  | 0, _, _ => none
  | n + 1, acc, cs =>
    match value n cs with
    | none => none
    | some (v, rest) =>
      match skip rest with
      | ',' :: r => items n (v :: acc) (skip r)
      | ']' :: r => some (.list (v :: acc).reverse, r)
      | _ => none

/-- Read members up to the closing brace. -/
def members : Nat → Fields → List Char → Option (Value × List Char)
  | 0, _, _ => none
  | n + 1, acc, cs =>
    match cs with
    | '"' :: rest =>
      match string (rest.length + 1) [] rest with
      | none => none
      | some (key, rest) =>
        match skip rest with
        | ':' :: r =>
          match value n (skip r) with
          | none => none
          | some (v, rest) =>
            let acc := Table.put acc key v
            match skip rest with
            | ',' :: r => members n acc (skip r)
            | '\x7d' :: r => some (.record acc, r)
            | _ => none
        | _ => none
    | _ => none

end

end Json

namespace Value

/-- A value as JSON text. -/
def json (v : Value) : String := Json.write v

/-- The value that a JSON text is. -/
def ofJson? (s : String) : Option Value :=
  let cs := Json.skip s.toList
  match Json.value (cs.length + 1) cs with
  | some (v, rest) => if (Json.skip rest).isEmpty then some v else none
  | none => none

end Value
end SchemaForge
