import SchemaForge.Number.Real64
import SchemaForge.Text.Blank
import SchemaForge.Text.Digits

/-!
# Numbers written as text

A number in a text may have blanks around it and a sign in front. Its digits may be
those of any script, and single low lines may stand between them.
-/
namespace SchemaForge
namespace Written

/-- Split off a sign, telling whether it is a minus. -/
def sign : List Char → Bool × List Char
  | '-' :: rest => (true, rest)
  | '+' :: rest => (false, rest)
  | cs => (false, cs)

/-- Read digits as far as they go; the flag tells whether a low line may stand next. -/
def digits (afterDigit : Bool) (done : List Nat) : List Char → List Nat × List Char
  | [] => (done.reverse, [])
  | '_' :: c :: rest =>
    match afterDigit, Text.decimalValue? c with
    | true, some d => digits true (d :: done) rest
    | _, _ => (done.reverse, '_' :: c :: rest)
  | c :: rest =>
    match Text.decimalValue? c with
    | some d => digits true (d :: done) rest
    | none => (done.reverse, c :: rest)

/-- Read an integer. -/
def int? (s : String) : Option Int :=
  let (negative, cs) := sign (Text.trim s).toList
  match digits false [] cs with
  | ([], _) => none
  | (ds, []) =>
    let n : Int := Text.ofDigits 10 ds
    some (if negative then -n else n)
  | _ => none

/-- Read a fraction, if there is one. -/
def fraction : List Char → List Nat × List Char
  | '.' :: rest => digits false [] rest
  | cs => ([], cs)

/-- Read an exponent, if there is one. -/
def exponent? : List Char → Option Int
  | [] => some 0
  | c :: rest =>
    if c == 'e' || c == 'E' then
      let (negative, cs) := sign rest
      match digits false [] cs with
      | (d :: ds, []) =>
        let n : Int := Text.ofDigits 10 (d :: ds)
        some (if negative then -n else n)
      | _ => none
    else none

/-- Read a number with a fraction and an exponent. -/
def real? (s : String) : Option Real64 :=
  let (negative, cs) := sign (Text.trim s).toList
  let (whole, rest) := digits false [] cs
  let (part, rest) := fraction rest
  if whole.isEmpty && part.isEmpty then none
  else (exponent? rest).map fun e =>
    Real64.ofDecimal negative (Text.ofDigits 10 (whole ++ part)) (e - part.length)

end Written
end SchemaForge
