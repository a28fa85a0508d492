import SchemaForge.Text.Digits

/-!
# Tokens of the schema language

`Token.ofText?` splits a text into tokens. Blanks, commas, line ends, byte order marks
and comments separate tokens and are dropped. A number must not run into a name or a
point, an escape must spell a character, and the lines of a block text lose the
indentation that all of them but the first have in common.
-/
namespace SchemaForge.Language

/-- The punctuation marks. -/
inductive Mark where
  | bang | dollar | amp | parenL | parenR | spread | colon | equals | at
  | bracketL | bracketR | braceL | pipe | braceR
  deriving DecidableEq, Repr

/-- A token. -/
inductive Token where
  /-- A punctuation mark. -/
  | mark (m : Mark)
  /-- A name. -/
  | name (s : String)
  /-- A whole number, as written. -/
  | int (s : String)
  /-- A number with a fraction or an exponent, as written. -/
  | float (s : String)
  /-- A quoted text, without quotes and escapes. -/
  | string (s : String)
  /-- A block text, without its indentation. -/
  | block (s : String)
  deriving DecidableEq, Repr

/-- The marks of one character. -/
def markOf? : Char → Option Mark
  | '!' => some .bang
  | '$' => some .dollar
  | '&' => some .amp
  | '(' => some .parenL
  | ')' => some .parenR
  | ':' => some .colon
  | '=' => some .equals
  | '@' => some .at
  | '[' => some .bracketL
  | ']' => some .bracketR
  | '\x7b' => some .braceL
  | '|' => some .pipe
  | '\x7d' => some .braceR
  | _ => none

/-- Whether a name can start with this character. -/
def isNameStart (c : Char) : Bool := ('a' ≤ c && c ≤ 'z') || ('A' ≤ c && c ≤ 'Z') || c == '_'

/-- Whether a name can go on with this character. -/
def isNameChar (c : Char) : Bool := isNameStart c || Text.isAsciiDigit c

/-- Whether a text is a name. -/
def isName (s : String) : Bool :=
  match s.toList with
  | [] => false
  | c :: cs => isNameStart c && cs.all isNameChar

/-- Whether a character separates tokens. -/
def isSeparator (c : Char) : Bool :=
  c == ' ' || c == '\t' || c == ',' || c == '\n' || c == '\r' || c == '\uFEFF'

/-- Whether a character ends a line. -/
def isLineEnd (c : Char) : Bool := c == '\n' || c == '\r'

/-- Drop what stands before the next token; the flag says that a comment is open. -/
def skip (comment : Bool) : List Char → List Char
  | [] => []
  | c :: cs =>
    if comment then skip (!isLineEnd c) cs
    else if c == '#' then skip true cs
    else if isSeparator c then skip false cs
    else c :: cs

/-- Split off at least one digit. -/
def digits? (cs : List Char) : Option (List Char × List Char) :=
  match cs.takeWhile Text.isAsciiDigit with
  | [] => none
  | ds => some (ds, cs.dropWhile Text.isAsciiDigit)

/-- The whole part of a number: zero alone, or digits that do not start with zero. -/
def wholePart? : List Char → Option (List Char × List Char)
  | '0' :: rest =>
    match rest with
    | c :: _ => if Text.isAsciiDigit c then none else some (['0'], rest)
    | [] => some (['0'], [])
  | cs => digits? cs

/-- A point and the digits after it, if a point stands next. -/
def fraction? : List Char → Option (List Char × List Char)
  | '.' :: rest => (digits? rest).map fun (ds, r) => ('.' :: ds, r)
  | cs => some ([], cs)

/-- An exponent, if its letter stands next. -/
def exponent? : List Char → Option (List Char × List Char)
  | c :: rest =>
    if c == 'e' || c == 'E' then
      match rest with
      | '+' :: r => (digits? r).map fun (ds, r) => (c :: '+' :: ds, r)
      | '-' :: r => (digits? r).map fun (ds, r) => (c :: '-' :: ds, r)
      | r => (digits? r).map fun (ds, r) => (c :: ds, r)
    else some ([], c :: rest)
  | [] => some ([], [])

/-- Read a number without its sign. -/
def scanNumber (sign : List Char) (cs : List Char) : Option (Token × List Char) := do
  let (whole, rest) ← wholePart? cs
  let (frac, rest) ← fraction? rest
  let (exp, rest) ← exponent? rest
  let s := String.ofList (sign ++ whole ++ frac ++ exp)
  let token := if frac.isEmpty && exp.isEmpty then Token.int s else Token.float s
  match rest with
  | c :: _ => if c == '.' || isNameStart c then none else some (token, rest)
  | [] => some (token, rest)

/-- The value of a hexadecimal digit. -/
def hexDigit? (c : Char) : Option Nat :=
  if '0' ≤ c ∧ c ≤ '9' then some (c.toNat - '0'.toNat)
  else if 'a' ≤ c ∧ c ≤ 'f' then some (c.toNat - 'a'.toNat + 10)
  else if 'A' ≤ c ∧ c ≤ 'F' then some (c.toNat - 'A'.toNat + 10)
  else none

/-- The character with a code, surrogates excluded. -/
def charOf? (n : Nat) : Option Char :=
  if h : n.isValidChar then some (Char.ofNatAux n h) else none

/-- Four hexadecimal digits. -/
def hex4? : List Char → Option (Nat × List Char)
  | a :: b :: c :: d :: rest => do
    let a ← hexDigit? a
    let b ← hexDigit? b
    let c ← hexDigit? c
    let d ← hexDigit? d
    return (((a * 16 + b) * 16 + c) * 16 + d, rest)
  | _ => none

/-- One to eight hexadecimal digits up to a closing brace. -/
def hexBraced? (cs : List Char) : Option (Nat × List Char) :=
  let ds := cs.takeWhile (· != '\x7d')
  match cs.drop ds.length with
  | '\x7d' :: rest =>
    if 1 ≤ ds.length ∧ ds.length ≤ 8 then
      (ds.mapM hexDigit?).map fun vs => (Text.ofDigits 16 vs, rest)
    else none
  | _ => none

/-- Read the code after `\u`: digits in braces, four digits, or two units of four
digits for a character beyond the basic plane. -/
def unicodeEscape? : List Char → Option (Char × List Char)
  | '\x7b' :: rest => do
    let (n, rest) ← hexBraced? rest
    return (← charOf? n, rest)
  | cs => do
    let (n, rest) ← hex4? cs
    if 0xD800 ≤ n ∧ n < 0xDC00 then
      match rest with
      | '\\' :: 'u' :: rest =>
        let (m, rest) ← hex4? rest
        if 0xDC00 ≤ m ∧ m < 0xE000 then
          return (← charOf? (0x10000 + (n - 0xD800) * 0x400 + (m - 0xDC00)), rest)
        else none
      | _ => none
    else return (← charOf? n, rest)

/-- The character of a one-letter escape. -/
def letterEscape? : Char → Option Char
  | '"' => some '"'
  | '\\' => some '\\'
  | '/' => some '/'
  | 'b' => some '\x08'
  | 'f' => some '\x0c'
  | 'n' => some '\n'
  | 'r' => some '\r'
  | 't' => some '\t'
  | _ => none

/-- Read a quoted text after its opening quote. The fuel bounds the number of
characters. -/
def scanString : Nat → List Char → List Char → Option (Token × List Char)
  | 0, _, _ => none
  | n + 1, done, cs =>
    match cs with
    | [] => none
    | '"' :: rest => some (.string (String.ofList done.reverse), rest)
    | '\\' :: 'u' :: rest =>
      match unicodeEscape? rest with
      | some (c, rest) => scanString n (c :: done) rest
      | none => none
    | '\\' :: c :: rest =>
      match letterEscape? c with
      | some c => scanString n (c :: done) rest
      | none => none
    | c :: rest => if isLineEnd c || c == '\\' then none else scanString n (c :: done) rest

/-- Read the lines of a block text after its opening quotes. -/
def blockLines (line : List Char) (done : List (List Char)) :
    List Char → Option (List (List Char) × List Char)
  | '"' :: '"' :: '"' :: rest => some ((line.reverse :: done).reverse, rest)
  | '\\' :: '"' :: '"' :: '"' :: rest => blockLines ('"' :: '"' :: '"' :: line) done rest
  | '\r' :: '\n' :: rest => blockLines [] (line.reverse :: done) rest
  | c :: rest =>
    if isLineEnd c then blockLines [] (line.reverse :: done) rest
    else blockLines (c :: line) done rest
  | [] => none

/-- Whether a character indents a line. -/
def isIndent (c : Char) : Bool := c == ' ' || c == '\t'

/-- Whether a line holds indentation only. -/
def isBlankLine (line : List Char) : Bool := line.all isIndent

/-- The least indentation of the lines that are not blank. -/
def commonIndent (lines : List (List Char)) : Nat :=
  (((lines.filter fun l => !isBlankLine l).map fun l => (l.takeWhile isIndent).length).min?).getD 0

/-- Drop the indentation that all lines but the first share, and then the blank lines
at both ends. -/
def dedent (lines : List (List Char)) : List (List Char) :=
  let shifted := match lines with
    | [] => []
    | first :: rest => first :: rest.map (List.drop (commonIndent rest))
  ((shifted.dropWhile isBlankLine).reverse.dropWhile isBlankLine).reverse

/-- Put line feeds between lines. -/
def joinLines (lines : List (List Char)) : List Char := ['\n'].intercalate lines

/-- Read the token that starts with a given character. -/
def scan (c : Char) (cs : List Char) : Option (Token × List Char) :=
  match markOf? c with
  | some m => some (.mark m, cs)
  | none =>
    if c == '.' then
      match cs with
      | '.' :: '.' :: rest => some (.mark .spread, rest)
      | _ => none
    else if c == '"' then
      match cs with
      | '"' :: '"' :: rest =>
        (blockLines [] [] rest).map fun (ls, r) =>
          (.block (String.ofList (joinLines (dedent ls))), r)
      | _ => scanString (cs.length + 1) [] cs
    else if isNameStart c then
      some (.name (String.ofList (c :: cs.takeWhile isNameChar)), cs.dropWhile isNameChar)
    else if c == '-' then scanNumber ['-'] cs
    else if Text.isAsciiDigit c then scanNumber [] (c :: cs)
    else none

/-- Read all tokens. Each takes at least one character, so fuel beyond the length of
the text is enough. -/
def scanAll : Nat → List Char → Option (List Token)
  | 0, _ => none
  | n + 1, cs =>
    match skip false cs with
    | [] => some []
    | c :: cs =>
      match scan c cs with
      | some (t, rest) => (scanAll n rest).map (t :: ·)
      | none => none

/-- The tokens of a text. -/
def Token.ofText? (s : String) : Option (List Token) :=
  let cs := s.toList
  scanAll (cs.length + 1) cs

@[simp] theorem skip_nil (comment : Bool) : skip comment [] = [] := by simp [skip]

end SchemaForge.Language
