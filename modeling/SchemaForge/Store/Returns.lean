import SchemaForge.Text.Blank
import SchemaForge.Text.Quoted
import SchemaForge.Value.Display

/-!
# What virtual fields return

A virtual field states the type of its result in a small notation: a name, a name with
parameters in brackets, or alternatives, and any of these in quotes. `Returns.fieldType?`
gives the type of the field and whether it may be null; of several alternatives with
null among them the first other one counts.
-/
namespace SchemaForge

/-- The stated type of a result. -/
inductive Returns where
  /-- A name. -/
  | name (s : String)
  /-- A name with parameters. -/
  | applied (head : String) (arguments : List Returns)
  /-- Alternatives, written with bars or as a union. -/
  | either (bars : Bool) (members : List Returns)
  /-- A quoted text that names nothing. -/
  | unresolved (s : String)
  deriving Inhabited

namespace Returns

/-- The names of values without parts. -/
def plainNames : Table String :=
  [("bool", "bool"), ("int", "int"), ("float", "float"), ("str", "str"), ("dict", "dict"),
    ("list", "list"), ("tuple", "tuple"), ("set", "set"), ("frozenset", "frozenset"),
    ("bytes", "bytes"), ("object", "object"), ("complex", "complex"), ("None", "NoneType"),
    ("NoneType", "NoneType"), ("datetime", "datetime.datetime"),
    ("datetime.datetime", "datetime.datetime"), ("date", "datetime.date"),
    ("datetime.date", "datetime.date"), ("Decimal", "decimal.Decimal"),
    ("decimal.Decimal", "decimal.Decimal")]

/-- The names of notations. -/
def notationNames : List String :=
  ["Any", "List", "Dict", "Set", "Tuple", "Optional", "Union", "Sequence", "Mapping",
    "Iterable", "FrozenSet", "Type", "Callable"]

/-- The name of a notation without its module. -/
def withoutModule (s : String) : String :=
  if "typing.".isPrefixOf s then (s.drop 7).toString else s

/-- Whether a name is known. -/
def isKnown (s : String) : Bool :=
  plainNames.has s || notationNames.contains (withoutModule s)

/-- The fields' types of the names that have one. -/
def fieldTypes : Table String :=
  [("bool", "Boolean"), ("int", "Int"), ("float", "Float"), ("decimal.Decimal", "Float"),
    ("str", "String"), ("datetime.datetime", "DateTime"), ("datetime.date", "Date"),
    ("dict", "JSON")]

/-- Whether a character belongs to a name. -/
def isNameChar (c : Char) : Bool := c.isAlphanum || c == '_' || c == '.'

/-- Whether null is meant. -/
def isNull : Returns → Bool
  | name s => plainNames.get? s == some "NoneType"
  | _ => false

mutual

/-- The alternatives that a type stands for, in order. -/
def members : Returns → List Returns
  | either _ ms => membersAll ms
  | t => [t]

/-- The alternatives of several types. -/
def membersAll : List Returns → List Returns
  | [] => []
  | m :: ms => members m ++ membersAll ms

end

mutual

/-- A type inside of another, as a message shows it. -/
def displayInner : Returns → String
  | name s =>
    match plainNames.get? s with
    | some "NoneType" => "None"
    | some full => full
    | none => "typing." ++ withoutModule s
  | applied h args => headName h ++ bracketed "[" "]" (displayAll args)
  | either true ms => String.intercalate " | " (displayAll ms)
  | either false ms => "typing.Union" ++ bracketed "[" "]" (displayAll ms)
  | unresolved s => "ForwardRef(" ++ Text.quote s ++ ")"

/-- Several types as a message shows them. -/
def displayAll : List Returns → List String
  | [] => []
  | t :: ts => displayInner t :: displayAll ts

/-- A name with parameters as a message shows it. -/
def headName (s : String) : String :=
  match plainNames.get? s with
  | some full => full
  | none => "typing." ++ withoutModule s

end

/-- A type as a message shows it. -/
def display : Returns → String
  | name s =>
    match plainNames.get? s with
    | some full => "<class " ++ Text.quote full ++ ">"
    | none => "typing." ++ withoutModule s
  | unresolved s => Text.quote s
  | t => t.displayInner

/-- The type that counts, and whether null is among the alternatives. -/
def counted (t : Returns) : Returns × Bool :=
  match t with
  | either _ ms =>
    let all := membersAll ms
    if all.any isNull then ((all.find? fun m => !m.isNull).getD t, true) else (t, false)
  | t => (t, false)

/-- The type of a field with this result, and whether it may be null. -/
def fieldType? (t : Returns) : Option (String × Bool) :=
  match t.counted with
  | (name s, nullable) =>
    ((plainNames.get? s).bind fieldTypes.get?).map fun f => (f, nullable)
  | _ => none

/-- Build a name with parameters: optional and alternative ones become alternatives. -/
def apply (head : String) (args : List Returns) : Returns :=
  match withoutModule head, args with
  | "Optional", [t] => either false (members t ++ [name "None"])
  | "Union", [t] => t
  | "Union", ts => either false (membersAll ts)
  | _, _ => applied head args

mutual

/-- Read a type. -/
def read : Nat → List Char → Option (Returns × List Char)
  | 0, _ => none
  | n + 1, cs =>
    match readOne n (Text.trimStart cs) with
    | none => none
    | some (t, rest) =>
      match Text.trimStart rest with
      | '|' :: rest =>
        (read n rest).map fun (u, rest) => (either true (members t ++ members u), rest)
      | rest => some (t, rest)

/-- Read a type without bars. -/
def readOne : Nat → List Char → Option (Returns × List Char)
  | 0, _ => none
  | n + 1, cs =>
    let word := cs.takeWhile isNameChar
    let head := String.ofList word
    if word.isEmpty then
      match cs with
      | '"' :: rest => readQuoted n '"' rest
      | '\'' :: rest => readQuoted n '\'' rest
      | _ => none
    else match Text.trimStart (cs.drop word.length) with
      | '[' :: rest =>
        (readArguments n rest).map fun (args, rest) => (apply head args, rest)
      | rest => some (name head, rest)

/-- Read a quoted type, which stands for what it spells if that is known. -/
def readQuoted : Nat → Char → List Char → Option (Returns × List Char)
  | 0, _, _ => none
  | n + 1, mark, cs =>
    let inner := cs.takeWhile (· != mark)
    let rest := cs.drop (inner.length + 1)
    match read n inner with
    | some (t, left) =>
      if left.isEmpty && resolves t then some (t, rest)
      else some (unresolved (String.ofList inner), rest)
    | none => some (unresolved (String.ofList inner), rest)

/-- Read parameters up to the closing bracket. -/
def readArguments : Nat → List Char → Option (List Returns × List Char)
  | 0, _ => none
  | n + 1, cs =>
    match read n cs with
    | none => none
    | some (t, rest) =>
      match Text.trimStart rest with
      | ',' :: rest => (readArguments n rest).map fun (ts, rest) => (t :: ts, rest)
      | ']' :: rest => some ([t], rest)
      | _ => none

/-- Whether a name at the outside is known. -/
def resolves (t : Returns) : Bool :=
  match t with
  | name s => isKnown s
  | applied s _ => isKnown s
  | _ => true

end

/-- The type that a text states. -/
def ofText (s : String) : Returns :=
  let cs := s.toList
  match read (2 * cs.length + 4) cs with
  | some (t, _) => t
  | none => unresolved s

end Returns
end SchemaForge
