import SchemaForge.Language.Parser
import SchemaForge.Text.Quoted

/-!
# Writing the schema language

One layout for each part of the grammar: members of a definition stand on lines of
their own, two blanks further in, and definitions are separated by an empty line. A
block text is spread over several lines when it has several, is long, or would
otherwise run into its closing quotes.
-/
namespace SchemaForge.Language

/-- Upper-case hexadecimal digits of a hidden character. -/
def hiddenEscape (c : Char) : List Char :=
  '\\' :: 'u' :: (Text.hex 4 c.toNat).map Char.toUpper

/-- A character between quotes. -/
def quotedChar (c : Char) : List Char :=
  if c == '"' || c == '\\' then ['\\', c]
  else if c == '\n' then ['\\', 'n']
  else if c == '\r' then ['\\', 'r']
  else if c == '\t' then ['\\', 't']
  else if c.toNat == 8 then ['\\', 'b']
  else if c.toNat == 12 then ['\\', 'f']
  else if c.toNat < 32 || (127 ≤ c.toNat && c.toNat < 160) then hiddenEscape c
  else [c]

/-- A text between quotes. -/
def quoted (s : String) : String :=
  String.ofList ('"' :: s.toList.flatMap quotedChar ++ ['"'])

/-- Three quotes inside a block text are marked. -/
def markQuotes : List Char → List Char
  | '"' :: '"' :: '"' :: rest => '\\' :: '"' :: '"' :: '"' :: markQuotes rest
  | c :: rest => c :: markQuotes rest
  | [] => []

/-- Whether a character separates the lines of a text. -/
def isLineBreak (c : Char) : Bool :=
  let n := c.toNat
  (10 ≤ n && n ≤ 13) || (28 ≤ n && n ≤ 30) || n == 133 || n == 8232 || n == 8233

/-- The lines of a text, each without its end; a carriage return and a line feed end
one line together, and nothing follows the last end. -/
def lines (line : List Char) : List Char → List (List Char)
  | [] => if line.isEmpty then [] else [line.reverse]
  | '\r' :: '\n' :: rest => line.reverse :: lines [] rest
  | c :: rest =>
    if isLineBreak c then line.reverse :: lines [] rest else lines (c :: line) rest

/-- Whether a text ends with another. -/
def endsWith (cs suffix : List Char) : Bool := suffix.isSuffixOf cs

/-- A text as a block. -/
def blockQuoted (s : String) : String :=
  let cs := s.toList
  let marked := markQuotes cs
  let ls := lines [] marked
  let single := ls.length ≤ 1
  let leading := !single && (ls.drop 1).all fun l => (l.head?.map isIndent).getD true
  let trailingMark := endsWith marked ['\\', '"', '"', '"']
  let trailing := (endsWith cs ['"'] && !trailingMark) || endsWith cs ['\\']
  let spread := !single || 70 < cs.length || trailing || leading || trailingMark
  let indented := single && (cs.head?.map isIndent).getD false
  let opening := if (spread && !indented) || leading then ['\n'] else []
  let closing := if spread || trailing then ['\n'] else []
  let quotes := ['"', '"', '"']
  String.ofList (quotes ++ opening ++ marked ++ closing ++ quotes)

/-- A reference to a type. -/
def TypeRef.print : TypeRef → String
  | .named n => n
  | .list t => "[" ++ t.print ++ "]"
  | .nonNull t => t.print ++ "!"

namespace Literal

mutual

/-- A literal. -/
def print : Literal → String
  | .var n => "$" ++ n
  | .int s => s
  | .float s => s
  | .string s false => quoted s
  | .string s true => blockQuoted s
  | .bool true => "true"
  | .bool false => "false"
  | .null => "null"
  | .enum n => n
  | .list xs => "[" ++ String.intercalate ", " (printAll xs) ++ "]"
  | .object fs => "\x7b" ++ String.intercalate ", " (printFields fs) ++ "\x7d"

/-- Several literals. -/
def printAll : List Literal → List String
  | [] => []
  | x :: xs => print x :: printAll xs

/-- Fields of an input object. -/
def printFields : List (String × Literal) → List String
  | [] => []
  | (k, v) :: fs => (k ++ ": " ++ print v) :: printFields fs

end

end Literal

/-- Parts on one line, those that are empty left out. -/
def onOneLine (parts : List String) : String :=
  String.intercalate " " (parts.filter (· != ""))

/-- A text between two others, or nothing if it is empty. -/
def wrapped (opening s closing : String) : String :=
  if s == "" then "" else opening ++ s ++ closing

/-- Every line two blanks further in. -/
def indented (s : String) : String :=
  wrapped "  " (String.ofList (s.toList.flatMap fun c =>
    if c == '\n' then ['\n', ' ', ' '] else [c])) ""

/-- Lines between braces, or nothing if there are none. -/
def braced (items : List String) : String :=
  if items.isEmpty then ""
  else "\x7b\n" ++ indented (String.intercalate "\n" items) ++ "\n\x7d"

/-- A use of a directive. -/
def DirectiveUse.print (d : DirectiveUse) : String :=
  "@" ++ d.name ++ wrapped "(" (String.intercalate ", " (Literal.printFields d.arguments)) ")"

/-- Uses of directives on one line. -/
def printUses (ds : List DirectiveUse) : String :=
  String.intercalate " " (ds.map DirectiveUse.print)

/-- A description on lines of its own. -/
def Description.print : Option Description → String
  | some d => (if d.block then blockQuoted d.text else quoted d.text) ++ "\n"
  | none => ""

/-- An argument of a definition, or a field of an input type. -/
def InputNode.print (a : InputNode) : String :=
  Description.print a.description
    ++ onOneLine [a.name ++ ": " ++ a.type.print,
      (a.default?.map fun v => "= " ++ v.print).getD "", printUses a.directives]

/-- Arguments of a definition: on one line unless one of them takes several. -/
def printInputs (items : List InputNode) : String :=
  let texts := items.map InputNode.print
  if texts.any (·.contains '\n') then
    wrapped "(\n" (indented (String.intercalate "\n" texts)) "\n)"
  else wrapped "(" (String.intercalate ", " texts) ")"

/-- A field of an object or interface type. -/
def FieldNode.print (f : FieldNode) : String :=
  Description.print f.description ++ f.name ++ printInputs f.arguments ++ ": "
    ++ f.type.print ++ wrapped " " (printUses f.directives) ""

/-- A value of an enum type. -/
def EnumNode.print (v : EnumNode) : String :=
  Description.print v.description ++ onOneLine [v.name, printUses v.directives]

/-- The word for a kind of type. -/
def TypeKind.word : TypeKind → String
  | scalar => "scalar"
  | object => "type"
  | interface => "interface"
  | union => "union"
  | enum => "enum"
  | input => "input"

theorem kindOf?_word (k : TypeKind) : Parser.kindOf? k.word = some k := by cases k <;> rfl

/-- The parts of a type after its name. -/
def TypeBody.parts (uses : String) : TypeBody → List String
  | scalar => [uses]
  | object is fs =>
    [wrapped "implements " (String.intercalate " & " is) "", uses, braced (fs.map FieldNode.print)]
  | interface is fs =>
    [wrapped "implements " (String.intercalate " & " is) "", uses, braced (fs.map FieldNode.print)]
  | union ms => [uses, wrapped "= " (String.intercalate " | " ms) ""]
  | enum vs => [uses, braced (vs.map EnumNode.print)]
  | input fs => [uses, braced (fs.map InputNode.print)]

/-- A definition or an extension of a type. -/
def TypeNode.print (t : TypeNode) : String :=
  Description.print t.description
    ++ onOneLine ([if t.extends? then "extend" else "", t.body.kind.word, t.name]
      ++ t.body.parts (printUses t.directives))

/-- A definition of a directive. -/
def DirectiveNode.print (d : DirectiveNode) : String :=
  Description.print d.description ++ "directive @" ++ d.name ++ printInputs d.arguments
    ++ (if d.repeatable then " repeatable" else "") ++ " on "
    ++ String.intercalate " | " d.locations

@[simp] theorem TypeRef.print_named (n : String) : (TypeRef.named n).print = n := rfl

end SchemaForge.Language
