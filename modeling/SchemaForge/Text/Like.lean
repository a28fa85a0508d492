import SchemaForge.Text.Casing

/-!
# Wildcard matching

A wildcard pattern is a list of pieces: `%` stands for any text, `_` for any one
character, and everything else for itself. `matchesWith` takes the comparison of single
characters as a parameter. Conditions on values ignore the case of every letter, a
store ignores the case of ASCII letters only.
-/
namespace SchemaForge
namespace Like

/-- A piece of a wildcard pattern. -/
inductive Piece where
  /-- Any text, also the empty one. -/
  | anyText
  /-- Any one character. -/
  | anyChar
  /-- One given character. -/
  | char (c : Char)
  deriving DecidableEq

/-- The piece that a character of a pattern stands for. -/
def Piece.ofChar (c : Char) : Piece :=
  if c == '%' then .anyText else if c == '_' then .anyChar else .char c

/-- The pieces of a pattern text. -/
def pieces (s : String) : List Piece := s.toList.map Piece.ofChar

/-- Whether the pieces match a text from end to end. -/
def matchesWith (eq : Char → Char → Bool) : List Piece → List Char → Bool
  | [], cs => cs.isEmpty
  | .anyText :: ps, [] => matchesWith eq ps []
  | .anyText :: ps, c :: cs => matchesWith eq ps (c :: cs) || matchesWith eq (.anyText :: ps) cs
  | .anyChar :: _, [] => false
  | .anyChar :: ps, _ :: cs => matchesWith eq ps cs
  | .char _ :: _, [] => false
  | .char p :: ps, c :: cs => eq p c && matchesWith eq ps cs
termination_by ps cs => ps.length + cs.length

@[simp] theorem matchesWith_nil (eq : Char → Char → Bool) (cs : List Char) :
    matchesWith eq [] cs = cs.isEmpty := by simp [matchesWith]

theorem matchesWith_anyText_nil (eq : Char → Char → Bool) (cs : List Char) :
    matchesWith eq [.anyText] cs = true := by
  induction cs with
  | nil => simp [matchesWith]
  | cons c cs ih => rw [matchesWith, ih]; simp

/-- Match a pattern text, comparing ASCII letters regardless of case. -/
def ascii (pattern text : String) : Bool :=
  matchesWith Text.sameAsciiLetter (pieces pattern) text.toList

end Like
end SchemaForge
