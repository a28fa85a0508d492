import SchemaForge.Language.Printer
import SchemaForge.Text.Blank

/-!
# Signatures

A signature is a reference to a type in text form, and an argument signature may carry
a default after an equals sign. The grammar is that of the schema language.
-/
namespace SchemaForge
namespace Signature

open Language

/-- The name at the bottom of a signature. -/
def baseName (s : String) : Except Failure String := (TypeRef.ofText? s).map TypeRef.baseName

/-- Whether a signature is of a list. -/
def isList (s : String) : Except Failure Bool := (TypeRef.ofText? s).map TypeRef.isList

/-- The characters before and after the first equals sign. -/
def splitAt (cs : List Char) : List Char × List Char :=
  (cs.takeWhile (· != '='), (cs.dropWhile (· != '=')).drop 1)

/-- An argument signature as its type and its default, each without blanks around it;
the default is empty when there is none. -/
def splitDefault (s : String) : String × String :=
  let (type, default) := splitAt s.toList
  (Text.trim (String.ofList type), Text.trim (String.ofList default))

/-- Whether a default stands in an argument signature. -/
def hasDefault (s : String) : Bool := s.toList.contains '='

/-- A text without exclamation marks. -/
def withoutMarks (s : String) : String := String.ofList (s.toList.filter (· != '!'))

/-- A text without the exclamation marks at its end. -/
def withoutEndMarks (s : String) : String :=
  String.ofList ((s.toList.reverse.dropWhile (· == '!')).reverse)

theorem splitAt_of_not_mem {cs : List Char} (h : '=' ∉ cs) : splitAt cs = (cs, []) := by
  induction cs with
  | nil => rfl
  | cons c cs ih =>
    have hc : (c != '=') = true := by
      simp only [bne_iff_ne, ne_eq]
      exact fun e => h (by simp [e])
    have ih := ih fun m => h (by simp [m])
    simp only [splitAt, Prod.mk.injEq] at ih
    simp [splitAt, hc, ih.1, ih.2]

end Signature
end SchemaForge
