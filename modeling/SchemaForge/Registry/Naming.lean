import SchemaForge.Text.Casing

/-!
# Names of derived types

A field that can be filtered gets an input type for its conditions and an enum for its
sort orders, both named after the owning type and the field with a fixed word between
them. A kind of value gets an input type for its operators.
-/
namespace SchemaForge

/-- A name with its first character in upper case. -/
def capitalized (s : String) : String :=
  match s.toList with
  | [] => s
  | c :: cs => String.ofList (Text.upper c ++ cs)

/-- The name of a type that is derived from a field: owner, word and field. -/
def derivedName (owner field word : String) : String :=
  capitalized owner ++ capitalized word ++ capitalized field

/-- The word in the names of condition inputs. -/
def whereWord : String := "WhereOptions"

/-- The word in the names of order enums. -/
def orderWord : String := "SelectOrder"

/-- The name of the condition input of a field. -/
def whereInputName (owner field : String) : String := derivedName owner field whereWord

/-- The name of the order enum of a field. -/
def orderEnumName (owner field : String) : String := derivedName owner field orderWord

/-- The name of the operator input of a kind of value. -/
def operatorInputName (kind : String) : String := "GeneOperator" ++ kind ++ "Input"

@[simp] theorem capitalized_empty : capitalized "" = "" := rfl

end SchemaForge
