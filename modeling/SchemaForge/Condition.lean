import SchemaForge.Failure
import SchemaForge.Text.Like
import SchemaForge.Value.Display
import SchemaForge.Value.Equality

/-!
# Conditions on values in memory

A condition is a mapping from attribute names to mappings from operator names to
operands; `and` and `or` hold lists of conditions. `Operator.offered` says which
operators apply to the kind of a value, `Operator.test` evaluates one, and `holds`
evaluates a whole condition: every entry must hold, a null entry always does, an `or`
without branches does too, and an operator that is not offered never holds. A failure
of an operand is reported only when the evaluation reaches it.
-/
namespace SchemaForge

/-- The comparison operators. -/
inductive Operator where
  | eq | ne | isIn | notIn | null | like | notLike | lt | lte | gt | gte
  deriving DecidableEq, Repr

namespace Operator

/-- The name of an operator in a condition. -/
def name : Operator → String
  | eq => "eq" | ne => "ne" | isIn => "in" | notIn => "notIn" | null => "null"
  | like => "like" | notLike => "notLike" | lt => "lt" | lte => "lte" | gt => "gt"
  | gte => "gte"

/-- All operators. -/
def all : List Operator := [eq, ne, isIn, notIn, null, like, notLike, lt, lte, gt, gte]

/-- The operator with a name. -/
def ofName? (s : String) : Option Operator := all.find? (·.name == s)

theorem ofName?_name (o : Operator) : ofName? o.name = some o := by cases o <;> rfl

/-- Whether values of this kind can be put in order with others of it. -/
def ordered : Value → Bool
  | .int _ | .real _ | .date _ | .moment _ => true
  | _ => false

/-- The operators that apply to a value, in order. -/
def offered (v : Value) : List Operator :=
  [eq, ne, isIn, notIn, null]
    ++ (match v with | .text _ => [like, notLike] | _ => [])
    ++ (if ordered v then [lt, lte, gt, gte] else [])

/-- Whether a value can be a key of a mapping. -/
def hashable : Value → Bool
  | .list _ | .record _ | .object .. | .cell _ => false
  | .tuple xs => xs.all fun x => match x with
    | .list _ | .record _ | .object .. | .cell _ => false
    | _ => true
  | _ => true

/-- Whether a text stands somewhere in another. -/
def isInfix (part : List Char) (whole : List Char) : Bool :=
  match whole with
  | [] => part.isEmpty
  | c :: cs => part.isPrefixOf (c :: cs) || isInfix part cs

/-- Membership in a list, among the keys of a mapping or within a text. -/
def contains (v operand : Value) : Except Failure Bool :=
  match operand with
  | .list xs => .ok (xs.any (Value.same v))
  | .tuple xs => .ok (xs.any (Value.same v))
  | .record fs =>
    if hashable v then .ok (fs.any fun f => Value.same v (.text f.1)) else .error .wrongKind
  | .text s =>
    match v with
    | .text part => .ok (isInfix part.toList s.toList)
    | _ => .error .wrongKind
  | _ => .error .wrongKind

/-- Whether a value is among the operands: null is not, and nothing is among none. -/
def among (v operand : Value) : Except Failure Bool :=
  if v.isNull then .ok false
  else if operand.truthy then contains v operand
  else .ok false

/-- The wildcard pieces of one entry of a pattern; a text of several characters stands
for itself unless it is part of the two wildcards. -/
def entryPieces : Value → Except Failure (List Like.Piece)
  | .text s =>
    if s == "%" then .ok [.anyText]
    else if s == "" || s == "_" || s == "%_" then .ok [.anyChar]
    else .ok (s.toList.map .char)
  | _ => .error .wrongKind

/-- The wildcard pieces of a pattern. -/
def patternPieces (operand : Value) : Except Failure (List Like.Piece) :=
  match operand.iterate? with
  | some entries => (entries.mapM entryPieces).map List.flatten
  | none => .error .wrongKind

/-- Whether a text matches a pattern; an empty text never does. -/
def isLike (v operand : Value) : Except Failure Bool :=
  if v.truthy then
    (patternPieces operand).map fun ps =>
      Like.matchesWith Text.sameLetter ps v.plain.toList
  else .ok false

/-- Compare two values; null on either side never satisfies. -/
def compares (check : Ordering → Bool) (v operand : Value) : Except Failure Bool :=
  if v.isNull || operand.isNull then .ok false
  else match Value.order? v operand with
    | some (some o) => .ok (check o)
    | some none => .ok false
    | none => .error .wrongKind

/-- Evaluate an operator on a value and an operand. -/
def test : Operator → Value → Value → Except Failure Bool
  | eq, v, o => .ok (Value.same v o)
  | ne, v, o => .ok !(Value.same v o)
  | isIn, v, o => among v o
  | notIn, v, o => (among v o).map not
  | null, v, o => .ok (if o.truthy then v.isNull else !v.isNull)
  | like, v, o => isLike v o
  | notLike, v, o => (isLike v o).map not
  | lt, v, o => compares (·.isLT) v o
  | lte, v, o => compares (·.isLE) v o
  | gt, v, o => compares (·.isGT) v o
  | gte, v, o => compares (·.isGE) v o

@[simp] theorem test_eq (v o : Value) : test eq v o = .ok (Value.same v o) := rfl
@[simp] theorem test_ne (v o : Value) : test ne v o = .ok !(Value.same v o) := rfl

end Operator

namespace Condition

/-- The two connectives. -/
def isConnective (key : String) : Bool := key == "and" || key == "or"

/-- Whether a value satisfies every operator of a mapping. -/
def allOperators (v : Value) : Fields → Except Failure Bool
  | [] => .ok true
  | (name, operand) :: rest =>
    match (Operator.offered v).find? (·.name == name) with
    | none => .ok false
    | some o =>
      match o.test v operand with
      | .ok true => allOperators v rest
      | other => other

/-- How a connective combines the truth of its branches. -/
def connect (key : String) (branches : List Bool) : Bool :=
  if key == "and" then branches.all id else branches.isEmpty || branches.any id

mutual

/-- Whether an entry, given by its attributes, satisfies a condition. -/
def holds (get : String → Value) : Value → Except Failure Bool
  | .record fs => allEntries get fs
  | w => if w.truthy then .error .noMember else .ok true

/-- Whether every entry of a condition holds. -/
def allEntries (get : String → Value) : List (String × Value) → Except Failure Bool
  | [] => .ok true
  | (key, condition) :: rest =>
    if condition.isNull then allEntries get rest
    else if isConnective key then
      match branchesOf get condition with
      | .error e => .error e
      | .ok branches => if connect key branches then allEntries get rest else .ok false
    else match condition with
      | .record ops =>
        match allOperators (get key) ops with
        | .ok true => allEntries get rest
        | other => other
      | _ => .error .noMember

/-- The truth of each branch of a connective. -/
def branchesOf (get : String → Value) : Value → Except Failure (List Bool)
  | .list ws => truths get ws
  | .tuple ws => truths get ws
  | .record fs => if fs.all (·.1 == "") then .ok (fs.map fun _ => true) else .error .noMember
  | .text s => if s == "" then .ok [] else .error .noMember
  | _ => .error .wrongKind

/-- The truth of each condition of a list. -/
def truths (get : String → Value) : List Value → Except Failure (List Bool)
  | [] => .ok []
  | w :: ws =>
    match holds get w with
    | .error e => .error e
    | .ok b => (truths get ws).map (b :: ·)

end

/-- Whether a value in memory satisfies a condition. -/
def satisfied (entry condition : Value) : Except Failure Bool :=
  holds entry.member condition

@[simp] theorem holds_null (get : String → Value) : holds get .null = .ok true := rfl

@[simp] theorem holds_record (get : String → Value) (fs : Fields) :
    holds get (.record fs) = allEntries get fs := by simp [holds]

@[simp] theorem connect_or_nil : connect "or" [] = true := rfl

end Condition
end SchemaForge
