import SchemaForge.Calendar.Iso
import SchemaForge.Condition
import SchemaForge.Number.Written
import SchemaForge.Scalar
import SchemaForge.Store.Model

/-!
# Conditions on rows

`Clause.ofCondition` turns a condition into a clause of a select statement; it has none
when the condition says nothing. Texts become days, moments or integers where the column
holds these. Clauses joined by one connective form one flat list, and a connective of
one clause is that clause. An operator that is not known is passed over here.
-/
namespace SchemaForge

/-- The comparisons of the store. -/
inductive Comparison where
  | eq | ne | isIn | notIn | is | isNot | lt | le | gt | ge | like | notLike
  deriving DecidableEq, Repr

/-- A column of a model. -/
structure ColumnRef where
  /-- The table. -/
  table : String
  /-- The column. -/
  column : Column
  deriving Inhabited

/-- The qualified name of a column. -/
def ColumnRef.name (c : ColumnRef) : String := c.table ++ "." ++ c.column.name

/-- A condition on rows. -/
inductive Clause where
  /-- A comparison of a column with an operand. -/
  | compare (op : Comparison) (column : ColumnRef) (operand : Value)
  /-- All of these. -/
  | all (clauses : List Clause)
  /-- Any of these. -/
  | any (clauses : List Clause)
  /-- Always or never. -/
  | always (b : Bool)
  deriving Inhabited

namespace Clause

/-- The parts that a clause adds to a conjunction. -/
def conjuncts : Clause → List Clause
  | all cs => cs
  | always true => []
  | c => [c]

/-- The parts that a clause adds to a disjunction. -/
def disjuncts : Clause → List Clause
  | any cs => cs
  | always false => []
  | c => [c]

/-- Whether a clause is always or never true. -/
def isAlways (b : Bool) : Clause → Bool
  | always c => c == b
  | _ => false

/-- All of several clauses. -/
def conj (cs : List Clause) : Clause :=
  if cs.any (isAlways false) then always false
  else match cs.flatMap conjuncts with
    | [] => always true
    | [c] => c
    | cs => all cs

/-- Any of several clauses. -/
def disj (cs : List Clause) : Clause :=
  if cs.any (isAlways true) then always true
  else match cs.flatMap disjuncts with
    | [] => always false
    | [c] => c
    | cs => any cs

/-! ### Operands -/

/-- A text as an operand for a column. -/
def coerceText (type : ColumnType) (s : String) : Value :=
  let read :=
    if type.isA "DateTime" then (Scalar.readMoment s).map Value.moment
    else if type.isA "Date" then (Iso.date? s).map Value.date
    else if type.isA "Integer" then (Written.int? s).map Value.int
    else none
  read.getD (.text s)

mutual

/-- An operand for a column. -/
def coerce (type : ColumnType) : Value → Value
  | .text s => coerceText type s
  | .list xs => .list (coerceAll type xs)
  | .tuple xs => .list (coerceAll type xs)
  | v => v

/-- Several operands for a column. -/
def coerceAll (type : ColumnType) : List Value → List Value
  | [] => []
  | x :: xs => coerce type x :: coerceAll type xs

end

/-! ### Operators -/

/-- Whether an operand is null or a truth value, which only some comparisons take. -/
def isConstant : Value → Bool
  | .null => true
  | .bool _ => true
  | _ => false

/-- A comparison that takes neither null nor truth values. -/
def ordinary (op : Comparison) (c : ColumnRef) (operand : Value) : Except Failure Clause :=
  if isConstant operand then .error .badOperand else .ok (compare op c operand)

/-- A comparison with a list, which is empty for an operand that counts as false. -/
def withList (op : Comparison) (c : ColumnRef) (operand : Value) : Except Failure Clause :=
  if !operand.truthy then .ok (compare op c (.list []))
  else match operand with
    | .list xs => .ok (compare op c (.list xs))
    | .tuple xs => .ok (compare op c (.list xs))
    | .record fs => .ok (compare op c (.list (fs.map fun f => .text f.1)))
    | _ => .error .badOperand

/-- The clause of an operator on a column. -/
def onColumn (o : Operator) (c : ColumnRef) (operand : Value) : Except Failure Clause :=
  match o with
  | .eq => .ok (if operand.isNull then compare .is c .null else compare .eq c operand)
  | .ne => .ok (if operand.isNull then compare .isNot c .null else compare .ne c operand)
  | .isIn => withList .isIn c operand
  | .notIn => withList .notIn c operand
  | .null => .ok (if operand.truthy then compare .is c .null else compare .isNot c .null)
  | .like => ordinary .like c operand
  | .notLike => ordinary .notLike c operand
  | .lt => ordinary .lt c operand
  | .lte => ordinary .le c operand
  | .gt => ordinary .gt c operand
  | .gte => ordinary .ge c operand

/-- The clause of an operator on an ordinary value, which is settled at once. -/
def onPlain (o : Operator) (v operand : Value) : Except Failure Clause :=
  let ordered (check : Ordering → Bool) : Except Failure Clause :=
    match Value.order? v operand with
    | some (some r) => .ok (always (check r))
    | some none => .ok (always false)
    | none => .error .wrongKind
  match o with
  | .eq => .ok (always (Value.same v operand))
  | .ne => .ok (always !(Value.same v operand))
  | .lt => ordered Ordering.isLT
  | .lte => ordered Ordering.isLE
  | .gt => ordered Ordering.isGT
  | .gte => ordered Ordering.isGE
  | _ => .error .noMember

/-! ### Conditions -/

/-- What a name in a condition stands for: an association for the column that holds it. -/
inductive Subject where
  /-- A column. -/
  | column (c : ColumnRef)
  /-- An ordinary value. -/
  | plain (v : Value)

/-- What a name in a condition on a model stands for. -/
def subject (models : Models) (m : Model) (key : String) : Except Failure Subject :=
  match m.association? key with
  | some a =>
    match models.ownReference? m a with
    | some (c, _) => .ok (.column ⟨m.table, c⟩)
    | none => .error (.notFilterable key)
  | none =>
    match m.member? key with
    | some (.column c) => .ok (.column ⟨m.table, c⟩)
    | some (.plain v) => .ok (.plain v)
    | _ => .error (.unknownWhereField key)

/-- The clause of one operator. -/
def ofOperator (s : Subject) (o : Operator) (operand : Value) : Except Failure Clause :=
  match s with
  | .column c => onColumn o c (coerce c.column.type operand)
  | .plain v => onPlain o v operand

/-- The clauses of the operators on one name. -/
def ofOperators (s : Subject) : Fields → Except Failure (List Clause)
  | [] => .ok []
  | (name, operand) :: rest =>
    match Operator.ofName? name with
    | none => ofOperators s rest
    | some o =>
      match ofOperator s o operand with
      | .error e => .error e
      | .ok c => (ofOperators s rest).map (c :: ·)

/-- The clause of a connective over the branches that say something. -/
def connect (key : String) (branches : List (Option Clause)) : List Clause :=
  match branches.filterMap id with
  | [] => []
  | cs => [if key == "and" then conj cs else disj cs]

/-- All of the clauses of a condition; none when there are none. -/
def whole : List Clause → Option Clause
  | [] => none
  | [c] => some c
  | cs => some (conj cs)

mutual

/-- The clause of a condition on a model; none when it says nothing. -/
def ofCondition (models : Models) (m : Model) : Value → Except Failure (Option Clause)
  | .record fs => (ofEntries models m fs).map whole
  | w => if w.truthy then .error .noMember else .ok none

/-- The clauses of the entries of a condition. -/
def ofEntries (models : Models) (m : Model) :
    List (String × Value) → Except Failure (List Clause)
  | [] => .ok []
  | (key, condition) :: rest =>
    if condition.isNull then ofEntries models m rest
    else if Condition.isConnective key then
      match ofBranches models m condition with
      | .error e => .error e
      | .ok branches => (ofEntries models m rest).map (connect key branches ++ ·)
    else match subject models m key with
      | .error e => .error e
      | .ok s =>
        match condition with
        | .record ops =>
          match ofOperators s ops with
          | .error e => .error e
          | .ok cs => (ofEntries models m rest).map (cs ++ ·)
        | _ => .error .noMember

/-- The clause of each branch of a connective. -/
def ofBranches (models : Models) (m : Model) : Value → Except Failure (List (Option Clause))
  | .list ws => ofAll models m ws
  | .tuple ws => ofAll models m ws
  | .record fs => if fs.all (·.1 == "") then .ok (fs.map fun _ => none) else .error .noMember
  | .text s => if s == "" then .ok [] else .error .noMember
  | _ => .error .wrongKind

/-- The clause of each condition of a list. -/
def ofAll (models : Models) (m : Model) : List Value → Except Failure (List (Option Clause))
  | [] => .ok []
  | w :: ws =>
    match ofCondition models m w with
    | .error e => .error e
    | .ok c => (ofAll models m ws).map (c :: ·)

end

@[simp] theorem whole_nil : whole [] = none := rfl
@[simp] theorem whole_singleton (c : Clause) : whole [c] = some c := rfl

end Clause
end SchemaForge
