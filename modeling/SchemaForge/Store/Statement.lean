import SchemaForge.Store.Order
import SchemaForge.Store.Stored

/-!
# Select statements and their meaning

A store keeps the rows of each model in order of insertion. A statement selects the rows
on which its clauses are true (neither false nor unknown), sorts them, and takes a window
of them. Rows that the order does not tell apart stay in the order in which they are
scanned: by key where a single integer is the key, else as inserted. A negative limit is
none, and a negative offset is zero.
-/
namespace SchemaForge

/-- The values of a row by attribute. -/
abbrev Row := Fields

/-- The rows of each model. -/
abbrev Store := Table (List Row)

namespace Clause

/-- The stored value of a column of a row. -/
def cell (c : ColumnRef) (row : Row) : Stored := Stored.ofValue (Fields.get row c.column.key)

/-- An operand as a column treats it. -/
def operandOf (c : ColumnRef) (v : Value) : Stored :=
  (Stored.ofValue v).adapted c.column.type.affinity

/-- Whether a comparison holds on a row; none when that is unknown. -/
def holds (row : Row) (op : Comparison) (c : ColumnRef) (operand : Value) : Option Bool :=
  let v := cell c row
  let ordered (check : Ordering → Bool) := (Stored.compare? v (operandOf c operand)).map check
  let listed := Stored.among? v ((operand.items?.getD []).map (operandOf c))
  match op with
  | .eq => ordered (· == .eq)
  | .ne => ordered (· != .eq)
  | .isIn => listed
  | .notIn => listed.map not
  | .is => some v.isNull
  | .isNot => some !v.isNull
  | .lt => ordered Ordering.isLT
  | .le => ordered Ordering.isLE
  | .gt => ordered Ordering.isGT
  | .ge => ordered Ordering.isGE
  | .like => Stored.like? v (Stored.ofValue operand)
  | .notLike => (Stored.like? v (Stored.ofValue operand)).map not

/-- The conjunction of truths, of which some may be unknown. -/
def allTrue (ts : List (Option Bool)) : Option Bool :=
  if ts.contains (some false) then some false
  else if ts.contains none then none
  else some true

/-- The disjunction of truths, of which some may be unknown. -/
def anyTrue (ts : List (Option Bool)) : Option Bool :=
  if ts.contains (some true) then some true
  else if ts.contains none then none
  else some false

mutual

/-- The truth of a clause on a row; none when it is unknown. -/
def truth (row : Row) : Clause → Option Bool
  | compare op c operand => holds row op c operand
  | all cs => allTrue (truths row cs)
  | any cs => anyTrue (truths row cs)
  | always b => some b

/-- The truth of several clauses on a row. -/
def truths (row : Row) : List Clause → List (Option Bool)
  | [] => []
  | c :: cs => truth row c :: truths row cs

end

/-- Whether a row is selected by a clause. -/
def selects (c : Clause) (row : Row) : Bool := truth row c == some true

end Clause

/-- A select statement on one model. -/
structure Select where
  /-- The model. -/
  model : Model
  /-- Clauses that must all be true. -/
  clauses : List Clause := []
  /-- The order. -/
  order : List OrderTerm := []
  /-- How many rows to skip. -/
  offset : Int := 0
  /-- How many rows to take at most. -/
  limit : Option Int := none

namespace OrderTerm

/-- The order of two rows by one term. -/
def compareBy (t : OrderTerm) (a b : Row) : Ordering :=
  let o := Stored.sortOrder (Clause.cell t.column a) (Clause.cell t.column b)
  if t.descending then o.swap else o

/-- The order of two rows by the first term that tells them apart. -/
def compareRows (ts : List OrderTerm) (a b : Row) : Ordering :=
  match ts with
  | [] => .eq
  | t :: ts => (compareBy t a b).then (compareRows ts a b)

end OrderTerm

namespace Store

/-- The rows of a model, each with its place. -/
def rows (s : Store) (model : String) : List (Nat × Row) :=
  ((Table.get? s model).getD []).zipIdx.map fun (row, i) => (i, row)

/-- The single integer column by which rows are found, if the key is one. -/
def scanKey? (m : Model) : Option Column :=
  match m.primaryKey with
  | [c] => if c.type.stored == "Integer" || c.type.stored == "INTEGER" then some c else none
  | _ => none

/-- The rows of a model in the order of a scan. -/
def scan (s : Store) (m : Model) : List (Nat × Row) :=
  let all := s.rows m.name
  match scanKey? m with
  | some c =>
    let term : OrderTerm := ⟨⟨m.table, c⟩, false⟩
    all.mergeSort fun a b => (term.compareBy a.2 b.2).isLE
  | none => all

/-- The rows that satisfy all clauses, in order. -/
def matching (s : Store) (q : Select) : List (Nat × Row) :=
  let found := (s.scan q.model).filter fun r => q.clauses.all (·.selects r.2)
  if q.order.isEmpty then found
  else found.mergeSort fun a b => (OrderTerm.compareRows q.order a.2 b.2).isLE

/-- A window of a list: a negative offset is zero and a negative limit is none. -/
def window {α : Type} (offset : Int) (limit : Option Int) (xs : List α) : List α :=
  let rest := xs.drop offset.toNat
  match limit with
  | some n => if n < 0 then rest else rest.take n.toNat
  | none => rest

/-- The rows that a statement selects. -/
def select (s : Store) (q : Select) : List (Nat × Row) := window q.offset q.limit (s.matching q)

/-- A row at a place. -/
def row? (s : Store) (model : String) (place : Nat) : Option Row :=
  (Table.get? s model).bind fun rows => rows[place]?

/-- The greatest integer in a column, zero if there is none. -/
def greatest (rows : List Row) (key : String) : Int :=
  rows.foldl (fun n row => match Fields.get row key with
    | .int k => max n k
    | _ => n) 0

/-- The values of a new row: those that are given, as the columns give them back, and the
next number for a key that is left out. -/
def newRow (m : Model) (existing : List Row) (given : Fields) : Row :=
  m.columns.map fun c =>
    let v := c.type.loaded (Fields.get given c.key)
    let isKey := (scanKey? m).any (·.key == c.key)
    (c.key, if v.isNull && isKey then .int (greatest existing c.key + 1) else v)

/-- Add rows to a model. -/
def insert (s : Store) (m : Model) (given : List Fields) : Store :=
  Table.update s m.name [] fun existing =>
    given.foldl (fun rows fields => rows ++ [newRow m rows fields]) existing

@[simp] theorem window_zero_none {α : Type} (xs : List α) : window 0 none xs = xs := by
  simp [window]

theorem window_length_le {α : Type} (offset n : Int) (h : 0 ≤ n) (xs : List α) :
    (window offset (some n) xs).length ≤ n.toNat := by
  simp only [window]
  split
  · omega
  · exact List.length_take_le _ _

end Store

@[simp] theorem Clause.allTrue_nil : Clause.allTrue [] = some true := rfl
@[simp] theorem Clause.anyTrue_nil : Clause.anyTrue [] = some false := rfl

end SchemaForge
