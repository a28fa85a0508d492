import SchemaForge.Value.Basic

/-!
# What outlives a step

Lists that resolvers return are kept in cells, since a directive can shorten a list that
others hold too. `Memory.store` puts the lists of a value into cells and `Memory.view`
gives the value back as it is now. Besides cells, a memory counts the calls of counters
and keeps the values that calls share.
-/
namespace SchemaForge

/-- What is kept from call to call. -/
structure Memory where
  /-- Lists by place. -/
  cells : Array (List Value) := #[]
  /-- Numbers of calls by counter. -/
  calls : List (Nat × Nat) := []
  /-- Shared values by place. -/
  shared : List (Nat × Value) := []

namespace Memory

/-- A new cell with a list. -/
def newCell (m : Memory) (items : List Value) : Value × Memory :=
  (.cell m.cells.size, { m with cells := m.cells.push items })

mutual

/-- Put the lists of a value into cells. -/
def store (m : Memory) : Value → Value × Memory
  | .list xs =>
    let (ys, m) := storeAll m xs
    m.newCell ys
  | .tuple xs =>
    let (ys, m) := storeAll m xs
    (.tuple ys, m)
  | .record fs =>
    let (gs, m) := storeFields m fs
    (.record gs, m)
  | .object k fs =>
    let (gs, m) := storeFields m fs
    (.object k gs, m)
  | v => (v, m)

/-- Put the lists of several values into cells. -/
def storeAll (m : Memory) : List Value → List Value × Memory
  | [] => ([], m)
  | x :: xs =>
    let (y, m) := store m x
    let (ys, m) := storeAll m xs
    (y :: ys, m)

/-- Put the lists of fields into cells. -/
def storeFields (m : Memory) : List (String × Value) → List (String × Value) × Memory
  | [] => ([], m)
  | (k, x) :: fs =>
    let (y, m) := store m x
    let (gs, m) := storeFields m fs
    ((k, y) :: gs, m)

end

/-- The list in a cell. -/
def items (m : Memory) (place : Nat) : List Value := (m.cells[place]?).getD []

mutual

/-- A value with its cells replaced. -/
def replace (f : Nat → Value) : Value → Value
  | .cell p => f p
  | .list xs => .list (replaceAll f xs)
  | .tuple xs => .tuple (replaceAll f xs)
  | .record fs => .record (replaceFields f fs)
  | .object k fs => .object k (replaceFields f fs)
  | v => v

/-- Several values with their cells replaced. -/
def replaceAll (f : Nat → Value) : List Value → List Value
  | [] => []
  | x :: xs => replace f x :: replaceAll f xs

/-- Fields with their cells replaced. -/
def replaceFields (f : Nat → Value) : List (String × Value) → List (String × Value)
  | [] => []
  | (k, x) :: fs => (k, replace f x) :: replaceFields f fs

end

/-- The list in a cell as it is now, cells inside of it going so many levels down. -/
def viewCell (m : Memory) : Nat → Nat → Value
  | 0, _ => .list []
  | n + 1, p => .list (replaceAll (viewCell m n) (m.items p))

/-- A value as it is now. Cells are older than what holds them, so there are no more
levels than cells. -/
def view (m : Memory) (v : Value) : Value := replace (m.viewCell (m.cells.size + 1)) v

/-- Set the list in a cell. -/
def setItems (m : Memory) (place : Nat) (xs : List Value) : Memory :=
  { m with cells := m.cells.setIfInBounds place xs }

/-- Count a call, giving the number of those before. -/
def count (m : Memory) (place : Nat) : Nat × Memory :=
  let n := (m.calls.lookup place).getD 0
  (n, { m with calls := (place, n + 1) :: m.calls.filter (·.1 != place) })

/-- The shared value at a place, made when it is first needed. -/
def share (m : Memory) (place : Nat) (v : Value) : Value × Memory :=
  match m.shared.lookup place with
  | some kept => (kept, m)
  | none =>
    let (kept, m) := m.store v
    (kept, { m with shared := (place, kept) :: m.shared })

end Memory
end SchemaForge
