import SchemaForge.Execution.Completion

/-!
# Running what waits

Jobs are run in rounds. A group that is called calls what waits in it: a single one at
once, several ones in the next round, in their order. So jobs that can be run at the same
time are run from left to right, and those that they leave behind come after them. A
group is lost as soon as something that it needs is lost; the jobs beside it are still
run, and what they report is kept.
-/
namespace SchemaForge

open Language

namespace Rounds

variable (scene : Scene)

/-- Put a part where null may be allowed: if it is, a loss ends there. -/
def settle (nullable : Bool) (p : Part) : StateM Journal Part := do
  match p with
  | .lost (some m) others =>
    if nullable then
      modify (·.note m)
      return .lost none others
    else return p
  | p => return p

/-- Change what waits in several places, and put it back. -/
def mapWaiting (f : Part → StateM Journal Part) : List Slot → StateM Journal (List Slot)
  | [] => return []
  | (k, nullable, p) :: rest => do
    let q ← if p.isWaiting then f p >>= settle nullable else pure p
    return (k, nullable, q) :: (← mapWaiting f rest)

/-- How many places something waits in. -/
def waitingCount (slots : List Slot) : Nat := slots.countP fun s => s.2.2.isWaiting

/-- Call a part: run a job and call what it yields; call what waits in a group if it is a
single one, else leave it to the next round. -/
def start : Nat → Part → StateM Journal Part
  | 0, p => return p
  | n + 1, .waiting job => do
    match ← Completion.runJob scene job with
    | .ok p => start n p
    | .error m => return .lost (some m) []
  | n + 1, .group isList false slots =>
    if waitingCount slots == 1 then
      return .gathered isList (← mapWaiting (start n) slots)
    else return .group isList true slots
  | _, p => return p

/-- Run one round, looking so many levels down. -/
def advance (bound : Nat) : Nat → Part → StateM Journal Part
  | 0, p => return p
  | n + 1, .group isList true slots =>
    return .gathered isList (← mapWaiting (advance bound n) slots)
  | n + 1, .lost cause others => return .lost cause (← mapWaiting (advance bound n) others)
  | _, p => start scene bound p

/-- Run rounds, so many at most, while something waits. -/
def rounds (bound : Nat) : Nat → Part → StateM Journal Part
  | 0, p => return p
  | n + 1, p => do
    if p.isWaiting then rounds bound n (← advance scene bound bound p) else return p

/-- Run all jobs of a part. -/
def finish (bound : Nat) (p : Part) : StateM Journal Part := do
  rounds scene bound bound (← start scene bound p)

/-- Run the jobs of several places one place after the other, up to the first that is
needed and lost. -/
def finishInTurn (bound : Nat) : List Slot → StateM Journal (List Slot)
  | [] => return []
  | (k, nullable, p) :: rest => do
    let q ← if p.isWaiting then finish scene bound p >>= settle nullable else pure p
    match q with
    | .lost (some m) _ => return [(k, nullable, .lost (some m) [])]
    | q => return (k, nullable, q) :: (← finishInTurn bound rest)

/-- Run all jobs of the part at the root: those of a mutation in turn. -/
def finishRoot (kind : OperationKind) (bound : Nat) (p : Part) : StateM Journal Part := do
  match kind, p with
  | .mutation, .group isList _ slots => return .gathered isList (← finishInTurn scene bound slots)
  | _, p => finish scene bound p

end Rounds
end SchemaForge
