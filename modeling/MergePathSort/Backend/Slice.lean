import MergePathSort.Backend.Basic

/-!
# The slice backend

The slice backend sorts each row by a stable sort, without a program. To sort with positions it numbers the elements of
every row, sorts the positions of a row by the keys they lead to, and reads the keys off them. It may keep a workspace
for the positions between calls; what a call leaves there is cleared by the next one, and the workspace grows to the
largest call and never shrinks.

## Main definitions

* `sortSlice`, `sortPositions` : the stable sort of a row, and of its positions.
* `Workspace`, `Workspace.argsort` : the positions of a call, sorted row by row.
* `SliceBackend`, `SliceBackend.ofWorkspace`, `SliceBackend.holds` : the backend and its workspace.
-/

namespace MergePathSort

variable {κ : Type} [KeyOrder κ]

/-- The stable sort of a slice by a comparison: elements that are not out of order keep theirs. -/
def sortSlice {α : Type} (compare : α → α → Ordering) (slice : List α) : List α :=
  slice.mergeSort fun a b => compare a b != .gt

/-- The row with a number of data that is cut into rows. -/
def rowSlice {α : Type} (data : Array α) (axisLen number : Nat) : Array α :=
  data.extract (number * axisLen) (number * axisLen + axisLen)

/-- The positions of a row, sorted by the keys that they lead to. -/
def sortPositions (direction : Direction) (row : Array κ) (positions : List Nat) : Outcome (List Nat) := do
  let entries ← positions.mapM fun position => do return (← Buffer.read row position, position)
  return (sortSlice (fun a b => direction.compare a.1 b.1) entries).map (·.2)

/-- Positions that are kept between calls. -/
structure Workspace where
  /-- The number of positions that there is room for. -/
  room : Nat := 0
  /-- The positions that are there. -/
  positions : Array Nat := #[]
  deriving DecidableEq, Inhabited

namespace Workspace

/-- The workspace with the positions along their row of `len` elements, in place of what it held. -/
def number (workspace : Workspace) (len axisLen : Nat) : Workspace where
  room := max workspace.room len
  positions := (Array.range len).map (· % axisLen)

/-- Sorts the positions of every row, and reads the keys off them. -/
def argsort (workspace : Workspace) (data : Array κ) (axisLen : Nat) (direction : Direction) :
    Outcome (Workspace × Array κ) := do
  let numbered := workspace.number data.size axisLen
  let rows := List.range (data.size / axisLen)
  let sorted ← rows.mapM fun number =>
    sortPositions direction (rowSlice data axisLen number) (rowSlice numbered.positions axisLen number).toList
  let positions := sorted.flatten.toArray
  let values ← rows.mapM fun number =>
    (rowSlice positions axisLen number).toList.mapM (Buffer.read (rowSlice data axisLen number))
  return ({ numbered with positions }, values.flatten.toArray)

end Workspace

/-- The slice backend. -/
structure SliceBackend where
  /-- The workspace, if one is kept. -/
  workspace : Option Workspace := none
  deriving DecidableEq, Inhabited

namespace SliceBackend

/-- The bytes of a position. -/
def positionBytes : Nat := 8

/-- The backend with a workspace that has room for that many positions from the start. -/
def ofWorkspace (room : Nat) : Outcome SliceBackend := do
  Buffer.requireRoom room positionBytes
  return ⟨some { room }⟩

/-- The workspace has room for that many positions. -/
def holds (backend : SliceBackend) (len : Nat) : Bool := len ≤ (backend.workspace.getD {}).room

end SliceBackend

instance : Backend SliceBackend where
  name := "parallel-slice"
  sort data axisLen direction := do
    if data.isEmpty then return #[]
    let _ ← Stateful.ofOutcome (splitRows data.size axisLen)
    return ((List.range (data.size / axisLen)).flatMap fun number =>
      sortSlice direction.compare (rowSlice data axisLen number).toList).toArray
  argsort _ _ _ data axisLen direction := do
    if data.isEmpty then return (#[], #[])
    let _ ← Stateful.ofOutcome (splitRows data.size axisLen)
    let backend ← get
    let (workspace, values) ← Stateful.ofOutcome ((backend.workspace.getD {}).argsort data axisLen direction)
    set ({ backend with workspace := backend.workspace.map fun _ => workspace } : SliceBackend)
    return (values, workspace.positions.map IndexElement.ofPosition)
  search sorted values matching right := Stateful.ofOutcome (matching.search sorted values right)

end MergePathSort
