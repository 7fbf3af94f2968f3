import MergePathSort.Device.Window
import MergePathSort.Device.Workgroup
import MergePathSort.Plan.Pass

/-!
# The merge kernel

A merge pass on a device runs all threads of a group in lockstep. Every thread first searches its diagonal; then the
threads merge in turns, one output each. In a turn all threads look at their next two keys, then those that take the
left key move theirs together, then the others move theirs together. Rows and segments share one axis of the
grid: the row of a group is `segment * rows + row`. The kernel compares keys by the flag of its settings, and moves
indices only if the settings say so.

## Main definitions

* `MergeSettings` : a pass as the kernel is told.
* `DeviceRun`, `DeviceRun.partition` : two runs in the flat buffer, and the diagonal search.
* `MergeExtents.pair?` : the row and the segment of a group.
* `MergeExtents.cursor?` : where a thread starts, if it has a part.
* `mergeTurn`, `mergeGroup` : one turn, and a whole group.
-/

namespace MergePathSort

/-- How the merge kernel is told to share out a pass: the outputs of a thread if one group merges a segment, or
those of a group and of a thread if several do. -/
structure MergeSettings where
  /-- The outputs of a thread, or of a group if segments take several. -/
  step : UInt32
  /-- The outputs of a thread if segments take several groups. -/
  threadWork : UInt32
  /-- Segments take several groups. -/
  severalGroups : Bool
  /-- The direction, one for ascending. -/
  flag : UInt32
  /-- Indices are moved with their keys. -/
  indexed : Bool
  deriving DecidableEq, Inhabited

/-- The settings of a pass. -/
def MergeSettings.ofSharing (sharing : Sharing) (flag : UInt32) (indexed : Bool) : MergeSettings :=
  match sharing with
  | .oneBlock step => ⟨step, 1, false, flag, indexed⟩
  | .manyBlocks stepCount laneWork => ⟨stepCount, laneWork, true, flag, indexed⟩

@[simp]
theorem MergeSettings.flag_ofSharing (sharing : Sharing) (flag : UInt32) (indexed : Bool) :
    (ofSharing sharing flag indexed).flag = flag := by
  cases sharing <;> rfl

@[simp]
theorem MergeSettings.indexed_ofSharing (sharing : Sharing) (flag : UInt32) (indexed : Bool) :
    (ofSharing sharing flag indexed).indexed = indexed := by
  cases sharing <;> rfl

/-- The lesser of two words. -/
def lesser (a b : UInt32) : UInt32 := if a < b then a else b

/-! ### A thread's start -/

/-- Two runs in the flat buffer. -/
structure DeviceRun where
  /-- Where the left run starts. -/
  leftStart : UInt32
  /-- The length of the left run. -/
  leftLen : UInt32
  /-- Where the right run starts. -/
  rightStart : UInt32
  /-- The length of the right run. -/
  rightLen : UInt32
  deriving DecidableEq, Inhabited

/-- What a thread has still to merge. -/
structure Cursor where
  /-- Where the left run stops. -/
  leftStop : UInt32
  /-- Where the right run stops. -/
  rightStop : UInt32
  /-- The next element of the left run. -/
  i : UInt32
  /-- The next element of the right run. -/
  j : UInt32
  /-- Where the next output is stored. -/
  out : UInt32
  /-- The outputs that are left. -/
  remaining : UInt32
  deriving DecidableEq, Inhabited

variable {κ : Type}

namespace DeviceRun

/-- The number of elements of the left run among the first `diag` outputs. -/
def partition [KeyOrder κ] (src : Array κ) (run : DeviceRun) (flag diag : UInt32) : Outcome UInt32 :=
  let first := if run.rightLen < diag then diag - run.rightLen else 0
  Window.search (fun mid => do
    let a ← Buffer.read src (run.leftStart + mid).toNat
    let b ← Buffer.read src (run.rightStart + diag - 1 - mid).toNat
    return inOrder flag a b) ⟨first, lesser diag run.leftLen⟩

/-- The cursor of a thread that merges at most `step` outputs from a diagonal on, where the outputs of the runs are
stored from `outStart` on. -/
def cursor [KeyOrder κ] (src : Array κ) (run : DeviceRun) (flag outStart diag step : UInt32) : Outcome Cursor := do
  let first ← run.partition src flag diag
  return { leftStop := run.leftStart + run.leftLen
           rightStop := run.rightStart + run.rightLen
           i := run.leftStart + first
           j := run.rightStart + diag - first
           out := outStart + diag
           remaining := lesser (run.leftLen + run.rightLen - diag) step }

end DeviceRun

/-- The extents of a pass. -/
structure MergeExtents where
  /-- The length of a row. -/
  axisLen : UInt32
  /-- The width of a segment. -/
  width : UInt32
  /-- The number of rows. -/
  rows : UInt32
  /-- The segments of a row. -/
  segments : UInt32
  deriving DecidableEq, Inhabited

/-- The row and the segment of a group, if it has one: `value` is the row that the group computes. -/
def MergeExtents.pair? (extents : MergeExtents) (value : UInt32) : Option (UInt32 × UInt32) :=
  if value < extents.rows * extents.segments then some (value % extents.rows, value / extents.rows) else none

/-- Where a thread of a group starts, if the group has a segment and the thread a part of it. -/
def MergeExtents.cursor? [KeyOrder κ] (extents : MergeExtents) (settings : MergeSettings) (src : Array κ)
    (group : Workgroup) (thread : UInt32) : Outcome (Option Cursor) :=
  match extents.pair? group.row with
  | none => .ok none
  | some (row, segment) =>
    let base := row * extents.axisLen
    let start := extents.width * segment
    let middle := lesser (start + extents.width / 2) extents.axisLen
    let stop := lesser (start + extents.width) extents.axisLen
    let whole : DeviceRun := ⟨base + start, middle - start, base + middle, stop - middle⟩
    if settings.severalGroups then
      let diag := group.x * settings.step
      if diag < stop - start then do
        let first ← whole.partition src settings.flag diag
        let leftStart := start + first
        let rightStart := middle + diag - first
        let part : DeviceRun :=
          ⟨base + leftStart, lesser (middle - leftStart) settings.step,
           base + rightStart, lesser (stop - rightStart) settings.step⟩
        let threadDiag := thread * settings.threadWork
        if threadDiag < part.leftLen + part.rightLen then
          return some (← part.cursor src settings.flag (base + start + diag) threadDiag settings.threadWork)
        else return none
      else .ok none
    else
      let diag := thread * settings.step
      if diag < stop - start then do
        return some (← whole.cursor src settings.flag (base + start) diag settings.step)
      else .ok none

/-! ### Turns -/

namespace Cursor

/-- The next output comes from the left run. -/
def takesLeft [KeyOrder κ] (src : Array κ) (flag : UInt32) (cursor : Cursor) : Outcome Bool :=
  if cursor.i < cursor.leftStop then
    if cursor.j < cursor.rightStop then do
      return inOrder flag (← Buffer.read src cursor.i.toNat) (← Buffer.read src cursor.j.toNat)
    else .ok true
  else .ok false

/-- The element that is taken next. -/
def source (cursor : Cursor) (left : Bool) : UInt32 := if left then cursor.i else cursor.j

/-- The cursor after its next output. -/
def advance (cursor : Cursor) (left : Bool) : Cursor :=
  let cursor := { cursor with out := cursor.out + 1, remaining := cursor.remaining - 1 }
  if left then { cursor with i := cursor.i + 1 } else { cursor with j := cursor.j + 1 }

end Cursor

/-- Threads move one cell each, together: all of them load before any of them stores. -/
def carryTogether (indexed : Bool) (src dst : Side) (cells : DeviceCells κ) (cursors : List (Cursor × Bool)) :
    Outcome (DeviceCells κ) := do
  let loaded ← cursors.mapM fun (cursor, left) => do
    return (cursor.out.toNat, ← (cells.get src).load indexed (cursor.source left).toNat)
  loaded.foldlM (fun cells (address, cell) => cells.modify dst (·.store address cell)) cells

/-- One turn of the threads that have outputs left. -/
def mergeTurn [KeyOrder κ] (settings : MergeSettings) (src dst : Side) (cells : DeviceCells κ)
    (cursors : List Cursor) : Outcome (DeviceCells κ × List Cursor) := do
  let keys := (cells.get src).keys
  let sided ← cursors.mapM fun cursor => do return (cursor, ← cursor.takesLeft keys settings.flag)
  let cells ← carryTogether settings.indexed src dst cells (sided.filter (·.2))
  let cells ← carryTogether settings.indexed src dst cells (sided.filter (!·.2))
  return (cells, (sided.map fun (cursor, left) => cursor.advance left).filter (0 < ·.remaining))

/-- At most `turns` turns. -/
def mergeTurns [KeyOrder κ] (settings : MergeSettings) (src dst : Side) :
    Nat → DeviceCells κ → List Cursor → Outcome (DeviceCells κ)
  | 0, cells, _ => .ok cells
  | turns + 1, cells, cursors =>
    if cursors.isEmpty then .ok cells
    else do
      let (cells, cursors) ← mergeTurn settings src dst cells cursors
      mergeTurns settings src dst turns cells cursors

/-- A group of the merge kernel. -/
def mergeGroup [KeyOrder κ] (settings : MergeSettings) (src dst : Side) (extents : MergeExtents)
    (threads : UInt32) (cells : DeviceCells κ) (group : Workgroup) : Outcome (DeviceCells κ) := do
  let keys := (cells.get src).keys
  let cursors ← (List.range threads.toNat).mapM fun n => extents.cursor? settings keys group (UInt32.ofNat n)
  let cursors := cursors.reduceOption.filter (0 < ·.remaining)
  let turns := cursors.foldl (fun most cursor => max most cursor.remaining.toNat) 0
  mergeTurns settings src dst turns cells cursors

end MergePathSort
