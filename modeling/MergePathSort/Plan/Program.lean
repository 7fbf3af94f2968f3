import MergePathSort.Key.Order
import MergePathSort.Lanes.DoubleBuffer
import MergePathSort.Plan.Pass
import MergePathSort.Tensor.Axis

/-!
# Sort programs

Sorting along the last axis of a tensor is a list of launches, the same for every executor. The input is copied,
every tile is sorted by itself, merge passes double the sorted runs until one run fills the row, and if the last
pass left its result on the back side a copy brings it to the front. The order of the launches is the only order
between blocks.

## Main definitions

* `Stage`, `Launch`, `Program` : a program and its parts.
* `Program.lower` : the program of a shape, an axis, a direction and a configuration.
-/

namespace MergePathSort

/-- What a launch does. -/
inductive Stage where
  /-- Copies the input to the front side and numbers the positions of every row. -/
  | copyIn
  /-- Sorts every tile of the front side and leaves it on both sides. -/
  | sortTiles (tile : UInt32)
  /-- Merges pairs of runs from one side to the other. -/
  | mergeRuns (pass : Nat) (src dst : Side) (shape : MergeShape)
  /-- Copies the back side to the front side. -/
  | copyBack
  deriving DecidableEq, Inhabited

/-- The launch merges. -/
def Stage.isMerge : Stage → Bool
  | .mergeRuns .. => true
  | _ => false

/-- A stage and the grid that it runs on. -/
structure Launch where
  /-- What is done. -/
  stage : Stage
  /-- The grid. -/
  grid : Grid
  deriving DecidableEq, Inhabited

/-- A sort as a list of launches. -/
structure Program where
  /-- The rows to sort. -/
  view : AxisView
  /-- The direction of the sort. -/
  direction : Direction
  /-- The source position of every key is tracked. -/
  indexed : Bool
  /-- The launches, in order. -/
  launches : List Launch
  deriving DecidableEq, Inhabited

namespace Program

/-- There is nothing to launch. -/
def isEmpty (program : Program) : Bool := program.launches.isEmpty

/-- The number of merge passes. -/
def passCount (program : Program) : Nat := program.launches.countP (·.stage.isMerge)

/-- The result is copied from the back side to the front. -/
def copiesBack (program : Program) : Bool := program.launches.any (·.stage == .copyBack)

/-- The launch of one merge pass. Its segments are twice as wide as those of the pass before; a width that is no
size counts as zero. -/
def mergeLaunch (config : Config) (size rows lower pass : Nat) : Outcome Launch := do
  let width := Nat.pow 2 (pass + lower + 1) % Size.limit
  let shape ← MergeShape.ofWidth width size rows config.limits config.tuning
  let src := Side.ofPass pass
  return ⟨.mergeRuns pass src src.other shape, shape.grid⟩

/-- The launches that sort `rows` rows of `size` elements. -/
def launchesFor (config : Config) (size rows : Nat) : Outcome (List Launch) := do
  let copy ← Grid.perElement size rows config.limits
  let tiles ← Grid.perTile size rows config.tuning
  let lower ← config.tuning.tileLog2
  let passes := doublings size - lower
  let merges ← (List.range passes).mapM (mergeLaunch config size rows lower)
  let back := if passes % 2 = 1 then [⟨.copyBack, copy⟩] else []
  return [⟨.copyIn, copy⟩, ⟨.sortTiles config.tuning.tile, tiles⟩] ++ merges ++ back

/-- The program that sorts along the last axis of a shape. Another axis is refused, unless what follows it has
one element; a tensor without elements has an empty program. -/
def lower (shape : List Nat) (axis : Nat) (direction : Direction) (indexed : Bool) (config : Config) :
    Outcome Program := do
  config.validate
  let view ← AxisView.ofShape shape axis
  if !view.isPacked then .refuse (.invalidAxis (Size.toSigned axis) shape.length)
  if (← view.total) = 0 then return ⟨view, direction, indexed, []⟩
  let launches ← launchesFor config view.axisLen (← view.rowCount)
  return ⟨view, direction, indexed, launches⟩

end Program

end MergePathSort
