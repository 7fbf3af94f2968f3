import MergePathSort.Plan.Grid

/-!
# Merge passes

A merge pass cuts every row into segments of the pass's width and merges the two halves of each. A segment is merged
by one block, which hands out its outputs to the lanes, or by several blocks, which take as many outputs each. The
grid of a pass has the segments of all rows as its rows.

## Main definitions

* `Sharing`, `Sharing.ofBlocks` : how a segment is shared out.
* `MergeShape`, `MergeShape.ofWidth` : the extents of a pass.
* `doublings` : the number of doublings that reach a size.
-/

namespace MergePathSort

/-- How the merge of one segment is shared out. -/
inductive Sharing where
  /-- One block merges the segment, and each of its lanes `step` outputs. -/
  | oneBlock (step : UInt32)
  /-- Each block merges `stepCount` outputs, and each of its lanes `laneWork` of them. -/
  | manyBlocks (stepCount laneWork : UInt32)
  deriving DecidableEq, Inhabited

/-- How segments of `width` are shared out between a number of blocks: one block hands out the segment to its
lanes, several blocks take `stepCount` outputs each. -/
def Sharing.ofBlocks (blocks width lanes stepCount : Nat) (tuning : Tuning) : Outcome Sharing :=
  if blocks = 1 then do return .oneBlock (← toWord (← Size.divCeil width lanes) .step)
  else do return .manyBlocks (← toWord stepCount .stepCount) tuning.laneWork

/-- The shape of a merge pass. -/
structure MergeShape where
  /-- The grid of the pass. -/
  grid : Grid
  /-- The outputs of a segment. -/
  width : UInt32
  /-- The segments of a row. -/
  segments : UInt32
  /-- How a segment is shared out. -/
  sharing : Sharing
  deriving DecidableEq, Inhabited

namespace MergeShape

/-- The blocks that merge one segment. -/
def blocksPerSegment (shape : MergeShape) : UInt32 := shape.grid.blocksPerRow

/-- The shape of a pass that merges segments of `width` elements in `rows` rows of `size`. -/
def ofWidth (width size rows : Nat) (limits : Limits) (tuning : Tuning) : Outcome MergeShape := do
  requireExtents size rows
  if width < 2 then .refuse (.noGrid .widthBelowTwo)
  let maxLanes := limits.maxLanes.toNat
  let lanes := if limits.fixedLanes then maxLanes else min maxLanes width
  let stepCount := maxLanes * tuning.laneWork.toNat
  let blocksPerSegment ← Size.divCeil width stepCount
  let segments ← Size.divCeil size width
  let sharing ← Sharing.ofBlocks blocksPerSegment width lanes stepCount tuning
  let segmentRows ←
    if rows * segments < Size.limit then .ok (rows * segments)
    else .refuse (.noGrid .rowsOverflow)
  let grid : Grid :=
    { lanes := ← toWord lanes .lanes
      blocksPerRow := ← toWord blocksPerSegment .blocksPerRow
      rows := ← toWord segmentRows .rows }
  return { grid, width := ← toWord width .width, segments := ← toWord segments .segments, sharing }

end MergeShape

/-- The least `p` with `n ≤ 2 ^ p`: so many doublings of one reach `n`. -/
def doublings (n : Nat) : Nat := if n ≤ 1 then 0 else (n - 1).log2 + 1

end MergePathSort
