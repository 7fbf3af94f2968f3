import MergePathSort.Config.Basic

/-!
# Launch grids

Every launch runs on a grid: lanes in a block, blocks along a row, and rows. Rows never share a block. The extents
are 32-bit words; a problem whose extents do not fit is refused.

## Main definitions

* `Grid`, `Grid.perElement`, `Grid.perTile` : one lane for every element, and one block for every tile.
* `Grid.layers` : the rows of a grid over the two remaining axes of a device.
-/

namespace MergePathSort

/-- The extents of a launch. -/
structure Grid where
  /-- The lanes of a block. -/
  lanes : UInt32
  /-- The blocks along a row. -/
  blocksPerRow : UInt32
  /-- The rows. -/
  rows : UInt32
  deriving DecidableEq, Inhabited

/-- A size as a 32-bit word; `problem` names the extent that does not fit. -/
def toWord (n : Nat) (problem : GridProblem) : Outcome UInt32 :=
  if n < 4294967296 then .ok (UInt32.ofNat n) else .refuse (.noGrid problem)

/-- Refuses a problem without elements or without rows. -/
def requireExtents (size rows : Nat) : Outcome Unit :=
  if size = 0 then .refuse (.noGrid .sizeZero)
  else if rows = 0 then .refuse (.noGrid .rowsZero)
  else .ok ()

namespace Grid

/-- The grid with a lane for every element: the blocks are as wide as the target allows. -/
def perElement (size rows : Nat) (limits : Limits) : Outcome Grid := do
  requireExtents size rows
  let lanes := min limits.maxLanes.toNat size
  return { lanes := ← toWord lanes .lanes
           blocksPerRow := ← toWord (← Size.divCeil size lanes) .blocksPerRow
           rows := ← toWord rows .rows }

/-- The grid with a block for every tile. -/
def perTile (size rows : Nat) (tuning : Tuning) : Outcome Grid := do
  requireExtents size rows
  return { lanes := tuning.lanesPerTile
           blocksPerRow := ← toWord (← Size.divCeil size tuning.tile.toNat) .blocksPerRow
           rows := ← toWord rows .rows }

/-- The number of blocks. -/
def blocks (grid : Grid) : Nat := grid.blocksPerRow.toNat * grid.rows.toNat

/-- The rows that one layer of a device grid can hold. -/
def layerRows : UInt32 := 65535

/-- The rows of a grid on a device, whose grids have three axes: the rows of a layer along the second, up to
`layerRows` of them, and as many layers along the third as it takes. -/
def layers (grid : Grid) : UInt32 × UInt32 :=
  if grid.rows ≤ layerRows then (grid.rows, 1)
  else (layerRows, UInt32.ofNat ((grid.rows.toNat + layerRows.toNat - 1) / layerRows.toNat))

end Grid

end MergePathSort
