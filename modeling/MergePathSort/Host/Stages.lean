import MergePathSort.Key.Element
import MergePathSort.Lanes.Block
import MergePathSort.Lanes.Cells
import MergePathSort.Merge.Share
import MergePathSort.Plan.Program

/-!
# The stages of a sort on one row

On the host a launch is run row by row. Here every stage is given as the blocks that it runs on one row, each with
what its lanes do. A row has a front and a back buffer of cells, and a tile is sorted in a block's scratch.

## Main definitions

* `copyInBlock`, `tileBlock`, `mergeBlock`, `copyBackBlock` : one block of each stage.
* `Launch.blocksOnRow` : the blocks of a launch on a row, in order.
-/

namespace MergePathSort

/-- The buffers of one row. -/
abbrev RowCells (κ ι : Type) : Type := DoubleBuffer (Cells κ ι)

/-- A block that works on a row, with cells as scratch. -/
abbrev RowBlock (κ ι : Type) : Type := Block (RowCells κ ι) (Cells κ ι)

/-- A lane that acts on a row, with cells as scratch. -/
abbrev RowLane (κ ι : Type) : Type := LaneAction (RowCells κ ι) (Cells κ ι)

variable {κ ι : Type}

/-- Scratch without room. -/
def noScratch : Cells κ ι := ⟨#[], none⟩

/-! ### Copies -/

/-- Block `number` of the first launch: every lane copies one key of the input and numbers its position. -/
def copyInBlock [IndexElement ι] (view : AxisView) (grid : Grid) (input : Array κ) (row number : Nat) :
    RowBlock κ ι :=
  .once grid.lanes.toNat noScratch fun lane cells =>
    let pos := number * grid.lanes.toNat + lane
    if pos < view.axisLen then do
      let key ← Buffer.read input (← view.index row pos)
      cells.modify .front (·.store pos (key, some (IndexElement.ofPosition pos)))
    else .ok cells

/-- Block `number` of the last launch: every lane brings one cell back from the back side. -/
def copyBackBlock (axisLen : Nat) (grid : Grid) (number : Nat) : RowBlock κ ι :=
  .once grid.lanes.toNat noScratch fun lane cells =>
    let pos := number * grid.lanes.toNat + lane
    if pos < axisLen then do
      let cell ← cells.back.fetch pos
      cells.modify .front (·.store pos cell)
    else .ok cells

/-! ### Sorting a tile -/

/-- A lane acts on each of its two places that lies in the tile. -/
def onOwnPlaces {σ : Type} (count lane : Nat) (act : Nat → σ → Outcome σ) (state : σ) : Outcome σ :=
  [2 * lane, 2 * lane + 1].foldlM (fun state t => if t < count then act t state else .ok state) state

/-- The first phase: the lanes load the tile into the scratch. -/
def loadTile (start count : Nat) : RowLane κ ι := fun lane =>
  onOwnPlaces count lane fun t (cells, scratch) => do
    let cell ← cells.front.fetch (start + t)
    return (cells, ← scratch.store t cell)

/-- Round `round`: every lane compares a pair of neighbours, in even rounds one that starts at an even place and
in odd rounds one that starts at an odd place, and exchanges them if they are out of order. -/
def exchangePair [KeyOrder κ] (direction : Direction) (count round : Nat) : RowLane κ ι :=
  fun lane (cells, scratch) =>
    let i := 2 * lane + round % 2
    if i + 1 < count then do
      if direction.misplaced (← Buffer.read scratch.keys i) (← Buffer.read scratch.keys (i + 1)) then
        return (cells, ← scratch.exchange i (i + 1))
      else return (cells, scratch)
    else .ok (cells, scratch)

/-- The last phase: the lanes store the tile on both sides. -/
def storeTile (start count : Nat) : RowLane κ ι := fun lane =>
  onOwnPlaces count lane fun t (cells, scratch) => do
    let cell ← scratch.fetch t
    let cells ← cells.modify .front (·.store (start + t) cell)
    let cells ← cells.modify .back (·.store (start + t) cell)
    return (cells, scratch)

/-- Block `number` of the launch that sorts tiles: as many rounds of exchanges as the tile has elements. -/
def tileBlock [Element κ] [IndexElement ι] (direction : Direction) (tile axisLen : Nat) (grid : Grid)
    (indexed : Bool) (number : Nat) : RowBlock κ ι where
  lanes := grid.lanes.toNat
  scratch := .blank tile Element.zero (if indexed then some Element.zero else none)
  phases _ := do
    let start := number * tile
    let count := min tile (← Size.sub axisLen start)
    let rounds := (List.range count).map (exchangePair direction count)
    return loadTile start count :: rounds ++ [storeTile start count]

/-! ### Merging -/

/-- The row with one cell moved from a side to the other one. -/
def carry (src : Side) (cells : RowCells κ ι) (move : Move) : Outcome (RowCells κ ι) := do
  let cell ← (cells.get src).fetch move.source
  cells.modify src.other (·.store move.destination cell)

/-- Block `number` of a segment in a merge pass: it finds its part when it starts, and every lane makes its
moves. A block without a part does nothing. -/
def mergeBlock [KeyOrder κ] (direction : Direction) (src : Side) (shape : MergeShape) (axisLen segment
    number : Nat) : RowBlock κ ι where
  lanes := shape.grid.lanes.toNat
  scratch := noScratch
  phases cells := do
    let segment ← Segment.ofNumber segment shape.width.toNat axisLen
    match ← segment.share? (cells.get src).keys direction shape.sharing number with
    | none => return []
    | some share =>
      return [fun lane (cells, scratch) => do
        let moves ← share.laneMoves (cells.get src).keys direction lane
        return (← moves.foldlM (carry src) cells, scratch)]

/-! ### Launches -/

/-- The blocks of a launch on row `row`, in order. -/
def Launch.blocksOnRow [Element κ] [IndexElement ι] (launch : Launch) (program : Program) (input : Array κ)
    (row : Nat) : List (RowBlock κ ι) :=
  let view := program.view
  let direction := program.direction
  let numbers := List.range launch.grid.blocksPerRow.toNat
  match launch.stage with
  | .copyIn => numbers.map (copyInBlock view launch.grid input row)
  | .sortTiles tile =>
    numbers.map (tileBlock direction tile.toNat view.axisLen launch.grid program.indexed)
  | .mergeRuns _ src _ shape =>
    (List.range shape.segments.toNat).flatMap fun segment =>
      (List.range shape.blocksPerSegment.toNat).map
        (mergeBlock direction src shape view.axisLen segment)
  | .copyBack => numbers.map (copyBackBlock view.axisLen launch.grid)

end MergePathSort
