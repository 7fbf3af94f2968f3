import MergePathSort.Key.Element
import MergePathSort.Lanes.Block
import MergePathSort.Lanes.Cells
import MergePathSort.Lanes.DoubleBuffer
import MergePathSort.Plan.Grid

/-!
# Groups of threads

A device runs the blocks of a grid as groups and their lanes as threads. A kernel finds its row and its position
from the place of its group and its thread, in words of 32 bits that wrap around. Rows are spread over two axes of
the grid, so the last layer can have groups without a row, which the kernels mask. All rows lie in one flat buffer.
A kernel is told the direction as a flag, and moves indices with the keys only if it is told to.

The threads of a group run in lockstep between barriers. In the kernels of this module the threads of one phase
touch disjoint places, so that they can be run one after the other.

## Main definitions

* `Workgroup`, `Workgroup.all` : the groups of a grid, in order.
* `copyAddress`, `flatAddress` : where the kernels find an element of a row.
* `GroupMemory`, `unwrittenCells` : what the scratch of a group holds before its threads have stored anything.
* `copyInGroup`, `tileGroup`, `copyBackGroup` : one group of the kernels that copy and sort tiles.
-/

namespace MergePathSort

/-- A group: its place along a row, and the row that it works on. -/
structure Workgroup where
  /-- The place along the row. -/
  x : UInt32
  /-- The row, which may lie behind the last one. -/
  row : UInt32
  deriving DecidableEq, Inhabited

/-- The row of the group at place `y` of layer `z`, where a layer has `ys` places. -/
def Workgroup.foldRow (ys y z : UInt32) : UInt32 := z * ys + y

/-- The groups of a grid, layer by layer, row by row, and along each row. -/
def Workgroup.all (grid : Grid) : List Workgroup :=
  let (ys, zs) := grid.layers
  (List.range zs.toNat).flatMap fun z =>
    (List.range ys.toNat).flatMap fun y =>
      (List.range grid.blocksPerRow.toNat).map fun x =>
        ⟨UInt32.ofNat x, Workgroup.foldRow ys (UInt32.ofNat y) (UInt32.ofNat z)⟩

/-- The position of a thread along its row, one thread for every element. -/
def Workgroup.position (group : Workgroup) (threads thread : UInt32) : UInt32 := group.x * threads + thread

/-- Where the element at `pos` of a row is stored, when a row walks its axis with stride `after`. -/
def copyAddress (axisLen after row pos : UInt32) : UInt32 :=
  (row / after * axisLen + pos) * after + row % after

/-- Where the element at `pos` of a row is stored, when rows follow each other. -/
def flatAddress (axisLen row pos : UInt32) : UInt32 := row * axisLen + pos

/-! ### Kernels -/

/-- The sort buffers of a device: all rows of both sides, with 32-bit indices if they are tracked. -/
abbrev DeviceCells (κ : Type) : Type := DoubleBuffer (Cells κ UInt32)

/-- A group that works on the sort buffers, with shared cells as scratch. -/
abbrev GroupBlock (κ : Type) : Type := Block (DeviceCells κ) (Cells κ UInt32)

/-- What a thread does in a phase. -/
abbrev ThreadAction (κ : Type) : Type := UInt32 → DeviceCells κ × Cells κ UInt32 →
  Outcome (DeviceCells κ × Cells κ UInt32)

variable {κ : Type}

/-- A group without scratch whose threads all act once. -/
def GroupBlock.once (threads : UInt32) (act : UInt32 → DeviceCells κ → Outcome (DeviceCells κ)) : GroupBlock κ :=
  Block.once threads.toNat ⟨#[], none⟩ fun n => act (UInt32.ofNat n)

/-- The threads of a group as lanes of a block. -/
def ThreadAction.lane (act : ThreadAction κ) : LaneAction (DeviceCells κ) (Cells κ UInt32) :=
  fun n => act (UInt32.ofNat n)

/-- The first kernel: every thread copies one key of the input, and numbers its position if indices are moved. -/
def copyInGroup (data : Array κ) (axisLen after rows threads : UInt32) (indexed : Bool) (group : Workgroup) :
    GroupBlock κ :=
  .once threads fun thread cells =>
    let pos := group.position threads thread
    if pos < axisLen ∧ group.row < rows then do
      let address := (copyAddress axisLen after group.row pos).toNat
      let key ← Buffer.read data address
      cells.modify .front (·.store address (key, if indexed then some pos else none))
    else .ok cells

/-- The last kernel: every thread brings one cell back from the back side. -/
def copyBackGroup (axisLen rows threads : UInt32) (indexed : Bool) (group : Workgroup) : GroupBlock κ :=
  .once threads fun thread cells =>
    let pos := group.position threads thread
    if pos < axisLen ∧ group.row < rows then do
      let address := (flatAddress axisLen group.row pos).toNat
      let cell ← cells.back.load indexed address
      cells.modify .front (·.store address cell)
    else .ok cells

/-! ### Sorting a tile -/

/-- The number of elements of the tile that starts at `start`. -/
def tileCount (axisLen start tile : UInt32) : UInt32 :=
  if axisLen - start < tile then axisLen - start else tile

/-- A thread acts on each of its two places that lies in the tile. -/
def onOwnWords {σ : Type} (count thread : UInt32) (act : UInt32 → σ → Outcome σ) (state : σ) : Outcome σ :=
  [thread * 2, thread * 2 + 1].foldlM (fun state t => if t < count then act t state else .ok state) state

/-- The bytes that the scratch of every group holds when the group starts, by their places. Any bytes can stand there. -/
abbrev GroupMemory : Type := Workgroup → Nat → UInt8

/-- The `len` elements whose bytes follow each other from a place on. -/
def elementsAt (κ : Type) [Element κ] (memory : Nat → UInt8) (start len : Nat) : Array κ :=
  (Array.range len).map fun n =>
    Element.ofBytes ((List.range (Element.width κ)).map fun place => memory (start + n * Element.width κ + place))

/-- The scratch of a tile as its group finds it: keys, and behind them their indices if indices are moved. -/
def unwrittenCells [Element κ] (tile : Nat) (indexed : Bool) (memory : Nat → UInt8) : Cells κ UInt32 where
  keys := elementsAt κ memory 0 tile
  indices := if indexed then some (elementsAt UInt32 memory (tile * Element.width κ) tile) else none

/-- The threads load the tile into the scratch. -/
def loadWords (base count : UInt32) (indexed : Bool) : ThreadAction κ := fun thread =>
  onOwnWords count thread fun t (cells, scratch) => do
    let cell ← cells.front.load indexed (base + t).toNat
    return (cells, ← scratch.store t.toNat cell)

/-- In a round every thread exchanges its pair of neighbours if they are out of order. -/
def exchangeWords [KeyOrder κ] (flag : UInt32) (indexed : Bool) (count round : UInt32) : ThreadAction κ :=
  fun thread (cells, scratch) =>
    let i := thread * 2 + round % 2
    if i + 1 < count then do
      let a ← Buffer.read scratch.keys i.toNat
      let b ← Buffer.read scratch.keys (i + 1).toNat
      if outOfOrder flag a b then return (cells, ← scratch.swap indexed i.toNat (i + 1).toNat)
      else return (cells, scratch)
    else .ok (cells, scratch)

/-- The threads store the tile on both sides. -/
def storeWords (base count : UInt32) (indexed : Bool) : ThreadAction κ := fun thread =>
  onOwnWords count thread fun t (cells, scratch) => do
    let cell ← scratch.load indexed t.toNat
    let address := (base + t).toNat
    let cells ← cells.modify .front (·.store address cell)
    let cells ← cells.modify .back (·.store address cell)
    return (cells, scratch)

/-- The kernel that sorts tiles, one tile in the scratch of every group. -/
def tileGroup [Element κ] (flag : UInt32) (axisLen rows tile threads : UInt32) (indexed : Bool)
    (memory : GroupMemory) (group : Workgroup) : GroupBlock κ where
  lanes := threads.toNat
  scratch := unwrittenCells tile.toNat indexed (memory group)
  phases _ :=
    if group.row < rows then
      let start := group.x * tile
      let base := group.row * axisLen + start
      let count := tileCount axisLen start tile
      let rounds := (List.range count.toNat).map fun round =>
        (exchangeWords flag indexed count (UInt32.ofNat round)).lane
      .ok ((loadWords base count indexed).lane :: rounds ++ [(storeWords base count indexed).lane])
    else .ok []

end MergePathSort
