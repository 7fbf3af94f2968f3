import MergePathSort.Proofs.Chunk
import MergePathSort.Proofs.Lanes.Tagged
import MergePathSort.Proofs.Merge.Cover
import MergePathSort.Proofs.Tile.Transposition
import MergePathSort.Plan.Program

/-!
# What a launch does to a row

The effect of a launch is a function on the two lists of tagged keys that a row holds (`Launch.onRow`). It knows
nothing of blocks, lanes, barriers or buffers: copies replace a list, the tiles of a row are sorted each by itself, and
a merge pass gathers the keys at the positions that it takes. Both executors are proved to have this effect, for keys of
any kind.

## Main definitions

* `sortTile`, `sortTiles`, `mergePass` : the effect of the two sorting stages.
* `Launch.onRow` : the effect of a launch.
* `Launch.Covers`, `Program.Fits` : the grid of a launch reaches all of a row, and those of a program do.
* `launchesOnRow` : the effects of launches in order.
-/

namespace MergePathSort

variable {α β κ ι : Type}

/-! ### Stages -/

section Stages

variable [KeyOrder κ]

/-- A tile sorted by as many rounds of exchanges as it has elements. -/
def sortTile (direction : Direction) (cells : List (κ × α)) : List (κ × α) :=
  transpositions (fun a b => direction.misplaced a.1 b.1) cells.length cells

theorem length_sortTile (direction : Direction) (cells : List (κ × α)) :
    (sortTile direction cells).length = cells.length :=
  length_transpositions _ _

/-- The first tiles of a row, each sorted by itself. -/
def sortTiles (direction : Direction) (tile : Nat) (cells : List (κ × α)) (tiles : Nat) : List (κ × α) :=
  (List.range tiles).flatMap fun number => sortTile direction (chunk tile cells number)

theorem sortTiles_succ (direction : Direction) (tile : Nat) (cells : List (κ × α)) (tiles : Nat) :
    sortTiles direction tile cells (tiles + 1) =
      sortTiles direction tile cells tiles ++ sortTile direction (chunk tile cells tiles) := by
  rw [sortTiles, List.range_succ, List.flatMap_append, List.flatMap_singleton]
  rfl

theorem length_sortTiles (direction : Direction) (tile : Nat) (cells : List (κ × α)) (tiles : Nat) :
    (sortTiles direction tile cells tiles).length = min (tiles * tile) cells.length := by
  induction tiles with
  | zero => simp [sortTiles]
  | succ tiles ih =>
    rw [sortTiles_succ, List.length_append, ih, length_sortTile, length_chunk, Nat.succ_mul]
    omega

/-- The question that a pass asks of the positions of a row. -/
def precedesIn (direction : Direction) (cells : List (κ × α)) (i j : Nat) : Bool :=
  precedesAt direction (cells.map Prod.fst).toArray i j

theorem precedesIn_eq {direction : Direction} {cells : List (κ × α)} {i j : Nat} (hi : i < cells.length)
    (hj : j < cells.length) : precedesIn direction cells i j = direction.mayPrecede cells[i].1 cells[j].1 := by
  simp [precedesIn, precedesAt, hi, hj]

/-- The positions that a merge pass takes from a row. -/
def passSources (direction : Direction) (shape : MergeShape) (cells : List (κ × α)) : List Nat :=
  shape.sources (precedesIn direction cells) cells.length

/-- A row after a merge pass. -/
def mergePass (direction : Direction) (shape : MergeShape) (cells : List (κ × α)) : List (κ × α) :=
  gather cells (passSources direction shape cells)

theorem length_mergePass {direction : Direction} {shape : MergeShape} {cells : List (κ × α)}
    (h : shape.Covers cells.length) : (mergePass direction shape cells).length = cells.length := by
  rw [mergePass, passSources, length_gather fun source hsource => MergeShape.mem_sources h hsource,
    MergeShape.length_sources _ h]

end Stages

/-! ### Launches -/

/-- A pair of values on the two sides, the first on the given one. -/
def Side.pair (side : Side) (here there : β) : DoubleBuffer β :=
  match side with
  | .front => ⟨here, there⟩
  | .back => ⟨there, here⟩

@[simp]
theorem Side.get_pair (side : Side) (here there : β) : (side.pair here there).get side = here := by
  cases side <;> rfl

@[simp]
theorem Side.get_other_pair (side : Side) (here there : β) : (side.pair here there).get side.other = there := by
  cases side <;> rfl

theorem Side.pair_get (side : Side) (pair : DoubleBuffer β) :
    side.pair (pair.get side) (pair.get side.other) = pair := by
  cases side <;> rfl

theorem Side.map_pair {γ : Type} (f : β → γ) (side : Side) (here there : β) :
    (side.pair here there).map f = side.pair (f here) (f there) := by
  cases side <;> rfl

/-- The opposite side of a pair changed by a step that succeeds. -/
theorem Side.modify_other_pair {ε : Type} {f : β → Except ε β} {here there there' : β} (side : Side)
    (h : f there = .ok there') : (side.pair here there).modify side.other f = .ok (side.pair here there') := by
  cases side
  · exact DoubleBuffer.modify_back h
  · exact DoubleBuffer.modify_front h

/-- The lists of tagged keys on the two sides of a row. -/
abbrev TaggedRow (κ ι : Type) : Type := DoubleBuffer (List (κ × Tag ι))

/-- Both sides of a row are as long as the row. -/
structure TaggedRow.HasLength (row : TaggedRow κ ι) (size : Nat) : Prop where
  /-- The front side. -/
  front : row.front.length = size
  /-- The back side. -/
  back : row.back.length = size

theorem TaggedRow.HasLength.get {row : TaggedRow κ ι} {size : Nat} (h : row.HasLength size) (side : Side) :
    (row.get side).length = size := by
  cases side
  · exact h.front
  · exact h.back

/-- The grid of a launch reaches all of a row of `size`, and what a block or a lane starts with lies in the row. -/
def Launch.Covers (launch : Launch) (size : Nat) : Prop :=
  match launch.stage with
  | .copyIn | .copyBack => size ≤ launch.grid.blocksPerRow.toNat * launch.grid.lanes.toNat
  | .sortTiles tile =>
    2 * launch.grid.lanes.toNat = tile.toNat ∧ size ≤ launch.grid.blocksPerRow.toNat * tile.toNat ∧
      ∀ number < launch.grid.blocksPerRow.toNat, number * tile.toNat < size
  | .mergeRuns _ src dst shape => dst = src.other ∧ launch.grid = shape.grid ∧ shape.Covers size

/-- A row after a launch. -/
def Launch.onRow [KeyOrder κ] (direction : Direction) (keys : List κ) (launch : Launch) (row : TaggedRow κ ι) :
    TaggedRow κ ι :=
  match launch.stage with
  | .copyIn => ⟨numbered keys, row.back⟩
  | .sortTiles tile => .both (sortTiles direction tile.toNat row.front launch.grid.blocksPerRow.toNat)
  | .mergeRuns _ src _ shape => src.pair (row.get src) (mergePass direction shape (row.get src))
  | .copyBack => .both row.back

/-- A launch keeps the length of a row. -/
theorem Launch.hasLength_onRow [KeyOrder κ] {direction : Direction} {keys : List κ} {launch : Launch}
    {row : TaggedRow κ ι} {size : Nat} (hcovers : launch.Covers size) (hkeys : keys.length = size)
    (h : row.HasLength size) : (launch.onRow direction keys row).HasLength size := by
  obtain ⟨stage, grid⟩ := launch
  cases stage with
  | copyIn => exact ⟨by simp [onRow, hkeys], h.back⟩
  | sortTiles tile =>
    obtain ⟨-, hblocks, -⟩ := hcovers
    have hlen : (sortTiles direction tile.toNat row.front grid.blocksPerRow.toNat).length = size := by
      rw [length_sortTiles, h.front]
      exact Nat.min_eq_right hblocks
    exact ⟨hlen, hlen⟩
  | mergeRuns pass src dst shape =>
    obtain ⟨-, -, hshape⟩ := hcovers
    have hsrc := h.get src
    have hlen : (mergePass direction shape (row.get src)).length = size := by
      rw [length_mergePass (by rw [hsrc]; exact hshape), hsrc]
    cases src with
    | front => exact ⟨hsrc, hlen⟩
    | back => exact ⟨hlen, hsrc⟩
  | copyBack => exact ⟨h.back, h.back⟩

/-! ### Programs -/

/-- A program whose rows are packed and lie in memory, and whose launches reach all of a row. -/
structure Program.Fits (program : Program) : Prop where
  /-- The rows are packed. -/
  after_eq : program.view.after = 1
  /-- A row is not empty. -/
  axisLen_pos : 0 < program.view.axisLen
  /-- A row lies in memory. -/
  axisLen_lt : program.view.axisLen < Buffer.byteLimit
  /-- All rows together are a size. -/
  total_lt : program.view.before * program.view.axisLen < Size.limit
  /-- Every launch reaches all of a row. -/
  covers : ∀ launch ∈ program.launches, launch.Covers program.view.axisLen

section Programs

variable [KeyOrder κ]

/-- A row after launches in order. -/
def launchesOnRow (direction : Direction) (keys : List κ) (launches : List Launch) (row : TaggedRow κ ι) :
    TaggedRow κ ι :=
  launches.foldl (fun row launch => launch.onRow direction keys row) row

theorem hasLength_launchesOnRow {direction : Direction} {keys : List κ} {launches : List Launch} {size : Nat}
    (hcovers : ∀ launch ∈ launches, launch.Covers size) (hkeys : keys.length = size) {row : TaggedRow κ ι}
    (hrow : row.HasLength size) : (launchesOnRow direction keys launches row).HasLength size := by
  induction launches generalizing row with
  | nil => exact hrow
  | cons launch launches ih =>
    exact ih (fun l hl => hcovers l (by simp [hl])) (Launch.hasLength_onRow (hcovers launch (by simp)) hkeys hrow)

end Programs

end MergePathSort
