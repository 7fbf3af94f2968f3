import Mathlib.Order.Bounds.Defs
import MergePathSort.Proofs.Plan.Lowering
import MergePathSort.Proofs.Tensor.Coordinates

/-!
# The outline of a program

A program that is lowered for rows that are not empty copies the input, sorts the tiles and merges in passes, each twice
as wide as the one before. There are as few passes as it takes to reach the length of a row. Every pass reads the side
that the pass before it has written, and the last launch leaves the result on the front side. The grid of a launch has a
lane, a block or a segment for every part of a row that there is, and no segment more.

## Main definitions

* `Stage.written` : the sides that a stage writes.
* `MergeShape.Reaches`, `Program.Outline` : the extents of a pass, and the launches of a program.

## Main results

* `doublings_le_iff` : how many doublings reach a size.
* `Program.outline_of_lower` : the outline of a program that is lowered.
-/

namespace MergePathSort

/-! ### Sides -/

/-- The sides that a stage writes. -/
def Stage.written : Stage → List Side
  | .copyIn => [.front]
  | .sortTiles _ => [.front, .back]
  | .mergeRuns _ _ dst _ => [dst]
  | .copyBack => [.front]

/-- A launch leaves a side alone that its stage does not write. -/
theorem Launch.get_onRow_of_not_written {κ ι : Type} [KeyOrder κ] {direction : Direction} {keys : List κ}
    {launch : Launch} {row : TaggedRow κ ι} {size : Nat} {side : Side} (hcovers : launch.Covers size)
    (hside : side ∉ launch.stage.written) : (launch.onRow direction keys row).get side = row.get side := by
  obtain ⟨stage, grid⟩ := launch
  cases stage with
  | copyIn =>
    cases side with
    | front => simp [Stage.written] at hside
    | back => rfl
  | sortTiles tile => cases side <;> simp [Stage.written] at hside
  | mergeRuns pass src dst shape =>
    obtain ⟨rfl, -, -⟩ := hcovers
    cases src <;> cases side <;> simp [Stage.written, Side.other] at hside <;> rfl
  | copyBack =>
    cases side with
    | front => simp [Stage.written] at hside
    | back => rfl

/-! ### Extents -/

/-- The view of a shape around an axis. -/
theorem AxisView.ofShape_eq_ok {shape : List Nat} {axis : Nat} {view : AxisView}
    (h : AxisView.ofShape shape axis = .ok view) :
    shape[axis]? = some view.axisLen ∧ view.before = (shape.take axis).prod ∧
      view.after = (shape.drop (axis + 1)).prod := by
  rw [ofShape] at h
  cases hextent : shape[axis]? with
  | none =>
    rw [hextent] at h
    exact absurd h (Outcome.refuse_ne_ok _ _)
  | some axisLen =>
    rw [hextent] at h
    obtain ⟨before, hbefore, h⟩ := Outcome.bind_eq_ok_iff.mp h
    obtain ⟨after, hafter, h⟩ := Outcome.bind_eq_ok_iff.mp h
    cases h
    exact ⟨rfl, (Size.product_eq_ok hbefore).1, (Size.product_eq_ok hafter).1⟩

/-- The quotient rounded up is the least number of parts that reach a size. -/
theorem Size.isLeast_of_divCeil {a b q : Nat} (h : Size.divCeil a b = .ok q) : IsLeast {count | a ≤ count * b} q := by
  obtain ⟨-, hreach, hinside⟩ := Size.divCeil_eq_ok h
  refine ⟨hreach, fun count hcount => ?_⟩
  rcases Nat.lt_or_ge count q with hlt | hge
  · exact absurd (hinside count hlt) (Nat.not_lt.mpr hcount)
  · exact hge

/-- So many doublings of one reach a size exactly if they are no fewer than those that are counted. -/
theorem doublings_le_iff {n d : Nat} : doublings n ≤ d ↔ n ≤ Nat.pow 2 d := by
  constructor
  · intro h
    calc n ≤ Nat.pow 2 (doublings n) := le_pow_doublings n
      _ ≤ Nat.pow 2 d := Nat.pow_le_pow_right (by decide) h
  · intro h
    unfold doublings
    split
    · exact Nat.zero_le d
    · have hlt : n - 1 < Nat.pow 2 d := by omega
      exact (Nat.log2_lt (by omega)).mpr hlt

/-- The passes of a sort are the least number of doublings of the tile that reach a row. -/
theorem Config.isLeast_passes {config : Config} (hvalid : config.problem? = none) (size : Nat) :
    IsLeast {passes | size ≤ config.tuning.tile.toNat * Nat.pow 2 passes}
      (doublings size - config.tuning.tile.toNat.log2) := by
  have hwidth : ∀ passes, size ≤ config.tuning.tile.toNat * Nat.pow 2 passes ↔
      doublings size ≤ config.tuning.tile.toNat.log2 + passes := by
    intro passes
    rw [doublings_le_iff, Config.tile_mul_pow hvalid]
  constructor
  · exact (hwidth _).mpr (by omega)
  · intro passes hpasses
    have hcount := (hwidth passes).mp hpasses
    omega

/-! ### Programs -/

/-- The extents of a pass over segments of `width` in `rows` rows of `size`: there are as few segments as reach a row,
and the lanes and blocks of a segment reach all of it. -/
structure MergeShape.Reaches (shape : MergeShape) (width size rows : Nat) : Prop where
  /-- The width of a segment. -/
  width_eq : shape.width.toNat = width
  /-- The segments of a row are as few as reach it. -/
  segments_least : IsLeast {count | size ≤ count * width} shape.segments.toNat
  /-- The grid has a row for every segment of every row. -/
  rows_eq : shape.grid.rows.toNat = rows * shape.segments.toNat
  /-- A segment is shared out as a whole. -/
  shared : shape.sharing.Covers width shape.blocksPerSegment.toNat shape.grid.lanes.toNat

/-- The launches of a program that sorts rows: a copy, the tiles, as few passes as reach a row, and a copy back if
there is an odd number of them. Pass number `pass` reads the side `side pass` and writes the side `side (pass + 1)`. -/
structure Program.Outline (program : Program) (tile : UInt32) (passes : Nat) (copy tiles : Grid) (side : Nat → Side)
    (shapes : Nat → MergeShape) : Prop where
  /-- The launches, in order. -/
  launches_eq : program.launches = [⟨.copyIn, copy⟩, ⟨.sortTiles tile, tiles⟩] ++
    (List.range passes).map (fun pass =>
      ⟨.mergeRuns pass (side pass) (side (pass + 1)) (shapes pass), (shapes pass).grid⟩) ++
    if passes % 2 = 1 then [⟨.copyBack, copy⟩] else []
  /-- The passes are as few as reach a row. -/
  passes_least : IsLeast {count | program.view.axisLen ≤ tile.toNat * Nat.pow 2 count} passes
  /-- The first pass reads the front side. -/
  side_zero : side 0 = .front
  /-- A pass writes the side that it does not read. -/
  side_succ : ∀ pass, side (pass + 1) = (side pass).other
  /-- The last launch writes the front side. -/
  last_written : ∃ launch, program.launches.getLast? = some launch ∧ .front ∈ launch.stage.written
  /-- The extents of the passes, each twice as wide as the one before. -/
  reaches : ∀ pass < passes,
    (shapes pass).Reaches (tile.toNat * Nat.pow 2 (pass + 1)) program.view.axisLen program.view.before
  /-- The lanes of a copy reach all of a row. -/
  copy_covers : program.view.axisLen ≤ copy.lanes.toNat * copy.blocksPerRow.toNat
  /-- A copy has a row for every row. -/
  copy_rows : copy.rows.toNat = program.view.before
  /-- The tiles reach all of a row. -/
  tiles_cover : program.view.axisLen ≤ tile.toNat * tiles.blocksPerRow.toNat
  /-- The launch on the tiles has a row for every row. -/
  tiles_rows : tiles.rows.toNat = program.view.before

/-- The last launch of a sort writes the front side. -/
theorem exists_last_written (copy tiles : Grid) (tile : UInt32) (passes : Nat) (shapes : Nat → MergeShape) :
    ∃ launch, (sortLaunches copy tiles tile passes shapes).getLast? = some launch ∧ .front ∈ launch.stage.written := by
  rcases Nat.mod_two_eq_zero_or_one passes with heven | hodd
  · rw [sortLaunches, if_neg (by omega), List.append_nil]
    cases passes with
    | zero => exact ⟨_, rfl, by simp [Stage.written]⟩
    | succ pass =>
      -- The pass before an even number of passes is odd, so it reads the back side.
      refine ⟨passLaunch shapes pass, by rw [launchesUpTo_succ]; exact List.getLast?_concat, ?_⟩
      have hside : (Side.ofPass pass).other = .front := by
        rw [← Side.ofPass_succ, Side.ofPass, if_pos heven]
      simp [passLaunch, Stage.written, hside]
  · rw [sortLaunches, if_pos hodd]
    exact ⟨_, List.getLast?_concat, by simp [Stage.written]⟩

/-- The outline of a program that has launches: the axis that it sorts along is the last one up to extents of one, and
the launches sort as many rows as there are elements in front of it. -/
theorem Program.outline_of_lower {shape : List Nat} {axis : Nat} {direction : Direction} {indexed : Bool}
    {config : Config} {program : Program} (h : Program.lower shape axis direction indexed config = .ok program)
    (hlaunches : program.launches ≠ []) :
    shape[axis]? = some program.view.axisLen ∧ program.view.before = (shape.take axis).prod ∧
      (shape.drop (axis + 1)).prod = 1 ∧
      ∃ passes copy tiles side shapes, program.Outline config.tuning.tile passes copy tiles side shapes := by
  obtain ⟨hvalid, hview, hafter, -, -, -, ⟨-, hnone⟩ | ⟨-, hlower⟩⟩ := Program.lower_spec h
  · exact absurd hnone hlaunches
  obtain ⟨hextent, hbefore, hbehind⟩ := AxisView.ofShape_eq_ok hview
  obtain ⟨copy, tiles, shapes, hcopy, htiles, heq, hmade⟩ := launchesFor_eq_ok hvalid hlower
  obtain ⟨-, -, hcopyBlocks, hcopyRows⟩ := Grid.perElement_eq_ok hcopy
  obtain ⟨-, htileBlocks, htileRows⟩ := Grid.perTile_eq_ok htiles
  refine ⟨hextent, hbefore, hbehind.symm.trans hafter, _, copy, tiles, Side.ofPass, shapes,
    { launches_eq := ?_
      passes_least := Config.isLeast_passes hvalid _
      side_zero := rfl
      side_succ := Side.ofPass_succ
      last_written := heq ▸ exists_last_written copy tiles _ _ shapes
      reaches := fun pass hpass => ?_
      copy_covers := ?_
      copy_rows := hcopyRows
      tiles_cover := ?_
      tiles_rows := htileRows }⟩
  · rw [heq]
    simp only [sortLaunches, launchesUpTo, Side.ofPass_succ]
    rfl
  · have hshape := hmade pass hpass
    exact ⟨hshape.width_eq, Size.isLeast_of_divCeil hshape.segments_eq, hshape.rows_eq, hshape.shared⟩
  · rw [Nat.mul_comm]
    exact (Size.divCeil_eq_ok hcopyBlocks).2.1
  · rw [Nat.mul_comm]
    exact (Size.divCeil_eq_ok htileBlocks).2.1

/-- Two rows of twenty keys in tiles of four take three passes and a copy back, the last pass with two blocks for a
segment. -/
theorem Program.outline_two_rows :
    ∃ program, Program.lower [2, 20] 1 .ascending true
        { limits := { maxLanes := 2 }, tuning := { tile := 4, laneWork := 8 } } = .ok program ∧
      program.launches ≠ [] ∧ program.passCount = 3 ∧ program.copiesBack = true ∧
      ∃ passes copy tiles side shapes, program.Outline 4 passes copy tiles side shapes := by
  obtain ⟨program, hlower, hlaunches, hpasses, hback⟩ : ∃ program, Program.lower [2, 20] 1 .ascending true
      { limits := { maxLanes := 2 }, tuning := { tile := 4, laneWork := 8 } } = .ok program ∧
      program.launches ≠ [] ∧ program.passCount = 3 ∧ program.copiesBack = true :=
    ⟨_, rfl, List.cons_ne_nil _ _, rfl, rfl⟩
  exact ⟨program, hlower, hlaunches, hpasses, hback, (Program.outline_of_lower hlower hlaunches).2.2.2⟩

end MergePathSort
