import MergePathSort.Proofs.Plan.Lowering

/-!
# Programs in words

A device counts in words of 32 bits that wrap around. The extents of a launch are words by construction, but the
kernels multiply them: the number of a block by what the blocks before it have done, and the number of a lane by its
outputs. None of these products wraps, because each of them is less than an extent or than the sum of two, and no extent
is more than the largest power of two that is a word.

## Main definitions

* `Launch.FitsWords` : what the kernel of a launch computes with fits words.

## Main results

* `Program.fitsWords_of_launchesFor` : the launches of a sort fit words.
-/

namespace MergePathSort

/-- What the kernel of a launch on rows of a view computes with fits words, and the grid has the launch's rows. -/
def Launch.FitsWords (launch : Launch) (rows : Nat) : Prop :=
  match launch.stage with
  | .copyIn | .copyBack =>
    launch.grid.rows.toNat = rows ∧ launch.grid.blocksPerRow.toNat * launch.grid.lanes.toNat ≤ 4294967296
  | .sortTiles _ => launch.grid.rows.toNat = rows
  | .mergeRuns _ _ _ shape =>
    shape.grid.rows.toNat = rows * shape.segments.toNat ∧ shape.width.toNat ≤ 2147483648 ∧
      shape.sharing.NoWrap shape.blocksPerSegment.toNat shape.grid.lanes.toNat

/-- The lanes of all blocks of a copy have numbers that are words. -/
theorem Grid.lanes_of_perElement {size rows : Nat} {limits : Limits} {grid : Grid}
    (h : Grid.perElement size rows limits = .ok grid) (hsize : size ≤ 2147483648) :
    grid.blocksPerRow.toNat * grid.lanes.toNat ≤ 4294967296 := by
  obtain ⟨-, hlanes, hblocks, -⟩ := perElement_eq_ok h
  obtain ⟨-, -, hinside⟩ := Size.divCeil_eq_ok hblocks
  rcases Nat.eq_zero_or_pos grid.blocksPerRow.toNat with hzero | hpos
  · rw [hzero, Nat.zero_mul]
    exact Nat.zero_le _
  · -- The last block starts in the row, so it ends at most one block behind it.
    have hlast := hinside (grid.blocksPerRow.toNat - 1) (by omega)
    have hsplit : grid.blocksPerRow.toNat * grid.lanes.toNat =
        (grid.blocksPerRow.toNat - 1) * grid.lanes.toNat + grid.lanes.toNat := by
      rw [← Nat.succ_mul, Nat.succ_eq_add_one, Nat.sub_add_cancel hpos]
    omega

/-- The lanes that share one segment have starts that are words. -/
theorem lane_mul_step_lt {width lanes step lane : Nat} (hstep : Size.divCeil width lanes = .ok step)
    (hwidth : width ≤ 2147483648) (hlanes : lanes < 4294967296) (hlane : lane < lanes) :
    lane * step < 4294967296 := by
  obtain ⟨hpos, -, hinside⟩ := Size.divCeil_eq_ok hstep
  rcases Nat.lt_or_ge 1 step with hlt | hge
  · have hless := hinside (step - 1) (by omega)
    have hinsideOne := hinside 1 hlt
    have hmul : lane * step ≤ lanes * (step - 1) + lanes := by
      calc lane * step ≤ lanes * step := Nat.mul_le_mul_right _ (Nat.le_of_lt hlane)
        _ = lanes * (step - 1) + lanes := by rw [← Nat.mul_succ, Nat.succ_eq_add_one, Nat.sub_add_cancel (by omega)]
    rw [Nat.mul_comm] at hless
    omega
  · have hmul : lane * step ≤ lane * 1 := Nat.mul_le_mul_left _ hge
    omega

/-- The starts of blocks and lanes of a pass are words. -/
theorem MergeShape.Made.noWrap {width size rows : Nat} {limits : Limits} {tuning : Tuning} {shape : MergeShape}
    (h : shape.Made width size rows limits tuning) (heven : width % 2 = 0) (hwidth : width ≤ 2147483648) :
    shape.sharing.NoWrap shape.blocksPerSegment.toNat shape.grid.lanes.toNat := by
  have hshared := (h.covers heven).shared
  obtain ⟨-, -, hlanes, hblocks, -, hsharing, -⟩ := h
  obtain ⟨-, -, hinside⟩ := Size.divCeil_eq_ok hblocks
  have hlanesWord := shape.grid.lanes.toNat_lt
  unfold Sharing.ofBlocks at hsharing
  split at hsharing
  · obtain ⟨step, hstep, hsharing⟩ := Outcome.bind_eq_ok_iff.mp hsharing
    obtain ⟨word, hword, hsharing⟩ := Outcome.bind_eq_ok_iff.mp hsharing
    rw [← Except.ok.inj hsharing]
    refine ⟨‹_›, fun lane hlane => ?_⟩
    rw [toWord_eq_ok hword]
    exact lane_mul_step_lt hstep hwidth (by omega) (by omega)
  · obtain ⟨word, hword, hsharing⟩ := Outcome.bind_eq_ok_iff.mp hsharing
    rw [← Except.ok.inj hsharing] at hshared ⊢
    refine ⟨fun block hblock => ?_, fun lane hlane => ?_⟩
    · have hless := hinside block hblock
      rw [toWord_eq_ok hword]
      omega
    · obtain ⟨hall, -⟩ := hshared
      have hword' := word.toNat_lt
      have hle := Nat.mul_le_mul_right tuning.laneWork.toNat (Nat.le_of_lt hlane)
      omega

/-- The launches of a sort fit words. -/
theorem Program.fitsWords_of_launchesFor {config : Config} (hvalid : config.problem? = none) {size rows : Nat}
    {launches : List Launch} (h : Program.launchesFor config size rows = .ok launches) :
    ∀ launch ∈ launches, launch.FitsWords rows := by
  obtain ⟨-, -, -, -, -, -, -, -, -, hsize⟩ := launchesFor_spec hvalid h
  obtain ⟨copy, tiles, shapes, hcopy, htiles, rfl, hmade⟩ := launchesFor_eq_ok hvalid h
  obtain ⟨-, -, -, hrows⟩ := Grid.perElement_eq_ok hcopy
  obtain ⟨-, -, htileRows⟩ := Grid.perTile_eq_ok htiles
  have hlanes := Grid.lanes_of_perElement hcopy hsize
  refine forall_mem_sortLaunches ⟨hrows, hlanes⟩ htileRows (fun pass hpass => ?_) ⟨hrows, hlanes⟩
  have hshape := hmade pass hpass
  have hwidth := hshape.width_le hvalid
  refine ⟨hshape.rows_eq, by rw [hshape.width_eq]; exact hwidth, hshape.noWrap ?_ hwidth⟩
  rw [Nat.mul_mod, Config.tile_even hvalid, Nat.zero_mul, Nat.zero_mod]

end MergePathSort
