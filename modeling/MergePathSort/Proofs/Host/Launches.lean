import MergePathSort.Host.Execution
import MergePathSort.Proofs.Host.Merges
import MergePathSort.Proofs.Host.Tiles

/-!
# Programs on the host

The host runs a launch on every row by itself, so a launch has its effect on all rows, and a program the effects of its
launches in order. This holds for every program whose launches reach all of a row, for any keys, and whatever the
buffers hold before.

## Main results

* `Launch.exists_runAll` : a launch on one row.
* `Launch.exists_foldlM_step` : launches on all rows.
-/

namespace MergePathSort

variable {κ ι : Type}

/-! ### One row -/

/-- The position of an element of packed rows. -/
theorem AxisView.index_eq_ok {view : AxisView} (hafter : view.after = 1) {row pos : Nat}
    (h : row * view.axisLen + pos < Size.limit) : view.index row pos = .ok (row * view.axisLen + pos) := by
  have hmul : Size.mul row view.axisLen = .ok (row * view.axisLen) := Size.mul_of_lt (by omega)
  have hadd : Size.add (row * view.axisLen) pos = .ok (row * view.axisLen + pos) := Size.add_of_lt h
  have hone : Size.mul (row * view.axisLen + pos) 1 = .ok (row * view.axisLen + pos) :=
    Size.mul_eq_ok_iff.mpr ⟨by omega, by omega⟩
  have hzero : Size.add (row * view.axisLen + pos) 0 = .ok (row * view.axisLen + pos) :=
    Size.add_of_lt (by omega)
  simp [index, hafter, Size.div, Size.mod, hmul, hadd, hone, hzero, Nat.mod_one]

/-- A row of the input. -/
theorem length_chunk_of_lt {α : Type} {rows axisLen number : Nat} {input : Array α}
    (hinput : input.size = rows * axisLen) (hnumber : number < rows) :
    (chunk axisLen input.toList number).length = axisLen :=
  length_chunk_of_length (by rw [Array.length_toList, hinput]) hnumber

/-- The keys of a row of the input. -/
theorem read_input_eq_ok {program : Program} (h : program.Fits) {input : Array κ}
    (hinput : input.size = program.view.before * program.view.axisLen) {number pos : Nat}
    (hpos : pos < (chunk program.view.axisLen input.toList number).length) :
    (do Buffer.read input (← program.view.index number pos) : Outcome κ) =
      .ok (chunk program.view.axisLen input.toList number)[pos] := by
  have hplace : number * program.view.axisLen + pos < input.size := by
    rw [length_chunk, Array.length_toList] at hpos
    omega
  have htotal := h.total_lt
  rw [AxisView.index_eq_ok h.after_eq (by omega), Outcome.ok_bind, getElem_chunk, Array.getElem_toList]
  exact Buffer.read_eq_ok_iff.mpr (Array.getElem?_eq_getElem hplace)

variable [Element κ] [IndexElement ι]

/-- A launch has its effect on every row. -/
theorem Launch.exists_runAll {program : Program} (h : program.Fits) {launch : Launch}
    (hlaunch : launch ∈ program.launches) {input : Array κ}
    (hinput : input.size = program.view.before * program.view.axisLen) {number : Nat}
    (hnumber : number < program.view.before) {row : TaggedRow κ ι} (hrow : row.HasLength program.view.axisLen) :
    ∃ used, Block.runAll (launch.blocksOnRow program input number) (row.cells program.indexed) =
      .ok ((launch.onRow program.direction (chunk program.view.axisLen input.toList number) row).cells program.indexed,
        used) := by
  have hcovers := h.covers launch hlaunch
  obtain ⟨stage, grid⟩ := launch
  cases stage with
  | copyIn =>
    exact exists_runAll_copyIn hrow.front (length_chunk_of_lt hinput hnumber) hcovers
      fun pos hpos => read_input_eq_ok h hinput hpos
  | sortTiles tile =>
    obtain ⟨hlanes, hblocks, hinside⟩ := hcovers
    exact exists_runAll_tiles program.direction hrow hlanes hblocks hinside
  | mergeRuns pass src dst shape =>
    obtain ⟨-, -, hshape⟩ := hcovers
    exact exists_runAll_merges program.direction src hrow h.axisLen_lt hshape
  | copyBack => exact exists_runAll_copyBack hrow hcovers

/-! ### All rows -/

/-- The buffers of a number of rows. -/
def cellsOfRows (tracked : Bool) (count : Nat) (rows : Nat → TaggedRow κ ι) : List (RowCells κ ι) :=
  (List.range count).map fun number => (rows number).cells tracked

section Rows

variable {program : Program} {input : Array κ} {rows : Nat → TaggedRow κ ι}

/-- A launch has its effect on all rows. -/
theorem Launch.exists_execute (h : program.Fits) {launch : Launch} (hlaunch : launch ∈ program.launches)
    (hinput : input.size = program.view.before * program.view.axisLen)
    (hrows : ∀ number < program.view.before, (rows number).HasLength program.view.axisLen) :
    ∃ report, launch.execute program input (cellsOfRows program.indexed program.view.before rows) =
      .ok (cellsOfRows program.indexed program.view.before fun number =>
        launch.onRow program.direction (chunk program.view.axisLen input.toList number) (rows number), report) := by
  have hzip : (cellsOfRows program.indexed program.view.before rows).zipIdx =
      (List.range program.view.before).map fun number => ((rows number).cells program.indexed, number) := by
    refine List.ext_getElem (by simp [cellsOfRows]) fun n _ _ => by simp [cellsOfRows]
  have hall : ∀ number ∈ List.range program.view.before, ∃ used,
      Block.runAll (launch.blocksOnRow program input number) ((rows number).cells program.indexed) =
        .ok ((launch.onRow program.direction (chunk program.view.axisLen input.toList number)
          (rows number)).cells program.indexed, used) := fun number hnumber =>
    Launch.exists_runAll h hlaunch hinput (List.mem_range.mp hnumber) (hrows number (List.mem_range.mp hnumber))
  obtain ⟨done, hdone, hfst⟩ := Outcome.exists_mapM_eq_ok hall
  refine ⟨.ofLaunch (done.foldl (fun used result => used + result.2) {}), ?_⟩
  rw [execute, hzip, List.mapM_map]
  simp only [Function.comp_def, hdone, Outcome.ok_bind, hfst]
  rfl

/-- What one launch does to the rows and to the report so far. -/
def Launch.step (program : Program) (input : Array κ) (state : List (RowCells κ ι) × Report) (launch : Launch) :
    Outcome (List (RowCells κ ι) × Report) := do
  let (rows, more) ← launch.execute program input state.1
  return (rows, state.2 + more)

theorem Program.runLaunches_eq_foldlM_step (cells : List (RowCells κ ι)) :
    program.runLaunches input cells = program.launches.foldlM (Launch.step program input) (cells, {}) := rfl

/-- Launches of a program have their effects on all rows. -/
theorem Launch.exists_foldlM_step (h : program.Fits)
    (hinput : input.size = program.view.before * program.view.axisLen) {launches : List Launch}
    (hlaunches : ∀ launch ∈ launches, launch ∈ program.launches)
    (hrows : ∀ number < program.view.before, (rows number).HasLength program.view.axisLen) (before : Report) :
    ∃ report, launches.foldlM (Launch.step program input)
        (cellsOfRows program.indexed program.view.before rows, before) =
      .ok (cellsOfRows program.indexed program.view.before fun number =>
        launchesOnRow program.direction (chunk program.view.axisLen input.toList number) launches (rows number),
        report) := by
  induction launches generalizing rows before with
  | nil => exact ⟨before, rfl⟩
  | cons launch launches ih =>
    have hlaunch := hlaunches launch (by simp)
    obtain ⟨more, hmore⟩ := Launch.exists_execute h hlaunch hinput hrows
    rw [List.foldlM_cons]
    simp only [Launch.step, hmore, Outcome.ok_bind]
    exact ih (fun l hl => hlaunches l (by simp [hl])) (fun number hnumber =>
      Launch.hasLength_onRow (h.covers launch hlaunch) (length_chunk_of_lt hinput hnumber) (hrows number hnumber)) _

end Rows

end MergePathSort
