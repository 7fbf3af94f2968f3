import MergePathSort.Proofs.Plan.Lowering
import MergePathSort.Proofs.Sorted.StableOrder

/-!
# A program sorts every row

After the tiles are sorted, every merge pass doubles the width of the sorted runs, on the side that it writes; the last
pass makes one run of the whole row, and the last copy brings it to the front if it is not there. So the front side of a
row holds the keys in the order of their stable sorting permutation, if they are comparable, whatever the buffers held
before.

## Main definitions

* `cellsAfter` : a row after its tiles are sorted and some passes are done.
* `Program.sortedRow` : a row after the program.

## Main results

* `Program.Sorts.launchesOnRow_eq` : it does not matter what the row held before.
* `Program.Sorts.front_sortedRow` : the row is what the tiles and the passes leave.
* `Program.Sorts.sortedRuns` : a row after some passes is sorted in runs.
* `Program.Sorts.stableOrder` : a row after the program is sorted stably.
-/

namespace MergePathSort

variable {κ ι : Type} [KeyOrder κ]

theorem launchesOnRow_append (direction : Direction) (keys : List κ) (first second : List Launch)
    (row : TaggedRow κ ι) :
    launchesOnRow direction keys (first ++ second) row =
      launchesOnRow direction keys second (launchesOnRow direction keys first row) :=
  List.foldl_append ..

/-- A row after a program, with the source position of every key. It is empty before. -/
def Program.sortedRow (program : Program) (keys : List κ) : TaggedRow κ ι :=
  launchesOnRow program.direction keys program.launches ⟨[], []⟩

/-- A row after its tiles are sorted and some passes are done. -/
def cellsAfter (direction : Direction) (tile tiles : Nat) (shapes : Nat → MergeShape) (keys : List κ) :
    Nat → List (κ × Tag ι)
  | 0 => sortTiles direction tile (numbered keys) tiles
  | pass + 1 => mergePass direction (shapes pass) (cellsAfter direction tile tiles shapes keys pass)

variable {program : Program} {tile : UInt32} {copy tiles : Grid} {passes : Nat} {shapes : Nat → MergeShape}
  {direction : Direction} {keys : List κ} {rank : κ → Int}

/-- The side that the next pass reads, after the first launches of a sort. -/
theorem get_launchesUpTo (direction : Direction) (keys : List κ) (row : TaggedRow κ ι) (pass : Nat) :
    (launchesOnRow direction keys (launchesUpTo copy tiles tile shapes pass) row).get (Side.ofPass pass) =
      cellsAfter direction tile.toNat tiles.blocksPerRow.toNat shapes keys pass := by
  induction pass with
  | zero => rfl
  | succ pass ih =>
    rw [launchesUpTo_succ, launchesOnRow_append, Side.ofPass_succ, cellsAfter, ← ih]
    exact Side.get_other_pair (Side.ofPass pass) _ _

namespace Program.Sorts

/-- The tiles reach all of a row. -/
theorem tiles_cover (h : program.Sorts tile copy tiles passes shapes) :
    program.view.axisLen ≤ tiles.blocksPerRow.toNat * tile.toNat := by
  have hmem : (⟨.sortTiles tile, tiles⟩ : Launch) ∈ program.launches := by
    rw [h.launches_eq]
    simp [sortLaunches, launchesUpTo]
  exact (h.covers _ hmem).2.1

/-- A pass covers a row. -/
theorem shape_covers (h : program.Sorts tile copy tiles passes shapes) {pass : Nat} (hpass : pass < passes) :
    (shapes pass).Covers program.view.axisLen := by
  have hmem : passLaunch shapes pass ∈ program.launches := by
    rw [h.launches_eq, sortLaunches, launchesUpTo]
    exact List.mem_append_left _ (List.mem_append_right _ (List.mem_map_of_mem (List.mem_range.mpr hpass)))
  exact (h.covers _ hmem).2.2

/-- The first two launches replace both sides, so it does not matter what a row held before. -/
theorem launchesOnRow_eq (h : program.Sorts tile copy tiles passes shapes) (keys : List κ) (row : TaggedRow κ ι) :
    launchesOnRow program.direction keys program.launches row = program.sortedRow keys := by
  rw [Program.sortedRow, h.launches_eq]
  rfl

/-- A row keeps its length. -/
theorem hasLength_sortedRow (h : program.Sorts tile copy tiles passes shapes)
    (hkeys : keys.length = program.view.axisLen) :
    TaggedRow.HasLength (program.sortedRow keys : TaggedRow κ ι) program.view.axisLen := by
  have hnumbered : TaggedRow.HasLength (⟨numbered keys, numbered keys⟩ : TaggedRow κ ι) program.view.axisLen :=
    ⟨by rw [length_numbered, hkeys], by rw [length_numbered, hkeys]⟩
  rw [← h.launchesOnRow_eq keys ⟨numbered keys, numbered keys⟩]
  exact hasLength_launchesOnRow h.covers hkeys hnumbered

/-- The last launch brings the row to the front side if it is not there. -/
theorem front_sortedRow (h : program.Sorts tile copy tiles passes shapes) (keys : List κ) :
    (program.sortedRow keys : TaggedRow κ ι).front =
      cellsAfter program.direction tile.toNat tiles.blocksPerRow.toNat shapes keys passes := by
  have hside : (launchesOnRow program.direction keys (launchesUpTo copy tiles tile shapes passes)
      (⟨[], []⟩ : TaggedRow κ ι)).get (Side.ofPass passes) = _ :=
    get_launchesUpTo program.direction keys ⟨[], []⟩ passes
  rw [← hside, Program.sortedRow, h.launches_eq, sortLaunches, launchesOnRow_append]
  by_cases hodd : passes % 2 = 1
  · rw [if_pos hodd, Side.ofPass, if_neg (by omega)]
    rfl
  · rw [if_neg hodd, Side.ofPass, if_pos (by omega)]
    rfl

/-- A row after some passes is sorted in runs. -/
theorem sortedRuns (h : program.Sorts tile copy tiles passes shapes) (hrank : direction.Ranks keys rank)
    (hkeys : keys.length = program.view.axisLen) {pass : Nat} (hpass : pass ≤ passes) :
    SortedRuns rank keys (tile.toNat * Nat.pow 2 pass)
      (cellsAfter direction tile.toNat tiles.blocksPerRow.toNat shapes keys pass : List (κ × Tag ι)) := by
  induction pass with
  | zero =>
    rw [show tile.toNat * Nat.pow 2 0 = tile.toNat from Nat.mul_one _]
    exact sortedRuns_sortTiles hrank h.tile_pos (hkeys ▸ h.tiles_cover)
  | succ pass ih =>
    have hruns := ih (by omega)
    have hdouble : tile.toNat * Nat.pow 2 (pass + 1) = 2 * (tile.toNat * Nat.pow 2 pass) := by
      rw [show Nat.pow 2 (pass + 1) = Nat.pow 2 pass * 2 from rfl]
      ac_rfl
    have hcovers : (shapes pass).Covers program.view.axisLen := h.shape_covers (by omega)
    rw [← hkeys, ← hruns.length_eq] at hcovers
    rw [hdouble, cellsAfter]
    exact hruns.mergePass hrank ((h.width_eq pass (by omega)).trans hdouble) hcovers

/-- The keys of a row stand in the order of their stable sorting permutation. -/
theorem stableOrder [RankedOrder κ] (h : program.Sorts tile copy tiles passes shapes)
    (hcomparable : KeyOrder.Comparable keys) (hkeys : keys.length = program.view.axisLen) :
    FromSource keys (program.sortedRow keys : TaggedRow κ ι).front ∧
      program.direction.StableOrder keys (positions (program.sortedRow keys : TaggedRow κ ι).front) := by
  obtain ⟨rank, hrank⟩ := hcomparable.exists_ranks program.direction
  rw [h.front_sortedRow]
  exact (h.sortedRuns hrank hkeys (Nat.le_refl passes)).stableOrder hrank (hkeys ▸ h.axisLen_le)

end Program.Sorts

end MergePathSort
