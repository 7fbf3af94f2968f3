import MergePathSort.Host.Stages
import MergePathSort.Proofs.Launch.Effect

/-!
# Copies on the host

The first and the last launch of a sort walk a row once: the lanes of all blocks together copy one entry after the
other to the front side. The state after so many lanes is the front side with as many of its first entries replaced.

## Main results

* `exists_runAll_copyIn`, `exists_runAll_copyBack` : the blocks of the two launches on a row.
-/

namespace MergePathSort

variable {κ ι : Type} [IndexElement ι]

/-- The buffers of a row of tagged keys. -/
def TaggedRow.cells (tracked : Bool) (row : TaggedRow κ ι) : RowCells κ ι := row.map (Cells.ofTagged tracked)

section Next

variable (tracked : Bool) (done old : List (κ × Tag ι)) {xs : List (κ × Tag ι)} {t : Nat}

/-- Storing the next cell of a list behind what is done. -/
theorem store_next (ht : t < xs.length) (h : done.length + t < old.length) :
    (Cells.ofTagged tracked (overlay (done ++ xs.take t) old)).store (done.length + t) (Cells.cellOf tracked xs[t]) =
      .ok (Cells.ofTagged tracked (overlay (done ++ xs.take (t + 1)) old)) := by
  have hlen : (done ++ xs.take t).length ≤ old.length := by
    rw [List.length_append, List.length_take]
    omega
  rw [Cells.store_ofTagged (by rw [length_overlay hlen]; exact h), set_overlay_take done old ht h]

/-- Storing the next key of a list with its index. -/
theorem store_some_next (ht : t < xs.length) (h : t < old.length) :
    (Cells.ofTagged tracked (overlay (xs.take t) old)).store t (xs[t].1, some xs[t].2.index) =
      .ok (Cells.ofTagged tracked (overlay (xs.take (t + 1)) old)) := by
  have hlen : (xs.take t).length ≤ old.length := by
    rw [List.length_take]
    omega
  have hset := set_overlay_take [] old ht (by simpa using h)
  simp only [List.nil_append, List.length_nil, Nat.zero_add] at hset
  rw [Cells.store_some_ofTagged (by rw [length_overlay hlen]; exact h), hset]

end Next

section Copies

variable {tracked : Bool} {grid : Grid} {row : TaggedRow κ ι} {xs : List (κ × Tag ι)}

/-- The row after the first `count` entries are copied to its front side. -/
def copied (tracked : Bool) (row : TaggedRow κ ι) (xs : List (κ × Tag ι)) (count : Nat) : RowCells κ ι :=
  TaggedRow.cells tracked ⟨overlay (xs.take count) row.front, row.back⟩

/-- Blocks whose lanes copy one entry each. -/
theorem exists_runAll_copies (act : Nat → RowCells κ ι → Outcome (RowCells κ ι))
    (hlen : row.front.length = xs.length)
    (hcovers : xs.length ≤ grid.blocksPerRow.toNat * grid.lanes.toNat)
    (hact : ∀ pos < xs.length, act pos (copied tracked row xs pos) = .ok (copied tracked row xs (pos + 1))) :
    ∃ used, Block.runAll ((List.range grid.blocksPerRow.toNat).map fun number =>
        (Block.once grid.lanes.toNat noScratch fun lane cells =>
          if number * grid.lanes.toNat + lane < xs.length then act (number * grid.lanes.toNat + lane) cells
          else .ok cells : RowBlock κ ι)) (row.cells tracked) =
      .ok (TaggedRow.cells tracked ⟨xs, row.back⟩, used) := by
  have hstart : copied tracked row xs (0 * grid.lanes.toNat) = row.cells tracked := by
    simp [copied]
  have hstop : copied tracked row xs (grid.blocksPerRow.toNat * grid.lanes.toNat) =
      TaggedRow.cells tracked ⟨xs, row.back⟩ := by
    rw [copied, List.take_of_length_le hcovers, overlay_of_length_eq hlen.symm]
  rw [← hstart, ← hstop]
  refine Block.exists_runAll_map_range (fun number => copied tracked row xs (number * grid.lanes.toNat))
    fun number hnumber => ?_
  rw [Nat.succ_mul]
  refine Block.exists_run_once (fun lane => copied tracked row xs (number * grid.lanes.toNat + lane))
    fun lane hlane => ?_
  split
  · rename_i hpos
    exact hact _ hpos
  · rename_i hpos
    rw [copied, copied, List.take_of_length_le (by omega), List.take_of_length_le (by omega)]

/-- The blocks of the first launch on a row. -/
theorem exists_runAll_copyIn {view : AxisView} {input : Array κ} {number : Nat} {keys : List κ}
    (hlen : row.front.length = view.axisLen) (hkeys : keys.length = view.axisLen)
    (hcovers : view.axisLen ≤ grid.blocksPerRow.toNat * grid.lanes.toNat)
    (hread : ∀ pos (hpos : pos < keys.length),
      (do Buffer.read input (← view.index number pos) : Outcome κ) = .ok keys[pos]) :
    ∃ used, Block.runAll ((List.range grid.blocksPerRow.toNat).map (copyInBlock view grid input number))
        (row.cells tracked) = .ok (TaggedRow.cells tracked ⟨numbered keys, row.back⟩, used) := by
  have hnumbered : (numbered keys : List (κ × Tag ι)).length = view.axisLen := by rw [length_numbered, hkeys]
  rw [← hnumbered] at hcovers
  unfold copyInBlock
  simp only [← hnumbered]
  refine exists_runAll_copies (fun pos cells => do
    let key ← Buffer.read input (← view.index number pos)
    cells.modify .front (·.store pos (key, some (IndexElement.ofPosition pos)))) (by omega) hcovers fun pos hpos => ?_
  have hkey := hread pos (by simpa using hpos)
  obtain ⟨place, hplace, hkey⟩ := Outcome.bind_eq_ok_iff.mp hkey
  simp only [hplace, Outcome.ok_bind, hkey]
  refine DoubleBuffer.modify_front ?_
  have hstore := store_some_next tracked row.front hpos (by omega)
  simpa [numbered, Tag.index] using hstore

/-- The blocks of the last launch on a row. -/
theorem exists_runAll_copyBack {axisLen : Nat} (h : row.HasLength axisLen)
    (hcovers : axisLen ≤ grid.blocksPerRow.toNat * grid.lanes.toNat) :
    ∃ used, Block.runAll ((List.range grid.blocksPerRow.toNat).map (copyBackBlock axisLen grid))
        (row.cells tracked) = .ok (TaggedRow.cells tracked (.both row.back), used) := by
  obtain ⟨hfront, hback⟩ := h
  subst hback
  refine exists_runAll_copies (fun pos cells => do
    let cell ← cells.back.fetch pos
    cells.modify .front (·.store pos cell)) hfront hcovers fun pos hpos => ?_
  have hfetch : (copied tracked row row.back pos).back.fetch pos = .ok (Cells.cellOf tracked row.back[pos]) :=
    Cells.fetch_ofTagged hpos
  simp only [hfetch, Outcome.ok_bind]
  refine DoubleBuffer.modify_front ?_
  simpa using store_next tracked [] row.front hpos (by simpa [hfront] using hpos)

end Copies

end MergePathSort
