import MergePathSort.Device.Engine
import MergePathSort.Proofs.Device.Merges
import MergePathSort.Proofs.Device.Tiles
import MergePathSort.Proofs.Plan.Words

/-!
# Launches on a device

Every kernel has on each row of the flat buffers the effect that a launch has on a row, so a device leaves in the flat
buffers what a host leaves in the rows.

## Main results

* `Launch.exists_launch` : a launch has its effect on every row.
-/

namespace MergePathSort

variable {κ : Type} [Element κ]

/-- The extents of packed rows, as words. -/
def AxisView.words (view : AxisView) : DeviceExtents where
  axisLen := UInt32.ofNat view.axisLen
  after := 1
  rows := UInt32.ofNat view.before

/-- A number that is small enough, as a word. -/
theorem toWord_of_lt {n : Nat} (h : n < 4294967296) (problem : GridProblem) :
    toWord n problem = .ok (UInt32.ofNat n) := if_pos h

/-- The extents of packed rows are words if all rows together have a word's number of elements. -/
theorem DeviceExtents.ofView_eq_ok {view : AxisView} (hafter : view.after = 1) (haxisLen : view.axisLen < 4294967296)
    (hrows : view.before < 4294967296) : DeviceExtents.ofView view = .ok view.words := by
  have hcount : view.rowCount = .ok view.before := by
    have hlimit : 4294967296 < Size.limit := by decide
    rw [AxisView.rowCount, hafter]
    exact Size.mul_eq_ok_iff.mpr ⟨by omega, by omega⟩
  rw [DeviceExtents.ofView, toWord_of_lt haxisLen, Outcome.ok_bind, hafter, hcount,
    toWord_of_lt (show 1 < 4294967296 by decide), Outcome.ok_bind, Outcome.ok_bind, toWord_of_lt hrows]
  rfl

section Rows

variable {program : Program} {input : Array κ} {rows : Nat → TaggedRow κ UInt32}

/-- A launch has its effect on every row of the flat buffers. -/
theorem Launch.exists_launch (h : program.Fits) (memory : GroupMemory) {launch : Launch}
    (hlaunch : launch ∈ program.launches) (hwords : launch.FitsWords program.view.before)
    (hlen : program.view.axisLen ≤ 2147483648) (htotal : program.view.before * program.view.axisLen < 4294967296)
    (hinput : input.size = program.view.before * program.view.axisLen)
    (hrows : ∀ number < program.view.before, (rows number).HasLength program.view.axisLen) :
    ∃ syncs, (launch.kernel program program.view.words memory input).1.launch launch.grid
        ((TaggedRow.ofRows program.view.before rows).cells program.indexed) =
      .ok ((TaggedRow.ofRows program.view.before fun number =>
        launch.onRow program.direction (chunk program.view.axisLen input.toList number)
          (rows number)).cells program.indexed, syncs) := by
  have hbefore : program.view.before < 4294967296 :=
    Nat.lt_of_le_of_lt (Nat.le_mul_of_pos_right _ h.axisLen_pos) htotal
  have hrowsWord : (UInt32.ofNat program.view.before).toNat = program.view.before := toNat_ofNat_word hbefore
  have haxisWord : (UInt32.ofNat program.view.axisLen).toNat = program.view.axisLen := toNat_ofNat_word (by omega)
  -- The kernels' theorems speak of words.
  have hcovers : launch.Covers (UInt32.ofNat program.view.axisLen).toNat := by
    rw [haxisWord]
    exact h.covers launch hlaunch
  have hflat : (TaggedRow.ofRows program.view.before rows).HasLength
      ((UInt32.ofNat program.view.before).toNat * (UInt32.ofNat program.view.axisLen).toNat) := by
    rw [hrowsWord, haxisWord]
    exact TaggedRow.HasLength.ofRows hrows
  have htotalWord : (UInt32.ofNat program.view.before).toNat * (UInt32.ofNat program.view.axisLen).toNat <
      4294967296 := by rwa [hrowsWord, haxisWord]
  obtain ⟨stage, grid⟩ := launch
  cases stage with
  | copyIn =>
    obtain ⟨hgrid, hlanes⟩ := hwords
    obtain ⟨syncs, hsyncs⟩ := exists_launch_copyIn (UInt32.toNat_inj.mp (hgrid.trans hrowsWord.symm)) hflat
      (by rw [hrowsWord, haxisWord]; exact hinput) htotalWord hcovers hlanes
    rw [hrowsWord, haxisWord] at hsyncs
    exact ⟨syncs, hsyncs⟩
  | sortTiles tile =>
    obtain ⟨hlanes, hblocks, hinside⟩ := hcovers
    obtain ⟨syncs, hsyncs⟩ := exists_launch_tiles program.direction
      (UInt32.toNat_inj.mp (hwords.trans hrowsWord.symm)) hflat htotalWord hlanes hblocks hinside
    have htiles := TaggedRow.flatMap_chunk_get_ofRows hrows .front fun xs =>
      sortTiles program.direction tile.toNat xs grid.blocksPerRow.toNat
    simp only [DoubleBuffer.get] at htiles
    rw [hrowsWord, haxisWord, htiles] at hsyncs
    exact ⟨syncs, hsyncs⟩
  | mergeRuns pass src dst shape =>
    obtain ⟨rfl, rfl, hshape⟩ := hcovers
    obtain ⟨hgrid, hwidth, hwrap⟩ := hwords
    obtain ⟨syncs, hsyncs⟩ := exists_launch_merges program.direction src hflat htotalWord hshape
      (by rw [hrowsWord]; exact hgrid) (by rwa [haxisWord]) hwidth hwrap
    rw [hrowsWord, haxisWord, mergedRows, TaggedRow.flatMap_chunk_get_ofRows hrows src, TaggedRow.get_ofRows] at hsyncs
    refine ⟨syncs, hsyncs.trans ?_⟩
    cases src <;> rfl
  | copyBack =>
    obtain ⟨hgrid, hlanes⟩ := hwords
    obtain ⟨syncs, hsyncs⟩ := exists_launch_copyBack (UInt32.toNat_inj.mp (hgrid.trans hrowsWord.symm)) hflat
      htotalWord hcovers hlanes
    exact ⟨syncs, hsyncs⟩

end Rows

end MergePathSort
