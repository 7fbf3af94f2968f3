import MergePathSort.Proofs.Merge.Cover

/-!
# Merges of a row in a larger buffer

A merge asks about the positions of its runs only. So where a row lies in a larger buffer does not matter to it: moved
to where the row starts, the searches find the same numbers, and the lanes take the same positions, counted from there.

## Main definitions

* `Run.shift`, `Segment.shift`, `BlockShare.shift` : parts of a row, moved to where the row starts.

## Main results

* `Segment.shareOf_shift` : what a block merges.
* `BlockShare.laneSources_shift` : the positions that a lane takes.
-/

namespace MergePathSort

/-- Two runs of a row that starts at `base`. -/
def Run.shift (base : Nat) (run : Run) : Run :=
  { run with leftStart := base + run.leftStart, rightStart := base + run.rightStart }

/-- A segment of a row that starts at `base`. -/
def Segment.shift (base : Nat) (segment : Segment) : Segment :=
  ⟨base + segment.start, base + segment.middle, base + segment.stop⟩

/-- What a block merges of a row that starts at `base`. -/
def BlockShare.shift (base : Nat) (share : BlockShare) : BlockShare :=
  { share with run := share.run.shift base, outStart := base + share.outStart }

/-- A segment of a row lies in the buffer. -/
theorem Segment.Fits.shift {segment : Segment} {size total base : Nat} (h : segment.Fits size)
    (hbase : base + size ≤ total) : (segment.shift base).Fits total := by
  obtain ⟨hstart, hmiddle, hstop⟩ := h
  constructor <;> simp only [Segment.shift] <;> omega

/-- Both runs of a segment are moved with it. -/
theorem Segment.runs_shift (base : Nat) (segment : Segment) :
    (segment.shift base).runs = segment.runs.shift base := by
  simp only [runs, shift, Run.shift, Nat.add_sub_add_left]

/-- A search depends on the answers that it gets. -/
theorem halve_congr {test test' : Nat → Bool} {first last : Nat}
    (h : ∀ mid, first ≤ mid → mid < last → test' mid = test mid) : halve test' first last = halve test first last := by
  fun_induction halve test first last with
  | case1 first last hlt hgo ih =>
    rw [halve, if_pos hlt, h _ (by omega) (by omega), if_pos hgo]
    exact ih fun mid hmid => h mid (by omega)
  | case2 first last hlt hgo ih =>
    rw [halve, if_pos hlt, h _ (by omega) (by omega), if_neg hgo]
    exact ih fun mid hmid hmid' => h mid hmid (by omega)
  | case3 first last hlt => rw [halve, if_neg hlt]

section Shift

/-! The buffer answers about a row that starts at `base` as the row does about its positions. -/

variable {precedes precedes' : Nat → Nat → Bool} {base size : Nat}
  (h : ∀ i < size, ∀ j < size, precedes' (base + i) (base + j) = precedes i j)
include h

/-- The search on a diagonal. -/
theorem Run.leftCount_shift {run : Run} (hfits : run.Fits size) (diag : Nat) :
    (run.shift base).leftCount precedes' diag = run.leftCount precedes diag := by
  obtain ⟨hleft, hright⟩ := hfits
  refine halve_congr fun mid (hmid : diag - run.rightLen ≤ mid) (hmid' : mid < min diag run.leftLen) => ?_
  have hanswer := h (run.leftStart + mid) (by omega) (run.rightStart + diag - 1 - mid) (by omega)
  rw [← hanswer]
  simp only [shift]
  congr 1 <;> omega

/-- The positions that a merge takes. -/
theorem mergeOrder_shift {leftStop rightStop : Nat} (hleft : leftStop ≤ size) (hright : rightStop ≤ size)
    (count i j : Nat) :
    mergeOrder precedes' (base + leftStop) (base + rightStop) count (base + i) (base + j) =
      (mergeOrder precedes leftStop rightStop count i j).map (base + ·) := by
  have htake : ∀ i j, takesFromLeft precedes' (base + leftStop) (base + rightStop) (base + i) (base + j) =
      takesFromLeft precedes leftStop rightStop i j := by
    intro i j
    have hi : base + i < base + leftStop ↔ i < leftStop := by omega
    have hj : base + rightStop ≤ base + j ↔ rightStop ≤ j := by omega
    simp only [takesFromLeft, hi, hj]
    by_cases hinside : i < leftStop ∧ j < rightStop
    · rw [h i (by omega) j (by omega)]
    · rcases Nat.lt_or_ge i leftStop with hlt | hge
      · simp [show rightStop ≤ j by omega]
      · simp [show ¬i < leftStop by omega]
  induction count generalizing i j with
  | zero => rfl
  | succ count ih =>
    rw [mergeOrder, mergeOrder, htake]
    split
    · rw [List.map_cons, ← ih]
      rfl
    · rw [List.map_cons, ← ih]
      rfl

/-- The positions that a lane takes. -/
theorem Run.slice_shift {run : Run} (hfits : run.Fits size) {diag : Nat} (hdiag : diag ≤ run.leftLen + run.rightLen)
    (step : Nat) : (run.shift base).slice precedes' diag step = (run.slice precedes diag step).map (base + ·) := by
  have hbounds := run.leftCount_bounds precedes hdiag
  rw [slice, slice, leftCount_shift h hfits diag, ← mergeOrder_shift h hfits.left_le hfits.right_le]
  simp only [shift]
  congr 1 <;> omega

theorem BlockShare.laneSources_shift {share : BlockShare} (hfits : share.run.Fits size) {lane : Nat}
    (hlane : lane * share.laneOutputs ≤ share.run.leftLen + share.run.rightLen) :
    (share.shift base).laneSources precedes' lane = (share.laneSources precedes lane).map (base + ·) :=
  Run.slice_shift h hfits hlane _

/-- What a block of a segment merges. -/
theorem Segment.shareOf_shift {segment : Segment} (hfits : segment.Fits size) (sharing : Sharing) (block : Nat) :
    (segment.shift base).shareOf precedes' sharing block =
      (segment.shareOf precedes sharing block).map (BlockShare.shift base) := by
  obtain ⟨hstart, hmiddle, hstop⟩ := id hfits
  cases sharing with
  | oneBlock step =>
    have hsame : (segment.shift base).stop ≠ (segment.shift base).start ↔ segment.stop ≠ segment.start := by
      simp only [shift]
      omega
    simp only [shareOf, hsame, runs_shift]
    split <;> rfl
  | manyBlocks stepCount laneWork =>
    have hsame : (segment.shift base).stop - (segment.shift base).start = segment.stop - segment.start := by
      simp only [shift]
      omega
    simp only [shareOf, hsame]
    by_cases hblock : block * stepCount.toNat < segment.stop - segment.start
    · have hinside : block * stepCount.toNat ≤ segment.runs.leftLen + segment.runs.rightLen := by
        simp only [runs]
        omega
      have hbounds := segment.runs.leftCount_bounds precedes hinside
      have hsearch := Run.leftCount_shift h hfits.runs (block * stepCount.toNat)
      simp only [if_pos hblock, Option.map_some, part, runs_shift, hsearch]
      generalize segment.runs.leftCount precedes (block * stepCount.toNat) = first at hbounds ⊢
      simp only [runs] at hbounds
      simp only [shift, BlockShare.shift, Run.shift, Option.some.injEq, BlockShare.mk.injEq, Run.mk.injEq,
        and_true]
      omega
    · rw [if_neg hblock, if_neg hblock, Option.map_none]

end Shift

end MergePathSort
