import MergePathSort.Proofs.Chunk
import MergePathSort.Proofs.Merge.Cover

/-!
# The merge path

A merge from the start of two runs goes through one position in each at a time; the pairs that it goes through are its
path. If the comparison is monotone on the runs, a pair is on the path exactly if it is balanced: no element of the left
run in front of it must stand behind the next element of the right run, and the other way round. There is one balanced
pair on a diagonal, and the search finds it. So a lane starts where the lanes before it stop, and all lanes of all
blocks together take what one merge of the two runs takes.

Nothing is said here of keys: that sorted runs have a monotone comparison is for others to show. Without it the lanes
do not fit together.

## Main definitions

* `Run.Monotone`, `Run.Balanced` : monotone comparisons, and the pairs on the path.
* `Run.order` : the positions that one merge of both runs takes.

## Main results

* `Run.Balanced.unique`, `Run.balanced_leftCount` : the search finds the only balanced pair of a diagonal.
* `Run.slice_eq_chunk` : a lane takes its part of the order.
* `Segment.sources_eq_order` : the blocks of a segment take the order of its runs.
-/

namespace MergePathSort

variable {precedes : Nat → Nat → Bool}

/-! ### Merges in parts -/

/-- The positions in both runs after `count` outputs. -/
def mergeState (precedes : Nat → Nat → Bool) (leftStop rightStop : Nat) : Nat → Nat → Nat → Nat × Nat
  | 0, i, j => (i, j)
  | count + 1, i, j =>
    if takesFromLeft precedes leftStop rightStop i j then mergeState precedes leftStop rightStop count (i + 1) j
    else mergeState precedes leftStop rightStop count i (j + 1)

section Parts

variable {leftStop rightStop : Nat}

/-- A merge goes on from where its first outputs have brought it. -/
theorem mergeOrder_add (first second i j : Nat) :
    mergeOrder precedes leftStop rightStop (first + second) i j =
      mergeOrder precedes leftStop rightStop first i j ++
        mergeOrder precedes leftStop rightStop second (mergeState precedes leftStop rightStop first i j).1
          (mergeState precedes leftStop rightStop first i j).2 := by
  induction first generalizing i j with
  | zero => rw [Nat.zero_add, mergeOrder, mergeState, List.nil_append]
  | succ first ih =>
    rw [Nat.succ_add, mergeOrder, mergeOrder, mergeState]
    split
    · rw [ih, List.cons_append]
    · rw [ih, List.cons_append]

/-- Every output moves one of the two positions. -/
theorem mergeState_sum (precedes : Nat → Nat → Bool) (leftStop rightStop count i j : Nat) :
    (mergeState precedes leftStop rightStop count i j).1 + (mergeState precedes leftStop rightStop count i j).2 =
      i + j + count := by
  induction count generalizing i j with
  | zero => rfl
  | succ count ih =>
    rw [mergeState]
    split
    · rw [ih]
      omega
    · rw [ih]
      omega

/-- The first outputs of a merge. -/
theorem take_mergeOrder {count step : Nat} (i j : Nat) :
    (mergeOrder precedes leftStop rightStop count i j).take step =
      mergeOrder precedes leftStop rightStop (min count step) i j := by
  rcases Nat.le_total count step with h | h
  · rw [Nat.min_eq_left h, List.take_of_length_le (by rwa [length_mergeOrder])]
  · obtain ⟨rest, rfl⟩ := Nat.exists_eq_add_of_le h
    rw [Nat.min_eq_right h, mergeOrder_add, List.take_left' (length_mergeOrder _ _ _)]

/-- What a merge does not reach does not matter to it. -/
theorem mergeOrder_min_stops {a b count i j : Nat} (ha : i + count ≤ a) (hb : j + count ≤ b) :
    mergeOrder precedes (min leftStop a) (min rightStop b) count i j =
      mergeOrder precedes leftStop rightStop count i j := by
  induction count generalizing i j with
  | zero => rfl
  | succ count ih =>
    have htake : takesFromLeft precedes (min leftStop a) (min rightStop b) i j =
        takesFromLeft precedes leftStop rightStop i j := by
      have hi : i < min leftStop a ↔ i < leftStop := by omega
      have hj : min rightStop b ≤ j ↔ rightStop ≤ j := by omega
      simp only [takesFromLeft, hi, hj]
    rw [mergeOrder, mergeOrder, htake, ih (by omega) (by omega), ih (by omega) (by omega)]

end Parts

/-! ### Balanced pairs -/

namespace Run

/-- Where the left run stops. -/
def leftStop (run : Run) : Nat := run.leftStart + run.leftLen

/-- Where the right run stops. -/
def rightStop (run : Run) : Nat := run.rightStart + run.rightLen

/-- The comparison is monotone on the runs: if a left element may stand before a right one, then so may every left
element in front of it, and before every right element behind. -/
def Monotone (precedes : Nat → Nat → Bool) (run : Run) : Prop :=
  ∀ i i' j j', run.leftStart ≤ i' → i' ≤ i → i < run.leftStop → run.rightStart ≤ j → j ≤ j' → j' < run.rightStop →
    precedes i j = true → precedes i' j' = true

/-- A pair on the merge path: what is in front of it is merged before what is behind. -/
structure Balanced (precedes : Nat → Nat → Bool) (run : Run) (i j : Nat) : Prop where
  /-- The left position lies in the left run or behind it. -/
  leftStart_le : run.leftStart ≤ i
  /-- The left position does not lie farther behind. -/
  le_leftStop : i ≤ run.leftStop
  /-- The right position lies in the right run or behind it. -/
  rightStart_le : run.rightStart ≤ j
  /-- The right position does not lie farther behind. -/
  le_rightStop : j ≤ run.rightStop
  /-- The last left element in front may stand before the next right one. -/
  left_first : run.leftStart < i → j < run.rightStop → precedes (i - 1) j = true
  /-- The last right element in front must stand before the next left one. -/
  right_first : run.rightStart < j → i < run.leftStop → precedes i (j - 1) = false

variable {run : Run}

/-- A merge starts balanced. -/
theorem balanced_start (precedes : Nat → Nat → Bool) (run : Run) :
    run.Balanced precedes run.leftStart run.rightStart where
  leftStart_le := Nat.le_refl _
  le_leftStop := Nat.le_add_right _ _
  rightStart_le := Nat.le_refl _
  le_rightStop := Nat.le_add_right _ _
  left_first h := absurd h (Nat.lt_irrefl _)
  right_first h := absurd h (Nat.lt_irrefl _)

/-- An output from the left run keeps a merge balanced. -/
theorem Balanced.takeLeft (hmono : run.Monotone precedes) {i j : Nat} (h : run.Balanced precedes i j)
    (htake : takesFromLeft precedes run.leftStop run.rightStop i j = true) : run.Balanced precedes (i + 1) j := by
  obtain ⟨hi, hi', hj, hj', hleft, hright⟩ := h
  have hlt := lt_of_takesFromLeft htake
  refine ⟨by omega, by omega, hj, hj', fun _ hjlt => ?_, fun hjlt hilt => ?_⟩
  · simp only [takesFromLeft, Bool.and_eq_true, Bool.or_eq_true, decide_eq_true_eq] at htake
    rcases htake.2 with hdone | hprecedes
    · omega
    · exact hprecedes
  · have hbefore := hright hjlt hlt
    rw [← Bool.not_eq_true] at hbefore ⊢
    exact fun hprecedes => hbefore (hmono (i + 1) i (j - 1) (j - 1) hi (by omega) hilt (by omega) (Nat.le_refl _)
      (by omega) hprecedes)

/-- An output from the right run keeps a merge balanced. -/
theorem Balanced.takeRight (hmono : run.Monotone precedes) {i j : Nat} (h : run.Balanced precedes i j)
    (htake : takesFromLeft precedes run.leftStop run.rightStop i j = false) (hlt : j < run.rightStop) :
    run.Balanced precedes i (j + 1) := by
  obtain ⟨hi, hi', hj, hj', hleft, hright⟩ := h
  refine ⟨hi, hi', by omega, by omega, fun hilt hjlt => ?_, fun _ hilt => ?_⟩
  · exact hmono (i - 1) (i - 1) j (j + 1) (by omega) (Nat.le_refl _) (by omega) hj (by omega) hjlt
      (hleft hilt (by omega))
  · have hpast : ¬run.rightStop ≤ j := by omega
    simpa [takesFromLeft, hilt, hpast] using htake

/-- A merge stays balanced. -/
theorem Balanced.mergeState (hmono : run.Monotone precedes) {count i j : Nat} (h : run.Balanced precedes i j)
    (hcount : count ≤ (run.leftStop - i) + (run.rightStop - j)) :
    run.Balanced precedes (mergeState precedes run.leftStop run.rightStop count i j).1
      (mergeState precedes run.leftStop run.rightStop count i j).2 := by
  induction count generalizing i j with
  | zero => exact h
  | succ count ih =>
    rw [MergePathSort.mergeState]
    split
    · rename_i htake
      have hlt := lt_of_takesFromLeft htake
      exact ih (h.takeLeft hmono htake) (by omega)
    · rename_i htake
      have hlt := lt_of_not_takesFromLeft (by simpa using htake) (by omega)
      exact ih (h.takeRight hmono (by simpa using htake) hlt) (by omega)

/-- There is at most one balanced pair on a diagonal: of two, the one farther to the left would have a right element in
front that must and a left element behind that must not stand before the other. -/
theorem Balanced.le_of_sum_eq (hmono : run.Monotone precedes) {i j i' j' : Nat} (h : run.Balanced precedes i j)
    (h' : run.Balanced precedes i' j') (hsum : i + j = i' + j') : i' ≤ i := by
  rcases Nat.lt_or_ge i i' with hlt | hge
  · have hfirst := h'.left_first (by have := h.leftStart_le; omega) (by have := h.le_rightStop; omega)
    have hsecond := h.right_first (by have := h'.rightStart_le; omega) (by have := h'.le_leftStop; omega)
    have hmust := hmono (i' - 1) i j' (j - 1) h.leftStart_le (by omega) (by have := h'.le_leftStop; omega)
      h'.rightStart_le (by omega) (by have := h.le_rightStop; omega) hfirst
    rw [hmust] at hsecond
    cases hsecond
  · exact hge

theorem Balanced.unique (hmono : run.Monotone precedes) {i j i' j' : Nat} (h : run.Balanced precedes i j)
    (h' : run.Balanced precedes i' j') (hsum : i + j = i' + j') : i = i' ∧ j = j' := by
  have hle := h.le_of_sum_eq hmono h' hsum
  have hge := h'.le_of_sum_eq hmono h hsum.symm
  omega

/-- The search on a diagonal stops at a balanced pair, whatever the comparison. -/
theorem balanced_leftCount (precedes : Nat → Nat → Bool) {diag : Nat} (h : diag ≤ run.leftLen + run.rightLen) :
    run.Balanced precedes (run.leftStart + run.leftCount precedes diag)
      (run.rightStart + diag - run.leftCount precedes diag) := by
  have hbounds := run.leftCount_bounds precedes h
  obtain ⟨-, hbefore, hbehind⟩ := halve_spec
    (fun mid => precedes (run.leftStart + mid) (run.rightStart + diag - 1 - mid))
    (show diag - run.rightLen ≤ min diag run.leftLen by omega)
  change _ < run.leftCount precedes diag → precedes (run.leftStart + (run.leftCount precedes diag - 1))
    (run.rightStart + diag - 1 - (run.leftCount precedes diag - 1)) = true at hbefore
  change run.leftCount precedes diag < _ → precedes (run.leftStart + run.leftCount precedes diag)
    (run.rightStart + diag - 1 - run.leftCount precedes diag) = false at hbehind
  generalize run.leftCount precedes diag = first at *
  refine ⟨by omega, by simp only [leftStop]; omega, by omega, by simp only [rightStop]; omega, fun hi hj => ?_,
    fun hj hi => ?_⟩
  · have hfound := hbefore (by simp only [rightStop] at hj; omega)
    rw [show run.leftStart + first - 1 = run.leftStart + (first - 1) by omega,
      show run.rightStart + diag - first = run.rightStart + diag - 1 - (first - 1) by omega]
    exact hfound
  · have hfound := hbehind (by simp only [leftStop] at hi; omega)
    rw [show run.rightStart + diag - first - 1 = run.rightStart + diag - 1 - first by omega]
    exact hfound

/-! ### Lanes and blocks -/

/-- The positions that one merge of both runs takes. -/
def order (precedes : Nat → Nat → Bool) (run : Run) : List Nat :=
  mergeOrder precedes run.leftStop run.rightStop (run.leftLen + run.rightLen) run.leftStart run.rightStart

@[simp]
theorem length_order (precedes : Nat → Nat → Bool) (run : Run) :
    (run.order precedes).length = run.leftLen + run.rightLen := length_mergeOrder _ _ _

/-- A lane takes its part of the order: it starts at the balanced pair at which the merge arrives. -/
theorem slice_eq_take_drop (hmono : run.Monotone precedes) (diag step : Nat) :
    run.slice precedes diag step = ((run.order precedes).drop diag).take step := by
  rcases Nat.le_total diag (run.leftLen + run.rightLen) with hdiag | hdiag
  · have hroom : diag ≤ (run.leftStop - run.leftStart) + (run.rightStop - run.rightStart) := by
      simp only [leftStop, rightStop]
      omega
    have hreached := (run.balanced_start precedes).mergeState hmono hroom
    have hsum := mergeState_sum precedes run.leftStop run.rightStop diag run.leftStart run.rightStart
    have hbounds := run.leftCount_bounds precedes hdiag
    obtain ⟨hi, hj⟩ := (run.balanced_leftCount precedes hdiag).unique hmono hreached (by omega)
    obtain ⟨rest, hrest⟩ := Nat.exists_eq_add_of_le hdiag
    rw [order, hrest, mergeOrder_add, List.drop_left' (length_mergeOrder _ _ _), take_mergeOrder, ← hi, ← hj, slice,
      hrest, Nat.add_sub_cancel_left]
    rfl
  · have hempty : run.slice precedes diag step = [] := by
      rw [← List.length_eq_zero_iff, length_slice]
      omega
    rw [hempty, List.drop_of_length_le (by rw [length_order]; exact hdiag), List.take_nil]

/-- A comparison that is monotone on two runs is monotone on parts of them. -/
theorem Monotone.part {part : Run} (h : run.Monotone precedes) (hleft : run.leftStart ≤ part.leftStart)
    (hleftStop : part.leftStop ≤ run.leftStop) (hright : run.rightStart ≤ part.rightStart)
    (hrightStop : part.rightStop ≤ run.rightStop) : part.Monotone precedes :=
  fun i i' j j' hi' hii' hi hj hjj' hj' => h i i' j j' (by omega) hii' (by omega) (by omega) hjj' (by omega)

end Run

/-- The lanes of a block take the first positions of the order, as many as they have outputs. -/
theorem BlockShare.sources_eq_take {share : BlockShare} (hmono : share.run.Monotone precedes) (lanes : Nat) :
    share.sources precedes lanes = (share.run.order precedes).take (lanes * share.laneOutputs) := by
  have hlanes : share.laneSources precedes = chunk share.laneOutputs (share.run.order precedes) := by
    funext lane
    rw [laneSources, Run.slice_eq_take_drop hmono, chunk]
  rw [sources, hlanes, flatMap_chunk]

namespace Segment

variable {segment : Segment} {size : Nat}

/-- A merge of both runs takes every position of the segment once, whatever the comparison. -/
theorem perm_order (precedes : Nat → Nat → Bool) (h : segment.Fits size) :
    (segment.runs.order precedes).Perm (List.range' segment.start (segment.stop - segment.start)) := by
  obtain ⟨hstart, hmiddle, -⟩ := h
  have hsplit : List.range' segment.start (segment.stop - segment.start) =
      List.range' segment.start (segment.middle - segment.start) ++
        List.range' segment.middle (segment.stop - segment.middle) := by
    rw [show segment.stop - segment.start =
      (segment.middle - segment.start) + (segment.stop - segment.middle) by omega, ← List.range'_append_1,
      Nat.add_sub_cancel' hstart]
  have hleft : segment.runs.leftStop = segment.middle := Nat.add_sub_cancel' hstart
  have hright : segment.runs.rightStop = segment.stop := Nat.add_sub_cancel' hmiddle
  rw [hsplit, Run.order, hleft, hright]
  exact perm_mergeOrder rfl

/-- A block of several takes its part of the order: cutting the runs to its outputs does not change what it takes. -/
theorem blockSources_eq_chunk (h : segment.Fits size) (hmono : segment.runs.Monotone precedes)
    {stepCount laneWork : UInt32} {lanes : Nat} (hlanes : lanes * laneWork.toNat = stepCount.toNat) (block : Nat) :
    segment.blockSources precedes (.manyBlocks stepCount laneWork) lanes block =
      chunk stepCount.toNat (segment.runs.order precedes) block := by
  have hlen := length_runs h
  rw [blockSources, shareOf]
  by_cases hblock : block * stepCount.toNat < segment.stop - segment.start
  · obtain ⟨hstart, hmiddle, -⟩ := id h
    obtain ⟨hfits, hleft, hright, -, houtputs⟩ := h.part precedes laneWork.toNat hblock
    have hinside : block * stepCount.toNat ≤ segment.runs.leftLen + segment.runs.rightLen := by omega
    have hbounds := segment.runs.leftCount_bounds precedes hinside
    have hpart : (segment.part precedes stepCount.toNat laneWork.toNat block).run.Monotone precedes := by
      refine hmono.part hleft ?_ ?_ ?_
      all_goals
        simp only [part, runs, Run.leftStop, Run.rightStop] at hbounds ⊢
        omega
    simp only [if_pos hblock]
    rw [chunk, ← Run.slice_eq_take_drop hmono, BlockShare.sources_eq_take hpart, Run.order, take_mergeOrder, Run.slice,
      hlen]
    have houtputs' : min ((segment.part precedes stepCount.toNat laneWork.toNat block).run.leftLen +
        (segment.part precedes stepCount.toNat laneWork.toNat block).run.rightLen)
          (lanes * (segment.part precedes stepCount.toNat laneWork.toNat block).laneOutputs) =
        min (segment.stop - segment.start - block * stepCount.toNat) stepCount.toNat := by
      rw [← houtputs]
      simp only [part, hlanes]
    rw [houtputs']
    generalize hcount : min (segment.stop - segment.start - block * stepCount.toNat) stepCount.toNat = count
    have hle : count ≤ stepCount.toNat := by omega
    have hleftStop : (segment.part precedes stepCount.toNat laneWork.toNat block).run.leftStop =
        min (segment.runs.leftStart + segment.runs.leftLen)
          (segment.runs.leftStart + segment.runs.leftCount precedes (block * stepCount.toNat) + stepCount.toNat) := by
      simp only [part, runs, Run.leftStop] at hbounds ⊢
      omega
    have hrightStop : (segment.part precedes stepCount.toNat laneWork.toNat block).run.rightStop =
        min (segment.runs.rightStart + segment.runs.rightLen)
          (segment.runs.rightStart + block * stepCount.toNat -
            segment.runs.leftCount precedes (block * stepCount.toNat) + stepCount.toNat) := by
      simp only [part, runs, Run.rightStop] at hbounds ⊢
      omega
    rw [hleftStop, hrightStop]
    exact mergeOrder_min_stops (by simp only [part, runs]; omega) (by simp only [part, runs]; omega)
  · simp only [if_neg hblock]
    rw [chunk, List.drop_of_length_le (by rw [Run.length_order]; omega), List.take_nil]

/-- The blocks of a segment take the order of its runs. -/
theorem sources_eq_order (h : segment.Fits size) (hmono : segment.runs.Monotone precedes) {sharing : Sharing}
    {width blocks lanes : Nat} (hcovers : sharing.Covers width blocks lanes)
    (hwidth : segment.stop - segment.start ≤ width) :
    segment.sources precedes sharing blocks lanes = segment.runs.order precedes := by
  have hlen := length_runs h
  cases sharing with
  | oneBlock step =>
    obtain ⟨rfl, hlanes⟩ := hcovers
    rw [sources, List.range_one, List.flatMap_singleton, blockSources, shareOf]
    by_cases hempty : segment.stop = segment.start
    · have hnone : segment.runs.order precedes = [] := by
        rw [← List.length_eq_zero_iff, Run.length_order]
        omega
      simp [hempty, hnone]
    · simp only [ne_eq, hempty, not_false_eq_true, and_self, if_true]
      rw [BlockShare.sources_eq_take hmono, List.take_of_length_le (by rw [Run.length_order]; simp only; omega)]
  | manyBlocks stepCount laneWork =>
    obtain ⟨hlanes, hblocks⟩ := hcovers
    have hparts : segment.blockSources precedes (.manyBlocks stepCount laneWork) lanes =
        chunk stepCount.toNat (segment.runs.order precedes) :=
      funext fun block => blockSources_eq_chunk h hmono hlanes block
    rw [sources, hparts, flatMap_chunk, List.take_of_length_le (by rw [Run.length_order]; omega)]

end Segment

end MergePathSort
