import Mathlib
import MergePathSort.Proofs.Merge.Sequential
import MergePathSort.Proofs.Sorted.Stability

/-!
# Where a diagonal meets the merge path

A diagonal cuts the merge of two runs behind its first outputs. If both runs are in order, there is one number of left
elements at which it can be cut: the elements in front of the cut stand in front of those behind it, and the left one of
two equal elements comes first. The search along the diagonal finds this number, wherever the two runs lie in the source,
and it is the number of left elements among the first outputs of the library's stable merge.

## Main definitions

* `Run.merged` : the stable merge of two runs, with the run that each key comes from.
* `Run.Cut` : a number of left elements at which a diagonal can be cut.

## Main results

* `countP_take_merge` : the left elements among the first outputs of a stable merge.
* `Run.balanced_iff_cut` : the pairs on the merge path are the cuts of their diagonals.
* `Run.partition_cuts` : the search finds the only cut.
-/

namespace MergePathSort

variable {κ : Type} [KeyOrder κ] {direction : Direction} {keys : Array κ}

namespace Run

/-- The keys of the left run. -/
def leftKeys (run : Run) (keys : Array κ) : List κ := (keys.extract run.leftStart run.leftStop).toList

/-- The keys of the right run. -/
def rightKeys (run : Run) (keys : Array κ) : List κ := (keys.extract run.rightStart run.rightStop).toList

/-- The stable merge of both runs. Beside each key stands whether it comes from the left run. -/
def merged (run : Run) (direction : Direction) (keys : Array κ) : List (κ × Bool) :=
  List.merge ((run.leftKeys keys).map (·, true)) ((run.rightKeys keys).map (·, false)) fun a b =>
    direction.mayPrecede a.1 b.1

/-- A number of left elements at which a diagonal can be cut: there are so many, and the right run has the others; the last
left element in front of the cut may stand before the next right one, and the next left element behind it may not stand
before the last right one. -/
structure Cut (run : Run) (direction : Direction) (keys : Array κ) (diag count : Nat) : Prop where
  /-- The right run has the other elements in front of the cut. -/
  le_right : diag - run.rightLen ≤ count
  /-- The left run has that many elements, and no more than all are in front of the cut. -/
  le_left : count ≤ min diag run.leftLen
  /-- The last left element in front of the cut may stand before the next right one. -/
  left_first : ∀ k a b, count = k + 1 → (run.leftKeys keys)[k]? = some a →
    (run.rightKeys keys)[diag - count]? = some b → direction.mayPrecede a b = true
  /-- The next left element may not stand before the last right one in front of the cut. -/
  right_first : ∀ k a b, diag - count = k + 1 → (run.leftKeys keys)[count]? = some a →
    (run.rightKeys keys)[k]? = some b → direction.mayPrecede a b = false

end Run

/-! ### Counting left elements -/

omit [KeyOrder κ] in
/-- The part of a run that a merge has left. -/
theorem extract_eq_cons {start stop : Nat} (h : start < stop) (hstop : stop ≤ keys.size) :
    (keys.extract start stop).toList = keys[start] :: (keys.extract (start + 1) stop).toList := by
  rw [Array.toList_extract, Array.toList_extract, List.extract_eq_take_drop, List.extract_eq_take_drop,
    drop_take_sub_eq_cons h (by simpa using hstop), Array.getElem_toList]

omit [KeyOrder κ] in
/-- A run that a merge has used up. -/
theorem extract_eq_nil {start stop : Nat} (h : stop ≤ start) : (keys.extract start stop).toList = [] := by
  rw [Array.toList_extract, List.extract_eq_take_drop, Nat.sub_eq_zero_of_le h, List.take_zero]

/-- The left elements among the first outputs of a stable merge are as many as the merge has passed in the left run. -/
theorem countP_take_merge {leftStop rightStop : Nat} (hleft : leftStop ≤ keys.size) (hright : rightStop ≤ keys.size)
    {count i j : Nat} (hcount : count ≤ (leftStop - i) + (rightStop - j)) :
    i + ((List.merge ((keys.extract i leftStop).toList.map (·, true)) ((keys.extract j rightStop).toList.map (·, false))
        fun a b => direction.mayPrecede a.1 b.1).take count).countP Prod.snd =
      (mergeState (precedesAt direction keys) leftStop rightStop count i j).1 := by
  induction count generalizing i j with
  | zero => rfl
  | succ count ih =>
    rw [mergeState]
    cases htake : takesFromLeft (precedesAt direction keys) leftStop rightStop i j with
    | true =>
      have hi := lt_of_takesFromLeft htake
      simp only [if_true]
      rw [← ih (by omega), extract_eq_cons hi hleft, List.map_cons]
      rcases Nat.lt_or_ge j rightStop with hj | hj
      · have hle : direction.mayPrecede keys[i] keys[j] = true := by
          rw [← precedesAt_iff]
          simpa [takesFromLeft, hi, Nat.not_le.mpr hj] using htake
        rw [extract_eq_cons hj hright, List.map_cons,
          List.cons_merge_cons_pos (fun a b : κ × Bool => direction.mayPrecede a.1 b.1) _ _ hle, List.take_succ_cons,
          List.countP_cons_of_pos rfl]
        omega
      · rw [extract_eq_nil hj, List.map_nil, List.merge_right, List.merge_right, List.take_succ_cons,
          List.countP_cons_of_pos rfl]
        omega
    | false =>
      have hj := lt_of_not_takesFromLeft htake (by omega)
      simp only [Bool.false_eq_true, if_false]
      rw [← ih (by omega), extract_eq_cons hj hright, List.map_cons]
      rcases Nat.lt_or_ge i leftStop with hi | hi
      · have hle : ¬direction.mayPrecede keys[i] keys[j] = true := by
          rw [← precedesAt_iff]
          simpa [takesFromLeft, hi, Nat.not_le.mpr hj] using htake
        rw [extract_eq_cons hi hleft, List.map_cons,
          List.cons_merge_cons_neg (fun a b : κ × Bool => direction.mayPrecede a.1 b.1) _ _ hle, List.take_succ_cons,
          List.countP_cons_of_neg (by simp)]
      · rw [extract_eq_nil hi, List.map_nil, List.nil_merge, List.nil_merge, List.take_succ_cons,
          List.countP_cons_of_neg (by simp)]

/-! ### Cuts -/

/-- Two positions of the source that hold keys. -/
theorem precedesAt_eq {i j : Nat} {a b : κ} (hi : keys[i]? = some a) (hj : keys[j]? = some b) :
    precedesAt direction keys i j = direction.mayPrecede a b := by
  rw [precedesAt, hi, hj]

omit [KeyOrder κ] in
/-- An element of a run is one of the source. -/
theorem getElem?_extract_eq_some {start len k : Nat} {a : κ} (h : start + len ≤ keys.size) :
    (keys.extract start (start + len)).toList[k]? = some a ↔ k < len ∧ keys[start + k]? = some a := by
  rw [Array.getElem?_toList, Array.getElem?_extract, Nat.min_eq_left h, Nat.add_sub_cancel_left]
  split
  · simp [*]
  · simp [*]

namespace Run

variable {run : Run}

/-- The pairs on the merge path are the cuts of their diagonals. -/
theorem balanced_iff_cut (h : run.Fits keys.size) {diag count : Nat} (hcount : count ≤ diag) :
    run.Balanced (precedesAt direction keys) (run.leftStart + count) (run.rightStart + (diag - count)) ↔
      run.Cut direction keys diag count := by
  obtain ⟨hleft, hright⟩ := h
  constructor
  · rintro ⟨-, hle, -, hle', hfirst, hsecond⟩
    simp only [leftStop, rightStop] at hle hle' hfirst hsecond
    refine ⟨by omega, by omega, fun k a b hk ha hb => ?_, fun k a b hk ha hb => ?_⟩
    · obtain ⟨-, ha⟩ := (getElem?_extract_eq_some hleft).mp ha
      obtain ⟨hinside, hb⟩ := (getElem?_extract_eq_some hright).mp hb
      have hlast : run.leftStart + count - 1 = run.leftStart + k := by omega
      rw [← precedesAt_eq ha hb, ← hlast]
      exact hfirst (by omega) (by omega)
    · obtain ⟨hinside, ha⟩ := (getElem?_extract_eq_some hleft).mp ha
      obtain ⟨-, hb⟩ := (getElem?_extract_eq_some hright).mp hb
      have hlast : run.rightStart + (diag - count) - 1 = run.rightStart + k := by omega
      rw [← precedesAt_eq ha hb, ← hlast]
      exact hsecond (by omega) (by omega)
  · rintro ⟨hle, hle', hfirst, hsecond⟩
    refine ⟨by omega, by simp only [leftStop]; omega, by omega, by simp only [rightStop]; omega,
      fun hi hj => ?_, fun hj hi => ?_⟩
    · simp only [rightStop] at hj
      have hlast : run.leftStart + count - 1 = run.leftStart + (count - 1) := by omega
      have ha : keys[run.leftStart + (count - 1)]? = some _ := Array.getElem?_eq_getElem (by omega)
      have hb : keys[run.rightStart + (diag - count)]? = some _ := Array.getElem?_eq_getElem (by omega)
      rw [hlast, precedesAt_eq ha hb]
      exact hfirst (count - 1) _ _ (by omega) ((getElem?_extract_eq_some hleft).mpr ⟨by omega, ha⟩)
        ((getElem?_extract_eq_some hright).mpr ⟨by omega, hb⟩)
    · simp only [leftStop] at hi
      have hlast : run.rightStart + (diag - count) - 1 = run.rightStart + (diag - count - 1) := by omega
      have ha : keys[run.leftStart + count]? = some _ := Array.getElem?_eq_getElem (by omega)
      have hb : keys[run.rightStart + (diag - count - 1)]? = some _ := Array.getElem?_eq_getElem (by omega)
      rw [hlast, precedesAt_eq ha hb]
      exact hsecond (diag - count - 1) _ _ (by omega) ((getElem?_extract_eq_some hleft).mpr ⟨by omega, ha⟩)
        ((getElem?_extract_eq_some hright).mpr ⟨by omega, hb⟩)

/-- On a diagonal of two runs that are in order the search finds the number of left elements among the first outputs of
the stable merge of both, and this is the only number at which the diagonal can be cut. The runs may lie anywhere in the
source, and one or both may be empty. -/
theorem partition_cuts (hsize : keys.size < Buffer.byteLimit) (h : run.Fits keys.size)
    (hsorted : run.Sorted direction keys) {diag : Nat} (hdiag : diag ≤ run.leftLen + run.rightLen) :
    ∃ count, run.partition keys direction diag = .ok count ∧
      count = ((run.merged direction keys).take diag).countP Prod.snd ∧
      run.Cut direction keys diag count ∧ ∀ other, run.Cut direction keys diag other → other = count := by
  have hmono := hsorted.monotone h
  obtain ⟨hcount, -, hrest⟩ := run.leftCount_bounds (precedesAt direction keys) hdiag
  have hfound := run.balanced_leftCount (precedesAt direction keys) hdiag
  rw [Nat.add_sub_assoc hcount] at hfound
  refine ⟨_, partition_eq_ok hsize h, ?_, (balanced_iff_cut h hcount).mp hfound, fun other hother => ?_⟩
  · -- The merge from the start is balanced as well, so it arrives at the same pair.
    have hroom : diag ≤ (run.leftStop - run.leftStart) + (run.rightStop - run.rightStart) := by
      simp only [leftStop, rightStop]
      omega
    have hreached := (run.balanced_start (precedesAt direction keys)).mergeState hmono hroom
    have hsum := mergeState_sum (precedesAt direction keys) run.leftStop run.rightStop diag run.leftStart run.rightStart
    obtain ⟨hsame, -⟩ := hfound.unique hmono hreached (by omega)
    exact Nat.add_left_cancel (hsame.trans (countP_take_merge h.left_le h.right_le hroom).symm)
  · have hle := hother.le_left
    have hbalanced := (balanced_iff_cut h (by omega)).mpr hother
    obtain ⟨hsame, -⟩ := hbalanced.unique hmono hfound (by omega)
    exact Nat.add_left_cancel hsame

/-- Two runs with equal keys in a source in which the right run stands in front of the left one, with others around them:
in descending order three of the first five outputs are from the left run. -/
theorem partition_cuts_ties :
    (⟨5, 4, 1, 3⟩ : Run).Fits 10 ∧
      (⟨5, 4, 1, 3⟩ : Run).Sorted .descending (#[0, 8, 5, 2, 9, 8, 5, 5, 1, 7] : Array Int32) ∧
      (⟨5, 4, 1, 3⟩ : Run).partition (#[0, 8, 5, 2, 9, 8, 5, 5, 1, 7] : Array Int32) .descending 5 = .ok 3 ∧
      ∀ other, (⟨5, 4, 1, 3⟩ : Run).Cut .descending (#[0, 8, 5, 2, 9, 8, 5, 5, 1, 7] : Array Int32) 5 other →
        other = 3 := by
  have hfits : (⟨5, 4, 1, 3⟩ : Run).Fits 10 := ⟨by decide, by decide⟩
  have hsorted : (⟨5, 4, 1, 3⟩ : Run).Sorted .descending (#[0, 8, 5, 2, 9, 8, 5, 5, 1, 7] : Array Int32) :=
    ⟨by decide, by decide, by decide⟩
  obtain ⟨count, hcount, hmerged, -, honly⟩ := partition_cuts (by decide) hfits hsorted (show 5 ≤ 4 + 3 by decide)
  obtain rfl : count = 3 := hmerged.trans (by cbv)
  exact ⟨hfits, hsorted, hcount, honly⟩

end Run

end MergePathSort
