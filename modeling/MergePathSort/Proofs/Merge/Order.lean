import MergePathSort.Merge.Share
import MergePathSort.Proofs.Outcome

/-!
# The order in which a merge takes positions

The diagonal search and the serial merge only ever ask whether one position of the source may stand before another.
Here both are functions of that question alone: `halve` is the search, `mergeOrder` the list of positions that a merge
takes, and `Segment.sources` the positions that all lanes of all blocks take, in the order of their outputs. Nothing
is assumed of the answers, so that what is said here holds for keys in any order and of any kind.

The definitions that read keys and check every sum are then equal to these functions, as long as the runs lie in the
source.

## Main definitions

* `halve`, `Run.leftCount` : the search on a diagonal.
* `mergeOrder`, `Run.slice` : the positions that a merge takes, and those of one lane.
* `BlockShare.sources`, `Segment.sources` : the positions that a block and a segment take.

## Main results

* `halve_spec`, `Run.leftCount_bounds` : where the search stops.
* `perm_mergeOrder`, `pairwise_mergeOrder` : a merge takes every position once, and in order.
-/

namespace MergePathSort

/-! ### The search -/

/-- Halves the interval from `first` to `last` until it is empty. -/
def halve (goesRight : Nat → Bool) (first last : Nat) : Nat :=
  if first < last then
    if goesRight ((first + last) / 2) then halve goesRight ((first + last) / 2 + 1) last
    else halve goesRight first ((first + last) / 2)
  else first
termination_by last - first

/-- The search stops inside its interval, behind a place from which it goes right and in front of one from which it
does not, unless it stops at an end of the interval. -/
theorem halve_spec (goesRight : Nat → Bool) {first last : Nat} (h : first ≤ last) :
    (first ≤ halve goesRight first last ∧ halve goesRight first last ≤ last) ∧
      (first < halve goesRight first last → goesRight (halve goesRight first last - 1) = true) ∧
      (halve goesRight first last < last → goesRight (halve goesRight first last) = false) := by
  fun_induction halve goesRight first last with
  | case1 first last hlt hgo ih =>
    obtain ⟨⟨hlo, hhi⟩, hbefore, hafter⟩ := ih (by omega)
    refine ⟨⟨by omega, hhi⟩, fun _ => ?_, hafter⟩
    rcases Nat.lt_or_ge ((first + last) / 2 + 1) (halve goesRight ((first + last) / 2 + 1) last) with hs | hs
    · exact hbefore hs
    · have heq : halve goesRight ((first + last) / 2 + 1) last = (first + last) / 2 + 1 := by omega
      rw [heq]
      exact hgo
  | case2 first last hlt hgo ih =>
    obtain ⟨⟨hlo, hhi⟩, hbefore, hafter⟩ := ih (by omega)
    refine ⟨⟨hlo, by omega⟩, hbefore, fun _ => ?_⟩
    rcases Nat.lt_or_ge (halve goesRight first ((first + last) / 2)) ((first + last) / 2) with hs | hs
    · exact hafter hs
    · have heq : halve goesRight first ((first + last) / 2) = (first + last) / 2 := by omega
      rw [heq]
      simpa using hgo
  | case3 first last hlt => exact ⟨⟨Nat.le_refl _, h⟩, fun hs => absurd hs (by omega), fun hs => absurd hs hlt⟩

/-- The number of elements of the left run among the first `diag` outputs, as the search finds it. -/
def Run.leftCount (precedes : Nat → Nat → Bool) (run : Run) (diag : Nat) : Nat :=
  halve (fun mid => precedes (run.leftStart + mid) (run.rightStart + diag - 1 - mid)) (diag - run.rightLen)
    (min diag run.leftLen)

/-- The search finds a number of left elements that leaves a possible number of right ones. -/
theorem Run.leftCount_bounds (precedes : Nat → Nat → Bool) {run : Run} {diag : Nat}
    (h : diag ≤ run.leftLen + run.rightLen) :
    run.leftCount precedes diag ≤ diag ∧ run.leftCount precedes diag ≤ run.leftLen ∧
      diag - run.leftCount precedes diag ≤ run.rightLen := by
  obtain ⟨⟨hlo, hhi⟩, -⟩ := halve_spec
    (fun mid => precedes (run.leftStart + mid) (run.rightStart + diag - 1 - mid))
    (show diag - run.rightLen ≤ min diag run.leftLen by omega)
  unfold leftCount
  omega

/-! ### Merging -/

/-- The next output comes from the left run. -/
def takesFromLeft (precedes : Nat → Nat → Bool) (leftStop rightStop i j : Nat) : Bool :=
  decide (i < leftStop) && (decide (rightStop ≤ j) || precedes i j)

/-- The positions of the next `count` outputs, with the runs read from `i` and `j` on. -/
def mergeOrder (precedes : Nat → Nat → Bool) (leftStop rightStop : Nat) : Nat → Nat → Nat → List Nat
  | 0, _, _ => []
  | count + 1, i, j =>
    if takesFromLeft precedes leftStop rightStop i j then
      i :: mergeOrder precedes leftStop rightStop count (i + 1) j
    else j :: mergeOrder precedes leftStop rightStop count i (j + 1)

section MergeOrder

variable {precedes : Nat → Nat → Bool} {leftStop rightStop : Nat}

@[simp]
theorem length_mergeOrder (count i j : Nat) :
    (mergeOrder precedes leftStop rightStop count i j).length = count := by
  induction count generalizing i j with
  | zero => rfl
  | succ count ih =>
    rw [mergeOrder]
    split <;> simp [ih]

/-- An output from the left run leaves room in it. -/
theorem lt_of_takesFromLeft {i j : Nat} (h : takesFromLeft precedes leftStop rightStop i j = true) :
    i < leftStop := by
  simp only [takesFromLeft, Bool.and_eq_true, decide_eq_true_eq] at h
  exact h.1

/-- An output that does not come from the left run comes from the right one, if the runs are not both used up. -/
theorem lt_of_not_takesFromLeft {i j : Nat} (h : takesFromLeft precedes leftStop rightStop i j = false)
    (hleft : 0 < (leftStop - i) + (rightStop - j)) : j < rightStop := by
  simp only [takesFromLeft, Bool.and_eq_false_iff, decide_eq_false_iff_not, Bool.or_eq_false_iff] at h
  omega

/-- A merge takes positions of the two runs. -/
theorem mem_mergeOrder {count i j x : Nat} (hcount : count ≤ (leftStop - i) + (rightStop - j))
    (hx : x ∈ mergeOrder precedes leftStop rightStop count i j) :
    (i ≤ x ∧ x < leftStop) ∨ (j ≤ x ∧ x < rightStop) := by
  induction count generalizing i j with
  | zero => simp [mergeOrder] at hx
  | succ count ih =>
    rw [mergeOrder] at hx
    split at hx
    · rename_i htake
      have hi := lt_of_takesFromLeft htake
      rcases List.mem_cons.mp hx with rfl | hx
      · exact .inl ⟨Nat.le_refl _, hi⟩
      · have := ih (by omega) hx
        omega
    · rename_i htake
      have hj := lt_of_not_takesFromLeft (by simpa using htake) (by omega)
      rcases List.mem_cons.mp hx with rfl | hx
      · exact .inr ⟨Nat.le_refl _, hj⟩
      · have := ih (by omega) hx
        omega

/-- A merge of all that is left takes every position of the two runs once. -/
theorem perm_mergeOrder {count i j : Nat} (hcount : count = (leftStop - i) + (rightStop - j)) :
    (mergeOrder precedes leftStop rightStop count i j).Perm
      (List.range' i (leftStop - i) ++ List.range' j (rightStop - j)) := by
  induction count generalizing i j with
  | zero =>
    have hi : leftStop - i = 0 := by omega
    have hj : rightStop - j = 0 := by omega
    simp [mergeOrder, hi, hj]
  | succ count ih =>
    rw [mergeOrder]
    split
    · rename_i htake
      have hi := lt_of_takesFromLeft htake
      rw [show leftStop - i = leftStop - (i + 1) + 1 by omega, List.range'_succ, List.cons_append]
      exact (ih (by omega)).cons i
    · rename_i htake
      have hj := lt_of_not_takesFromLeft (by simpa using htake) (by omega)
      rw [show rightStop - j = rightStop - (j + 1) + 1 by omega, List.range'_succ]
      exact ((ih (by omega)).cons j).trans List.perm_middle.symm

/-- A merge of two runs that are in order is in order. -/
theorem pairwise_mergeOrder {S : Nat → Nat → Prop} (htrans : ∀ a b c, S a b → S b c → S a c) {count i j : Nat}
    (hcount : count ≤ (leftStop - i) + (rightStop - j))
    (hleft : ∀ a b, i ≤ a → a < b → b < leftStop → S a b)
    (hright : ∀ a b, j ≤ a → a < b → b < rightStop → S a b)
    (hfirst : ∀ a b, i ≤ a → a < leftStop → j ≤ b → b < rightStop → precedes a b = true → S a b)
    (hsecond : ∀ a b, i ≤ a → a < leftStop → j ≤ b → b < rightStop → precedes a b = false → S b a) :
    (mergeOrder precedes leftStop rightStop count i j).Pairwise S := by
  induction count generalizing i j with
  | zero => exact List.Pairwise.nil
  | succ count ih =>
    rw [mergeOrder]
    rcases htake : takesFromLeft precedes leftStop rightStop i j
    · have hj := lt_of_not_takesFromLeft htake (by omega)
      simp only [Bool.false_eq_true, if_false, List.pairwise_cons]
      refine ⟨fun x hx => ?_, ih (by omega) hleft (fun a b ha => hright a b (by omega))
        (fun a b ha ha' hb => hfirst a b ha ha' (by omega)) (fun a b ha ha' hb => hsecond a b ha ha' (by omega))⟩
      rcases mem_mergeOrder (by omega) hx with ⟨hix, hx⟩ | ⟨hjx, hx⟩
      · have hnot : precedes i j = false := by
          have hpast : ¬rightStop ≤ j := by omega
          have hilt : i < leftStop := by omega
          simpa [takesFromLeft, hpast, hilt] using htake
        have hbefore := hsecond i j (Nat.le_refl _) (by omega) (Nat.le_refl _) hj hnot
        rcases Nat.eq_or_lt_of_le hix with rfl | hlt
        · exact hbefore
        · exact htrans _ _ _ hbefore (hleft i x (Nat.le_refl _) hlt hx)
      · exact hright j x (Nat.le_refl _) (by omega) hx
    · have hi := lt_of_takesFromLeft htake
      simp only [if_true, List.pairwise_cons]
      refine ⟨fun x hx => ?_, ih (by omega) (fun a b ha => hleft a b (by omega)) hright
        (fun a b ha => hfirst a b (by omega)) (fun a b ha => hsecond a b (by omega))⟩
      rcases mem_mergeOrder (by omega) hx with ⟨hix, hx⟩ | ⟨hjx, hx⟩
      · exact hleft i x (Nat.le_refl _) (by omega) hx
      · have hmay : precedes i j = true := by
          have hpast : ¬rightStop ≤ j := by omega
          simpa [takesFromLeft, hpast, hi] using htake
        have hbefore := hfirst i j (Nat.le_refl _) hi (Nat.le_refl _) (by omega) hmay
        rcases Nat.eq_or_lt_of_le hjx with rfl | hlt
        · exact hbefore
        · exact htrans _ _ _ hbefore (hright j x (Nat.le_refl _) hlt hx)

end MergeOrder

/-- The positions that a lane takes: those of at most `step` outputs from a diagonal on. -/
def Run.slice (precedes : Nat → Nat → Bool) (run : Run) (diag step : Nat) : List Nat :=
  mergeOrder precedes (run.leftStart + run.leftLen) (run.rightStart + run.rightLen)
    (min (run.leftLen + run.rightLen - diag) step) (run.leftStart + run.leftCount precedes diag)
    (run.rightStart + diag - run.leftCount precedes diag)

theorem Run.length_slice (precedes : Nat → Nat → Bool) (run : Run) (diag step : Nat) :
    (run.slice precedes diag step).length = min (run.leftLen + run.rightLen - diag) step :=
  length_mergeOrder _ _ _

/-- A lane takes positions of the two runs. -/
theorem Run.mem_slice {precedes : Nat → Nat → Bool} {run : Run} {diag step x : Nat}
    (hx : x ∈ run.slice precedes diag step) :
    (run.leftStart ≤ x ∧ x < run.leftStart + run.leftLen) ∨
      (run.rightStart ≤ x ∧ x < run.rightStart + run.rightLen) := by
  rcases Nat.le_total diag (run.leftLen + run.rightLen) with hdiag | hdiag
  · have hbounds := run.leftCount_bounds precedes hdiag
    have := mem_mergeOrder (by omega) hx
    omega
  · rw [slice, Nat.sub_eq_zero_of_le hdiag, Nat.zero_min] at hx
    simp [mergeOrder] at hx

/-! ### Blocks and segments -/

/-- The positions that one lane of a block takes. -/
def BlockShare.laneSources (precedes : Nat → Nat → Bool) (share : BlockShare) (lane : Nat) : List Nat :=
  share.run.slice precedes (lane * share.laneOutputs) share.laneOutputs

/-- The positions that the lanes of a block take. -/
def BlockShare.sources (precedes : Nat → Nat → Bool) (share : BlockShare) (lanes : Nat) : List Nat :=
  (List.range lanes).flatMap (share.laneSources precedes)

theorem BlockShare.sources_succ (precedes : Nat → Nat → Bool) (share : BlockShare) (lanes : Nat) :
    share.sources precedes (lanes + 1) = share.sources precedes lanes ++ share.laneSources precedes lanes := by
  rw [sources, List.range_succ, List.flatMap_append, List.flatMap_singleton]
  rfl

/-- Both runs of a segment. -/
def Segment.runs (segment : Segment) : Run where
  leftStart := segment.start
  leftLen := segment.middle - segment.start
  rightStart := segment.middle
  rightLen := segment.stop - segment.middle

/-- The part of a segment that one of several blocks merges. -/
def Segment.part (precedes : Nat → Nat → Bool) (segment : Segment) (stepCount laneWork block : Nat) :
    BlockShare :=
  let diag := block * stepCount
  let first := segment.runs.leftCount precedes diag
  { run :=
      { leftStart := segment.start + first
        leftLen := min (segment.middle - (segment.start + first)) stepCount
        rightStart := segment.middle + diag - first
        rightLen := min (segment.stop - (segment.middle + diag - first)) stepCount }
    outStart := segment.start + diag
    laneOutputs := laneWork }

/-- What a block of a segment merges, if it has a part. -/
def Segment.shareOf (precedes : Nat → Nat → Bool) (segment : Segment) (sharing : Sharing) (block : Nat) :
    Option BlockShare :=
  match sharing with
  | .oneBlock step =>
    if block = 0 ∧ segment.stop ≠ segment.start then some ⟨segment.runs, segment.start, step.toNat⟩ else none
  | .manyBlocks stepCount laneWork =>
    if block * stepCount.toNat < segment.stop - segment.start then
      some (segment.part precedes stepCount.toNat laneWork.toNat block)
    else none

/-- The positions that one block of a segment takes. -/
def Segment.blockSources (precedes : Nat → Nat → Bool) (segment : Segment) (sharing : Sharing) (lanes block : Nat) :
    List Nat :=
  match segment.shareOf precedes sharing block with
  | some share => share.sources precedes lanes
  | none => []

/-- The positions that the blocks of a segment take. -/
def Segment.sources (precedes : Nat → Nat → Bool) (segment : Segment) (sharing : Sharing) (blocks lanes : Nat) :
    List Nat :=
  (List.range blocks).flatMap (segment.blockSources precedes sharing lanes)

theorem Segment.sources_succ (precedes : Nat → Nat → Bool) (segment : Segment) (sharing : Sharing)
    (blocks lanes : Nat) :
    segment.sources precedes sharing (blocks + 1) lanes =
      segment.sources precedes sharing blocks lanes ++ segment.blockSources precedes sharing lanes blocks := by
  rw [sources, List.range_succ, List.flatMap_append, List.flatMap_singleton]
  rfl

end MergePathSort
