import MergePathSort.Proofs.Merge.Order

/-!
# The moves of a merge

The search and the merges that read keys and check their sums succeed on runs that lie in the source, and do what
`MergePathSort.Proofs.Merge.Order` says of the question `precedesAt`: may the key at one position stand before the
key at another. The moves of a lane go to places that follow each other.

## Main results

* `Run.partition_eq_ok` : the search of a lane or a block.
* `BlockShare.laneMoves_eq_ok` : the moves of a lane.
* `Segment.share?_eq_ok` : the part of a block.
-/

namespace MergePathSort

variable {κ : Type} [KeyOrder κ]

/-- The key at position `i` may stand before the key at position `j`. -/
def precedesAt (direction : Direction) (keys : Array κ) (i j : Nat) : Bool :=
  match keys[i]?, keys[j]? with
  | some a, some b => direction.mayPrecede a b
  | _, _ => false

/-- Moves from given sources to places that follow each other. -/
def Move.listFrom (sources : List Nat) (out : Nat) : List Move :=
  (sources.zipIdx out).map fun (source, destination) => ⟨source, destination⟩

@[simp]
theorem Move.listFrom_nil (out : Nat) : Move.listFrom [] out = [] := rfl

@[simp]
theorem Move.listFrom_cons (source : Nat) (sources : List Nat) (out : Nat) :
    Move.listFrom (source :: sources) out = ⟨source, out⟩ :: Move.listFrom sources (out + 1) := rfl

/-- Moves to places that follow each other, in two parts. -/
theorem Move.listFrom_append (first second : List Nat) (out : Nat) :
    Move.listFrom (first ++ second) out = Move.listFrom first out ++ Move.listFrom second (out + first.length) := by
  rw [Move.listFrom, List.zipIdx_append, List.map_append]
  rfl

/-- Moves in any number of parts, each of which goes on where the parts before it have stopped. -/
theorem Move.listFrom_flatMap (part : Nat → List Nat) (count out : Nat) :
    Move.listFrom ((List.range count).flatMap part) out =
      (List.range count).flatMap fun k =>
        Move.listFrom (part k) (out + ((List.range k).flatMap part).length) := by
  induction count with
  | zero => rfl
  | succ count ih =>
    rw [List.range_succ, List.flatMap_append, List.flatMap_append, Move.listFrom_append, ih, List.flatMap_singleton,
      List.flatMap_singleton]

@[simp]
theorem Move.map_source_listFrom (sources : List Nat) (out : Nat) :
    (Move.listFrom sources out).map Move.source = sources := by
  rw [Move.listFrom, List.map_map]
  exact List.zipIdx_map_fst out sources

@[simp]
theorem Move.map_destination_listFrom (sources : List Nat) (out : Nat) :
    (Move.listFrom sources out).map Move.destination = List.range' out sources.length := by
  rw [Move.listFrom, List.map_map]
  exact List.zipIdx_map_snd out sources

/-- Words have products that are sizes. -/
theorem word_mul_lt_limit {a b : Nat} (ha : a ≤ 4294967296) (hb : b < 4294967296) : a * b < Size.limit :=
  calc a * b ≤ 4294967296 * 4294967295 := Nat.mul_le_mul ha (by omega)
    _ < Size.limit := by decide

/-- Two runs lie in a source of that size. -/
structure Run.Fits (run : Run) (size : Nat) : Prop where
  /-- The left run ends in the source. -/
  left_le : run.leftStart + run.leftLen ≤ size
  /-- The right run ends in the source. -/
  right_le : run.rightStart + run.rightLen ≤ size

section Reading

variable {direction : Direction} {keys : Array κ}

/-- Reading two keys and comparing them. -/
theorem compare_eq_ok {i j : Nat} (hi : i < keys.size) (hj : j < keys.size) :
    (do return direction.mayPrecede (← Buffer.read keys i) (← Buffer.read keys j) : Outcome Bool) =
      .ok (precedesAt direction keys i j) := by
  have hreadi := Buffer.read_eq_ok_iff.mpr (Array.getElem?_eq_getElem hi)
  have hreadj := Buffer.read_eq_ok_iff.mpr (Array.getElem?_eq_getElem hj)
  simp [hreadi, hreadj, precedesAt, hi, hj]

/-- The question that the search asks. -/
theorem Run.leftFirst_eq_ok {run : Run} {diag mid : Nat} (hsize : keys.size < Buffer.byteLimit)
    (hmid : mid < diag) (hleft : run.leftStart + mid < keys.size)
    (hright : run.rightStart + diag - 1 - mid < keys.size) :
    run.leftFirst keys direction diag mid =
      .ok (precedesAt direction keys (run.leftStart + mid) (run.rightStart + diag - 1 - mid)) := by
  rw [← compare_eq_ok hleft hright]
  have hlimit := Buffer.two_mul_byteLimit
  have hadd : Size.add run.leftStart mid = .ok (run.leftStart + mid) :=
    Size.add_of_lt (by omega)
  have hdiag : Size.add run.rightStart diag = .ok (run.rightStart + diag) :=
    Size.add_of_lt (by omega)
  have hone : Size.sub (run.rightStart + diag) 1 = .ok (run.rightStart + diag - 1) :=
    Size.sub_of_le (by omega)
  have hsub : Size.sub (run.rightStart + diag - 1) mid = .ok (run.rightStart + diag - 1 - mid) :=
    Size.sub_of_le (by omega)
  simp only [leftFirst, hadd, hdiag, hone, hsub, Outcome.ok_bind]

/-- The search that reads keys is the search that asks. -/
theorem Run.bisect_eq_ok {run : Run} {diag first last : Nat} (hsize : keys.size < Buffer.byteLimit)
    (hfits : run.Fits keys.size) (hfirst : diag - run.rightLen ≤ first) (hlast : last ≤ min diag run.leftLen) :
    run.bisect keys direction diag first last =
      .ok (halve (fun mid => precedesAt direction keys (run.leftStart + mid) (run.rightStart + diag - 1 - mid))
        first last) := by
  obtain ⟨hleft, hright⟩ := hfits
  have hlimit := Buffer.two_mul_byteLimit
  fun_induction halve (fun mid => precedesAt direction keys (run.leftStart + mid)
    (run.rightStart + diag - 1 - mid)) first last with
  | case1 first last hlt hgo ih =>
    have hadd : Size.add first last = .ok (first + last) := Size.add_of_lt (by omega)
    have hask : run.leftFirst keys direction diag ((first + last) / 2) =
        .ok (precedesAt direction keys (run.leftStart + (first + last) / 2)
          (run.rightStart + diag - 1 - (first + last) / 2)) :=
      Run.leftFirst_eq_ok hsize (by omega) (by omega) (by omega)
    rw [bisect, if_pos hlt, hadd, Outcome.ok_bind, hask, Outcome.ok_bind, if_pos hgo]
    exact ih (by omega) hlast
  | case2 first last hlt hgo ih =>
    have hadd : Size.add first last = .ok (first + last) := Size.add_of_lt (by omega)
    have hask : run.leftFirst keys direction diag ((first + last) / 2) =
        .ok (precedesAt direction keys (run.leftStart + (first + last) / 2)
          (run.rightStart + diag - 1 - (first + last) / 2)) :=
      Run.leftFirst_eq_ok hsize (by omega) (by omega) (by omega)
    rw [bisect, if_pos hlt, hadd, Outcome.ok_bind, hask, Outcome.ok_bind, if_neg hgo]
    exact ih hfirst (by omega)
  | case3 first last hlt => rw [bisect, if_neg hlt]

/-- The search on a diagonal of two runs in the source. -/
theorem Run.partition_eq_ok {run : Run} {diag : Nat} (hsize : keys.size < Buffer.byteLimit)
    (hfits : run.Fits keys.size) :
    run.partition keys direction diag = .ok (run.leftCount (precedesAt direction keys) diag) :=
  Run.bisect_eq_ok hsize hfits (Nat.le_refl _) (Nat.le_refl _)

/-- The question that a merge asks. -/
theorem takesLeft_eq_ok {leftStop rightStop i j : Nat} (hleft : leftStop ≤ keys.size)
    (hright : rightStop ≤ keys.size) :
    takesLeft keys direction leftStop rightStop i j =
      .ok (takesFromLeft (precedesAt direction keys) leftStop rightStop i j) := by
  unfold takesLeft takesFromLeft
  by_cases hi : i < leftStop
  · by_cases hj : rightStop ≤ j
    · simp [hi, hj]
    · rw [if_pos hi, if_neg hj, compare_eq_ok (by omega) (by omega)]
      simp [hi, hj]
  · simp [hi]

/-- The merge that reads keys takes the positions of the merge that asks. -/
theorem movesFrom_eq_ok {leftStop rightStop count i j out : Nat} (hsize : keys.size < Buffer.byteLimit)
    (hleft : leftStop ≤ keys.size) (hright : rightStop ≤ keys.size)
    (hcount : count ≤ (leftStop - i) + (rightStop - j)) (hout : out + count ≤ Size.limit) :
    movesFrom keys direction leftStop rightStop count i j out =
      .ok (Move.listFrom (mergeOrder (precedesAt direction keys) leftStop rightStop count i j) out) := by
  have hlimit := Buffer.two_mul_byteLimit
  induction count generalizing i j out with
  | zero => rfl
  | succ count ih =>
    have hfit : Size.fit out = .ok out := Size.fit_eq_ok_iff.mpr ⟨by omega, rfl⟩
    rw [movesFrom, hfit, Outcome.ok_bind, takesLeft_eq_ok hleft hright, Outcome.ok_bind, mergeOrder]
    rcases htake : takesFromLeft (precedesAt direction keys) leftStop rightStop i j
    · have hj := lt_of_not_takesFromLeft htake (by omega)
      have hnext : Size.add j 1 = .ok (j + 1) := Size.add_of_lt (by omega)
      simp only [Bool.false_eq_true, if_false, hnext, Outcome.ok_bind]
      rw [ih (by omega) (by omega)]
      rfl
    · have hi := lt_of_takesFromLeft htake
      have hnext : Size.add i 1 = .ok (i + 1) := Size.add_of_lt (by omega)
      simp only [if_true, hnext, Outcome.ok_bind]
      rw [ih (by omega) (by omega)]
      rfl

end Reading

/-! ### Lanes and blocks -/

section Parts

variable {direction : Direction} {keys : Array κ}

/-- The moves of a lane, from the place that the search has found. -/
theorem Run.moves_eq_ok {run : Run} {outStart diag step : Nat} (hsize : keys.size < Buffer.byteLimit)
    (hfits : run.Fits keys.size) (hdiag : diag ≤ run.leftLen + run.rightLen)
    (hout : outStart + (run.leftLen + run.rightLen) ≤ Size.limit) :
    run.moves keys direction outStart diag step (run.leftCount (precedesAt direction keys) diag) =
      .ok (Move.listFrom (run.slice (precedesAt direction keys) diag step) (outStart + diag)) := by
  have hbounds := run.leftCount_bounds (precedesAt direction keys) hdiag
  obtain ⟨hleft, hright⟩ := hfits
  have hlimit := Buffer.two_mul_byteLimit
  have hleftStop : Size.add run.leftStart run.leftLen = .ok (run.leftStart + run.leftLen) :=
    Size.add_of_lt (by omega)
  have hrightStop : Size.add run.rightStart run.rightLen = .ok (run.rightStart + run.rightLen) :=
    Size.add_of_lt (by omega)
  have hi : Size.add run.leftStart (run.leftCount (precedesAt direction keys) diag) =
      .ok (run.leftStart + run.leftCount (precedesAt direction keys) diag) :=
    Size.add_of_lt (by omega)
  have hdiagonal : Size.add run.rightStart diag = .ok (run.rightStart + diag) :=
    Size.add_of_lt (by omega)
  have hj : Size.sub (run.rightStart + diag) (run.leftCount (precedesAt direction keys) diag) =
      .ok (run.rightStart + diag - run.leftCount (precedesAt direction keys) diag) :=
    Size.sub_of_le (by omega)
  have htotal : run.total = .ok (run.leftLen + run.rightLen) := Size.add_of_lt (by omega)
  have hrest : Size.sub (run.leftLen + run.rightLen) diag = .ok (run.leftLen + run.rightLen - diag) :=
    Size.sub_of_le hdiag
  simp only [moves, hleftStop, hrightStop, hi, hdiagonal, hj, htotal, hrest, Outcome.ok_bind]
  exact movesFrom_eq_ok hsize hleft hright (by omega) (by omega)

/-- The moves of a lane of a block. A lane behind the end of the block's part has none. -/
theorem BlockShare.laneMoves_eq_ok {share : BlockShare} {lane : Nat} (hsize : keys.size < Buffer.byteLimit)
    (hfits : share.run.Fits keys.size) (hlane : lane * share.laneOutputs < Size.limit)
    (hout : share.outStart + (share.run.leftLen + share.run.rightLen) ≤ Size.limit) :
    share.laneMoves keys direction lane =
      .ok (Move.listFrom (share.laneSources (precedesAt direction keys) lane)
        (share.outStart + lane * share.laneOutputs)) := by
  have hdiag : Size.mul lane share.laneOutputs = .ok (lane * share.laneOutputs) :=
    Size.mul_of_lt hlane
  have hlimit := Buffer.two_mul_byteLimit
  have htotal : share.run.total = .ok (share.run.leftLen + share.run.rightLen) := by
    obtain ⟨hleft, hright⟩ := hfits
    exact Size.add_of_lt (by omega)
  simp only [laneMoves, hdiag, htotal, Outcome.ok_bind]
  by_cases hend : share.run.leftLen + share.run.rightLen ≤ lane * share.laneOutputs
  · have hempty : share.laneSources (precedesAt direction keys) lane = [] := by
      rw [← List.length_eq_zero_iff, laneSources, Run.length_slice]
      omega
    rw [if_pos hend, hempty]
    rfl
  · rw [if_neg hend, Run.partition_eq_ok hsize hfits, Outcome.ok_bind]
    exact Run.moves_eq_ok hsize hfits (by omega) hout

/-- A segment lies in a source of that size. -/
structure Segment.Fits (segment : Segment) (size : Nat) : Prop where
  /-- The left run does not stop before it starts. -/
  start_le : segment.start ≤ segment.middle
  /-- The right run does not stop before it starts. -/
  middle_le : segment.middle ≤ segment.stop
  /-- The right run ends in the source. -/
  stop_le : segment.stop ≤ size

/-- Both runs of a segment lie in the source. -/
theorem Segment.Fits.runs {segment : Segment} {size : Nat} (h : segment.Fits size) : segment.runs.Fits size := by
  obtain ⟨hstart, hmiddle, hstop⟩ := h
  constructor <;> simp only [Segment.runs] <;> omega

theorem Segment.Fits.whole_eq_ok {segment : Segment} {size : Nat} (h : segment.Fits size) :
    segment.whole = .ok segment.runs := by
  have hleft : Size.sub segment.middle segment.start = .ok (segment.middle - segment.start) :=
    Size.sub_of_le h.start_le
  have hright : Size.sub segment.stop segment.middle = .ok (segment.stop - segment.middle) :=
    Size.sub_of_le h.middle_le
  simp only [Segment.whole, hleft, hright, Outcome.ok_bind]
  rfl

theorem Segment.Fits.len_eq_ok {segment : Segment} {size : Nat} (h : segment.Fits size) :
    segment.len = .ok (segment.stop - segment.start) :=
  Size.sub_of_le (Nat.le_trans h.start_le h.middle_le)

/-- Both runs of a segment are as long as the segment. -/
theorem Segment.length_runs {segment : Segment} {size : Nat} (h : segment.Fits size) :
    segment.runs.leftLen + segment.runs.rightLen = segment.stop - segment.start := by
  obtain ⟨hstart, hmiddle, -⟩ := h
  simp only [Segment.runs]
  omega

/-- The part of a block that starts inside of its segment, if there are several of them. -/
theorem Segment.share?_inside {segment : Segment} {stepCount laneWork : UInt32} {block : Nat}
    (hsize : keys.size < Buffer.byteLimit) (hfits : segment.Fits keys.size)
    (hinside : block * stepCount.toNat < segment.stop - segment.start) :
    segment.share? keys direction (.manyBlocks stepCount laneWork) block =
      .ok (some (segment.part (precedesAt direction keys) stepCount.toNat laneWork.toNat block)) := by
  have hlimit := Buffer.two_mul_byteLimit
  have hbounds := segment.runs.leftCount_bounds (precedesAt direction keys)
    ((Segment.length_runs hfits).symm ▸ Nat.le_of_lt hinside)
  have hpartition : segment.runs.partition keys direction (block * stepCount.toNat) = .ok _ :=
    Run.partition_eq_ok hsize hfits.runs
  have hlen := hfits.len_eq_ok
  have hwhole := hfits.whole_eq_ok
  rw [part]
  generalize segment.runs.leftCount (precedesAt direction keys) (block * stepCount.toNat) = first at hbounds hpartition
  obtain ⟨hstart, hmiddle, hstop⟩ := hfits
  simp only [Segment.runs] at hbounds
  have hdiag : Size.mul block stepCount.toNat = .ok (block * stepCount.toNat) := Size.mul_of_lt (by omega)
  have hleftStart : Size.add segment.start first = .ok (segment.start + first) := Size.add_of_lt (by omega)
  have hdiagonal : Size.add segment.middle (block * stepCount.toNat) =
      .ok (segment.middle + block * stepCount.toNat) := Size.add_of_lt (by omega)
  have hrightStart : Size.sub (segment.middle + block * stepCount.toNat) first =
      .ok (segment.middle + block * stepCount.toNat - first) := Size.sub_of_le (by omega)
  have hleftLen : Size.sub segment.middle (segment.start + first) =
      .ok (segment.middle - (segment.start + first)) := Size.sub_of_le (by omega)
  have hrightLen : Size.sub segment.stop (segment.middle + block * stepCount.toNat - first) =
      .ok (segment.stop - (segment.middle + block * stepCount.toNat - first)) := Size.sub_of_le (by omega)
  have hout : Size.add segment.start (block * stepCount.toNat) =
      .ok (segment.start + block * stepCount.toNat) := Size.add_of_lt (by omega)
  simp only [share?, hdiag, hlen, if_neg (Nat.not_le.mpr hinside), hwhole, hpartition, hleftStart, hdiagonal,
    hrightStart, hleftLen, hrightLen, hout, Outcome.ok_bind]
  rfl

/-- The part of a segment that a block merges. -/
theorem Segment.share?_eq_ok {segment : Segment} {sharing : Sharing} {block : Nat}
    (hsize : keys.size < Buffer.byteLimit) (hfits : segment.Fits keys.size)
    (hblock : ∀ stepCount laneWork, sharing = .manyBlocks stepCount laneWork →
      block * stepCount.toNat < Size.limit) :
    segment.share? keys direction sharing block =
      .ok (segment.shareOf (precedesAt direction keys) sharing block) := by
  cases sharing with
  | oneBlock step =>
    have hempty : segment.isEmpty = false ↔ segment.stop ≠ segment.start := by simp [isEmpty]
    simp only [share?, shareOf, hempty, hfits.whole_eq_ok, Outcome.ok_bind]
    split <;> rfl
  | manyBlocks stepCount laneWork =>
    rw [shareOf]
    by_cases hinside : block * stepCount.toNat < segment.stop - segment.start
    · rw [if_pos hinside, Segment.share?_inside hsize hfits hinside]
    · have hdiag : Size.mul block stepCount.toNat = .ok (block * stepCount.toNat) := Size.mul_of_lt (hblock _ _ rfl)
      simp only [share?, hdiag, hfits.len_eq_ok, Outcome.ok_bind]
      rw [if_pos (Nat.not_lt.mp hinside), if_neg hinside]
      rfl

end Parts

end MergePathSort
