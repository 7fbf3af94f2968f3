import MergePathSort.Proofs.Merge.Path
import MergePathSort.Proofs.Plan.Lowering

/-!
# A shared merge is a sequential merge

The lanes of all blocks of a segment emit moves to places that follow each other, whatever the keys are. If both runs of
the segment are in order, these are the moves of one lane that merges the segment alone: the shape of a pass has outputs
for all of the segment, and every search arrives where the merge before it has stopped. Such a merge is stable.

## Main definitions

* `Direction.TotalPreorder`, `Segment.RunsSorted` : keys that a direction can order, and runs that are in order.
* `Segment.StableMerge` : the moves of a stable merge of both runs of a segment.

## Main results

* `BlockShare.moves_eq_ok`, `Segment.moves_eq_ok` : the moves of all lanes, for any keys.
* `Run.moves_eq_order` : the moves of one lane that merges alone.
* `MergeShape.moves_eq_sequential` : the lanes of a pass merge a segment as one lane does.
-/

namespace MergePathSort

variable {κ : Type} [KeyOrder κ] {direction : Direction} {keys : Array κ}

/-! ### The moves of all lanes -/

/-- The moves of the lanes of a block. -/
theorem BlockShare.moves_eq_ok {share : BlockShare} {lanes : Nat} (hsize : keys.size < Buffer.byteLimit)
    (hfits : share.run.Fits keys.size) (hlanes : lanes ≤ 4294967296) (houtputs : share.laneOutputs < 4294967296)
    (hout : share.outStart + (share.run.leftLen + share.run.rightLen) ≤ Size.limit) :
    share.moves keys direction lanes =
      .ok (Move.listFrom (share.sources (precedesAt direction keys) lanes) share.outStart) := by
  have hlane : ∀ lane ∈ List.range lanes, share.laneMoves keys direction lane =
      .ok (Move.listFrom (share.laneSources (precedesAt direction keys) lane)
        (share.outStart + (share.sources (precedesAt direction keys) lane).length)) := by
    intro lane hlane
    rw [List.mem_range] at hlane
    rw [laneMoves_eq_ok hsize hfits (word_mul_lt_limit (by omega) houtputs) hout, length_lanes]
    have hlen := Run.length_slice (precedesAt direction keys) share.run (lane * share.laneOutputs) share.laneOutputs
    rcases Nat.le_total (share.run.leftLen + share.run.rightLen) (lane * share.laneOutputs) with hend | hinside
    · -- A lane behind the end of the part: it has no moves, wherever they would go.
      have hempty : share.laneSources (precedesAt direction keys) lane = [] := by
        rw [← List.length_eq_zero_iff, laneSources, hlen]
        omega
      rw [hempty]
      rfl
    · rw [Nat.min_eq_right hinside]
  rw [moves, Outcome.mapM_eq_ok hlane, Outcome.ok_bind, ← List.flatMap_def]
  exact congrArg Except.ok (Move.listFrom_flatMap _ _ _).symm

/-- The moves of all lanes of all blocks of a segment follow each other, whatever the keys are. -/
theorem Segment.moves_eq_ok {segment : Segment} {sharing : Sharing} {width blocks lanes : Nat}
    (hsize : keys.size < Buffer.byteLimit) (hfits : segment.Fits keys.size)
    (hcovers : sharing.Covers width blocks lanes) (hblocks : blocks ≤ 4294967296) (hlanes : lanes ≤ 4294967296) :
    segment.moves keys direction sharing blocks lanes =
      .ok (Move.listFrom (segment.sources (precedesAt direction keys) sharing blocks lanes) segment.start) := by
  have hlimit := Buffer.two_mul_byteLimit
  refine Outcome.bind_eq_ok_iff.mpr ⟨_, Outcome.mapM_eq_ok (g := fun block =>
    Move.listFrom (segment.blockSources (precedesAt direction keys) sharing lanes block)
      (segment.start + (segment.sources (precedesAt direction keys) sharing block lanes).length))
    fun block hblock => ?_, ?_⟩
  · rw [List.mem_range] at hblock
    have hdiag : ∀ stepCount laneWork, sharing = .manyBlocks stepCount laneWork →
        block * stepCount.toNat < Size.limit :=
      fun stepCount _ _ => word_mul_lt_limit (by omega) stepCount.toNat_lt
    rw [share?_eq_ok hsize hfits hdiag, Outcome.ok_bind, blockSources]
    rcases hshare : segment.shareOf (precedesAt direction keys) sharing block with _ | share
    · rfl
    · obtain ⟨hrun, hend, houtputs, hout⟩ := hfits.shareOf hcovers hshare
      have hstop := hfits.stop_le
      have hinSource : share.run.Fits keys.size :=
        ⟨Nat.le_trans hrun.left_le hstop, Nat.le_trans hrun.right_le hstop⟩
      rw [← hout]
      exact BlockShare.moves_eq_ok hsize hinSource hlanes houtputs (by omega)
  · rw [← List.flatMap_def]
    exact congrArg Except.ok (Move.listFrom_flatMap _ _ _).symm

/-- The moves of one lane that merges both runs alone. -/
theorem Run.moves_eq_order {run : Run} {outStart : Nat} (hsize : keys.size < Buffer.byteLimit)
    (hfits : run.Fits keys.size) (hout : outStart + (run.leftLen + run.rightLen) ≤ Size.limit) :
    run.moves keys direction outStart 0 (run.leftLen + run.rightLen) 0 =
      .ok (Move.listFrom (run.order (precedesAt direction keys)) outStart) := by
  have hfirst : run.leftCount (precedesAt direction keys) 0 = 0 := by
    have := run.leftCount_bounds (precedesAt direction keys) (Nat.zero_le _)
    omega
  have hmoves : run.moves keys direction outStart 0 (run.leftLen + run.rightLen)
      (run.leftCount (precedesAt direction keys) 0) = _ := moves_eq_ok hsize hfits (Nat.zero_le _) hout
  rw [hfirst] at hmoves
  rw [hmoves, slice, hfirst, Nat.sub_zero, Nat.min_self]
  rfl

/-! ### Sorted runs -/

/-- The direction orders all keys of a list: of any two, one may stand before the other, and what may stand before a
key may stand before those that the key may stand before. -/
structure Direction.TotalPreorder (direction : Direction) (keys : List κ) : Prop where
  /-- Of any two keys, one may stand before the other. -/
  total : ∀ a ∈ keys, ∀ b ∈ keys, direction.mayPrecede a b = true ∨ direction.mayPrecede b a = true
  /-- Keys may stand before each other in chains. -/
  trans : ∀ a ∈ keys, ∀ b ∈ keys, ∀ c ∈ keys,
    direction.mayPrecede a b = true → direction.mayPrecede b c = true → direction.mayPrecede a c = true

instance (direction : Direction) (keys : List κ) : Decidable (direction.TotalPreorder keys) :=
  decidable_of_iff ((∀ a ∈ keys, ∀ b ∈ keys, direction.mayPrecede a b = true ∨ direction.mayPrecede b a = true) ∧
      ∀ a ∈ keys, ∀ b ∈ keys, ∀ c ∈ keys,
        direction.mayPrecede a b = true → direction.mayPrecede b c = true → direction.mayPrecede a c = true)
    ⟨fun h => ⟨h.1, h.2⟩, fun h => ⟨h.total, h.trans⟩⟩

/-- The keys of a source from one position up to another are in order. -/
def Direction.SortedBetween (direction : Direction) (keys : Array κ) (start stop : Nat) : Prop :=
  (keys.extract start stop).toList.Pairwise fun a b => direction.mayPrecede a b = true

instance (direction : Direction) (keys : Array κ) (start stop : Nat) :
    Decidable (direction.SortedBetween keys start stop) :=
  inferInstanceAs (Decidable (List.Pairwise _ _))

/-- Both runs of a segment are in order, and the direction can order all of their keys. Nothing is said of other keys of
the source. -/
structure Segment.RunsSorted (segment : Segment) (direction : Direction) (keys : Array κ) : Prop where
  /-- The keys of the segment can be ordered. -/
  preorder : direction.TotalPreorder (keys.extract segment.start segment.stop).toList
  /-- The left run is in order. -/
  left : direction.SortedBetween keys segment.start segment.middle
  /-- The right run is in order. -/
  right : direction.SortedBetween keys segment.middle segment.stop

/-- Two runs are in order, and the direction can order all of their keys. The runs may lie anywhere in the source. -/
structure Run.Sorted (run : Run) (direction : Direction) (keys : Array κ) : Prop where
  /-- The keys of both runs can be ordered. -/
  preorder : direction.TotalPreorder
    ((keys.extract run.leftStart run.leftStop).toList ++ (keys.extract run.rightStart run.rightStop).toList)
  /-- The left run is in order. -/
  left : direction.SortedBetween keys run.leftStart run.leftStop
  /-- The right run is in order. -/
  right : direction.SortedBetween keys run.rightStart run.rightStop

/-- The moves are those of a stable merge of both runs of a segment. -/
structure Segment.StableMerge (segment : Segment) (direction : Direction) (keys : Array κ) (moves : List Move) :
    Prop where
  /-- Every position of the segment is taken once. -/
  sources_perm : (moves.map Move.source).Perm (List.range' segment.start (segment.stop - segment.start))
  /-- The places of the segment are filled one after the other. -/
  destinations_eq : moves.map Move.destination = List.range' segment.start (segment.stop - segment.start)
  /-- A key may stand before those that are moved behind it. -/
  ordered : (moves.map Move.source).Pairwise fun i j => precedesAt direction keys i j = true
  /-- Keys that may stand either way round stay as they stood. -/
  stable : (moves.map Move.source).Pairwise fun i j => precedesAt direction keys j i = true → i < j

/-- Two positions of the source, as keys. -/
theorem precedesAt_iff {i j : Nat} (hi : i < keys.size) (hj : j < keys.size) :
    precedesAt direction keys i j = true ↔ direction.mayPrecede keys[i] keys[j] = true := by
  simp [precedesAt, hi, hj]

omit [KeyOrder κ] in
/-- A key between two positions of the source. -/
theorem getElem_mem_extract {start stop i : Nat} (hi : start ≤ i ∧ i < stop) (hsize : i < keys.size) :
    keys[i] ∈ (keys.extract start stop).toList := by
  rw [Array.mem_toList_iff, Array.mem_extract_iff_getElem]
  exact ⟨i - start, by omega, by simp only [Nat.add_sub_cancel' hi.1]⟩

/-- Two positions of a part that is in order. -/
theorem Direction.SortedBetween.precedesAt {start stop i j : Nat} (h : direction.SortedBetween keys start stop)
    (hi : start ≤ i) (hij : i < j) (hj : j < stop) (hsize : stop ≤ keys.size) :
    precedesAt direction keys i j = true := by
  have hlen : (keys.extract start stop).toList.length = stop - start := by
    rw [Array.length_toList, Array.size_extract, Nat.min_eq_left hsize]
  have hpair := List.pairwise_iff_getElem.mp h (i - start) (j - start) (by omega) (by omega) (by omega)
  rw [precedesAt_iff (by omega) (by omega)]
  simpa [Nat.add_sub_cancel' hi, Nat.add_sub_cancel' (Nat.le_trans hi (Nat.le_of_lt hij))] using hpair

/-- The comparison is monotone on two runs that are in order. -/
theorem Run.Sorted.monotone {run : Run} (h : run.Sorted direction keys) (hfits : run.Fits keys.size) :
    run.Monotone (precedesAt direction keys) := by
  obtain ⟨hleft, hright⟩ := hfits
  have hmemLeft : ∀ k (hk : k < keys.size), run.leftStart ≤ k → k < run.leftStop → keys[k] ∈
      (keys.extract run.leftStart run.leftStop).toList ++ (keys.extract run.rightStart run.rightStop).toList :=
    fun k hk hstart hstop => List.mem_append_left _ (getElem_mem_extract ⟨hstart, hstop⟩ hk)
  have hmemRight : ∀ k (hk : k < keys.size), run.rightStart ≤ k → k < run.rightStop → keys[k] ∈
      (keys.extract run.leftStart run.leftStop).toList ++ (keys.extract run.rightStart run.rightStop).toList :=
    fun k hk hstart hstop => List.mem_append_right _ (getElem_mem_extract ⟨hstart, hstop⟩ hk)
  intro i i' j j' hi' hii' hi hj hjj' hj' hij
  have hisize : i < keys.size := Nat.lt_of_lt_of_le hi hleft
  have hjsize : j' < keys.size := Nat.lt_of_lt_of_le hj' hright
  have hbefore : precedesAt direction keys i' j = true := by
    rcases Nat.eq_or_lt_of_le hii' with rfl | hlt
    · exact hij
    · have hfirst := h.left.precedesAt hi' hlt hi hleft
      rw [precedesAt_iff (by omega) (by omega)] at hfirst hij ⊢
      exact h.preorder.trans _ (hmemLeft i' _ hi' (by omega)) _ (hmemLeft i _ (by omega) hi) _
        (hmemRight j _ hj (by omega)) hfirst hij
  rcases Nat.eq_or_lt_of_le hjj' with rfl | hlt
  · exact hbefore
  · have hlast := h.right.precedesAt hj hlt hj' hright
    rw [precedesAt_iff (by omega) (by omega)] at hbefore hlast ⊢
    exact h.preorder.trans _ (hmemLeft i' _ hi' (by omega)) _ (hmemRight j _ hj (by omega)) _
      (hmemRight j' _ (by omega) hj') hbefore hlast

section Preorder

variable {start stop i j k : Nat} (h : direction.TotalPreorder (keys.extract start stop).toList)
  (hsize : stop ≤ keys.size)

include h hsize

theorem Direction.TotalPreorder.precedesAt_trans (hi : start ≤ i ∧ i < stop) (hj : start ≤ j ∧ j < stop)
    (hk : start ≤ k ∧ k < stop) (hij : precedesAt direction keys i j = true)
    (hjk : precedesAt direction keys j k = true) : precedesAt direction keys i k = true := by
  rw [precedesAt_iff (by omega) (by omega)] at hij hjk ⊢
  exact h.trans _ (getElem_mem_extract hi _) _ (getElem_mem_extract hj _) _ (getElem_mem_extract hk _) hij hjk

theorem Direction.TotalPreorder.precedesAt_of_not (hi : start ≤ i ∧ i < stop) (hj : start ≤ j ∧ j < stop)
    (hij : precedesAt direction keys i j = false) : precedesAt direction keys j i = true := by
  rw [← Bool.not_eq_true, precedesAt_iff (by omega) (by omega)] at hij
  rw [precedesAt_iff (by omega) (by omega)]
  exact (h.total _ (getElem_mem_extract hi _) _ (getElem_mem_extract hj _)).resolve_left hij

end Preorder

namespace Segment.RunsSorted

variable {segment : Segment} (h : segment.RunsSorted direction keys) (hfits : segment.Fits keys.size)

include h hfits

/-- The runs of a segment are sorted as two runs. -/
theorem runs : segment.runs.Sorted direction keys := by
  obtain ⟨hstart, hmiddle, -⟩ := hfits
  have hleft : segment.runs.leftStop = segment.middle := Nat.add_sub_cancel' hstart
  have hright : segment.runs.rightStop = segment.stop := Nat.add_sub_cancel' hmiddle
  have hsplit : keys.extract segment.start segment.middle ++ keys.extract segment.middle segment.stop =
      keys.extract segment.start segment.stop := by
    rw [Array.extract_append_extract, Nat.min_eq_left hstart, Nat.max_eq_right hmiddle]
  refine ⟨?_, by rw [hleft]; exact h.left, by rw [hright]; exact h.right⟩
  rw [hleft, hright, ← Array.toList_append]
  exact (congrArg (fun part => direction.TotalPreorder (Array.toList part)) hsplit).mpr h.preorder

/-- The comparison is monotone on the runs of a segment that are in order. -/
theorem monotone : segment.runs.Monotone (precedesAt direction keys) := (h.runs hfits).monotone hfits.runs

/-- One merge of both runs takes their positions in order, and ties as they stood. -/
theorem pairwise_order : (segment.runs.order (precedesAt direction keys)).Pairwise fun i j =>
    ((segment.start ≤ i ∧ i < segment.stop) ∧ segment.start ≤ j ∧ j < segment.stop) ∧
      precedesAt direction keys i j = true ∧ (precedesAt direction keys j i = true → i < j) := by
  obtain ⟨hstart, hmiddle, hstop⟩ := hfits
  refine pairwise_mergeOrder (fun i j k hij hjk => ?_) ?_ (fun i j hi hij hj => ?_) (fun i j hi hij hj => ?_)
    (fun i j hi hi' hj hj' hij => ?_) fun i j hi hi' hj hj' hij => ?_
  · obtain ⟨⟨hi, hj⟩, hij, hstable⟩ := hij
    obtain ⟨⟨-, hk⟩, hjk, hstable'⟩ := hjk
    refine ⟨⟨hi, hk⟩, h.preorder.precedesAt_trans hstop hi hj hk hij hjk, fun hki => ?_⟩
    have hfirst := hstable (h.preorder.precedesAt_trans hstop hj hk hi hjk hki)
    have hsecond := hstable' (h.preorder.precedesAt_trans hstop hk hi hj hki hij)
    exact Nat.lt_trans hfirst hsecond
  all_goals simp only [Segment.runs, Run.leftStop, Run.rightStop] at *
  · omega
  · exact ⟨by omega, h.left.precedesAt hi hij (by omega) (by omega), fun _ => hij⟩
  · exact ⟨by omega, h.right.precedesAt hi hij (by omega) (by omega), fun _ => hij⟩
  · exact ⟨by omega, hij, fun _ => by omega⟩
  · refine ⟨by omega, h.preorder.precedesAt_of_not hstop (by omega) (by omega) hij, fun hji => ?_⟩
    rw [hij] at hji
    cases hji

/-- One merge of both runs is stable. -/
theorem stableMerge : segment.StableMerge direction keys
    (Move.listFrom (segment.runs.order (precedesAt direction keys)) segment.start) := by
  have hpairs := h.pairwise_order hfits
  constructor
  · rw [Move.map_source_listFrom]
    exact Segment.perm_order _ hfits
  · rw [Move.map_destination_listFrom, Run.length_order, Segment.length_runs hfits]
  · rw [Move.map_source_listFrom]
    exact hpairs.imp fun hij => hij.2.1
  · rw [Move.map_source_listFrom]
    exact hpairs.imp fun hij => hij.2.2

end Segment.RunsSorted

/-- The lanes of a pass merge a segment as one lane does that merges it alone: the moves of all blocks, block by block
and lane by lane, are those of a single merge from the first diagonal to the last, which is stable. This holds for every
configuration and every width for which the shape of a pass is made, whether one block merges a segment or several do,
and for every segment of a row of any size, also for those that are cut off at its end. -/
theorem MergeShape.moves_eq_sequential {config : Config} {width size rows : Nat} {shape : MergeShape}
    (hshape : MergeShape.ofWidth width size rows config.limits config.tuning = .ok shape) {number : Nat}
    (hnumber : number < shape.segments.toNat) {src : Array κ} (hsrc : src.size = size)
    (hsize : size < Buffer.byteLimit) (direction : Direction) :
    ∃ segment run total moves, Segment.ofNumber number width size = .ok segment ∧ segment.whole = .ok run ∧
      run.total = .ok total ∧ run.moves src direction segment.start 0 total 0 = .ok moves ∧
      (segment.RunsSorted direction src →
        segment.moves src direction shape.sharing shape.blocksPerSegment.toNat shape.grid.lanes.toNat = .ok moves ∧
          segment.StableMerge direction src moves) := by
  subst hsrc
  have hmade := MergeShape.made_of_ofWidth hshape
  have hstart := hmade.start_lt hnumber
  have hlimit : 2 * Buffer.byteLimit = Size.limit := by decide
  have hword := shape.width.toNat_lt
  rw [hmade.width_eq] at hword
  have hwidth : width < Buffer.byteLimit := Nat.lt_trans hword (by decide)
  have hsegment := Segment.ofNumber_eq_ok hsize hwidth (Nat.le_of_lt hstart)
  have hfits : (segmentAt width src.size number).Fits src.size := segmentAt_fits (Nat.le_of_lt hstart)
  have hshort : (segmentAt width src.size number).stop - (segmentAt width src.size number).start ≤ width := by
    simp only [segmentAt]
    omega
  generalize segmentAt width src.size number = segment at hsegment hfits hshort
  have hlen := Segment.length_runs hfits
  have hstop := hfits.stop_le
  have hroom : segment.start + (segment.runs.leftLen + segment.runs.rightLen) ≤ Size.limit := by
    have := hfits.start_le
    have := hfits.middle_le
    omega
  have htotal : segment.runs.total = .ok (segment.runs.leftLen + segment.runs.rightLen) :=
    Size.add_eq_ok_iff.mpr ⟨by omega, rfl⟩
  refine ⟨segment, _, _, _, hsegment, hfits.whole_eq_ok, htotal, Run.moves_eq_order hsize hfits.runs hroom,
    fun hsorted => ⟨?_, hsorted.stableMerge hfits⟩⟩
  rw [Segment.moves_eq_ok hsize hfits hmade.shared (Nat.le_of_lt shape.blocksPerSegment.toNat_lt)
    (Nat.le_of_lt shape.grid.lanes.toNat_lt),
    Segment.sources_eq_order hfits (hsorted.monotone hfits) hmade.shared hshort]

/-- The last of two segments, cut off behind six of its eight places, with a key that occurs in both runs: two blocks of
two lanes merge it, two outputs to a lane. -/
theorem MergeShape.moves_cut_off_segment :
    ∃ config shape, MergeShape.ofWidth 8 14 1 (config : Config).limits config.tuning = .ok shape ∧
      shape.sharing = .manyBlocks 4 2 ∧ ∃ moves,
      (⟨8, 12, 14⟩ : Segment).moves (#[7, 7, 7, 7, 0, 0, 0, 0, 1, 3, 3, 5, 3, 4] : Array Int32) .ascending
        shape.sharing shape.blocksPerSegment.toNat shape.grid.lanes.toNat = .ok moves ∧
      (⟨8, 4, 12, 2⟩ : Run).moves (#[7, 7, 7, 7, 0, 0, 0, 0, 1, 3, 3, 5, 3, 4] : Array Int32) .ascending 8 0 6 0 =
        .ok moves ∧
      moves.map Move.source = [8, 9, 10, 12, 13, 11] := by
  have hshape : MergeShape.ofWidth 8 14 1
      ({ limits := { maxLanes := 2 }, tuning := { tile := 2, laneWork := 2 } } : Config).limits
      ({ limits := { maxLanes := 2 }, tuning := { tile := 2, laneWork := 2 } } : Config).tuning =
        .ok ⟨⟨2, 2, 2⟩, 8, 2, .manyBlocks 4 2⟩ := rfl
  have hnumber : 1 < (⟨⟨2, 2, 2⟩, 8, 2, .manyBlocks 4 2⟩ : MergeShape).segments.toNat := by decide
  have hsrc : (#[7, 7, 7, 7, 0, 0, 0, 0, 1, 3, 3, 5, 3, 4] : Array Int32).size = 14 := rfl
  obtain ⟨segment, run, total, moves, hsegment, hrun, htotal, hmoves, hsorted⟩ :=
    MergeShape.moves_eq_sequential hshape hnumber hsrc (by decide) .ascending
  obtain rfl : (⟨8, 12, 14⟩ : Segment) = segment := Except.ok.inj hsegment
  obtain rfl : (⟨8, 4, 12, 2⟩ : Run) = run := Except.ok.inj hrun
  obtain rfl : 6 = total := Except.ok.inj htotal
  have hruns : (⟨8, 12, 14⟩ : Segment).RunsSorted .ascending
      (#[7, 7, 7, 7, 0, 0, 0, 0, 1, 3, 3, 5, 3, 4] : Array Int32) :=
    ⟨by decide, by decide, by decide⟩
  have hserial : (⟨8, 4, 12, 2⟩ : Run).moves (#[7, 7, 7, 7, 0, 0, 0, 0, 1, 3, 3, 5, 3, 4] : Array Int32) .ascending 8
      0 6 0 = .ok [⟨8, 8⟩, ⟨9, 9⟩, ⟨10, 10⟩, ⟨12, 11⟩, ⟨13, 12⟩, ⟨11, 13⟩] := rfl
  obtain rfl := Except.ok.inj (hmoves.symm.trans hserial)
  exact ⟨_, _, hshape, rfl, _, (hsorted hruns).1, hmoves, rfl⟩

end MergePathSort
