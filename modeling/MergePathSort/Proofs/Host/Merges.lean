import MergePathSort.Proofs.Host.Copies

/-!
# Merge passes on the host

The lanes of a merge pass carry cells from one side of a row to the other. Their moves go to places that follow each
other, from lane to lane, from block to block and from segment to segment, so that the row after some of them is
described by the positions that have been taken so far.

## Main results

* `foldlM_carry` : moves carried out one after the other.
* `laneMoves_ofTagged`, `phases_mergeBlock` : the moves of a lane, and the phases of a block.
* `exists_run_mergeBlock` : a block of a segment.
* `exists_runAll_merges` : the blocks of a pass on a row.
-/

namespace MergePathSort

variable {κ ι : Type} [IndexElement ι] {tracked : Bool} {row : TaggedRow κ ι} {size : Nat}

/-- The row when the cells at given positions of a side have been carried to the front of the other side. -/
def TaggedRow.withTaken (src : Side) (row : TaggedRow κ ι) (taken : List Nat) : TaggedRow κ ι :=
  src.pair (row.get src) (overlay (gather (row.get src) taken) (row.get src.other))

theorem TaggedRow.get_cells_withTaken (src : Side) (row : TaggedRow κ ι) (taken : List Nat) :
    ((row.withTaken src taken).cells tracked).get src = Cells.ofTagged tracked (row.get src) := by
  rw [TaggedRow.cells, DoubleBuffer.get_map, TaggedRow.withTaken, Side.get_pair]

omit [IndexElement ι] in
/-- Nothing has been carried yet. -/
theorem TaggedRow.withTaken_nil (src : Side) (row : TaggedRow κ ι) : row.withTaken src [] = row :=
  Side.pair_get src row

/-- One cell carried behind those that have been. -/
theorem carry_eq_ok (src : Side) (h : row.HasLength size) {taken : List Nat} (htaken : ∀ s ∈ taken, s < size)
    (hroom : taken.length < size) {source : Nat} (hsource : source < size) :
    carry src ((row.withTaken src taken).cells tracked) ⟨source, taken.length⟩ =
      .ok ((row.withTaken src (taken ++ [source])).cells tracked) := by
  have hsrc : (row.get src).length = size := h.get src
  have hdst : (row.get src.other).length = size := h.get src.other
  rw [← hsrc] at htaken hsource
  have hlen := length_gather htaken
  have hfetch : (Cells.ofTagged tracked (row.get src)).fetch source =
      .ok (Cells.cellOf tracked (row.get src)[source]) := Cells.fetch_ofTagged hsource
  have hplace : taken.length < (overlay (gather (row.get src) taken) (row.get src.other)).length := by
    rw [length_overlay] <;> omega
  have hgather : gather (row.get src) (taken ++ [source]) = gather (row.get src) taken ++ [(row.get src)[source]] := by
    rw [gather_append, gather_cons hsource]
    rfl
  have hstore : (Cells.ofTagged tracked (overlay (gather (row.get src) taken) (row.get src.other))).store taken.length
      (Cells.cellOf tracked (row.get src)[source]) =
        .ok (Cells.ofTagged tracked (overlay (gather (row.get src) (taken ++ [source])) (row.get src.other))) := by
    rw [Cells.store_ofTagged hplace, hgather, ← set_overlay (by omega), hlen]
  simp only [carry, TaggedRow.get_cells_withTaken, hfetch, Outcome.ok_bind]
  rw [TaggedRow.withTaken, TaggedRow.cells, Side.map_pair, Side.modify_other_pair src hstore, TaggedRow.withTaken,
    TaggedRow.cells, Side.map_pair]

/-- The moves of a lane, carried out one after the other. -/
theorem foldlM_carry (src : Side) (h : row.HasLength size) {taken sources : List Nat}
    (htaken : ∀ s ∈ taken, s < size) (hsources : ∀ s ∈ sources, s < size)
    (hroom : taken.length + sources.length ≤ size) :
    (Move.listFrom sources taken.length).foldlM (carry src) ((row.withTaken src taken).cells tracked) =
      .ok ((row.withTaken src (taken ++ sources)).cells tracked) := by
  induction sources generalizing taken with
  | nil => simp
  | cons source sources ih =>
    rw [List.length_cons] at hroom
    have hsource : source < size := hsources source (by simp)
    have htaken' : ∀ s ∈ taken ++ [source], s < size := by
      intro s hs
      rcases List.mem_append.mp hs with hs | hs
      · exact htaken s hs
      · exact List.mem_singleton.mp hs ▸ hsource
    rw [Move.listFrom_cons, List.foldlM_cons, carry_eq_ok src h htaken (by omega) hsource, Outcome.ok_bind]
    have hrest := ih htaken' (fun s hs => hsources s (by simp [hs])) (by rw [List.length_append]; simp; omega)
    rwa [List.length_append, List.length_singleton, List.append_assoc, List.singleton_append] at hrest

section Parts

variable [KeyOrder κ] {direction : Direction} {src : Side}

/-- What one lane of a block that has a part does. -/
def mergeLane (direction : Direction) (src : Side) (share : BlockShare) : RowLane κ ι :=
  fun lane (cells, scratch) => do
    let moves ← share.laneMoves (cells.get src).keys direction lane
    return (← moves.foldlM (carry src) cells, scratch)

/-- The part of a block of a pass lies in the row. -/
theorem MergeShape.Covers.shareOf {shape : MergeShape} (hcovers : shape.Covers size) {segment number : Nat}
    (hsegment : segment < shape.segments.toNat) {precedes : Nat → Nat → Bool} {share : BlockShare}
    (hshare : (segmentAt shape.width.toNat size segment).shareOf precedes shape.sharing number = some share) :
    share.run.Fits size ∧ share.outStart + (share.run.leftLen + share.run.rightLen) ≤ size ∧
      share.laneOutputs < 4294967296 ∧
      share.outStart = shape.width.toNat * segment + ((segmentAt shape.width.toNat size segment).sources precedes
        shape.sharing number shape.grid.lanes.toNat).length := by
  have hinside := hcovers.start_lt segment hsegment
  have hfits : (segmentAt shape.width.toNat size segment).Fits size := segmentAt_fits (by omega)
  obtain ⟨hrun, hend, houtputs, hout⟩ := hfits.shareOf hcovers.shared hshare
  have hstop := hfits.stop_le
  exact ⟨⟨Nat.le_trans hrun.left_le hstop, Nat.le_trans hrun.right_le hstop⟩, Nat.le_trans hend hstop, houtputs, hout⟩

variable {xs : List (κ × Tag ι)}

/-- The moves of a lane of a block that has a part. -/
theorem laneMoves_ofTagged (tracked : Bool) (direction : Direction) (hxs : xs.length < Buffer.byteLimit)
    {share : BlockShare} (hrun : share.run.Fits xs.length)
    (hend : share.outStart + (share.run.leftLen + share.run.rightLen) ≤ xs.length)
    (houtputs : share.laneOutputs < 4294967296) {lane : Nat} (hlane : lane < 4294967296) :
    share.laneMoves (Cells.ofTagged tracked xs).keys direction lane =
      .ok (Move.listFrom (share.laneSources (precedesIn direction xs) lane)
        (share.outStart + lane * share.laneOutputs)) := by
  have hkeys : (Cells.ofTagged tracked xs).keys.size = xs.length := Cells.size_keys_ofTagged
  have hlimit := Buffer.two_mul_byteLimit
  rw [← hkeys] at hxs hrun
  exact BlockShare.laneMoves_eq_ok hxs hrun (word_mul_lt_limit (by omega) houtputs) (by omega)

omit [IndexElement ι] in
/-- A lane takes positions of the row. -/
theorem mem_laneSources {share : BlockShare} (hrun : share.run.Fits size) {precedes : Nat → Nat → Bool} {lane source : Nat}
    (hsource : source ∈ share.laneSources precedes lane) : source < size := by
  have := Run.mem_slice hsource
  have := hrun.left_le
  have := hrun.right_le
  omega

/-- A block of a segment has one phase if it has a part, and else none. -/
theorem phases_mergeBlock (hxs : xs.length < Buffer.byteLimit) {shape : MergeShape} (hcovers : shape.Covers xs.length)
    {segment number : Nat} (hsegment : segment < shape.segments.toNat) (hnumber : number < shape.blocksPerSegment.toNat)
    {cells : RowCells κ ι} (hcells : cells.get src = Cells.ofTagged tracked xs) :
    (mergeBlock direction src shape xs.length segment number).phases cells =
      .ok (((segmentAt shape.width.toNat xs.length segment).shareOf (precedesIn direction xs) shape.sharing
        number).toList.map (mergeLane direction src)) := by
  have hlimit : 4294967296 < Buffer.byteLimit := by decide
  have hkeys : (Cells.ofTagged tracked xs).keys.size = xs.length := Cells.size_keys_ofTagged
  have hinside := hcovers.start_lt segment hsegment
  have hfits : (segmentAt shape.width.toNat xs.length segment).Fits xs.length := segmentAt_fits (by omega)
  have hofNumber : Segment.ofNumber segment shape.width.toNat xs.length =
      .ok (segmentAt shape.width.toNat xs.length segment) :=
    Segment.ofNumber_eq_ok hxs (by have := shape.width.toNat_lt; omega) (by omega)
  have hshare : (segmentAt shape.width.toNat xs.length segment).share? (Cells.ofTagged tracked xs).keys direction
      shape.sharing number = .ok ((segmentAt shape.width.toNat xs.length segment).shareOf
        (precedesIn direction xs) shape.sharing number) := by
    refine Segment.share?_eq_ok (hkeys ▸ hxs) (by rw [hkeys]; exact hfits) fun stepCount laneWork _ => ?_
    exact word_mul_lt_limit (by have := shape.blocksPerSegment.toNat_lt; omega) stepCount.toNat_lt
  simp only [mergeBlock, hcells, hofNumber, Outcome.ok_bind, hshare]
  cases (segmentAt shape.width.toNat xs.length segment).shareOf (precedesIn direction xs) shape.sharing number <;> rfl

/-- The lanes of a block carry what the block takes. -/
theorem forLanes_mergeLane (h : row.HasLength size) (hsize : size < Buffer.byteLimit) {share : BlockShare}
    (hfits : share.run.Fits size) (hend : share.outStart + (share.run.leftLen + share.run.rightLen) ≤ size)
    (houtputs : share.laneOutputs < 4294967296) {taken : List Nat} (htaken : ∀ s ∈ taken, s < size)
    (hstart : taken.length = share.outStart) {lanes : Nat} (hlanes : lanes < 4294967296) (scratch : Cells κ ι) :
    forLanes lanes (mergeLane direction src share) ((row.withTaken src taken).cells tracked, scratch) =
      .ok ((row.withTaken src (taken ++ share.sources (precedesIn direction (row.get src)) lanes)).cells tracked,
        scratch) := by
  obtain rfl : (row.get src).length = size := h.get src
  have hbefore : taken = taken ++ share.sources (precedesIn direction (row.get src)) 0 := by
    simp [BlockShare.sources]
  conv => lhs; rw [hbefore]
  refine forLanes_eq_ok (fun lane => ((row.withTaken src
    (taken ++ share.sources (precedesIn direction (row.get src)) lane)).cells tracked, scratch)) fun lane hlane => ?_
  simp only [mergeLane, TaggedRow.get_cells_withTaken, BlockShare.sources_succ, Outcome.ok_bind,
    laneMoves_ofTagged tracked direction hsize hfits hend houtputs (Nat.lt_trans hlane hlanes)]
  generalize hsofar : taken ++ share.sources (precedesIn direction (row.get src)) lane = sofar
  rw [← List.append_assoc, hsofar]
  have hlen : sofar.length = share.outStart +
      min (share.run.leftLen + share.run.rightLen) (lane * share.laneOutputs) := by
    rw [← hsofar, List.length_append, BlockShare.length_lanes, hstart]
  have hin : ∀ s ∈ sofar, s < (row.get src).length := by
    intro s hs
    rw [← hsofar] at hs
    rcases List.mem_append.mp hs with hs | hs
    · exact htaken s hs
    · have := BlockShare.mem_sources hs
      have := hfits.left_le
      have := hfits.right_le
      omega
  have hlaneIn : ∀ s ∈ share.laneSources (precedesIn direction (row.get src)) lane, s < (row.get src).length :=
    fun s hs => mem_laneSources hfits hs
  have hlaneLen : (share.laneSources (precedesIn direction (row.get src)) lane).length = _ := Run.length_slice _ _ _ _
  generalize share.laneSources (precedesIn direction (row.get src)) lane = sources at hlaneIn hlaneLen ⊢
  rcases Nat.eq_zero_or_pos sources.length with hempty | hpos
  · -- A lane behind the end of the part: it has no moves, wherever they would go.
    rw [List.length_eq_zero_iff.mp hempty]
    simp
  · have hout : share.outStart + lane * share.laneOutputs = sofar.length := by omega
    rw [hout, foldlM_carry src h hin hlaneIn (by omega)]
    rfl

/-- A block of a segment carries what it takes. -/
theorem exists_run_mergeBlock (h : row.HasLength size) (hsize : size < Buffer.byteLimit) {shape : MergeShape}
    (hcovers : shape.Covers size) {segment number : Nat} (hsegment : segment < shape.segments.toNat)
    (hnumber : number < shape.blocksPerSegment.toNat) {taken : List Nat} (htaken : ∀ s ∈ taken, s < size)
    (hstart : taken.length = shape.width.toNat * segment +
      ((segmentAt shape.width.toNat size segment).sources (precedesIn direction (row.get src)) shape.sharing number
        shape.grid.lanes.toNat).length) :
    ∃ used, (mergeBlock direction src shape size segment number).run ((row.withTaken src taken).cells tracked) =
      .ok ((row.withTaken src (taken ++ (segmentAt shape.width.toNat size segment).blockSources
        (precedesIn direction (row.get src)) shape.sharing shape.grid.lanes.toNat number)).cells tracked, used) := by
  obtain rfl : (row.get src).length = size := h.get src
  have hphases : (mergeBlock direction src shape (row.get src).length segment number).phases
      ((row.withTaken src taken).cells tracked) = .ok _ :=
    phases_mergeBlock hsize hcovers hsegment hnumber (TaggedRow.get_cells_withTaken src row taken)
  rcases hpart : (segmentAt shape.width.toNat (row.get src).length segment).shareOf (precedesIn direction (row.get src))
    shape.sharing number with _ | share
  · rw [hpart] at hphases
    simp only [Segment.blockSources, hpart, List.append_nil]
    exact Block.exists_run_of_phases hphases rfl
  · obtain ⟨hrun, hend, houtputs, hout⟩ := hcovers.shareOf hsegment hpart
    rw [hpart] at hphases
    have hlanes : forLanes shape.grid.lanes.toNat (mergeLane direction src share)
        ((row.withTaken src taken).cells tracked, noScratch) = .ok (_, noScratch) :=
      forLanes_mergeLane h hsize hrun hend houtputs htaken (hstart.trans hout.symm) shape.grid.lanes.toNat_lt noScratch
    simp only [Segment.blockSources, hpart]
    exact Block.exists_run_of_phases hphases ((Block.runPhases_cons hlanes []).trans rfl)

/-- The blocks of a segment carry what the segment takes. -/
theorem exists_runAll_segment (h : row.HasLength size) (hsize : size < Buffer.byteLimit) {shape : MergeShape}
    (hcovers : shape.Covers size) {segment : Nat} (hsegment : segment < shape.segments.toNat)
    {taken : List Nat} (htaken : ∀ s ∈ taken, s < size) (hstart : taken.length = shape.width.toNat * segment) :
    ∃ used, Block.runAll ((List.range shape.blocksPerSegment.toNat).map
        (mergeBlock direction src shape size segment)) ((row.withTaken src taken).cells tracked) =
      .ok ((row.withTaken src (taken ++
        shape.segmentSources (precedesIn direction (row.get src)) size segment)).cells tracked, used) := by
  have hinside := hcovers.start_lt segment hsegment
  have hbefore : taken = taken ++ (segmentAt shape.width.toNat size segment).sources
      (precedesIn direction (row.get src)) shape.sharing 0 shape.grid.lanes.toNat := by
    simp [Segment.sources]
  conv => enter [1, used, 1]; rw [hbefore]
  refine Block.exists_runAll_map_range (fun number => (row.withTaken src (taken ++
    (segmentAt shape.width.toNat size segment).sources (precedesIn direction (row.get src)) shape.sharing number
      shape.grid.lanes.toNat)).cells tracked) fun number hnumber => ?_
  rw [Segment.sources_succ, ← List.append_assoc]
  refine exists_run_mergeBlock h hsize hcovers hsegment hnumber (fun s hs => ?_) (by rw [List.length_append, hstart])
  rcases List.mem_append.mp hs with hs | hs
  · exact htaken s hs
  · have hfits : (segmentAt shape.width.toNat size segment).Fits size := segmentAt_fits (by omega)
    exact Nat.lt_of_lt_of_le (Segment.mem_sources hfits hs).2 hfits.stop_le

omit [IndexElement ι] in
/-- All that a pass takes has been carried. -/
theorem TaggedRow.withTaken_passSources (direction : Direction) (src : Side) (h : row.HasLength size)
    {shape : MergeShape} (hcovers : shape.Covers size) :
    row.withTaken src (passSources direction shape (row.get src)) =
      src.pair (row.get src) (mergePass direction shape (row.get src)) := by
  have hsrc : (row.get src).length = size := h.get src
  have hdst : (row.get src.other).length = size := h.get src.other
  have hlen : (mergePass direction shape (row.get src)).length = (row.get src).length :=
    length_mergePass (by rw [hsrc]; exact hcovers)
  rw [mergePass] at hlen ⊢
  rw [withTaken, overlay_of_length_eq (by omega)]

/-- The blocks of a merge pass on a row. -/
theorem exists_runAll_merges (direction : Direction) (src : Side) (h : row.HasLength size)
    (hsize : size < Buffer.byteLimit) {shape : MergeShape} (hcovers : shape.Covers size) :
    ∃ used, Block.runAll ((List.range shape.segments.toNat).flatMap fun segment =>
        (List.range shape.blocksPerSegment.toNat).map (mergeBlock direction src shape size segment))
        (row.cells tracked) =
      .ok (TaggedRow.cells tracked (src.pair (row.get src) (mergePass direction shape (row.get src))), used) := by
  have hsrc : (row.get src).length = size := h.get src
  have hbefore : row.withTaken src ((List.range 0).flatMap
      (shape.segmentSources (precedesIn direction (row.get src)) size)) = row := row.withTaken_nil src
  have hbehind := TaggedRow.withTaken_passSources direction src h hcovers
  rw [passSources, MergeShape.sources, hsrc] at hbehind
  rw [← hbehind]
  conv => enter [1, used, 1]; rw [← hbefore]
  refine Block.exists_runAll_flatMap_range (fun segments => (row.withTaken src ((List.range segments).flatMap
    (shape.segmentSources (precedesIn direction (row.get src)) size))).cells tracked) fun segment hsegment => ?_
  rw [List.range_succ, List.flatMap_append, List.flatMap_singleton]
  refine exists_runAll_segment h hsize hcovers hsegment (fun s hs => ?_) ?_
  · obtain ⟨number, hnumber, hs⟩ := List.mem_flatMap.mp hs
    have hinside := hcovers.start_lt number (by have := List.mem_range.mp hnumber; omega)
    have hfits : (segmentAt shape.width.toNat size number).Fits size := segmentAt_fits (by omega)
    exact Nat.lt_of_lt_of_le (Segment.mem_sources hfits hs).2 hfits.stop_le
  · rw [MergeShape.length_segments _ hcovers (by omega)]
    have hinside := hcovers.start_lt segment hsegment
    omega

end Parts

end MergePathSort
