import MergePathSort.Proofs.Chunk
import MergePathSort.Proofs.Merge.Moves

/-!
# The lanes of a merge pass cover the row

The lanes of a block have as many outputs as its part, the blocks of a segment as many as the segment, and the
segments of a pass as many as the row, so that the outputs follow each other without a gap. This is a matter of
counting: it holds for every comparison, also one under which the lanes take positions twice.

## Main definitions

* `Sharing.Covers`, `MergeShape.Covers` : a pass has outputs for a whole segment and a whole row.
* `Sharing.NoWrap` : the starts of blocks and lanes are words.
* `segmentAt`, `MergeShape.sources` : the segments of a row, and the positions that a pass takes.

## Main results

* `Segment.length_blocks`, `MergeShape.length_segments` : the outputs of the first blocks and of the first segments.
* `MergeShape.mem_sources` : a pass takes positions of the row.
-/

namespace MergePathSort

/-- The lanes and blocks of a segment have room for `width` outputs: one block hands them all to its lanes, or every
block's lanes take exactly its outputs. -/
def Sharing.Covers (sharing : Sharing) (width blocks lanes : Nat) : Prop :=
  match sharing with
  | .oneBlock step => blocks = 1 ∧ width ≤ lanes * step.toNat
  | .manyBlocks stepCount laneWork => lanes * laneWork.toNat = stepCount.toNat ∧ width ≤ blocks * stepCount.toNat

/-- A segment that is not empty takes lanes. -/
theorem Sharing.Covers.lanes_pos {sharing : Sharing} {width blocks lanes : Nat} (h : sharing.Covers width blocks lanes)
    (hwidth : 0 < width) : 0 < lanes := by
  cases sharing with
  | oneBlock step => exact Nat.pos_of_mul_pos_right (Nat.lt_of_lt_of_le hwidth h.2)
  | manyBlocks stepCount laneWork =>
    have hstepCount : 0 < stepCount.toNat := Nat.pos_of_mul_pos_left (Nat.lt_of_lt_of_le hwidth h.2)
    exact Nat.pos_of_mul_pos_right (h.1 ▸ hstepCount)

/-- The outputs before a block of a segment and before a lane of a block are counted by words. -/
def Sharing.NoWrap (sharing : Sharing) (blocks lanes : Nat) : Prop :=
  match sharing with
  | .oneBlock step => blocks = 1 ∧ ∀ lane < lanes, lane * step.toNat < 4294967296
  | .manyBlocks stepCount laneWork =>
    (∀ block < blocks, block * stepCount.toNat < 4294967296) ∧ ∀ lane < lanes, lane * laneWork.toNat < 4294967296

variable {precedes : Nat → Nat → Bool}

/-! ### Blocks -/

/-- The outputs of the first lanes of a block. -/
theorem BlockShare.length_lanes (share : BlockShare) (precedes : Nat → Nat → Bool) (lanes : Nat) :
    (share.sources precedes lanes).length =
      min (share.run.leftLen + share.run.rightLen) (lanes * share.laneOutputs) := by
  induction lanes with
  | zero => simp [sources]
  | succ lanes ih =>
    rw [sources_succ, List.length_append, ih, laneSources, Run.length_slice, Nat.succ_mul]
    omega

/-- The lanes of a block take positions of its runs. -/
theorem BlockShare.mem_sources {share : BlockShare} {lanes x : Nat} (hx : x ∈ share.sources precedes lanes) :
    (share.run.leftStart ≤ x ∧ x < share.run.leftStart + share.run.leftLen) ∨
      (share.run.rightStart ≤ x ∧ x < share.run.rightStart + share.run.rightLen) := by
  obtain ⟨lane, -, hx⟩ := List.mem_flatMap.mp hx
  exact Run.mem_slice hx

/-! ### Segments -/

section Segments

variable {segment : Segment} {size : Nat}

/-- A block's part lies in the segment, behind what the blocks before it have put out, and it is as long as the rest of
the segment or longer than the block's outputs. -/
theorem Segment.Fits.part (h : segment.Fits size) (precedes : Nat → Nat → Bool) (laneWork : Nat)
    {stepCount block : Nat} (hblock : block * stepCount < segment.stop - segment.start) :
    (segment.part precedes stepCount laneWork block).run.Fits segment.stop ∧
      segment.start ≤ (segment.part precedes stepCount laneWork block).run.leftStart ∧
      segment.start ≤ (segment.part precedes stepCount laneWork block).run.rightStart ∧
      segment.start + block * stepCount + ((segment.part precedes stepCount laneWork block).run.leftLen +
          (segment.part precedes stepCount laneWork block).run.rightLen) ≤ segment.stop ∧
      min ((segment.part precedes stepCount laneWork block).run.leftLen +
          (segment.part precedes stepCount laneWork block).run.rightLen) stepCount =
        min (segment.stop - segment.start - block * stepCount) stepCount := by
  obtain ⟨hstart, hmiddle, hstop⟩ := h
  have hdiag : block * stepCount ≤ segment.runs.leftLen + segment.runs.rightLen := by
    simp only [Segment.runs]
    omega
  have hbounds := segment.runs.leftCount_bounds precedes hdiag
  simp only [Segment.part]
  generalize segment.runs.leftCount precedes (block * stepCount) = first at hbounds ⊢
  simp only [Segment.runs] at hbounds
  refine ⟨⟨?_, ?_⟩, by omega, by omega, by omega, by omega⟩ <;> simp only <;> omega

/-- The outputs of one block of several. -/
theorem Segment.length_blockSources_manyBlocks (h : segment.Fits size) {stepCount laneWork : UInt32} {lanes : Nat}
    (hlanes : lanes * laneWork.toNat = stepCount.toNat) (block : Nat) :
    (segment.blockSources precedes (.manyBlocks stepCount laneWork) lanes block).length =
      min (segment.stop - segment.start - block * stepCount.toNat) stepCount.toNat := by
  rw [blockSources, shareOf]
  by_cases hblock : block * stepCount.toNat < segment.stop - segment.start
  · obtain ⟨-, -, -, -, hlen⟩ := h.part precedes laneWork.toNat hblock
    simp only [if_pos hblock]
    rw [BlockShare.length_lanes, ← hlen]
    simp only [Segment.part, hlanes]
  · simp only [if_neg hblock, List.length_nil]
    omega

/-- The outputs of the first blocks of a segment that is shared by several. -/
theorem Segment.length_blocks_manyBlocks (h : segment.Fits size) {stepCount laneWork : UInt32} {lanes : Nat}
    (hlanes : lanes * laneWork.toNat = stepCount.toNat) (blocks : Nat) :
    (segment.sources precedes (.manyBlocks stepCount laneWork) blocks lanes).length =
      min (segment.stop - segment.start) (blocks * stepCount.toNat) := by
  induction blocks with
  | zero => simp [sources]
  | succ blocks ih =>
    rw [sources_succ, List.length_append, ih, length_blockSources_manyBlocks h hlanes, Nat.succ_mul]
    omega

/-- The blocks of a segment have all of its outputs. -/
theorem Segment.length_sources (h : segment.Fits size) {sharing : Sharing} {width blocks lanes : Nat}
    (hcovers : sharing.Covers width blocks lanes) (hwidth : segment.stop - segment.start ≤ width) :
    (segment.sources precedes sharing blocks lanes).length = segment.stop - segment.start := by
  obtain ⟨hstart, hmiddle, -⟩ := id h
  cases sharing with
  | oneBlock step =>
    obtain ⟨rfl, hlanes⟩ := hcovers
    rw [sources, List.range_one, List.flatMap_singleton, blockSources, shareOf]
    by_cases hempty : segment.stop = segment.start
    · simp [hempty]
    · simp only [ne_eq, hempty, not_false_eq_true, and_self, if_true]
      rw [BlockShare.length_lanes]
      simp only [Segment.runs]
      omega
  | manyBlocks stepCount laneWork =>
    obtain ⟨hlanes, hblocks⟩ := hcovers
    rw [length_blocks_manyBlocks h hlanes]
    omega

/-- What a block of a segment merges: runs of the segment, and its outputs start behind those of the blocks before
it. -/
theorem Segment.Fits.shareOf (h : segment.Fits size) {sharing : Sharing} {width blocks lanes block : Nat}
    (hcovers : sharing.Covers width blocks lanes) {share : BlockShare}
    (hshare : segment.shareOf precedes sharing block = some share) :
    share.run.Fits segment.stop ∧
      share.outStart + (share.run.leftLen + share.run.rightLen) ≤ segment.stop ∧
      share.laneOutputs < 4294967296 ∧
      share.outStart = segment.start + (segment.sources precedes sharing block lanes).length := by
  obtain ⟨hstart, hmiddle, -⟩ := id h
  cases sharing with
  | oneBlock step =>
    by_cases hblock : block = 0 ∧ segment.stop ≠ segment.start
    · rw [Segment.shareOf, if_pos hblock] at hshare
      cases hshare
      obtain ⟨rfl, -⟩ := hblock
      have hwhole : segment.runs.leftLen + segment.runs.rightLen = segment.stop - segment.start := by
        simp only [Segment.runs]
        omega
      exact ⟨Segment.Fits.runs ⟨hstart, hmiddle, Nat.le_refl _⟩, by simp only [hwhole]; omega, step.toNat_lt,
        by simp [sources]⟩
    · rw [Segment.shareOf, if_neg hblock] at hshare
      cases hshare
  | manyBlocks stepCount laneWork =>
    obtain ⟨hlanes, -⟩ := hcovers
    by_cases hblock : block * stepCount.toNat < segment.stop - segment.start
    · rw [Segment.shareOf, if_pos hblock] at hshare
      cases hshare
      obtain ⟨hfits, -, -, hend, -⟩ := h.part precedes laneWork.toNat hblock
      refine ⟨hfits, hend, laneWork.toNat_lt, ?_⟩
      rw [length_blocks_manyBlocks h hlanes, Nat.min_eq_right (by omega)]
      rfl
    · rw [Segment.shareOf, if_neg hblock] at hshare
      cases hshare

/-- The blocks of a segment take positions of the segment. -/
theorem Segment.mem_sources (h : segment.Fits size) {sharing : Sharing} {blocks lanes x : Nat}
    (hx : x ∈ segment.sources precedes sharing blocks lanes) : segment.start ≤ x ∧ x < segment.stop := by
  obtain ⟨hstart, hmiddle, -⟩ := id h
  obtain ⟨block, -, hx⟩ := List.mem_flatMap.mp hx
  rw [blockSources] at hx
  cases sharing with
  | oneBlock step =>
    by_cases hshare : block = 0 ∧ segment.stop ≠ segment.start
    · simp only [shareOf, if_pos hshare] at hx
      have := BlockShare.mem_sources hx
      simp only [Segment.runs] at this
      omega
    · simp [shareOf, if_neg hshare] at hx
  | manyBlocks stepCount laneWork =>
    by_cases hshare : block * stepCount.toNat < segment.stop - segment.start
    · simp only [shareOf, if_pos hshare] at hx
      obtain ⟨⟨hleft, hright⟩, hleftStart, hrightStart, -⟩ := h.part precedes laneWork.toNat hshare
      have := BlockShare.mem_sources hx
      omega
    · simp [shareOf, if_neg hshare] at hx

end Segments

/-! ### Rows -/

/-- The segment with a number in a row that is cut into segments of `width`. -/
def segmentAt (width size number : Nat) : Segment where
  start := width * number
  middle := min (width * number + width / 2) size
  stop := min (width * number + width) size

/-- A segment that starts in a row lies in it. -/
theorem segmentAt_fits {width size number : Nat} (h : width * number ≤ size) :
    (segmentAt width size number).Fits size := by
  constructor <;> simp only [segmentAt] <;> omega

/-- The segment that starts in a row, with its sums checked. -/
theorem Segment.ofNumber_eq_ok {width size number : Nat} (hsize : size < Buffer.byteLimit)
    (hwidth : width < Buffer.byteLimit) (h : width * number ≤ size) :
    Segment.ofNumber number width size = .ok (segmentAt width size number) := by
  have hlimit := Buffer.two_mul_byteLimit
  have hstart : Size.mul width number = .ok (width * number) := Size.mul_of_lt (by omega)
  have hmiddle : Size.add (width * number) (width / 2) = .ok (width * number + width / 2) :=
    Size.add_of_lt (by omega)
  have hstop : Size.add (width * number) width = .ok (width * number + width) :=
    Size.add_of_lt (by omega)
  simp only [ofNumber, hstart, hmiddle, hstop, Outcome.ok_bind]
  rfl

namespace MergeShape

/-- A pass over rows of a size: its segments fill the row, and each is shared out as a whole. -/
structure Covers (shape : MergeShape) (size : Nat) : Prop where
  /-- A segment has two runs of one length. -/
  even : shape.width.toNat % 2 = 0
  /-- Every segment starts in the row. -/
  start_lt : ∀ number < shape.segments.toNat, shape.width.toNat * number < size
  /-- The segments fill the row. -/
  size_le : size ≤ shape.width.toNat * shape.segments.toNat
  /-- A segment is shared out as a whole. -/
  shared : shape.sharing.Covers shape.width.toNat shape.blocksPerSegment.toNat shape.grid.lanes.toNat

/-- The positions that one segment of a pass takes. -/
def segmentSources (precedes : Nat → Nat → Bool) (shape : MergeShape) (size number : Nat) : List Nat :=
  (segmentAt shape.width.toNat size number).sources precedes shape.sharing shape.blocksPerSegment.toNat
    shape.grid.lanes.toNat

/-- The positions that a pass takes from a row. -/
def sources (precedes : Nat → Nat → Bool) (shape : MergeShape) (size : Nat) : List Nat :=
  (List.range shape.segments.toNat).flatMap (shape.segmentSources precedes size)

variable {shape : MergeShape} {size : Nat}

/-- The outputs of one segment. -/
theorem length_segmentSources (h : shape.Covers size) {number : Nat} (hnumber : number < shape.segments.toNat) :
    (shape.segmentSources precedes size number).length =
      min (shape.width.toNat * number + shape.width.toNat) size - shape.width.toNat * number := by
  have hstart := h.start_lt number hnumber
  refine Segment.length_sources (segmentAt_fits (by omega)) h.shared ?_
  simp only [segmentAt]
  omega

/-- The outputs of the first segments. -/
theorem length_segments (precedes : Nat → Nat → Bool) (h : shape.Covers size) {numbers : Nat}
    (hnumbers : numbers ≤ shape.segments.toNat) :
    ((List.range numbers).flatMap (shape.segmentSources precedes size)).length =
      min (shape.width.toNat * numbers) size := by
  induction numbers with
  | zero => simp
  | succ numbers ih =>
    have hstart := h.start_lt numbers (by omega)
    rw [List.range_succ, List.flatMap_append, List.length_append, ih (by omega), List.flatMap_singleton,
      length_segmentSources h (by omega), Nat.mul_succ]
    omega

/-- A pass has as many outputs as the row. -/
theorem length_sources (precedes : Nat → Nat → Bool) (h : shape.Covers size) :
    (shape.sources precedes size).length = size := by
  rw [sources, length_segments precedes h (Nat.le_refl _)]
  have := h.size_le
  omega

/-- A pass takes positions of the row. -/
theorem mem_sources (h : shape.Covers size) {x : Nat} (hx : x ∈ shape.sources precedes size) : x < size := by
  obtain ⟨number, hnumber, hx⟩ := List.mem_flatMap.mp hx
  have hstart := h.start_lt number (by simpa using hnumber)
  have := Segment.mem_sources (segmentAt_fits (by omega)) hx
  simp only [segmentAt] at this
  omega

section Places

variable {number block lane t : Nat} {share : BlockShare}

/-- A lane puts the positions that it takes to where its outputs start. -/
theorem getElem?_sources (h : shape.Covers size) (hnumber : number < shape.segments.toNat)
    (hblock : block < shape.blocksPerSegment.toNat) (hlane : lane < shape.grid.lanes.toNat)
    (hshare : (segmentAt shape.width.toNat size number).shareOf precedes shape.sharing block = some share)
    (ht : t < (share.laneSources precedes lane).length) :
    (shape.sources precedes size)[share.outStart + lane * share.laneOutputs + t]? =
      (share.laneSources precedes lane)[t]? := by
  have hstart := h.start_lt number hnumber
  have hfits : (segmentAt shape.width.toNat size number).Fits size := segmentAt_fits (Nat.le_of_lt hstart)
  obtain ⟨-, -, -, hout⟩ := hfits.shareOf h.shared hshare
  have hsources : (segmentAt shape.width.toNat size number).blockSources precedes shape.sharing
      shape.grid.lanes.toNat block = share.sources precedes shape.grid.lanes.toNat := by
    rw [Segment.blockSources, hshare]
  have hinLane : (share.sources precedes lane).length + t < (share.sources precedes shape.grid.lanes.toNat).length :=
    lt_length_flatMap_range hlane ht
  have hinBlock : ((segmentAt shape.width.toNat size number).sources precedes shape.sharing block
      shape.grid.lanes.toNat).length + ((share.sources precedes lane).length + t) <
        (shape.segmentSources precedes size number).length :=
    lt_length_flatMap_range hblock (by rw [hsources]; exact hinLane)
  -- The lanes before this one are full, as it has outputs itself.
  have hlanes := share.length_lanes precedes lane
  have hlen : (share.laneSources precedes lane).length = _ := Run.length_slice precedes _ _ _
  have hsegments := length_segments precedes h (Nat.le_of_lt hnumber)
  have hplace : share.outStart + lane * share.laneOutputs + t =
      ((List.range number).flatMap (shape.segmentSources precedes size)).length +
        (((segmentAt shape.width.toNat size number).sources precedes shape.sharing block
          shape.grid.lanes.toNat).length + ((share.sources precedes lane).length + t)) := by
    have hstartEq : (segmentAt shape.width.toNat size number).start = shape.width.toNat * number := rfl
    omega
  calc (shape.sources precedes size)[share.outStart + lane * share.laneOutputs + t]?
      = (shape.segmentSources precedes size number)[_]? := by
        rw [hplace]
        exact getElem?_flatMap_range hnumber hinBlock
    _ = (share.sources precedes shape.grid.lanes.toNat)[(share.sources precedes lane).length + t]? := by
        rw [← hsources]
        exact getElem?_flatMap_range hblock (by rw [hsources]; exact hinLane)
    _ = (share.laneSources precedes lane)[t]? := getElem?_flatMap_range hlane ht

/-- Every output of a pass is one of a lane. -/
theorem exists_lane_of_lt (precedes : Nat → Nat → Bool) (h : shape.Covers size) {p : Nat} (hp : p < size) :
    ∃ number < shape.segments.toNat, ∃ block < shape.blocksPerSegment.toNat, ∃ share lane,
      (segmentAt shape.width.toNat size number).shareOf precedes shape.sharing block = some share ∧
        lane < shape.grid.lanes.toNat ∧ ∃ t < (share.laneSources precedes lane).length,
          p = share.outStart + lane * share.laneOutputs + t := by
  rw [← length_sources precedes h] at hp
  obtain ⟨number, hnumber, q, hq, rfl⟩ := exists_of_lt_length_flatMap hp
  obtain ⟨block, hblock, r, hr, rfl⟩ := exists_of_lt_length_flatMap hq
  have hstart := h.start_lt number hnumber
  have hfits : (segmentAt shape.width.toNat size number).Fits size := segmentAt_fits (Nat.le_of_lt hstart)
  rcases hshare : (segmentAt shape.width.toNat size number).shareOf precedes shape.sharing block with _ | share
  · simp [Segment.blockSources, hshare] at hr
  · obtain ⟨-, -, -, hout⟩ := hfits.shareOf h.shared hshare
    simp only [Segment.blockSources, hshare] at hr
    obtain ⟨lane, hlane, t, ht, rfl⟩ := exists_of_lt_length_flatMap hr
    refine ⟨number, hnumber, block, hblock, share, lane, hshare, hlane, t, ht, ?_⟩
    have hlanes := share.length_lanes precedes lane
    have hlen : (share.laneSources precedes lane).length = _ := Run.length_slice precedes _ _ _
    have hsegments := length_segments precedes h (Nat.le_of_lt hnumber)
    have hstartEq : (segmentAt shape.width.toNat size number).start = shape.width.toNat * number := rfl
    simp only [BlockShare.sources, Segment.sources] at hlanes hout
    omega

end Places

end MergeShape

end MergePathSort
