import MergePathSort.Proofs.Device.Copies
import MergePathSort.Proofs.Device.Search
import MergePathSort.Proofs.Merge.Shift

/-!
# Where the threads of a merge start

A thread of the merge kernel computes its row, its segment and its part of it in words, and finds its start in the flat
buffer. It starts where the lane of a host's block starts, if the block's segment is moved to where its row starts.

## Main definitions

* `BlockShare.cursor?` : where a lane of a block starts.

## Main results

* `MergeExtents.cursor?_eq_ok` : the start of a thread.
-/

namespace MergePathSort

/-- The cursor of a lane of a block, if it has outputs. -/
def BlockShare.cursor? (precedes : Nat → Nat → Bool) (share : BlockShare) (lane : Nat) : Option Cursor :=
  if lane * share.laneOutputs < share.run.leftLen + share.run.rightLen then
    some (share.run.cursor precedes share.outStart (lane * share.laneOutputs) share.laneOutputs)
  else none

variable {κ : Type} [KeyOrder κ] {direction : Direction} {src : Array κ} {axisLen width rows segments : Nat}

/-- The extents of a pass as words. -/
def MergeExtents.ofNats (axisLen width rows segments : Nat) : MergeExtents :=
  ⟨UInt32.ofNat axisLen, UInt32.ofNat width, UInt32.ofNat rows, UInt32.ofNat segments⟩

/-- The segment of a group, as words. -/
theorem segmentAt_words {segment : Nat} (hlen : axisLen ≤ 2147483648) (hwidth : width ≤ 2147483648)
    (hsegment : width * segment < axisLen) :
    lesser (UInt32.ofNat width * UInt32.ofNat segment + UInt32.ofNat width / 2) (UInt32.ofNat axisLen) =
        UInt32.ofNat (segmentAt width axisLen segment).middle ∧
      lesser (UInt32.ofNat width * UInt32.ofNat segment + UInt32.ofNat width) (UInt32.ofNat axisLen) =
        UInt32.ofNat (segmentAt width axisLen segment).stop := by
  have hhalf : UInt32.ofNat width / 2 = UInt32.ofNat (width / 2) :=
    (UInt32.ofNat_div (show width < 4294967296 by omega) (by decide)).symm
  rw [hhalf, ← UInt32.ofNat_mul, ← UInt32.ofNat_add, ← UInt32.ofNat_add, lesser_eq (by omega) (by omega),
    lesser_eq (by omega) (by omega)]
  exact ⟨rfl, rfl⟩

/-- Both runs of a segment in the flat buffer, as words. -/
theorem Segment.runs_shift_words {segment : Segment} (hmiddle : segment.start ≤ segment.middle)
    (hstop : segment.middle ≤ segment.stop) (base : Nat) :
    (segment.shift base).runs.words =
      ⟨UInt32.ofNat base + UInt32.ofNat segment.start, UInt32.ofNat segment.middle - UInt32.ofNat segment.start,
        UInt32.ofNat base + UInt32.ofNat segment.middle, UInt32.ofNat segment.stop - UInt32.ofNat segment.middle⟩ := by
  simp only [Segment.runs, Segment.shift, Run.words, Nat.add_sub_add_left, UInt32.ofNat_add,
    UInt32.ofNat_sub hmiddle, UInt32.ofNat_sub hstop]

/-- The part of a group, as words. -/
theorem Segment.part_shift_words (precedes : Nat → Nat → Bool) {segment : Segment} {size : Nat}
    (hfits : segment.Fits size) (hlen : segment.stop ≤ 2147483648) (base laneWork : Nat) {stepCount : UInt32}
    {block : Nat} (hblock : block * stepCount.toNat < segment.stop - segment.start) :
    ((segment.shift base).part precedes stepCount.toNat laneWork block).run.words =
      let first := UInt32.ofNat ((segment.shift base).runs.leftCount precedes (block * stepCount.toNat))
      let leftStart := UInt32.ofNat segment.start + first
      let rightStart := UInt32.ofNat segment.middle + UInt32.ofNat (block * stepCount.toNat) - first
      ⟨UInt32.ofNat base + leftStart, lesser (UInt32.ofNat segment.middle - leftStart) stepCount,
        UInt32.ofNat base + rightStart, lesser (UInt32.ofNat segment.stop - rightStart) stepCount⟩ := by
  obtain ⟨hstart, hmiddle, -⟩ := hfits
  have hstep : ∀ n < 4294967296, lesser (UInt32.ofNat n) stepCount = UInt32.ofNat (min n stepCount.toNat) := by
    intro n hn
    rw [← lesser_eq hn stepCount.toNat_lt, UInt32.ofNat_toNat]
  have hbounds := (segment.shift base).runs.leftCount_bounds precedes
    (show block * stepCount.toNat ≤ (segment.shift base).runs.leftLen + (segment.shift base).runs.rightLen by
      simp only [Segment.runs, Segment.shift]
      omega)
  simp only [Segment.part]
  generalize (segment.shift base).runs.leftCount precedes (block * stepCount.toNat) = first at hbounds ⊢
  simp only [Segment.runs, Segment.shift] at hbounds
  have hright : UInt32.ofNat segment.middle + UInt32.ofNat (block * stepCount.toNat) - UInt32.ofNat first =
      UInt32.ofNat (segment.middle + block * stepCount.toNat - first) := by
    rw [UInt32.ofNat_sub (by omega), UInt32.ofNat_add]
  simp only [Run.words, Segment.shift, hright]
  simp only [← UInt32.ofNat_add]
  rw [← UInt32.ofNat_sub (by omega), ← UInt32.ofNat_sub (by omega), hstep _ (by omega), hstep _ (by omega)]
  congr 2 <;> omega

section Groups

variable {row segment x n : Nat} {sharing : Sharing} {indexed : Bool}

/-- The row and the segment of a group. -/
theorem group_row_eq (hrow : row < rows) (hsegment : segment < segments) (hword : rows * segments < 4294967296) :
    UInt32.ofNat (segment * rows + row) < UInt32.ofNat rows * UInt32.ofNat segments ∧
      UInt32.ofNat (segment * rows + row) % UInt32.ofNat rows = UInt32.ofNat row ∧
      UInt32.ofNat (segment * rows + row) / UInt32.ofNat rows = UInt32.ofNat segment := by
  have hinside : segment * rows + row < rows * segments := by
    rw [Nat.mul_comm rows]
    exact place_lt hsegment hrow
  have hrows : rows < 4294967296 :=
    Nat.lt_of_le_of_lt (Nat.le_mul_of_pos_right rows (by omega)) hword
  refine ⟨?_, ?_, ?_⟩
  · rw [← UInt32.ofNat_mul]
    exact (UInt32.ofNat_lt_iff_lt (show _ < 4294967296 by omega) hword).mpr hinside
  · rw [← UInt32.ofNat_mod (by omega) hrows, place_mod segment hrow]
  · rw [← UInt32.ofNat_div (by omega) hrows, place_div segment hrow]

/-- The row and the segment of a group, as the kernel computes them. -/
theorem MergeExtents.pair?_ofNats (hrow : row < rows) (hsegment : segment < segments)
    (hword : rows * segments < 4294967296) :
    (ofNats axisLen width rows segments).pair? (UInt32.ofNat (segment * rows + row)) =
      some (UInt32.ofNat row, UInt32.ofNat segment) := by
  obtain ⟨hgroup, hmod, hdiv⟩ := group_row_eq hrow hsegment hword
  simp only [pair?, ofNats, hgroup, if_true, hmod, hdiv]

/-- The outputs of a segment in the flat buffer. -/
theorem Segment.Fits.length_runs_shift {segment : Segment} {size : Nat} (h : segment.Fits size) (base : Nat) :
    (segment.shift base).runs.leftLen + (segment.shift base).runs.rightLen = segment.stop - segment.start := by
  obtain ⟨hstart, hmiddle, -⟩ := h
  simp only [Segment.runs, Segment.shift]
  omega

/-- An output of a segment lies before its end. -/
theorem diag_lt_words {start stop diag : Nat} (hstart : start ≤ stop) (hstop : stop < 4294967296)
    (hdiag : diag < 4294967296) :
    UInt32.ofNat diag < UInt32.ofNat stop - UInt32.ofNat start ↔ diag < stop - start := by
  rw [← UInt32.ofNat_sub hstart]
  exact UInt32.ofNat_lt_iff_lt hdiag (show stop - start < 4294967296 by omega)

/-- The cursor of a lane, from the words of its block's runs. -/
theorem BlockShare.cursor?_words {share : BlockShare} (hsize : src.size < 4294967296)
    (hfits : share.run.Fits src.size) (hlen : share.run.leftLen + share.run.rightLen ≤ 2147483648) {laneWork : UInt32}
    (houtputs : share.laneOutputs = laneWork.toNat) {n : Nat} (hn : n * laneWork.toNat < 4294967296) :
    (if UInt32.ofNat (n * laneWork.toNat) < share.run.words.leftLen + share.run.words.rightLen then do
        return some (← share.run.words.cursor src direction.flag (UInt32.ofNat share.outStart)
          (UInt32.ofNat (n * laneWork.toNat)) laneWork)
      else return none : Outcome (Option Cursor)) = .ok (share.cursor? (precedesAt direction src) n) := by
  have hlength : share.run.words.leftLen + share.run.words.rightLen =
      UInt32.ofNat (share.run.leftLen + share.run.rightLen) := (UInt32.ofNat_add _ _).symm
  have hlt : UInt32.ofNat (n * laneWork.toNat) < share.run.words.leftLen + share.run.words.rightLen ↔
      n * laneWork.toNat < share.run.leftLen + share.run.rightLen := by
    rw [hlength]
    exact UInt32.ofNat_lt_iff_lt hn (show _ < 4294967296 by omega)
  rw [cursor?, houtputs]
  by_cases hinside : n * laneWork.toNat < share.run.leftLen + share.run.rightLen
  · have hcursor : share.run.words.cursor src direction.flag (UInt32.ofNat share.outStart)
        (UInt32.ofNat (n * laneWork.toNat)) (UInt32.ofNat laneWork.toNat) = .ok _ :=
      DeviceRun.cursor_eq_ok hsize hfits hlen (by omega) laneWork.toNat_lt _
    rw [UInt32.ofNat_toNat] at hcursor
    rw [if_pos (hlt.mpr hinside), if_pos hinside, hcursor]
    rfl
  · rw [if_neg (fun h => hinside (hlt.mp h)), if_neg hinside]
    rfl

section Starts

variable {segment : Segment} {base size : Nat} (h : segment.Fits size) (hend : base + size ≤ src.size)
  (hsize : src.size < 4294967296) (hlen : size ≤ 2147483648)
include h hend hsize hlen

/-- The start of a thread when one group merges its segment. -/
theorem cursor_oneBlock {step : UInt32} {n : Nat} (hn : n * step.toNat < 4294967296) :
    (if UInt32.ofNat n * step < UInt32.ofNat segment.stop - UInt32.ofNat segment.start then do
        return some (← (segment.shift base).runs.words.cursor src direction.flag
          (UInt32.ofNat base + UInt32.ofNat segment.start) (UInt32.ofNat n * step) step)
      else .ok none : Outcome (Option Cursor)) =
      .ok (((segment.shift base).shareOf (precedesAt direction src) (.oneBlock step) 0).bind
        fun share => share.cursor? (precedesAt direction src) n) := by
  obtain ⟨hstart, hmiddle, hstop⟩ := id h
  have hdiag : UInt32.ofNat n * step = UInt32.ofNat (n * step.toNat) := by rw [UInt32.ofNat_mul, UInt32.ofNat_toNat]
  have hshareOf : (segment.shift base).shareOf (precedesAt direction src) (.oneBlock step) 0 =
      if segment.stop = segment.start then none
      else some ⟨(segment.shift base).runs, base + segment.start, step.toNat⟩ := by
    have hsame : (segment.shift base).stop ≠ (segment.shift base).start ↔ segment.stop ≠ segment.start := by
      simp only [Segment.shift]
      omega
    simp only [Segment.shareOf, hsame, true_and]
    by_cases hempty : segment.stop = segment.start
    · simp [hempty]
    · simp [hempty, Segment.shift]
  rw [hdiag, hshareOf]
  by_cases hinside : n * step.toNat < segment.stop - segment.start
  · have hcursor : (segment.shift base).runs.words.cursor src direction.flag (UInt32.ofNat (base + segment.start))
        (UInt32.ofNat (n * step.toNat)) (UInt32.ofNat step.toNat) = .ok _ :=
      DeviceRun.cursor_eq_ok hsize (h.shift hend).runs (by rw [h.length_runs_shift]; omega)
        (by rw [h.length_runs_shift]; omega) step.toNat_lt _
    rw [UInt32.ofNat_add, UInt32.ofNat_toNat] at hcursor
    rw [if_pos ((diag_lt_words (by omega) (by omega) hn).mpr hinside), if_neg (by omega), hcursor, Option.bind_some,
      BlockShare.cursor?, h.length_runs_shift, if_pos hinside]
    rfl
  · rw [if_neg fun hlt => hinside ((diag_lt_words (by omega) (by omega) hn).mp hlt)]
    split
    · rfl
    · rw [Option.bind_some, BlockShare.cursor?, h.length_runs_shift, if_neg hinside]

/-- The start of a thread when several groups merge its segment. -/
theorem cursor_manyBlocks {stepCount laneWork : UInt32} {x n : Nat} (hx : x * stepCount.toNat < 4294967296)
    (hn : n * laneWork.toNat < 4294967296) :
    (if UInt32.ofNat x * stepCount < UInt32.ofNat segment.stop - UInt32.ofNat segment.start then do
        let first ← (segment.shift base).runs.words.partition src direction.flag (UInt32.ofNat x * stepCount)
        let leftStart := UInt32.ofNat segment.start + first
        let rightStart := UInt32.ofNat segment.middle + UInt32.ofNat x * stepCount - first
        let part : DeviceRun :=
          ⟨UInt32.ofNat base + leftStart, lesser (UInt32.ofNat segment.middle - leftStart) stepCount,
            UInt32.ofNat base + rightStart, lesser (UInt32.ofNat segment.stop - rightStart) stepCount⟩
        let threadDiag := UInt32.ofNat n * laneWork
        if threadDiag < part.leftLen + part.rightLen then
          return some (← part.cursor src direction.flag
            (UInt32.ofNat base + UInt32.ofNat segment.start + UInt32.ofNat x * stepCount) threadDiag laneWork)
        else return none
      else .ok none : Outcome (Option Cursor)) =
      .ok (((segment.shift base).shareOf (precedesAt direction src) (.manyBlocks stepCount laneWork) x).bind
        fun share => share.cursor? (precedesAt direction src) n) := by
  obtain ⟨hstart, hmiddle, hstop⟩ := id h
  have hdiag : UInt32.ofNat x * stepCount = UInt32.ofNat (x * stepCount.toNat) := by
    rw [UInt32.ofNat_mul, UInt32.ofNat_toNat]
  have hthread : UInt32.ofNat n * laneWork = UInt32.ofNat (n * laneWork.toNat) := by
    rw [UInt32.ofNat_mul, UInt32.ofNat_toNat]
  have hshareLen : (segment.shift base).stop - (segment.shift base).start = segment.stop - segment.start := by
    simp only [Segment.shift]
    omega
  rw [hdiag, hthread, Segment.shareOf, hshareLen]
  by_cases hinside : x * stepCount.toNat < segment.stop - segment.start
  · have hfits := h.shift hend
    obtain ⟨hpart, -, -, hpartEnd, -⟩ := hfits.part (precedesAt direction src) laneWork.toNat
      (by rw [hshareLen]; exact hinside)
    have hpartFits : ((segment.shift base).part (precedesAt direction src) stepCount.toNat laneWork.toNat
        x).run.Fits src.size := ⟨Nat.le_trans hpart.left_le hfits.stop_le, Nat.le_trans hpart.right_le hfits.stop_le⟩
    have hwords := Segment.part_shift_words (precedesAt direction src) h (by omega) base laneWork.toNat hinside
    have hfirst : (segment.shift base).runs.words.partition src direction.flag (UInt32.ofNat (x * stepCount.toNat)) =
        .ok (UInt32.ofNat ((segment.shift base).runs.leftCount (precedesAt direction src) (x * stepCount.toNat))) :=
      DeviceRun.partition_eq_ok hsize hfits.runs (by rw [h.length_runs_shift]; omega)
        (by rw [h.length_runs_shift]; omega)
    have hshiftStart : (segment.shift base).start = base + segment.start := rfl
    have hshiftStop : (segment.shift base).stop = base + segment.stop := rfl
    have hcursor := @BlockShare.cursor?_words κ _ direction src _ hsize hpartFits (by omega) laneWork rfl n hn
    have hout : UInt32.ofNat ((segment.shift base).part (precedesAt direction src) stepCount.toNat laneWork.toNat
        x).outStart = UInt32.ofNat base + UInt32.ofNat segment.start + UInt32.ofNat (x * stepCount.toNat) := by
      rw [← UInt32.ofNat_add, ← UInt32.ofNat_add]
      rfl
    rw [hwords, hout] at hcursor
    rw [if_pos ((diag_lt_words (by omega) (by omega) hx).mpr hinside), if_pos hinside, hfirst, Outcome.ok_bind,
      Option.bind_some, ← hcursor]
  · rw [if_neg fun hlt => hinside ((diag_lt_words (by omega) (by omega) hx).mp hlt), if_neg hinside]
    rfl

end Starts

/-- Where a thread starts: where the lane does that has its number, in the block that has the number of its group. -/
theorem MergeExtents.cursor?_eq_ok (hrow : row < rows) (hsegment : segment < segments)
    (hword : rows * segments < 4294967296) (hsize : src.size < 4294967296) (hend : row * axisLen + axisLen ≤ src.size)
    (hlen : axisLen ≤ 2147483648) (hwidth : width ≤ 2147483648) (hstart : width * segment < axisLen)
    {blocks lanes : Nat} (hwrap : sharing.NoWrap blocks lanes) (hx : x < blocks) (hn : n < lanes) :
    (MergeExtents.ofNats axisLen width rows segments).cursor?
        (.ofSharing sharing direction.flag indexed) src ⟨UInt32.ofNat x, UInt32.ofNat (segment * rows + row)⟩
        (UInt32.ofNat n) =
      .ok ((((segmentAt width axisLen segment).shift (row * axisLen)).shareOf (precedesAt direction src) sharing x).bind
        fun share => share.cursor? (precedesAt direction src) n) := by
  obtain ⟨hmiddleWord, hstopWord⟩ := segmentAt_words hlen hwidth hstart
  have hfits : (segmentAt width axisLen segment).Fits axisLen := segmentAt_fits (Nat.le_of_lt hstart)
  have hstartWord : UInt32.ofNat width * UInt32.ofNat segment =
      UInt32.ofNat (segmentAt width axisLen segment).start := (UInt32.ofNat_mul _ _).symm
  have hbase : UInt32.ofNat row * UInt32.ofNat axisLen = UInt32.ofNat (row * axisLen) := (UInt32.ofNat_mul _ _).symm
  have hwhole := Segment.runs_shift_words hfits.start_le hfits.middle_le (row * axisLen)
  rw [cursor?, pair?_ofNats hrow hsegment hword]
  simp only [ofNats, MergeSettings.flag_ofSharing, hbase, hmiddleWord, hstopWord]
  rw [hstartWord, ← hwhole]
  cases sharing with
  | oneBlock step =>
    obtain ⟨rfl, hlanes⟩ := hwrap
    obtain rfl : x = 0 := by omega
    exact cursor_oneBlock hfits hend hsize hlen (hlanes n hn)
  | manyBlocks stepCount laneWork =>
    exact cursor_manyBlocks hfits hend hsize hlen (hwrap.1 x hx) (hwrap.2 n hn)

end Groups

end MergePathSort
