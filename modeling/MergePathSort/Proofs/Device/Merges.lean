import Mathlib.Data.List.ReduceOption
import MergePathSort.Proofs.Device.Cursors
import MergePathSort.Proofs.Device.Turns
import MergePathSort.Proofs.Launch.Effect

/-!
# Merge passes on a device

The groups of a merge pass go through all rows of one segment before they come to the next segment, and each stores the
outputs of one block of the host, moved to where its row starts. Since every place of a row belongs to a lane of some
block, all places have been stored in the end, and the flat buffer holds what the pass leaves in every row.

## Main definitions

* `mergedRows` : all rows after a merge pass.
* `workingCursors` : the cursors with which a group of threads starts.

## Main results

* `exists_launch_merges` : the launch of a merge pass.
-/

namespace MergePathSort

variable {κ : Type} {direction : Direction} {shape : MergeShape} {axisLen rows : Nat}
  {xs : List (κ × Tag UInt32)}

section Rows

variable [KeyOrder κ]

/-- All rows after a merge pass. -/
def mergedRows (direction : Direction) (shape : MergeShape) (rows axisLen : Nat) (xs : List (κ × Tag UInt32)) :
    List (κ × Tag UInt32) :=
  (List.range rows).flatMap fun row => mergePass direction shape (chunk axisLen xs row)

variable (hxs : xs.length = rows * axisLen) (hcovers : shape.Covers axisLen)
include hxs

/-- The question that a pass asks of a row, asked of the flat buffer. -/
theorem precedesAt_flat (direction : Direction) {row : Nat} (hrow : row < rows) :
    ∀ i < axisLen, ∀ j < axisLen, precedesAt direction (xs.map Prod.fst).toArray (row * axisLen + i)
      (row * axisLen + j) = precedesIn direction (chunk axisLen xs row) i j := by
  intro i hi j hj
  have hlen := length_chunk_of_length hxs hrow
  have hplace : ∀ t < axisLen, row * axisLen + t < xs.length := by
    intro t ht
    rw [hxs]
    exact place_lt hrow ht
  rw [precedesIn_eq (by omega) (by omega), getElem_chunk, getElem_chunk]
  exact precedesIn_eq (hplace i hi) (hplace j hj)

include hcovers

/-- A row after a merge pass. -/
theorem length_mergedRow {row : Nat} (hrow : row < rows) :
    (mergePass direction shape (chunk axisLen xs row)).length = axisLen := by
  have hlen := length_chunk_of_length hxs hrow
  rw [length_mergePass (by rwa [hlen]), hlen]

theorem length_mergedRows : (mergedRows direction shape rows axisLen xs).length = rows * axisLen :=
  length_flatMap_of_length fun _ hrow => length_mergedRow hxs hcovers hrow

/-- The entries after a pass are those that its lanes take. -/
theorem getElem?_mergedRows {row number block lane t : Nat} {share : BlockShare} (hrow : row < rows)
    (hnumber : number < shape.segments.toNat) (hblock : block < shape.blocksPerSegment.toNat)
    (hlane : lane < shape.grid.lanes.toNat)
    (hshare : (segmentAt shape.width.toNat axisLen number).shareOf (precedesIn direction (chunk axisLen xs row))
      shape.sharing block = some share)
    (ht : t < (share.laneSources (precedesIn direction (chunk axisLen xs row)) lane).length) :
    share.outStart + lane * share.laneOutputs + t < axisLen ∧
      (mergedRows direction shape rows axisLen xs)[row * axisLen + (share.outStart + lane * share.laneOutputs + t)]? =
        ((share.laneSources (precedesIn direction (chunk axisLen xs row)) lane).map (row * axisLen + ·))[t]?.bind
          (xs[·]?) := by
  have hlen := length_chunk_of_length hxs hrow
  have htaken := MergeShape.getElem?_sources hcovers hnumber hblock hlane hshare ht
  rw [List.getElem?_eq_getElem ht] at htaken
  have hplace : share.outStart + lane * share.laneOutputs + t < axisLen := by
    obtain ⟨hlt, -⟩ := List.getElem?_eq_some_iff.mp htaken
    rwa [MergeShape.length_sources _ hcovers] at hlt
  refine ⟨hplace, ?_⟩
  have hin : ∀ s ∈ passSources direction shape (chunk axisLen xs row), s < (chunk axisLen xs row).length :=
    fun s hs => MergeShape.mem_sources (by rwa [hlen]) hs
  rw [← getElem?_chunk hplace, mergedRows, chunk_flatMap_of_length (fun _ h => length_mergedRow hxs hcovers h) hrow,
    mergePass, getElem?_gather hin, passSources, hlen, htaken, List.getElem?_map, List.getElem?_eq_getElem ht]
  simp only [Option.map_some, Option.bind_some]
  exact getElem?_chunk (MergeShape.mem_sources hcovers (List.mem_of_getElem? htaken))

end Rows

/-! ### Groups -/

/-- The cursor of a lane delivers what the lane takes. -/
theorem Run.cursor_delivers {precedes : Nat → Nat → Bool} {target : List (κ × Tag UInt32)} {run : Run}
    {outStart diag step : Nat} (hfits : run.Fits xs.length) (hsize : xs.length < 4294967296)
    (hdiag : diag ≤ run.leftLen + run.rightLen) (hout : outStart + (run.leftLen + run.rightLen) ≤ target.length)
    (hword : target.length < 4294967296)
    (houtputs : ∀ t < (run.slice precedes diag step).length,
      target[outStart + diag + t]? = (run.slice precedes diag step)[t]?.bind (xs[·]?)) :
    (run.cursor precedes outStart diag step).Delivers precedes xs target ∧
      (run.cursor precedes outStart diag step).out.toNat = outStart + diag ∧
      (run.cursor precedes outStart diag step).remaining.toNat = (run.slice precedes diag step).length := by
  have hbounds := run.leftCount_bounds precedes hdiag
  obtain ⟨hleft, hright⟩ := hfits
  have hleftStop : (run.cursor precedes outStart diag step).leftStop.toNat = run.leftStart + run.leftLen :=
    toNat_ofNat_word (by omega)
  have hrightStop : (run.cursor precedes outStart diag step).rightStop.toNat = run.rightStart + run.rightLen :=
    toNat_ofNat_word (by omega)
  have hi : (run.cursor precedes outStart diag step).i.toNat = run.leftStart + run.leftCount precedes diag :=
    toNat_ofNat_word (by omega)
  have hj : (run.cursor precedes outStart diag step).j.toNat = run.rightStart + diag - run.leftCount precedes diag :=
    toNat_ofNat_word (by omega)
  have hplace : (run.cursor precedes outStart diag step).out.toNat = outStart + diag := toNat_ofNat_word (by omega)
  have hremaining : (run.cursor precedes outStart diag step).remaining.toNat =
      min (run.leftLen + run.rightLen - diag) step := toNat_ofNat_word (by omega)
  have hlen := run.length_slice precedes diag step
  have horder : (run.cursor precedes outStart diag step).order precedes = run.slice precedes diag step := by
    rw [Cursor.order, hleftStop, hrightStop, hi, hj, hremaining]
    rfl
  refine ⟨⟨by omega, by omega, by omega, by omega, ?_⟩, hplace, by omega⟩
  intro t ht
  rw [horder, hplace]
  exact houtputs t (by omega)

/-- The largest of some numbers. -/
theorem le_foldl_max {α : Type} (f : α → Nat) (list : List α) (start : Nat) :
    start ≤ list.foldl (fun most x => max most (f x)) start ∧
      ∀ x ∈ list, f x ≤ list.foldl (fun most x => max most (f x)) start := by
  induction list generalizing start with
  | nil => simp
  | cons x list ih =>
    obtain ⟨hstart, hlist⟩ := ih (max start (f x))
    rw [List.foldl_cons]
    refine ⟨by omega, fun y hy => ?_⟩
    rcases List.mem_cons.mp hy with rfl | hy
    · omega
    · exact hlist y hy

section Groups

variable [KeyOrder κ]

/-- The outputs of a block of a segment stand at their places in the flat buffer. -/
def BlockMerged (direction : Direction) (shape : MergeShape) (rows axisLen : Nat) (xs ys : List (κ × Tag UInt32))
    (segment row block : Nat) : Prop :=
  ∀ share, (segmentAt shape.width.toNat axisLen segment).shareOf (precedesIn direction (chunk axisLen xs row))
      shape.sharing block = some share →
    ∀ lane < shape.grid.lanes.toNat,
      ∀ t < (share.laneSources (precedesIn direction (chunk axisLen xs row)) lane).length,
        ys[row * axisLen + (share.outStart + lane * share.laneOutputs + t)]? =
          (mergedRows direction shape rows axisLen xs)[row * axisLen +
            (share.outStart + lane * share.laneOutputs + t)]?

/-- What blocks have stored stays when more is stored. -/
theorem BlockMerged.mono {ys ys' : List (κ × Tag UInt32)} {segment row block : Nat}
    (himproves : Improves (mergedRows direction shape rows axisLen xs) ys ys')
    (h : BlockMerged direction shape rows axisLen xs ys segment row block) :
    BlockMerged direction shape rows axisLen xs ys' segment row block :=
  fun share hshare lane hlane t ht => himproves.keeps _ (h share hshare lane hlane t ht)

/-- The cursors of the lanes of a block of a segment, in the flat buffer, for the lanes that have one. -/
def laneCursors (direction : Direction) (shape : MergeShape) (axisLen : Nat) (xs : List (κ × Tag UInt32))
    (row segment block : Nat) : List (Option Cursor) :=
  (List.range shape.grid.lanes.toNat).map fun lane =>
    ((segmentAt shape.width.toNat axisLen segment).shareOf (precedesIn direction (chunk axisLen xs row)) shape.sharing
      block).bind fun share =>
        (share.shift (row * axisLen)).cursor? (precedesAt direction (xs.map Prod.fst).toArray) lane

/-- The cursors of a block that have outputs. -/
def workingCursors (direction : Direction) (shape : MergeShape) (axisLen : Nat) (xs : List (κ × Tag UInt32))
    (row segment block : Nat) : List Cursor :=
  (laneCursors direction shape axisLen xs row segment block).reduceOption.filter (0 < ·.remaining)

theorem mem_workingCursors {row segment block : Nat} {cursor : Cursor} :
    cursor ∈ workingCursors direction shape axisLen xs row segment block ↔
      0 < cursor.remaining.toNat ∧ ∃ lane < shape.grid.lanes.toNat, ∃ share,
        (segmentAt shape.width.toNat axisLen segment).shareOf (precedesIn direction (chunk axisLen xs row))
          shape.sharing block = some share ∧ (share.shift (row * axisLen)).cursor?
            (precedesAt direction (xs.map Prod.fst).toArray) lane = some cursor := by
  rw [workingCursors, laneCursors, List.mem_filter, List.reduceOption, List.mem_filterMap]
  simp only [List.mem_map, List.mem_range, decide_eq_true_eq, UInt32.lt_iff_toNat_lt, id_eq]
  constructor
  · rintro ⟨⟨_, ⟨lane, hlane, rfl⟩, hsome⟩, hpos⟩
    obtain ⟨share, hshare, hcursor⟩ := Option.bind_eq_some_iff.mp hsome
    exact ⟨hpos, lane, hlane, share, hshare, hcursor⟩
  · rintro ⟨hpos, lane, hlane, share, hshare, hcursor⟩
    exact ⟨⟨_, ⟨lane, hlane, rfl⟩, Option.bind_eq_some_iff.mpr ⟨share, hshare, hcursor⟩⟩, hpos⟩

variable (hxs : xs.length = rows * axisLen) (hcovers : shape.Covers axisLen) (htotal : rows * axisLen < 4294967296)
include hxs hcovers htotal

/-- The cursor of a lane of a block, in the flat buffer. -/
theorem BlockShare.cursor_delivers {row segment block lane : Nat} {share : BlockShare} (hrow : row < rows)
    (hsegment : segment < shape.segments.toNat) (hblock : block < shape.blocksPerSegment.toNat)
    (hlane : lane < shape.grid.lanes.toNat)
    (hshare : (segmentAt shape.width.toNat axisLen segment).shareOf (precedesIn direction (chunk axisLen xs row))
      shape.sharing block = some share)
    (hinside : lane * share.laneOutputs < share.run.leftLen + share.run.rightLen) :
    ∃ cursor, (share.shift (row * axisLen)).cursor? (precedesAt direction (xs.map Prod.fst).toArray) lane =
        some cursor ∧
      cursor.Delivers (precedesAt direction (xs.map Prod.fst).toArray) xs
        (mergedRows direction shape rows axisLen xs) ∧
      cursor.out.toNat = row * axisLen + (share.outStart + lane * share.laneOutputs) ∧
      cursor.remaining.toNat =
        (share.laneSources (precedesIn direction (chunk axisLen xs row)) lane).length := by
  have hstart := hcovers.start_lt segment hsegment
  have hfits : (segmentAt shape.width.toNat axisLen segment).Fits axisLen := segmentAt_fits (Nat.le_of_lt hstart)
  obtain ⟨hrun, hend, -, -⟩ := hfits.shareOf hcovers.shared hshare
  have hstop := hfits.stop_le
  have hrunLeft := hrun.left_le
  have hrunRight := hrun.right_le
  have hrowEnd : row * axisLen + axisLen ≤ rows * axisLen := by
    rw [← Nat.succ_mul]
    exact Nat.mul_le_mul_right axisLen hrow
  have htarget : (mergedRows direction shape rows axisLen xs).length = rows * axisLen := length_mergedRows hxs hcovers
  have hagree : ∀ i < axisLen, ∀ j < axisLen, _ = precedesIn direction (chunk axisLen xs row) i j :=
    precedesAt_flat hxs direction hrow
  generalize precedesAt direction (xs.map Prod.fst).toArray = precedes at hagree ⊢
  have hslice : (share.shift (row * axisLen)).run.slice precedes (lane * share.laneOutputs) share.laneOutputs =
      (share.laneSources (precedesIn direction (chunk axisLen xs row)) lane).map (row * axisLen + ·) :=
    BlockShare.laneSources_shift hagree ⟨by omega, by omega⟩ (Nat.le_of_lt hinside)
  have hlen : (share.shift (row * axisLen)).run.leftLen + (share.shift (row * axisLen)).run.rightLen =
      share.run.leftLen + share.run.rightLen := rfl
  have hrunFits : (share.shift (row * axisLen)).run.Fits xs.length := by
    constructor <;> simp only [BlockShare.shift, Run.shift] <;> omega
  have houtputs : ∀ t < ((share.shift (row * axisLen)).run.slice precedes (lane * share.laneOutputs)
      share.laneOutputs).length,
      (mergedRows direction shape rows axisLen xs)[row * axisLen + share.outStart + lane * share.laneOutputs + t]? =
        ((share.shift (row * axisLen)).run.slice precedes (lane * share.laneOutputs)
          share.laneOutputs)[t]?.bind (xs[·]?) := by
    intro t ht
    rw [hslice] at ht ⊢
    rw [List.length_map] at ht
    obtain ⟨-, houtput⟩ := getElem?_mergedRows hxs hcovers hrow hsegment hblock hlane hshare ht
    rw [← houtput]
    congr 1
    omega
  obtain ⟨hdelivers, hout, hremaining⟩ :=
    Run.cursor_delivers hrunFits (by omega) (Nat.le_of_lt hinside) (by omega) (by omega) houtputs
  refine ⟨(share.shift (row * axisLen)).run.cursor precedes (row * axisLen + share.outStart)
    (lane * share.laneOutputs) share.laneOutputs, if_pos hinside, hdelivers, by omega, ?_⟩
  rw [hremaining, hslice, List.length_map]

section OneGroup

variable {row segment block : Nat} (hrow : row < rows) (hsegment : segment < shape.segments.toNat)
  (hblock : block < shape.blocksPerSegment.toNat)
include hrow hsegment hblock

/-- The working cursors of a block deliver what the merged rows hold. -/
theorem delivers_of_mem_workingCursors {cursor : Cursor}
    (hcursor : cursor ∈ workingCursors direction shape axisLen xs row segment block) :
    cursor.Delivers (precedesAt direction (xs.map Prod.fst).toArray) xs (mergedRows direction shape rows axisLen xs) ∧
      0 < cursor.remaining.toNat := by
  obtain ⟨hpos, lane, hlane, share, hshare, hsome⟩ := mem_workingCursors.mp hcursor
  have hinside : lane * share.laneOutputs < share.run.leftLen + share.run.rightLen := by
    rw [BlockShare.cursor?] at hsome
    split at hsome
    · assumption
    · cases hsome
  obtain ⟨cursor', hsome', hdelivers, -⟩ :=
    BlockShare.cursor_delivers hxs hcovers htotal hrow hsegment hblock hlane hshare hinside
  rw [hsome] at hsome'
  cases hsome'
  exact ⟨hdelivers, hpos⟩

/-- When its working cursors have delivered, the outputs of a block stand at their places. -/
theorem blockMerged_of_delivered {ys : List (κ × Tag UInt32)}
    (h : ∀ cursor ∈ workingCursors direction shape axisLen xs row segment block,
      cursor.Delivered (mergedRows direction shape rows axisLen xs) ys) :
    BlockMerged direction shape rows axisLen xs ys segment row block := by
  intro share hshare lane hlane t ht
  have hinside : lane * share.laneOutputs < share.run.leftLen + share.run.rightLen := by
    rw [BlockShare.laneSources, Run.length_slice] at ht
    omega
  obtain ⟨cursor, hsome, -, hout, hremaining⟩ :=
    BlockShare.cursor_delivers hxs hcovers htotal hrow hsegment hblock hlane hshare hinside
  have hmem := mem_workingCursors.mpr ⟨by omega, lane, hlane, share, hshare, hsome⟩
  exact h cursor hmem _ (by omega) (by omega)

variable (tracked : Bool) (src : Side) {ys : List (κ × Tag UInt32)} (indexed : Bool)
  (hsegments : rows * shape.segments.toNat < 4294967296) (hlen : axisLen ≤ 2147483648)
  (hwidth : shape.width.toNat ≤ 2147483648)
  (hwrap : shape.sharing.NoWrap shape.blocksPerSegment.toNat shape.grid.lanes.toNat)
include hsegments hlen hwidth hwrap

/-- The threads of a group compute the cursors of the lanes of its block, which has a part of the segment or not. -/
theorem mapM_cursor?_eq_ok :
    (List.range shape.grid.lanes.toNat).mapM (fun n =>
      MergeExtents.cursor? (.ofNats axisLen shape.width.toNat rows shape.segments.toNat)
        (.ofSharing shape.sharing direction.flag indexed) (Cells.ofTagged tracked xs).keys
        ⟨UInt32.ofNat block, UInt32.ofNat (segment * rows + row)⟩ (UInt32.ofNat n)) =
      .ok (laneCursors direction shape axisLen xs row segment block) := by
  have hstart := hcovers.start_lt segment hsegment
  have hfits : (segmentAt shape.width.toNat axisLen segment).Fits axisLen := segmentAt_fits (Nat.le_of_lt hstart)
  have hsize : (Cells.ofTagged tracked xs).keys.size = rows * axisLen := by rw [Cells.size_keys_ofTagged, hxs]
  have hrowEnd : row * axisLen + axisLen ≤ rows * axisLen := by
    rw [← Nat.succ_mul]
    exact Nat.mul_le_mul_right axisLen hrow
  refine Outcome.mapM_eq_ok fun n hn => ?_
  rw [MergeExtents.cursor?_eq_ok hrow hsegment hsegments (by omega) (by omega) hlen hwidth hstart hwrap hblock
    (List.mem_range.mp hn)]
  have hshare := Segment.shareOf_shift (precedesAt_flat hxs direction hrow) hfits shape.sharing block
  have hkeys : (Cells.ofTagged tracked xs).keys = (xs.map Prod.fst).toArray := rfl
  rw [hkeys, hshare, Option.bind_map]
  rfl

variable (direction) in
/-- A group stores the outputs of a block. -/
theorem mergeGroup_spec (hys : ys.length = rows * axisLen) :
    ∃ ys', mergeGroup (.ofSharing shape.sharing direction.flag tracked) src src.other
        (.ofNats axisLen shape.width.toNat rows shape.segments.toNat) shape.grid.lanes
        ((src.pair xs ys).map (Cells.ofTagged tracked))
        ⟨UInt32.ofNat block, UInt32.ofNat (segment * rows + row)⟩ =
        .ok ((src.pair xs ys').map (Cells.ofTagged tracked)) ∧
      Improves (mergedRows direction shape rows axisLen xs) ys ys' ∧
      BlockMerged direction shape rows axisLen xs ys' segment row block := by
  have htarget : (mergedRows direction shape rows axisLen xs).length = rows * axisLen := length_mergedRows hxs hcovers
  rw [mergeGroup, DoubleBuffer.get_map, Side.get_pair, mapM_cursor?_eq_ok hxs hcovers htotal hrow hsegment
    hblock tracked tracked hsegments hlen hwidth hwrap, Outcome.ok_bind]
  have hdelivers : ∀ cursor ∈ workingCursors direction shape axisLen xs row segment block,
      cursor.Delivers (precedesAt direction (xs.map Prod.fst).toArray) xs (mergedRows direction shape rows axisLen xs) ∧
        0 < cursor.remaining.toNat ∧ cursor.remaining.toNat ≤
          (workingCursors direction shape axisLen xs row segment block).foldl
            (fun most cursor => max most cursor.remaining.toNat) 0 := by
    intro cursor hcursor
    obtain ⟨hdelivers, hpos⟩ := delivers_of_mem_workingCursors hxs hcovers htotal hrow hsegment hblock hcursor
    exact ⟨hdelivers, hpos, (le_foldl_max (·.remaining.toNat) _ 0).2 cursor hcursor⟩
  obtain ⟨ys', hturns, himproves, hdelivered⟩ := mergeTurns_spec (MergeSettings.flag_ofSharing _ _ _)
    (MergeSettings.indexed_ofSharing _ _ _) src (show xs.length < 4294967296 by omega) (by omega)
    (hys.trans htarget.symm) hdelivers
  exact ⟨ys', hturns, himproves, blockMerged_of_delivered hxs hcovers htotal hrow hsegment hblock hdelivered⟩

end OneGroup

omit htotal in
/-- When all blocks have stored their outputs, the flat buffer holds the merged rows. -/
theorem eq_mergedRows {ys : List (κ × Tag UInt32)} (hys : ys.length = rows * axisLen)
    (h : ∀ segment < shape.segments.toNat, ∀ row < rows, ∀ block < shape.blocksPerSegment.toNat,
      BlockMerged direction shape rows axisLen xs ys segment row block) :
    ys = mergedRows direction shape rows axisLen xs := by
  have htarget : (mergedRows direction shape rows axisLen xs).length = rows * axisLen := length_mergedRows hxs hcovers
  refine List.ext_getElem? fun p => ?_
  rcases Nat.lt_or_ge p (rows * axisLen) with hp | hp
  · have hpos : 0 < axisLen := Nat.pos_of_ne_zero fun hzero => by simp [hzero] at hp
    have hrow : p / axisLen < rows := Nat.div_lt_of_lt_mul (by rwa [Nat.mul_comm])
    obtain ⟨segment, hsegment, block, hblock, share, lane, hshare, hlane, t, ht, hplace⟩ :=
      MergeShape.exists_lane_of_lt (precedesIn direction (chunk axisLen xs (p / axisLen))) hcovers
        (Nat.mod_lt p hpos)
    have hout := h segment hsegment (p / axisLen) hrow block hblock share hshare lane hlane t ht
    rwa [← hplace, Nat.div_add_mod'] at hout
  · rw [List.getElem?_eq_none (by omega), List.getElem?_eq_none (by omega)]

end Groups

/-! ### The launch -/

section Launches

variable [KeyOrder κ] {tracked : Bool} {flat : TaggedRow κ UInt32} {axisLen rows : UInt32} {src : Side}

/-- The state of a merge pass before group `x` of a row of its grid: the groups before have stored their outputs. -/
def MergedBefore (tracked : Bool) (direction : Direction) (shape : MergeShape) (rows axisLen : Nat) (src : Side)
    (xs : List (κ × Tag UInt32)) (number x : Nat) (cells : DeviceCells κ) : Prop :=
  ∃ ys, cells = (src.pair xs ys).map (Cells.ofTagged tracked) ∧ ys.length = rows * axisLen ∧
    ∀ segment < shape.segments.toNat, ∀ row < rows, ∀ block < shape.blocksPerSegment.toNat,
      segment * rows + row < number ∨ segment * rows + row = number ∧ block < x →
        BlockMerged direction shape rows axisLen xs ys segment row block

/-- A group behind the last row of the grid does nothing. -/
theorem mergeGroup_masked {extents : MergeExtents} {settings : MergeSettings} {threads : UInt32} {dst : Side}
    {group : Workgroup} (h : extents.rows * extents.segments ≤ group.row) (cells : DeviceCells κ) :
    mergeGroup settings src dst extents threads cells group = .ok cells := by
  have hpair : extents.pair? group.row = none := if_neg (UInt32.not_lt.mpr h)
  have hcursors : (List.range threads.toNat).mapM (fun n =>
      extents.cursor? settings (cells.get src).keys group (UInt32.ofNat n)) =
        (.ok ((List.range threads.toNat).map fun _ => none) : Outcome _) :=
    Outcome.mapM_eq_ok fun n _ => by rw [MergeExtents.cursor?, hpair]
  have hnone : ((List.range threads.toNat).map fun _ => (none : Option Cursor)).reduceOption = [] := by
    simp [List.reduceOption]
  rw [mergeGroup, hcursors, Outcome.ok_bind, hnone]
  rfl

/-- The merge kernel as it is launched. -/
def mergeKernel (settings : MergeSettings) (src : Side) (extents : MergeExtents) (threads : UInt32) : Kernel κ :=
  fun cells group => do return (← mergeGroup settings src src.other extents threads cells group, 0)

theorem mergeKernel_eq_ok {extents : MergeExtents} {settings : MergeSettings} {threads : UInt32} {group : Workgroup}
    {cells cells' : DeviceCells κ} (h : mergeGroup settings src src.other extents threads cells group = .ok cells') :
    mergeKernel settings src extents threads cells group = .ok (cells', 0) := by
  rw [mergeKernel, h]
  rfl

/-- A group of the grid stores the outputs of its block. -/
theorem MergedBefore.step {xs : List (κ × Tag UInt32)} {axisLen rows : Nat}
    (hxs : xs.length = rows * axisLen) (htotal : rows * axisLen < 4294967296) (hcovers : shape.Covers axisLen)
    (hrows : shape.grid.rows.toNat = rows * shape.segments.toNat) (hlen : axisLen ≤ 2147483648)
    (hwidth : shape.width.toNat ≤ 2147483648)
    (hwrap : shape.sharing.NoWrap shape.blocksPerSegment.toNat shape.grid.lanes.toNat) {number x : Nat}
    (hnumber : number < shape.grid.rows.toNat) (hx : x < shape.blocksPerSegment.toNat) {cells : DeviceCells κ}
    (h : MergedBefore tracked direction shape rows axisLen src xs number x cells) :
    ∃ cells', mergeGroup (.ofSharing shape.sharing direction.flag tracked) src src.other
        (.ofNats axisLen shape.width.toNat rows shape.segments.toNat) shape.grid.lanes cells
        ⟨UInt32.ofNat x, UInt32.ofNat number⟩ = .ok cells' ∧
      MergedBefore tracked direction shape rows axisLen src xs number (x + 1) cells' := by
  obtain ⟨ys, rfl, hys, hmerged⟩ := h
  have hword := shape.grid.rows.toNat_lt
  rw [hrows] at hnumber hword
  have hpos : 0 < rows := Nat.pos_of_ne_zero fun hzero => by simp [hzero] at hnumber
  obtain ⟨ys', hgroup, himproves, hblock⟩ := mergeGroup_spec direction hxs hcovers htotal
    (Nat.mod_lt number hpos) (Nat.div_lt_of_lt_mul hnumber) hx tracked src hword hlen hwidth hwrap hys
  rw [Nat.div_add_mod'] at hgroup
  refine ⟨_, hgroup, ys', rfl, himproves.length_eq.trans hys, fun segment hsegment row hrow block hblock' hbefore => ?_⟩
  by_cases hdone : segment * rows + row < number ∨ segment * rows + row = number ∧ block < x
  · exact (hmerged segment hsegment row hrow block hblock' hdone).mono himproves
  · obtain ⟨rfl, rfl⟩ : segment * rows + row = number ∧ block = x := by omega
    rwa [place_div segment hrow, place_mod segment hrow] at hblock

/-- The launch of a merge pass on all rows. -/
theorem exists_launch_merges (direction : Direction) (src : Side)
    (hflat : flat.HasLength (rows.toNat * axisLen.toNat)) (htotal : rows.toNat * axisLen.toNat < 4294967296)
    (hcovers : shape.Covers axisLen.toNat) (hrows : shape.grid.rows.toNat = rows.toNat * shape.segments.toNat)
    (hlen : axisLen.toNat ≤ 2147483648) (hwidth : shape.width.toNat ≤ 2147483648)
    (hwrap : shape.sharing.NoWrap shape.blocksPerSegment.toNat shape.grid.lanes.toNat) :
    ∃ syncs, (mergeKernel (.ofSharing shape.sharing direction.flag tracked) src
        ⟨axisLen, shape.width, rows, shape.segments⟩ shape.grid.lanes).launch shape.grid (flat.cells tracked) =
      .ok (TaggedRow.cells tracked (src.pair (flat.get src)
        (mergedRows direction shape rows.toNat axisLen.toNat (flat.get src))), syncs) := by
  have hxs : (flat.get src).length = rows.toNat * axisLen.toNat := hflat.get src
  have hextents : (⟨axisLen, shape.width, rows, shape.segments⟩ : MergeExtents) =
      .ofNats axisLen.toNat shape.width.toNat rows.toNat shape.segments.toNat := by
    simp only [MergeExtents.ofNats, UInt32.ofNat_toNat]
  have hstart : MergedBefore tracked direction shape rows.toNat axisLen.toNat src (flat.get src) 0 0
      (flat.cells tracked) := by
    refine ⟨flat.get src.other, ?_, hflat.get src.other, fun segment _ row _ block _ hbefore => ?_⟩
    · rw [Side.pair_get]
      rfl
    · omega
  obtain ⟨cells', syncs, hlaunch, ys, rfl, hys, hmerged⟩ := Kernel.exists_launch
    (mergeKernel (.ofSharing shape.sharing direction.flag tracked) src
      ⟨axisLen, shape.width, rows, shape.segments⟩ shape.grid.lanes) hstart
    (by
      intro number hnumber x hx cells h
      obtain ⟨cells', hgroup, hcells'⟩ := h.step hxs htotal hcovers hrows hlen hwidth hwrap hnumber hx
      rw [← hextents] at hgroup
      exact ⟨cells', 0, mergeKernel_eq_ok hgroup, hcells'⟩)
    (by
      rintro number hnumber cells ⟨ys, rfl, hys, hmerged⟩
      refine ⟨ys, rfl, hys, fun segment hsegment row hrow block hblock hbefore => ?_⟩
      exact hmerged segment hsegment row hrow block hblock (by
        have hall : block < shape.grid.blocksPerRow.toNat := hblock
        omega))
    (fun group hgroup cells => ⟨0, mergeKernel_eq_ok (mergeGroup_masked (by
      have hword := shape.grid.rows.toNat_lt
      have hproduct : rows * shape.segments = shape.grid.rows := by
        rw [← UInt32.toNat_inj, UInt32.toNat_mul, hrows]
        exact Nat.mod_eq_of_lt (by omega)
      rw [hproduct]
      exact hgroup) cells)⟩)
  have heq := eq_mergedRows hxs hcovers hys fun segment hsegment row hrow block hblock =>
    hmerged segment hsegment row hrow block hblock (.inl (by
      rw [hrows, Nat.mul_comm rows.toNat]
      exact place_lt hsegment hrow))
  exact ⟨syncs, by rw [hlaunch, heq]; rfl⟩

end Launches

end MergePathSort
