import MergePathSort.Proofs.Host.Execution
import MergePathSort.Proofs.Merge.Sequential
import MergePathSort.Proofs.Sorted.Permutation

/-!
# Running programs on any keys

Nothing that keeps a run on the host inside its buffers depends on the order of the keys. Every search is bounded by the
lengths of its runs, whatever the comparison answers, so every sum, every difference and every access of a run succeeds.
The moves of a merge pass go to every position of the row once, and what they carry are keys with their indices, so that
an index leads back to its key even if the keys are in no order.

## Main definitions

* `MergeShape.moves`, `MergeShape.WritesOnce` : the moves of a pass over a row, and blocks that carry them out.
* `Buffers.LeadBack` : indices that lead from keys to the input.

## Main results

* `MergeShape.moves_eq_ok` : the moves of a pass, for any keys.
* `Launch.writesOnce` : a merge launch writes every position of a row once.
* `Program.execute_any_keys` : a lowered program on any keys.
-/

namespace MergePathSort

variable {κ ι : Type}

/-! ### The moves of a pass -/

section Pass

variable [KeyOrder κ]

/-- The moves of all lanes of all blocks of all segments of a row of `size`, segment by segment. -/
def MergeShape.moves (src : Array κ) (shape : MergeShape) (direction : Direction) (size : Nat) : Outcome (List Move) := do
  let moves ← (List.range shape.segments.toNat).mapM fun number => do
    let segment ← Segment.ofNumber number shape.width.toNat size
    segment.moves src direction shape.sharing shape.blocksPerSegment.toNat shape.grid.lanes.toNat
  return moves.flatten

/-- The moves of a pass go to the places of the row, one after the other, whatever the keys are. -/
theorem MergeShape.moves_eq_ok {direction : Direction} {shape : MergeShape} {size : Nat} {keys : Array κ}
    (hkeys : keys.size = size) (hsize : size < Buffer.byteLimit) (hcovers : shape.Covers size) :
    shape.moves keys direction size = .ok (Move.listFrom (shape.sources (precedesAt direction keys) size) 0) := by
  subst hkeys
  have hwidth : shape.width.toNat < Buffer.byteLimit := Nat.lt_trans shape.width.toNat_lt (by decide)
  refine Outcome.bind_eq_ok_iff.mpr ⟨_, Outcome.mapM_eq_ok (g := fun number =>
    Move.listFrom (shape.segmentSources (precedesAt direction keys) keys.size number)
      (0 + ((List.range number).flatMap (shape.segmentSources (precedesAt direction keys) keys.size)).length))
    fun number hnumber => ?_, ?_⟩
  · rw [List.mem_range] at hnumber
    have hstart := hcovers.start_lt number hnumber
    have hbefore := length_segments (precedesAt direction keys) hcovers (Nat.le_of_lt hnumber)
    rw [Nat.min_eq_left (Nat.le_of_lt hstart)] at hbefore
    rw [Segment.ofNumber_eq_ok hsize hwidth (Nat.le_of_lt hstart), Outcome.ok_bind, Nat.zero_add, hbefore]
    exact Segment.moves_eq_ok hsize (segmentAt_fits (Nat.le_of_lt hstart)) hcovers.shared
      (Nat.le_of_lt shape.blocksPerSegment.toNat_lt) (Nat.le_of_lt shape.grid.lanes.toNat_lt)
  · rw [← List.flatMap_def]
    exact congrArg Except.ok (Move.listFrom_flatMap _ _ _).symm

end Pass

variable [Element κ] [IndexElement ι]

/-- Blocks write every position of a row of `size` once: they carry out the moves of a pass in order, which go to the
positions of the row one after the other, and come from positions of the row. -/
def MergeShape.WritesOnce (shape : MergeShape) (direction : Direction) (src : Side) (size : Nat)
    (blocks : List (RowBlock κ ι)) (cells : RowCells κ ι) : Prop :=
  ∃ moves cells' used, shape.moves (cells.get src).keys direction size = .ok moves ∧
    Block.runAll blocks cells = .ok (cells', used) ∧ moves.foldlM (carry src) cells = .ok cells' ∧
    moves.map Move.destination = List.range size ∧ ∀ move ∈ moves, move.source < size

/-- A launch that merges writes every position of a row once, whatever the row holds. -/
theorem Launch.writesOnce {program : Program} (h : program.Fits) {launch : Launch} (hlaunch : launch ∈ program.launches)
    {pass : Nat} {src dst : Side} {shape : MergeShape} (hstage : launch.stage = .mergeRuns pass src dst shape)
    (input : Array κ) (number : Nat) {row : TaggedRow κ ι} (hrow : row.HasLength program.view.axisLen) :
    shape.WritesOnce program.direction src program.view.axisLen (launch.blocksOnRow program input number)
      (row.cells program.indexed) := by
  obtain ⟨stage, grid⟩ := launch
  subst hstage
  obtain ⟨-, -, hcovers⟩ := h.covers _ hlaunch
  have hsrc : (row.get src).length = program.view.axisLen := hrow.get src
  have hget : (row.cells program.indexed).get src = Cells.ofTagged program.indexed (row.get src) := by
    rw [TaggedRow.cells, DoubleBuffer.get_map]
  have hkeys : ((row.cells program.indexed).get src).keys.size = program.view.axisLen := by
    rw [hget, Cells.size_keys_ofTagged, hsrc]
  obtain ⟨used, hrun⟩ := exists_runAll_merges program.direction src hrow h.axisLen_lt hcovers
  have hsources : shape.sources (precedesAt program.direction ((row.cells program.indexed).get src).keys)
      program.view.axisLen = passSources program.direction shape (row.get src) := by
    rw [passSources, hsrc, hget]
    rfl
  have hmem : ∀ source ∈ passSources program.direction shape (row.get src), source < program.view.axisLen := by
    intro source hsource
    rw [← hsources] at hsource
    exact MergeShape.mem_sources hcovers hsource
  have hlen : (passSources program.direction shape (row.get src)).length = program.view.axisLen := by
    rw [← hsources]
    exact MergeShape.length_sources _ hcovers
  have hmoves : shape.moves ((row.cells program.indexed).get src).keys program.direction program.view.axisLen = .ok _ :=
    MergeShape.moves_eq_ok hkeys h.axisLen_lt hcovers
  rw [hsources] at hmoves
  refine ⟨_, _, used, hmoves, hrun, ?_, ?_, fun move hmove => ?_⟩
  · have hcarried : (Move.listFrom (passSources program.direction shape (row.get src)) 0).foldlM (carry src)
        ((row.withTaken src []).cells program.indexed) =
          .ok ((row.withTaken src (passSources program.direction shape (row.get src))).cells program.indexed) :=
      foldlM_carry src hrow (fun _ hnone => absurd hnone List.not_mem_nil) hmem (by simp [hlen])
    rw [TaggedRow.withTaken_nil, TaggedRow.withTaken_passSources program.direction src hrow hcovers] at hcarried
    exact hcarried
  · rw [Move.map_destination_listFrom, hlen, List.range_eq_range']
  · have hsource := List.mem_map_of_mem (f := Move.source) hmove
    rw [Move.map_source_listFrom] at hsource
    exact hmem _ hsource

/-! ### Programs -/

section Programs

variable {shape : List Nat} {axis : Nat} {direction : Direction} {indexed : Bool} {config : Config}
  {program : Program} {input : Array κ} {buffers : Buffers κ ι}

/-- The indices on the front side lead from the keys beside them back to the input: every index is a position of its
row, and the input has the same key there. -/
def Buffers.LeadBack (buffers : Buffers κ ι) (view : AxisView) (input : Array κ) : Prop :=
  ∃ indices, buffers.indices = some indices ∧
    ∀ row < view.before, ∀ p < view.axisLen, ∃ q < view.axisLen, ∃ index key,
      indices.front[row * view.axisLen + p]? = some index ∧ Element.toNumber index = q ∧
      buffers.keys.front[row * view.axisLen + p]? = some key ∧ input[row * view.axisLen + q]? = some key

omit [Element κ] in
/-- A key of a sorted row, and the position of the source row that its index names. -/
theorem Program.Sorts.exists_source [KeyOrder κ] [FaithfulIndex ι] {tile : UInt32} {copy tiles : Grid} {passes : Nat}
    {shapes : Nat → MergeShape} (h : program.Sorts tile copy tiles passes shapes) {keys : List κ}
    (hkeys : keys.length = program.view.axisLen) {p : Nat} (hp : p < program.view.axisLen) :
    ∃ q < program.view.axisLen, ∃ cell, (program.sortedRow keys : TaggedRow κ ι).front[p]? = some cell ∧
      Element.toNumber cell.2.index = q ∧ keys[q]? = some cell.1 := by
  have hlen := (h.hasLength_sortedRow (ι := ι) hkeys).front
  have hword := h.axisLen_le_word
  have hmax := FaithfulIndex.le_maxPosition (ι := ι)
  rw [← hlen] at hp
  obtain ⟨q, hposition, hkey⟩ := h.fromSource hkeys _ (List.getElem_mem hp)
  have hq : q < program.view.axisLen := by
    rw [← hkeys]
    exact (List.getElem?_eq_some_iff.mp hkey).1
  refine ⟨q, hq, _, List.getElem?_eq_getElem hp, ?_, hkey⟩
  rw [hposition]
  exact FaithfulIndex.toNumber_ofPosition q (by omega)

/-- A lowered program that has launches, on keys of which nothing is assumed. It runs without a fault on any buffers of
its length, and if it tracks indices they lead back to the input. All of its merge launches write every position of a
row once, whatever the row holds. -/
theorem Program.execute_any_keys [FaithfulIndex ι]
    (hlower : Program.lower shape axis direction indexed config = .ok program) (hlaunches : program.launches ≠ [])
    (hinput : input.size = program.view.before * program.view.axisLen)
    (hbuffers : (program.tracked buffers).HasLength (program.view.before * program.view.axisLen))
    (hindices : program.indexed = true → buffers.indices ≠ none) :
    (∃ result report, program.execute input buffers = .ok (result, report) ∧
      (program.indexed = true → result.LeadBack program.view input)) ∧
    ∀ launch ∈ program.launches, ∀ pass src dst merge, launch.stage = .mergeRuns pass src dst merge →
      ∀ number, ∀ row : TaggedRow κ ι, row.HasLength program.view.axisLen →
        merge.WritesOnce program.direction src program.view.axisLen (launch.blocksOnRow program input number)
          (row.cells program.indexed) := by
  have hrows : program.view.before * program.view.axisLen ≠ 0 := by
    obtain ⟨-, -, -, -, -, -, ⟨-, hnone⟩ | ⟨hrows, -⟩⟩ := Program.lower_spec hlower
    · exact absurd hnone hlaunches
    · exact hrows
  obtain ⟨copy, tiles, passes, shapes, hsorts⟩ := Program.exists_sorts_of_lower hlower hrows
  obtain ⟨report, hexecute⟩ := Program.exists_execute hsorts.toFits hlaunches hinput hbuffers hindices
  refine ⟨⟨_, report, hexecute, fun hindexed => ⟨_, if_pos hindexed, fun number hnumber p hp => ?_⟩⟩,
    fun launch hlaunch pass src dst merge hstage number row hrow =>
      Launch.writesOnce hsorts.toFits hlaunch hstage input number hrow⟩
  have hrow : ∀ number, program.finalRow input buffers number =
      program.sortedRow (chunk program.view.axisLen input.toList number) := fun _ => hsorts.launchesOnRow_eq _ _
  have hlength : ∀ number < program.view.before, (program.finalRow input buffers number).front.length =
      program.view.axisLen := by
    intro number hnumber
    rw [hrow]
    exact (hsorts.hasLength_sortedRow (length_chunk_of_lt hinput hnumber)).front
  obtain ⟨q, hq, cell, hcell, hindex, hkey⟩ :=
    hsorts.exists_source (ι := ι) (length_chunk_of_lt hinput hnumber) hp
  rw [← hrow] at hcell
  rw [getElem?_chunk hq, Array.getElem?_toList] at hkey
  refine ⟨q, hq, cell.2.index, cell.1, ?_, hindex, ?_, hkey⟩
  · rw [indicesOfRows, List.getElem?_toArray, getElem?_flatMap_rows _ hlength hnumber hp, hcell, Option.map_some]
  · rw [Program.result, keysOfRows, List.getElem?_toArray, getElem?_flatMap_rows _ hlength hnumber hp, hcell,
      Option.map_some]

end Programs

/-- Two rows with NaN at either end, of which the pass takes some positions twice: every index still leads back, and the
pass fills the whole of a row. -/
theorem Program.execute_nan_rows :
    ∃ program, Program.lower [2, 4] 1 .ascending true { limits := { maxLanes := 2 }, tuning := { tile := 2 } } =
        .ok program ∧
      (∃ result report, program.execute (#[⟨2143289344⟩, ⟨0⟩, ⟨1065353216⟩, ⟨1073741824⟩, ⟨1073741824⟩, ⟨1065353216⟩, ⟨0⟩,
          ⟨2143289344⟩] : Array Binary32) (⟨.zeros 8, some (.zeros 8)⟩ : Buffers Binary32 UInt32) = .ok (result, report) ∧
        result.LeadBack program.view #[⟨2143289344⟩, ⟨0⟩, ⟨1065353216⟩, ⟨1073741824⟩, ⟨1073741824⟩, ⟨1065353216⟩, ⟨0⟩,
          ⟨2143289344⟩]) ∧
      ∃ launch ∈ program.launches, ∃ pass merge, launch.stage = .mergeRuns pass .front .back merge ∧
        merge.WritesOnce .ascending .front 4 (launch.blocksOnRow program #[] 0)
          (TaggedRow.cells true (.both (numbered [⟨2143289344⟩, ⟨0⟩, ⟨1065353216⟩, ⟨1073741824⟩])) :
            RowCells Binary32 UInt32) := by
  have hlower : Program.lower [2, 4] 1 .ascending true { limits := { maxLanes := 2 }, tuning := { tile := 2 } } =
      .ok ⟨⟨2, 4, 1⟩, .ascending, true, [⟨.copyIn, ⟨2, 2, 2⟩⟩, ⟨.sortTiles 2, ⟨1, 2, 2⟩⟩,
        ⟨.mergeRuns 0 .front .back ⟨⟨2, 1, 2⟩, 4, 1, .oneBlock 2⟩, ⟨2, 1, 2⟩⟩, ⟨.copyBack, ⟨2, 2, 2⟩⟩]⟩ := rfl
  have hbuffers : Buffers.HasLength (⟨.zeros 8, some (.zeros 8)⟩ : Buffers Binary32 UInt32) 8 :=
    ⟨rfl, rfl, by rintro _ ⟨⟩; exact ⟨rfl, rfl⟩⟩
  have hinput : (#[⟨2143289344⟩, ⟨0⟩, ⟨1065353216⟩, ⟨1073741824⟩, ⟨1073741824⟩, ⟨1065353216⟩, ⟨0⟩, ⟨2143289344⟩] :
      Array Binary32).size = 2 * 4 := rfl
  obtain ⟨⟨result, report, hexecute, hlead⟩, hmerges⟩ := Program.execute_any_keys hlower (List.cons_ne_nil _ _) hinput
    (Program.hasLength_tracked hbuffers) (fun _ => Option.some_ne_none _)
  refine ⟨_, hlower, ⟨result, report, hexecute, hlead rfl⟩, _, List.mem_of_getElem? (i := 2) rfl, _, _, rfl, ?_⟩
  exact hmerges _ (List.mem_of_getElem? (i := 2) rfl) _ _ _ _ rfl 0 _ ⟨rfl, rfl⟩

end MergePathSort
