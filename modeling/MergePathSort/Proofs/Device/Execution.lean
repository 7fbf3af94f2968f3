import MergePathSort.Proofs.Device.Buffers
import MergePathSort.Proofs.Host.Execution
import MergePathSort.Proofs.Sorted.Program

/-!
# Running a program on a device

A device reads its input from a buffer and reads the sorted keys and their indices back from the front side. Storing
elements in buffers loses nothing. Nothing is known of what both sides and the scratch of the groups hold before the first
launch, and it does not matter: the first launch stores every key and every index of the front side, and no launch reads
what none has stored. So a device returns what a host leaves on its front sides, for keys of any kind, comparable or not.

## Main definitions

* `DeviceEngine.sortedResult` : the sorted rows as a device returns them.

## Main results

* `DeviceEngine.exists_foldlM_issue` : the launches of a program.
* `DeviceEngine.exists_execute` : what a device returns.
* `DeviceEngine.exists_execute_eq_run` : it is what a host leaves on its front sides.
-/

namespace MergePathSort

variable {κ : Type} [Element κ]

/-! ### Reading and writing buffers -/

namespace Pool

variable {pool : Pool} {name : BufferName} {data : Array κ}

/-- The elements of a buffer of which only the room is known. -/
theorem HasRoomFor.exists_elements [LawfulElement κ] {len : Nat} (h : pool.HasRoomFor κ name len) :
    ∃ found, pool.elements κ name = .ok found ∧ found.size = room len := by
  obtain ⟨bytes, hbytes, hsize⟩ := h
  rw [elements, contents_eq_ok_iff.mpr hbytes, Outcome.ok_bind, decode]
  have hwhole : bytes.size % Element.width κ = 0 := by rw [hsize, Nat.mul_mod_left]
  simp only [hwhole, if_true]
  refine ⟨_, rfl, ?_⟩
  rw [Array.size_map, Array.size_range, hsize, Nat.mul_div_cancel _ LawfulElement.width_pos]

/-- What is read of a buffer of which only the room is known. -/
theorem HasRoomFor.exists_read [LawfulElement κ] (h : pool.HasRoomFor κ name name.len) :
    ∃ found, pool.read κ name = .ok found ∧ found.size = name.len := by
  obtain ⟨found, hfound, hsize⟩ := h.exists_elements
  refine ⟨found.take name.len, by rw [read, hfound]; rfl, ?_⟩
  rw [Array.take_eq_extract, Array.size_extract, hsize, room]
  omega

/-- Reading what elements have been stored as. -/
theorem read_eq_ok [LawfulElement κ] (h : pool.bytes? name = some (encode data)) (hlen : name.len = data.size) :
    pool.read κ name = .ok data := by
  rw [read, elements, contents_eq_ok_iff.mpr h, Outcome.ok_bind, decode_encode, Outcome.ok_bind, hlen]
  simp

end Pool

namespace SortBuffers

variable {pool : Pool} {keys indices other : BufferName} {oldKeys oldIndices : Array UInt8}

/-- A side in which nothing has been stored. -/
theorem exists_sideCells [LawfulElement κ] {total indexLen : Nat} {indexed : Bool} (hpos : 0 < total)
    (hindexLen : indexed = true → indexLen = total) (hkeys : pool.HasRoomFor κ keys total)
    (hindices : pool.HasRoomFor UInt32 indices indexLen) :
    ∃ side : List (κ × Tag UInt32), side.length = total ∧
      sideCells κ pool indexed keys indices = .ok (Cells.ofTagged indexed side) := by
  have hroom : Pool.room total = total := by simp only [Pool.room]; omega
  obtain ⟨foundKeys, hfoundKeys, hkeysSize⟩ := hkeys.exists_elements
  obtain ⟨foundIndices, hfoundIndices, hindicesSize⟩ := hindices.exists_elements
  obtain ⟨side, hlen, hside⟩ := Cells.exists_eq_ofTagged indexed foundKeys foundIndices
    fun htracked => by rw [hkeysSize, hindicesSize, hindexLen htracked]
  refine ⟨side, by rw [hlen, hkeysSize, hroom], ?_⟩
  rw [sideCells, hfoundKeys, Outcome.ok_bind, ← hside]
  cases indexed with
  | false => rfl
  | true =>
    rw [if_pos rfl, hfoundIndices]
    rfl

section Store

variable (hkeys : pool.bytes? keys = some oldKeys) (hindices : pool.bytes? indices = some oldIndices)
  (hne : keys ≠ indices) (cells : Cells κ UInt32)
include hkeys hindices hne

/-- The buffers of one side after its cells have been stored. -/
theorem bytes?_storeSide :
    (storeSide pool keys indices cells).bytes? keys = some (Pool.encode cells.keys) ∧
      (∀ words, cells.indices = some words →
        (storeSide pool keys indices cells).bytes? indices = some (Pool.encode words)) ∧
      (∀ other, other ≠ keys → other ≠ indices →
        (storeSide pool keys indices cells).bytes? other = pool.bytes? other) ∧
      ∃ bytes, (storeSide pool keys indices cells).bytes? indices = some bytes := by
  have hstored := Pool.bytes?_overwrite hkeys (Pool.encode cells.keys)
  have hindices' : (pool.overwrite keys (Pool.encode cells.keys)).bytes? indices = some oldIndices := by
    rw [hstored, if_neg hne, hindices]
  rw [storeSide]
  cases hcells : cells.indices with
  | none =>
    refine ⟨by simp [hstored], by simp, fun other hother _ => ?_, oldIndices, hindices'⟩
    simp only [hstored, if_neg hother.symm]
  | some words =>
    have hboth := Pool.bytes?_overwrite hindices' (Pool.encode words)
    refine ⟨?_, ?_, fun other hother hother' => ?_, Pool.encode words, ?_⟩
    · simp only [hboth, if_neg hne.symm, hstored, if_true]
    · rintro _ ⟨⟩
      simp only [hboth, if_true]
    · simp only [hboth, if_neg hother'.symm, hstored, if_neg hother.symm]
    · simp only [hboth, if_true]

end Store

/-- The buffers after both sides have been stored. -/
theorem Fresh.bytes?_store {buffers : SortBuffers} {input : Array κ} {total indexLen : Nat}
    (h : buffers.Fresh pool input total indexLen) (cells : DeviceCells κ) {stored : Pool}
    (hstored : stored = storeSide (storeSide pool buffers.keys.front buffers.indices.front cells.front)
      buffers.keys.back buffers.indices.back cells.back) :
    stored.bytes? buffers.keys.front = some (Pool.encode cells.front.keys) ∧
      (∀ words, cells.front.indices = some words →
        stored.bytes? buffers.indices.front = some (Pool.encode words)) ∧
      ∀ name ∈ buffers.names, ∃ bytes, stored.bytes? name = some bytes := by
  have hnames := h.nodup
  simp only [names, List.nodup_cons, List.mem_cons, List.not_mem_nil, or_false, not_or] at hnames
  obtain ⟨⟨hdata₁, hdata₂, hdata₃, hdata₄⟩, ⟨hfront₁, hfront₂, hfront₃⟩, ⟨hback₁, hback₂⟩, hindices₁, -⟩ := hnames
  obtain ⟨_, holdKeys, -⟩ := h.keysFront
  obtain ⟨_, holdIndices, -⟩ := h.indicesFront
  obtain ⟨_, holdKeysBack, -⟩ := h.keysBack
  obtain ⟨_, holdIndicesBack, -⟩ := h.indicesBack
  obtain ⟨hkeys, hindices, hothers, hlive⟩ := bytes?_storeSide holdKeys holdIndices hfront₂ cells.front
  have hkeysBack := (hothers _ (Ne.symm hfront₁) hback₁).trans holdKeysBack
  have hindicesBack := (hothers _ (Ne.symm hfront₃) (Ne.symm hindices₁)).trans holdIndicesBack
  obtain ⟨hkeys', -, hothers', hlive'⟩ := bytes?_storeSide hkeysBack hindicesBack hback₂ cells.back
  rw [← hstored] at hkeys' hothers' hlive'
  have hkeysFront := (hothers' _ hfront₁ hfront₃).trans hkeys
  have hindicesFront := hothers' _ (Ne.symm hback₁) hindices₁
  refine ⟨hkeysFront, fun words hwords => hindicesFront.trans (hindices words hwords), ?_⟩
  simp only [names, List.forall_mem_cons, List.not_mem_nil, false_implies, implies_true, and_true]
  obtain ⟨bytes, hbytes⟩ := hlive
  exact ⟨⟨_, (hothers' _ hdata₂ hdata₄).trans ((hothers _ hdata₁ hdata₃).trans h.data)⟩, ⟨_, hkeysFront⟩,
    ⟨_, hkeys'⟩, ⟨bytes, hindicesFront.trans hbytes⟩, hlive'⟩

end SortBuffers

/-! ### Launches -/

namespace DeviceEngine

section Launches

variable {program : Program} {input : Array κ} {rows : Nat → TaggedRow κ UInt32}

/-- A launch that runs is issued, and logged. -/
theorem exists_issue {cells cells' : DeviceCells κ} {launch : Launch} {syncs : Nat} (total indexLen : Nat)
    (engine : DeviceEngine)
    (h : (launch.kernel program program.view.words engine.groupMemory input).1.launch launch.grid cells =
      .ok (cells', syncs)) :
    ∃ log, (issue program program.view.words input total indexLen cells launch).run engine =
      (.ok cells', { engine with log }) := by
  refine ⟨LaunchRecord.ofGrid launch.grid (launch.kernel program program.view.words engine.groupMemory input).2
    (launch.stage.bufferLengths total indexLen) syncs (launch.stage.scratchBytes κ program.indexed) :: engine.log, ?_⟩
  rw [issue, Stateful.run_bind_of_eq_ok Stateful.run_get]
  exact Stateful.run_bind_eq_ok_iff.mpr ⟨(cells', syncs), engine, Stateful.run_ofOutcome_eq_ok_iff.mpr ⟨h, rfl⟩, rfl⟩

/-- Launches of a program have their effects on all rows of the flat buffers, whatever scratch they find. -/
theorem exists_foldlM_issue (total indexLen : Nat) (h : program.Fits) (hlen : program.view.axisLen ≤ 2147483648)
    (htotal : program.view.before * program.view.axisLen < 4294967296)
    (hinput : input.size = program.view.before * program.view.axisLen) {launches : List Launch}
    (hlaunches : ∀ launch ∈ launches, launch ∈ program.launches ∧ launch.FitsWords program.view.before)
    (hrows : ∀ number < program.view.before, (rows number).HasLength program.view.axisLen) (engine : DeviceEngine) :
    ∃ log, (launches.foldlM (issue program program.view.words input total indexLen)
        ((TaggedRow.ofRows program.view.before rows).cells program.indexed)).run engine =
      (.ok ((TaggedRow.ofRows program.view.before fun number =>
        launchesOnRow program.direction (chunk program.view.axisLen input.toList number) launches
          (rows number)).cells program.indexed), { engine with log }) := by
  induction launches generalizing rows engine with
  | nil => exact ⟨engine.log, rfl⟩
  | cons launch launches ih =>
    obtain ⟨hlaunch, hwords⟩ := hlaunches launch (by simp)
    obtain ⟨syncs, hrun⟩ := Launch.exists_launch h engine.groupMemory hlaunch hwords hlen htotal hinput hrows
    obtain ⟨log, hissue⟩ := exists_issue total indexLen engine hrun
    obtain ⟨log', hrest⟩ := ih (fun l hl => hlaunches l (by simp [hl])) (fun number hnumber =>
      Launch.hasLength_onRow (h.covers launch hlaunch) (length_chunk_of_lt hinput hnumber) (hrows number hnumber))
      { engine with log }
    exact ⟨log', Stateful.run_bind_eq_ok_iff.mpr ⟨_, _, hissue, hrest⟩⟩

end Launches

/-! ### Programs -/

variable {program : Program} {tile : UInt32} {copy tiles : Grid} {passes : Nat} {shapes : Nat → MergeShape}
  {input : Array κ}

/-- The sorted keys of all rows, and their indices if the program tracks them. -/
def sortedResult (program : Program) (input : Array κ) : Array κ × Option (Array UInt32) :=
  (keysOfRows program.view.before fun number =>
      (program.sortedRow (chunk program.view.axisLen input.toList number) : TaggedRow κ UInt32).front,
    if program.indexed then
      some (indicesOfRows program.view.before fun number =>
        (program.sortedRow (chunk program.view.axisLen input.toList number)).front)
    else none)

/-- The cells of the sorted rows, one row behind the other. -/
def sortedCells (program : Program) (input : Array κ) : DeviceCells κ :=
  (TaggedRow.ofRows program.view.before fun number =>
    program.sortedRow (chunk program.view.axisLen input.toList number)).cells program.indexed

/-- The front side of the sorted cells is what a device returns. -/
theorem front_sortedCells (program : Program) (input : Array κ) :
    (sortedCells program input).front = ⟨(sortedResult program input).1, (sortedResult program input).2⟩ := by
  rw [sortedCells, TaggedRow.cells, DoubleBuffer.map, TaggedRow.ofRows, Cells.ofTagged]
  simp only [List.map_flatMap]
  rfl

/-- A device returns as many keys as it was handed, and as many indices. -/
theorem size_sortedResult (h : program.Sorts tile copy tiles passes shapes)
    (hinput : input.size = program.view.before * program.view.axisLen) :
    (sortedResult program input).1.size = input.size ∧
      ∀ words, (sortedResult program input).2 = some words → words.size = input.size := by
  have hlen : ((List.range program.view.before).flatMap fun number =>
      (program.sortedRow (chunk program.view.axisLen input.toList number) : TaggedRow κ UInt32).front).length =
        input.size := by
    rw [hinput]
    exact length_flatMap_of_length fun number hnumber =>
      (h.hasLength_sortedRow (length_chunk_of_lt hinput hnumber)).front
  have hfront : Cells.ofTagged program.indexed ((List.range program.view.before).flatMap fun number =>
      (program.sortedRow (chunk program.view.axisLen input.toList number) : TaggedRow κ UInt32).front) =
        ⟨(sortedResult program input).1, (sortedResult program input).2⟩ := front_sortedCells program input
  rw [← hlen]
  constructor
  · exact (congrArg (fun cells => cells.keys.size) hfront).symm.trans Cells.size_keys_ofTagged
  · intro words hwords
    have hindices := congrArg Cells.indices hfront
    rw [hwords, Cells.ofTagged] at hindices
    split at hindices
    · cases hindices
      simp
    · cases hindices

section RunOn

variable [LawfulElement κ] (h : program.Sorts tile copy tiles passes shapes)
  (hinput : input.size = program.view.before * program.view.axisLen) {indexLen : Nat}
  (hindexLen : program.indexed = true → indexLen = program.view.before * program.view.axisLen)
  {buffers : SortBuffers} {engine : DeviceEngine}
  (hfresh : buffers.Fresh engine.pool input (program.view.before * program.view.axisLen) indexLen)
include h hinput hindexLen hfresh

/-- The sides of fresh buffers are read, and the launches of a program leave the sorted rows in them. -/
theorem exists_issueLaunches (hwords : ∀ launch ∈ program.launches, launch.FitsWords program.view.before)
    (htotal : program.view.before * program.view.axisLen < 4294967296) (hrows : 0 < program.view.before) :
    ∃ front back log,
      SortBuffers.sideCells κ engine.pool program.indexed buffers.keys.front buffers.indices.front = .ok front ∧
      SortBuffers.sideCells κ engine.pool program.indexed buffers.keys.back buffers.indices.back = .ok back ∧
      (issueLaunches program program.view.words input (program.view.before * program.view.axisLen) indexLen
        ⟨front, back⟩).run engine = (.ok (sortedCells program input), { engine with log }) := by
  have hpos : 0 < program.view.before * program.view.axisLen := Nat.mul_pos hrows h.axisLen_pos
  obtain ⟨front, hfrontLen, hfront⟩ :=
    SortBuffers.exists_sideCells hpos hindexLen hfresh.keysFront hfresh.indicesFront
  obtain ⟨back, hbackLen, hback⟩ := SortBuffers.exists_sideCells hpos hindexLen hfresh.keysBack hfresh.indicesBack
  have hflat : TaggedRow.HasLength ⟨front, back⟩ (program.view.before * program.view.axisLen) :=
    ⟨hfrontLen, hbackLen⟩
  obtain ⟨log, hlaunches⟩ := exists_foldlM_issue (program.view.before * program.view.axisLen) indexLen h.toFits
    h.axisLen_le_word htotal hinput (fun launch hl => ⟨hl, hwords launch hl⟩)
    (fun number hnumber => hflat.rowAt hnumber) engine
  rw [TaggedRow.ofRows_rowAt hflat, ← issueLaunches_eq_foldlM_issue] at hlaunches
  simp only [h.launchesOnRow_eq] at hlaunches
  exact ⟨_, _, log, hfront, hback, hlaunches⟩

/-- The sorted cells that have been stored are read back. -/
theorem read_sortedCells {stored : Pool}
    (hstored : stored = SortBuffers.storeSide (SortBuffers.storeSide engine.pool buffers.keys.front
      buffers.indices.front (sortedCells program input).front) buffers.keys.back buffers.indices.back
        (sortedCells program input).back) :
    stored.read κ buffers.keys.front = .ok (sortedResult program input).1 ∧
      (∀ words, (sortedResult program input).2 = some words →
        stored.read UInt32 buffers.indices.front = .ok words) ∧
      ∀ name ∈ buffers.names, ∃ bytes, stored.bytes? name = some bytes := by
  obtain ⟨hkeys, hindices, hlive⟩ := hfresh.bytes?_store (sortedCells program input) hstored
  rw [front_sortedCells] at hkeys hindices
  obtain ⟨hkeysSize, hwordsSize⟩ := size_sortedResult h hinput
  refine ⟨Pool.read_eq_ok hkeys (hfresh.keys_len.trans (hinput.symm.trans hkeysSize.symm)), fun words hwords => ?_, hlive⟩
  have hindexed : program.indexed = true := by
    by_contra hnot
    rw [sortedResult, if_neg hnot] at hwords
    cases hwords
  refine Pool.read_eq_ok (hindices words hwords) (hfresh.indices_len.trans ?_)
  rw [hindexLen hindexed, ← hinput, hwordsSize words hwords]

/-- A program that runs on fresh buffers returns the sorted rows, and all of its buffers are there to be freed. -/
theorem exists_runOn (hwords : ∀ launch ∈ program.launches, launch.FitsWords program.view.before)
    (htotal : program.view.before * program.view.axisLen < 4294967296) (hrows : 0 < program.view.before) :
    ∃ engine', (runOn program buffers (program.view.before * program.view.axisLen) indexLen).run engine =
        (.ok (sortedResult program input), engine') ∧ engine'.config = engine.config ∧
      ∀ name ∈ buffers.names, ∃ bytes, engine'.pool.bytes? name = some bytes := by
  have hdata : engine.pool.read κ buffers.data = .ok input := Pool.read_eq_ok hfresh.data hfresh.data_len
  have hextents : DeviceExtents.ofView program.view = .ok program.view.words :=
    DeviceExtents.ofView_eq_ok h.after_eq (by have := h.axisLen_le_word; omega)
      (Nat.lt_of_le_of_lt (Nat.le_mul_of_pos_right _ h.axisLen_pos) htotal)
  obtain ⟨front, back, log, hfront, hback, hlaunches⟩ :=
    exists_issueLaunches h hinput hindexLen hfresh hwords htotal hrows
  generalize hstored : SortBuffers.storeSide (SortBuffers.storeSide engine.pool buffers.keys.front
    buffers.indices.front (sortedCells program input).front) buffers.keys.back buffers.indices.back
      (sortedCells program input).back = stored
  obtain ⟨hkeys, hindices, hlive⟩ := read_sortedCells h hinput hindexLen hfresh hstored.symm
  have hmodify : Stateful.run (modify fun engine : DeviceEngine =>
      let pool := SortBuffers.storeSide engine.pool buffers.keys.front buffers.indices.front
        (sortedCells program input).front
      { engine with
        pool := SortBuffers.storeSide pool buffers.keys.back buffers.indices.back (sortedCells program input).back })
      { engine with log } = (.ok ⟨⟩, { engine with pool := stored, log }) := by
    rw [← hstored]
    rfl
  refine ⟨{ engine with pool := stored, log }, ?_, rfl, hlive⟩
  rw [runOn, Stateful.run_bind_of_eq_ok Stateful.run_get,
    Stateful.run_bind_of_eq_ok (Stateful.run_ofOutcome_of_eq_ok hdata engine),
    Stateful.run_bind_of_eq_ok (Stateful.run_ofOutcome_of_eq_ok hfront engine),
    Stateful.run_bind_of_eq_ok (Stateful.run_ofOutcome_of_eq_ok hback engine),
    Stateful.run_bind_of_eq_ok (Stateful.run_ofOutcome_of_eq_ok hextents engine),
    Stateful.run_bind_of_eq_ok hlaunches, Stateful.run_bind_of_eq_ok hmodify,
    Stateful.run_bind_of_eq_ok Stateful.run_get, Stateful.run_bind_of_eq_ok (Stateful.run_ofOutcome_of_eq_ok hkeys _)]
  cases hindexed : program.indexed with
  | false =>
    have hnone : (sortedResult program input).2 = none := by simp [sortedResult, hindexed]
    exact Stateful.run_pure_eq_ok_iff.mpr ⟨by rw [← hnone], rfl⟩
  | true =>
    obtain ⟨words, hsome⟩ : ∃ words, (sortedResult program input).2 = some words := by
      simp [sortedResult, hindexed]
    rw [if_pos rfl, Stateful.run_bind_of_eq_ok (Stateful.run_ofOutcome_of_eq_ok (hindices words hsome) _)]
    exact Stateful.run_pure_eq_ok_iff.mpr ⟨by rw [← hsome], rfl⟩

end RunOn

/-- A device runs a program that sorts rows, and returns the sorted rows. -/
theorem exists_execute [LawfulElement κ] (h : program.Sorts tile copy tiles passes shapes)
    (hwords : ∀ launch ∈ program.launches, launch.FitsWords program.view.before)
    (htotal : program.view.before * program.view.axisLen < 4294967296) (hrows : 0 < program.view.before)
    (hinput : input.size = program.view.before * program.view.axisLen) {engine : DeviceEngine}
    (hscratch : checkScratch κ engine.config = .ok ()) :
    ∃ engine', (execute program input).run engine = (.ok (sortedResult program input), engine') := by
  have hempty : program.isEmpty = false := by
    rw [Program.isEmpty, h.launches_eq]
    rfl
  have hindexLen : (if program.indexed then program.view.before * program.view.axisLen else 1) < 4294967296 := by
    split <;> omega
  obtain ⟨buffers, pool, hallocate, hfresh⟩ := SortBuffers.exists_allocate engine input htotal hindexLen
  have hfresh' : buffers.Fresh ({ engine with pool } : DeviceEngine).pool input
      (program.view.before * program.view.axisLen)
      (if program.indexed then program.view.before * program.view.axisLen else 1) := hfresh
  obtain ⟨engine', hrun, hconfig, hlive⟩ :=
    exists_runOn h hinput (fun hindexed => if_pos hindexed) hfresh' hwords htotal hrows
  have hfree := run_freeBuffers hfresh.nodup fun name hname => Pool.exists_bytes?_iff.mp (hlive name hname)
  refine ⟨_, run_call_of_eq_ok ?_ hfree⟩
  rw [Stateful.run_bind_of_eq_ok (Stateful.run_ofOutcome_of_eq_ok (AxisView.total_eq_ok h.after_eq h.total_lt) _)]
  simp only [hinput, hempty, ne_eq, not_true_eq_false, Bool.false_eq_true, if_false]
  rw [Stateful.run_bind_of_eq_ok Stateful.run_get,
    Stateful.run_bind_of_eq_ok (Stateful.run_ofOutcome_of_eq_ok hscratch _), Stateful.run_bind_of_eq_ok hallocate]
  exact OpenCall.run_onEngine hrun

/-! ### Devices and hosts -/

/-- For a program of rows without elements a device and a host return nothing. -/
theorem exists_run_of_isEmpty (hempty : program.isEmpty = true) (htotal : program.view.total = .ok 0)
    (hinput : input.size = 0) {buffers : Buffers κ UInt32} (htracked : (program.tracked buffers).HasLength 0)
    (hindexed : program.indexed = true → buffers.indices ≠ none) (runner : HostRunner) (engine : DeviceEngine) :
    ∃ result runner', runner.run program input buffers = .ok (result, runner') ∧
      (execute program input).run engine =
        (.ok (result.keys.front, if program.indexed then result.indices.map (·.front) else none), engine) := by
  have hinputLength : checkLength 0 input.size = .ok () := if_pos hinput.symm
  have hkeysLength : checkLength 0 buffers.keys.front.size = .ok () := if_pos htracked.front.symm
  have hkeys : buffers.keys.front = #[] := Array.eq_empty_of_size_eq_zero htracked.front
  refine ⟨buffers, ⟨runner.report + {}⟩, ?_, ?_⟩
  · simp only [HostRunner.run, Program.execute, htotal, hempty, Outcome.ok_bind, hinputLength, hkeysLength]
    cases hcase : program.indexed with
    | false => rfl
    | true =>
      obtain ⟨indices, hindices⟩ := Option.ne_none_iff_exists'.mp (hindexed hcase)
      have hindicesLength : checkLength 0 indices.front.size = .ok () :=
        if_pos (htracked.indices indices (by simp [Program.tracked, hcase, hindices])).1.symm
      simp only [hindices, hindicesLength]
      rfl
  · have hfree : (freeBuffers []).run engine = (.ok (), engine) := rfl
    refine run_call_of_eq_ok ?_ hfree
    rw [Stateful.run_bind_of_eq_ok (Stateful.run_ofOutcome_of_eq_ok htotal _)]
    simp only [hinput, hempty, ne_eq, not_true_eq_false, if_true, if_false]
    refine Stateful.run_pure_eq_ok_iff.mpr ⟨?_, rfl⟩
    cases hcase : program.indexed with
    | false => simp [hkeys]
    | true =>
      obtain ⟨indices, hindices⟩ := Option.ne_none_iff_exists'.mp (hindexed hcase)
      have hfront : indices.front = #[] := Array.eq_empty_of_size_eq_zero
        (htracked.indices indices (by simp [Program.tracked, hcase, hindices])).1
      simp [hkeys, hindices, hfront]

/-- A device returns the very keys and indices that a host leaves on its front sides, whatever the keys are and whatever
the buffers held before. The input must fit a 32-bit count, and a tile the scratch of a group. -/
theorem exists_execute_eq_run [LawfulElement κ] {shape : List Nat} {axis : Nat} {direction : Direction}
    {indexed : Bool} {engine : DeviceEngine}
    (hlower : Program.lower shape axis direction indexed engine.config = .ok program) (input : Array κ)
    (hinput : program.view.total = .ok input.size) (hcount : input.size < 4294967296)
    (hscratch : checkScratch κ engine.config = .ok ()) (buffers : Buffers κ UInt32)
    (htracked : (program.tracked buffers).HasLength input.size) (hindices : indexed = true → buffers.indices ≠ none)
    (runner : HostRunner) :
    ∃ result runner' engine', runner.run program input buffers = .ok (result, runner') ∧
      (execute program input).run engine =
        (.ok (result.keys.front, if indexed then result.indices.map (·.front) else none), engine') := by
  obtain ⟨hvalid, -, hafter, -, rfl, hlt, hlaunches⟩ := Program.lower_spec hlower
  have htotal := AxisView.total_eq_ok hafter hlt
  have hsize : input.size = program.view.before * program.view.axisLen := Except.ok.inj (hinput.symm.trans htotal)
  rcases hlaunches with ⟨hzero, hnone⟩ | ⟨hrows, hlaunches⟩
  · rw [hsize, hzero] at htracked
    rw [hzero] at hsize htotal
    obtain ⟨result, runner', hrun, hexecute⟩ := exists_run_of_isEmpty (by rw [Program.isEmpty, hnone]; rfl) htotal hsize
      htracked hindices runner engine
    exact ⟨result, runner', engine, hrun, hexecute⟩
  · obtain ⟨copy, tiles, passes, shapes, hsorts⟩ := Program.exists_sorts_of_lower hlower hrows
    rw [hsize] at hcount htracked
    have hnonempty : program.launches ≠ [] := by
      rw [hsorts.launches_eq]
      simp [sortLaunches, launchesUpTo]
    obtain ⟨report, hhost⟩ := Program.exists_execute hsorts.toFits hnonempty hsize htracked hindices
    obtain ⟨engine', hdevice⟩ := exists_execute hsorts (Program.fitsWords_of_launchesFor hvalid hlaunches) hcount
      (Nat.pos_of_ne_zero (Nat.mul_ne_zero_iff.mp hrows).1) hsize hscratch
    refine ⟨program.result input buffers, ⟨runner.report + report⟩, engine', ?_, ?_⟩
    · rw [HostRunner.run, hhost]
      rfl
    · rw [hdevice, sortedResult]
      simp only [Program.result, Program.finalRow, hsorts.launchesOnRow_eq]
      cases program.indexed <;> rfl

/-- Two rows of three keys, the first of which starts with NaN, on a device whose memory does not start with zeros. A row
takes two tiles and a pass. -/
theorem exists_execute_two_rows :
    ∃ engine, DeviceEngine.ofConfig { reserved := fun _ _ => 255, scratch := fun _ _ _ _ => 255 }
        { limits := { maxLanes := 2 }, tuning := { tile := 2 } } = .ok engine ∧
      ∃ program, Program.lower [2, 3] 1 .ascending true engine.config = .ok program ∧
      ∃ result runner engine',
        ({} : HostRunner).run program
          (#[⟨2143289344⟩, ⟨0⟩, ⟨1065353216⟩, ⟨1073741824⟩, ⟨0⟩, ⟨1065353216⟩] : Array Binary32)
          ⟨.zeros 6, some (.zeros 6)⟩ = .ok (result, runner) ∧
        (execute program
          (#[⟨2143289344⟩, ⟨0⟩, ⟨1065353216⟩, ⟨1073741824⟩, ⟨0⟩, ⟨1065353216⟩] : Array Binary32)).run engine =
          (.ok (result.keys.front, result.indices.map (·.front)), engine') := by
  have htotal : (Program.lower [2, 3] 1 .ascending true { limits := { maxLanes := 2 }, tuning := { tile := 2 } } >>=
      fun program => program.view.total) = .ok 6 := by cbv
  obtain ⟨program, hprogram, htotal⟩ := Outcome.bind_eq_ok_iff.mp htotal
  have hlower : Program.lower [2, 3] 1 .ascending true
      (Device.engine { reserved := fun _ _ => 255, scratch := fun _ _ _ _ => 255 }
        { limits := { maxLanes := 2 }, tuning := { tile := 2 } }).config = .ok program :=
    hprogram
  have hbuffers : Buffers.HasLength (⟨.zeros 6, some (.zeros 6)⟩ : Buffers Binary32 UInt32) 6 :=
    ⟨rfl, rfl, by rintro _ ⟨⟩; exact ⟨rfl, rfl⟩⟩
  obtain ⟨result, runner, engine', hhost, hdevice⟩ := exists_execute_eq_run hlower
    (#[⟨2143289344⟩, ⟨0⟩, ⟨1065353216⟩, ⟨1073741824⟩, ⟨0⟩, ⟨1065353216⟩] : Array Binary32) htotal (by decide) (by cbv)
    ⟨.zeros 6, some (.zeros 6)⟩ (Program.hasLength_tracked hbuffers) (fun _ => Option.some_ne_none _) {}
  exact ⟨_, rfl, program, hlower, result, runner, engine', hhost, hdevice⟩

end DeviceEngine

end MergePathSort
