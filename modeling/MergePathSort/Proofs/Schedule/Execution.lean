import Mathlib
import MergePathSort.Proofs.Host.Execution
import MergePathSort.Proofs.Schedule.OnePhase
import MergePathSort.Proofs.Schedule.Tiles
import MergePathSort.Proofs.Sorted.Program

/-!
# Programs in any order

A program can be run with a scheduler for every launch: all rows of the launch are at work together, and the scheduler
decides which block starts, which lane acts and which phase ends next. Only the order of the launches is fixed. As every
row of a launch leads to the launch's effect on it, the result is that of the host's own order, for any keys and whatever
the buffers hold before.

## Main definitions

* `Launch.executeBy`, `Program.executeBy` : launches and programs in the order of schedulers.
* `Program.check` : what is checked before a program is run in any order.
* `Buffers.Paired` : buffers whose two sides have one length.

## Main results

* `Program.map_fst_execute` : the host's own order, after the same checks.
* `Launch.leads` : a launch on one row, in any order.
* `Program.executeBy_eq_execute` : a lowered program leaves both sides of its buffers as the host leaves them.
-/

namespace MergePathSort

variable {κ ι : Type} [Element κ] [IndexElement ι]

/-! ### Schedules of a program -/

/-- A launch on all rows, in the order of a scheduler. -/
def Launch.executeBy (scheduler : Scheduler) (launch : Launch) (program : Program) (input : Array κ)
    (rows : List (RowCells κ ι)) : Outcome (List (RowCells κ ι)) := do
  let works ← LaunchWork.run scheduler 0 (rows.zipIdx.map fun (cells, row) =>
    .ofBlocks (launch.blocksOnRow program input row) cells)
  return works.map (·.row)

namespace Program

/-- Launches one after the other, each in the order of its own scheduler. -/
def runLaunchesBy (program : Program) (schedulers : Nat → Scheduler) (input : Array κ) (rows : List (RowCells κ ι)) :
    Outcome (List (RowCells κ ι)) :=
  program.launches.zipIdx.foldlM (fun rows (launch, number) =>
    launch.executeBy (schedulers number) program input rows) rows

omit [Element κ] [IndexElement ι] in
/-- The check of the indices, if a program tracks them. -/
def checkIndices (program : Program) (total : Nat) (indices : Option (DoubleBuffer (Array ι))) : Outcome Unit := do
  if program.indexed then
    match indices with
    | none => .refuse (.bufferMismatch total 0)
    | some indices => checkLength total indices.front.size

omit [Element κ] [IndexElement ι] in
/-- The checks before a program is run. -/
def check (program : Program) (input : Array κ) (buffers : Buffers κ ι) : Outcome Unit := do
  let total ← program.view.total
  checkLength total input.size
  checkLength total buffers.keys.front.size
  program.checkIndices total buffers.indices

/-- Runs a program on buffers that have been checked, with all of its launches run in a given way. -/
def executeChecked (program : Program) (run : List (RowCells κ ι) → Outcome (List (RowCells κ ι)))
    (buffers : Buffers κ ι) : Outcome (Buffers κ ι) := do
  if program.isEmpty then return buffers
  if !program.view.isPacked then .fault .assertion
  if program.view.axisLen = 0 then .fault .arithmetic
  let rows ← run ((program.tracked buffers).rows program.view.axisLen)
  let result := Buffers.ofRows rows program.indexed
  return ⟨result.keys, if program.indexed then result.indices else buffers.indices⟩

/-- Runs a program in the order of schedulers, one for every launch. -/
def executeBy (program : Program) (schedulers : Nat → Scheduler) (input : Array κ) (buffers : Buffers κ ι) :
    Outcome (Buffers κ ι) := do
  program.check input buffers
  program.executeChecked (program.runLaunchesBy schedulers input) buffers

omit [Element κ] [IndexElement ι] in
/-- What comes after the check of the indices. -/
theorem checkIndices_bind {γ : Type} (program : Program) (total : Nat) (indices : Option (DoubleBuffer (Array ι)))
    (rest : Unit → Outcome γ) :
    (if program.indexed then
        match indices with
        | none => Outcome.refuse (.bufferMismatch total 0) >>= rest
        | some indices => checkLength total indices.front.size >>= rest
      else rest ()) = program.checkIndices total indices >>= rest := by
  unfold checkIndices
  split
  · cases indices <;> rfl
  · rfl

/-- The host makes the same checks, and runs the launches in its own order. -/
theorem map_fst_execute (program : Program) (input : Array κ) (buffers : Buffers κ ι) :
    Prod.fst <$> program.execute input buffers = (do
      program.check input buffers
      program.executeChecked (fun rows => Prod.fst <$> program.runLaunches input rows) buffers) := by
  have hchecked : Prod.fst <$> (do
        if program.isEmpty then return (buffers, {})
        if !program.view.isPacked then .fault .assertion
        if program.view.axisLen = 0 then .fault .arithmetic
        let run ← program.runLaunches input ((program.tracked buffers).rows program.view.axisLen)
        let result := Buffers.ofRows run.1 program.indexed
        return (⟨result.keys, if program.indexed then result.indices else buffers.indices⟩, run.2) :
          Outcome (Buffers κ ι × Report)) =
      program.executeChecked (fun rows => Prod.fst <$> program.runLaunches input rows) buffers := by
    rw [executeChecked]
    cases program.isEmpty with
    | true => rfl
    | false =>
      cases program.view.isPacked with
      | false => rfl
      | true =>
        by_cases hlen : program.view.axisLen = 0
        · simp only [if_pos hlen]
          rfl
        · simp only [if_neg hlen]
          cases program.runLaunches input ((program.tracked buffers).rows program.view.axisLen) <;> rfl
  rw [execute, check, map_bind, bind_assoc]
  refine bind_congr fun total => ?_
  rw [map_bind, bind_assoc]
  refine bind_congr fun _ => ?_
  rw [map_bind, bind_assoc]
  refine bind_congr fun _ => ?_
  refine (congrArg (Prod.fst <$> ·) (checkIndices_bind ..)).trans ?_
  rw [map_bind]
  exact bind_congr fun _ => hchecked

end Program

/-! ### One launch -/

section Launches

variable {program : Program} {input : Array κ}

/-- A launch has its effect on a row in any order of its turns. -/
theorem Launch.leads (h : program.Fits) {launch : Launch} (hlaunch : launch ∈ program.launches)
    (hinput : input.size = program.view.before * program.view.axisLen) {number : Nat}
    (hnumber : number < program.view.before) {row : TaggedRow κ ι} (hrow : row.HasLength program.view.axisLen) :
    (RowWork.ofBlocks (launch.blocksOnRow program input number) (row.cells program.indexed)).Leads
      ((launch.onRow program.direction (chunk program.view.axisLen input.toList number) row).cells program.indexed) := by
  have hcovers := h.covers launch hlaunch
  obtain ⟨stage, grid⟩ := launch
  cases stage with
  | copyIn =>
    exact leads_copyIn hrow.front (length_chunk_of_lt hinput hnumber) hcovers fun pos hpos => read_input_eq_ok h hinput hpos
  | sortTiles tile =>
    obtain ⟨hlanes, hblocks, hinside⟩ := hcovers
    exact leads_tiles program.direction hrow hlanes hblocks hinside
  | mergeRuns pass src dst shape =>
    obtain ⟨-, -, hshape⟩ := hcovers
    exact leads_merges program.direction src hrow h.axisLen_lt hshape
  | copyBack => exact leads_copyBack hrow hcovers

/-- A launch has its effect on all rows in the order of any scheduler. -/
theorem Launch.executeBy_eq_ok (scheduler : Scheduler) (h : program.Fits) {launch : Launch}
    (hlaunch : launch ∈ program.launches) (hinput : input.size = program.view.before * program.view.axisLen)
    {rows : Nat → TaggedRow κ ι} (hrows : ∀ number < program.view.before, (rows number).HasLength program.view.axisLen) :
    launch.executeBy scheduler program input (cellsOfRows program.indexed program.view.before rows) =
      .ok (cellsOfRows program.indexed program.view.before fun number =>
        launch.onRow program.direction (chunk program.view.axisLen input.toList number) (rows number)) := by
  have hleads : ∀ (number : Nat) (work : RowWork (RowCells κ ι) (Cells κ ι)),
      ((cellsOfRows program.indexed program.view.before rows).zipIdx.map fun (cells, row) =>
        RowWork.ofBlocks (launch.blocksOnRow program input row) cells)[number]? = some work →
      work.Leads ((launch.onRow program.direction (chunk program.view.axisLen input.toList number)
        (rows number)).cells program.indexed) := by
    intro number work hwork
    rw [List.getElem?_map, List.getElem?_zipIdx] at hwork
    obtain ⟨⟨cells, row⟩, hcells, rfl⟩ := Option.map_eq_some_iff.mp hwork
    obtain ⟨_, hrow, heq⟩ := Option.map_eq_some_iff.mp hcells
    cases heq
    obtain ⟨hlt, rfl⟩ := getElem?_map_range_eq_some.mp hrow
    rw [Nat.zero_add]
    exact Launch.leads h hlaunch hinput hlt (hrows number hlt)
  obtain ⟨works, hrun, hworks⟩ := LaunchWork.exists_run scheduler 0 hleads
  rw [executeBy, hrun, Outcome.ok_bind, hworks]
  simp [cellsOfRows]

/-- Launches of a program have their effects on all rows, each in the order of its own scheduler. -/
theorem Launch.foldlM_executeBy (schedulers : Nat → Scheduler) (h : program.Fits)
    (hinput : input.size = program.view.before * program.view.axisLen) {launches : List Launch}
    (hlaunches : ∀ launch ∈ launches, launch ∈ program.launches) {rows : Nat → TaggedRow κ ι}
    (hrows : ∀ number < program.view.before, (rows number).HasLength program.view.axisLen) (first : Nat) :
    (launches.zipIdx first).foldlM (fun rows (launch, number) =>
        launch.executeBy (schedulers number) program input rows) (cellsOfRows program.indexed program.view.before rows) =
      .ok (cellsOfRows program.indexed program.view.before fun number =>
        launchesOnRow program.direction (chunk program.view.axisLen input.toList number) launches (rows number)) := by
  induction launches generalizing rows first with
  | nil => rfl
  | cons launch launches ih =>
    have hlaunch := hlaunches launch (by simp)
    rw [List.zipIdx_cons, List.foldlM_cons]
    simp only [Launch.executeBy_eq_ok _ h hlaunch hinput hrows, Outcome.ok_bind]
    exact ih (fun l hl => hlaunches l (by simp [hl])) (fun number hnumber =>
      Launch.hasLength_onRow (h.covers launch hlaunch) (length_chunk_of_lt hinput hnumber) (hrows number hnumber)) _

end Launches

/-! ### Programs -/

/-- The two sides of the keys have one length, and so have those of the indices. -/
structure Buffers.Paired (buffers : Buffers κ ι) : Prop where
  /-- The keys. -/
  keys : buffers.keys.back.size = buffers.keys.front.size
  /-- The indices. -/
  indices : ∀ indices, buffers.indices = some indices → indices.back.size = indices.front.size

namespace Program

variable {program : Program} {input : Array κ} {buffers : Buffers κ ι}

omit [Element κ] [IndexElement ι] in
/-- The checks of packed rows. -/
theorem check_eq_ok_iff {total : Nat} (htotal : program.view.total = .ok total) :
    program.check input buffers = .ok () ↔ input.size = total ∧ buffers.keys.front.size = total ∧
      (program.indexed = true → ∃ indices, buffers.indices = some indices ∧ indices.front.size = total) := by
  have hlength : ∀ actual, checkLength total actual = .ok () ↔ actual = total := by
    intro actual
    rw [checkLength]
    split
    · rename_i h
      simp [h]
    · rename_i h
      simp [Ne.symm h]
  rw [check, htotal, Outcome.ok_bind, Outcome.bind_eq_ok_iff]
  constructor
  · rintro ⟨_, hinput, h⟩
    obtain ⟨_, hkeys, h⟩ := Outcome.bind_eq_ok_iff.mp h
    refine ⟨(hlength _).mp hinput, (hlength _).mp hkeys, fun hindexed => ?_⟩
    unfold checkIndices at h
    rw [if_pos hindexed] at h
    split at h
    · exact absurd h (Outcome.refuse_ne_ok _ _)
    · rename_i indices hindices
      exact ⟨indices, hindices, (hlength _).mp h⟩
  · rintro ⟨hinput, hkeys, hindices⟩
    refine ⟨(), (hlength _).mpr hinput, Outcome.bind_eq_ok_iff.mpr ⟨(), (hlength _).mpr hkeys, ?_⟩⟩
    unfold checkIndices
    split
    · rename_i hindexed
      obtain ⟨indices, hsome, hsize⟩ := hindices hindexed
      rw [hsome]
      exact (hlength _).mpr hsize
    · rfl

omit [Element κ] [IndexElement ι] in
/-- Checked buffers have the length of the program. -/
theorem hasLength_of_check {total : Nat} (htotal : program.view.total = .ok total) (hbuffers : buffers.Paired)
    (h : program.check input buffers = .ok ()) : (program.tracked buffers).HasLength total := by
  obtain ⟨-, hkeys, hindices⟩ := (check_eq_ok_iff htotal).mp h
  refine ⟨hkeys, hbuffers.keys.trans hkeys, fun indices hsome => ?_⟩
  rw [tracked] at hsome
  split at hsome
  · rename_i hindexed
    obtain ⟨_, hgiven, hfront⟩ := hindices hindexed
    cases hgiven.symm.trans hsome
    exact ⟨hfront, (hbuffers.indices _ hgiven).trans hfront⟩
  · cases hsome

omit [Element κ] [IndexElement ι] in
/-- What a program works on in checked buffers has indices exactly if it tracks them. -/
theorem isSome_tracked_of_check {total : Nat} (htotal : program.view.total = .ok total)
    (h : program.check input buffers = .ok ()) : (program.tracked buffers).indices.isSome = program.indexed := by
  rw [tracked]
  split
  · rename_i hindexed
    obtain ⟨indices, hgiven, -⟩ := ((check_eq_ok_iff htotal).mp h).2.2 hindexed
    rw [hgiven, hindexed]
    rfl
  · rename_i hindexed
    exact (Bool.eq_false_iff.mpr hindexed).symm

omit [Element κ] in
/-- The rows of checked buffers. -/
theorem rows_tracked (hview : program.view.total = .ok (program.view.before * program.view.axisLen))
    (hpos : 0 < program.view.axisLen) (hbuffers : buffers.Paired) (h : program.check input buffers = .ok ()) :
    (program.tracked buffers).rows program.view.axisLen =
      cellsOfRows program.indexed program.view.before ((program.tracked buffers).taggedRow program.view.axisLen) := by
  rw [Buffers.rows_eq_cellsOfRows (hasLength_of_check hview hbuffers h) hpos, isSome_tracked_of_check hview h]

/-- The launches leave the same rows in the order of schedulers as in the host's own order. -/
theorem exists_runLaunchesBy (schedulers : Nat → Scheduler) (hfits : program.Fits) (hbuffers : buffers.Paired)
    (h : program.check input buffers = .ok ()) :
    ∃ rows, program.runLaunchesBy schedulers input ((program.tracked buffers).rows program.view.axisLen) = .ok rows ∧
      Prod.fst <$> program.runLaunches input ((program.tracked buffers).rows program.view.axisLen) = .ok rows := by
  have htotal := AxisView.total_eq_ok hfits.after_eq hfits.total_lt
  have hinput := ((check_eq_ok_iff htotal).mp h).1
  have hrows := fun number (hnumber : number < program.view.before) =>
    (hasLength_of_check htotal hbuffers h).taggedRow hnumber
  rw [rows_tracked htotal hfits.axisLen_pos hbuffers h]
  obtain ⟨report, hhost⟩ := Launch.exists_foldlM_step hfits hinput (fun _ hl => hl) hrows {}
  refine ⟨_, Launch.foldlM_executeBy schedulers hfits hinput (fun _ hl => hl) hrows 0, ?_⟩
  rw [runLaunches_eq_foldlM_step, hhost]
  rfl

/-- Checked buffers are run in the order of schedulers, and hold afterwards what they hold after the host's own order. -/
theorem exists_executeChecked (schedulers : Nat → Scheduler) (hfits : program.isEmpty = false → program.Fits)
    (hbuffers : buffers.Paired) (h : program.check input buffers = .ok ()) :
    ∃ result, program.executeChecked (program.runLaunchesBy schedulers input) buffers = .ok result ∧
      program.executeChecked (fun rows => Prod.fst <$> program.runLaunches input rows) buffers = .ok result := by
  cases hempty : program.isEmpty with
  | true => refine ⟨buffers, ?_, ?_⟩ <;> rw [executeChecked, if_pos hempty] <;> rfl
  | false =>
    obtain ⟨rows, hby, hhost⟩ := exists_runLaunchesBy schedulers (hfits hempty) hbuffers h
    have hpacked : program.view.isPacked = true := by simp [AxisView.isPacked, (hfits hempty).after_eq]
    have hlen : program.view.axisLen ≠ 0 := Nat.ne_of_gt (hfits hempty).axisLen_pos
    simp only [executeChecked, hempty, hpacked, Bool.not_true, Bool.false_eq_true, if_false, if_neg hlen, hby, hhost,
      Outcome.ok_bind]
    exact ⟨_, rfl, rfl⟩

/-- Running a program does not depend on the order in which the rows, the blocks and the lanes of a launch come to act: a
lowered program leaves both sides of the keys and of the indices as the host leaves them in its own order, whatever the
keys are and whatever the buffers hold. It is refused in the one order exactly if it is in the other, and runs in every
order if the input and the buffers have the length of the program. A scheduler only sees the time and the turns, but it may
be chosen for the program, the input and the buffers, so every order of the turns is that of a scheduler. -/
theorem executeBy_eq_execute {shape : List Nat} {axis : Nat} {direction : Direction} {indexed : Bool} {config : Config}
    (hlower : Program.lower shape axis direction indexed config = .ok program) (schedulers : Nat → Scheduler)
    (input : Array κ) (hbuffers : buffers.Paired) :
    program.executeBy schedulers input buffers = Prod.fst <$> program.execute input buffers ∧
      (input.size = program.view.before * program.view.axisLen →
        buffers.keys.front.size = program.view.before * program.view.axisLen →
        (program.indexed = true → ∃ indices, buffers.indices = some indices ∧
          indices.front.size = program.view.before * program.view.axisLen) →
        ∃ result, program.executeBy schedulers input buffers = .ok result) := by
  obtain ⟨-, -, hafter, -, -, hlimit, hlaunches⟩ := lower_spec hlower
  have htotal := AxisView.total_eq_ok hafter hlimit
  have hfits : program.isEmpty = false → program.Fits := by
    intro hempty
    rcases hlaunches with ⟨-, hnone⟩ | ⟨hrows, -⟩
    · simp [isEmpty, hnone] at hempty
    · obtain ⟨_, _, _, _, hsorts⟩ := exists_sorts_of_lower hlower hrows
      exact hsorts.toFits
  rw [map_fst_execute, executeBy]
  cases hcheck : program.check input buffers with
  | error failure =>
    refine ⟨rfl, fun hinput hkeys hindices => ?_⟩
    cases hcheck.symm.trans ((check_eq_ok_iff htotal).mpr ⟨hinput, hkeys, hindices⟩)
  | ok _ =>
    obtain ⟨result, hby, hhost⟩ := exists_executeChecked schedulers hfits hbuffers hcheck
    rw [Outcome.ok_bind, Outcome.ok_bind, hby, hhost]
    exact ⟨rfl, fun _ _ _ => ⟨result, rfl⟩⟩

/-- Two rows of which one has a NaN, on buffers that held something else, where every launch begins at its end. -/
theorem executeBy_eq_execute_nan_row :
    ∃ program, Program.lower [2, 3] 1 .descending true { limits := { maxLanes := 2 }, tuning := { tile := 2 } } =
        .ok program ∧
      program.executeBy (fun _ => .lastFirst)
          (#[⟨0⟩, ⟨2143289344⟩, ⟨1065353216⟩, ⟨0⟩, ⟨1065353216⟩, ⟨1073741824⟩] : Array Binary32)
          (⟨.both (.replicate 6 ⟨5⟩), some (.both (.replicate 6 7))⟩ : Buffers Binary32 UInt32) =
        .ok ⟨.both #[⟨1065353216⟩, ⟨0⟩, ⟨2143289344⟩, ⟨1073741824⟩, ⟨1065353216⟩, ⟨0⟩],
          some (.both #[2, 0, 1, 2, 1, 0])⟩ := by
  have hlower : Program.lower [2, 3] 1 .descending true { limits := { maxLanes := 2 }, tuning := { tile := 2 } } =
      .ok ⟨⟨2, 3, 1⟩, .descending, true, [⟨.copyIn, ⟨2, 2, 2⟩⟩, ⟨.sortTiles 2, ⟨1, 2, 2⟩⟩,
        ⟨.mergeRuns 0 .front .back ⟨⟨2, 1, 2⟩, 4, 1, .oneBlock 2⟩, ⟨2, 1, 2⟩⟩, ⟨.copyBack, ⟨2, 2, 2⟩⟩]⟩ := rfl
  have hbuffers : (⟨.both (.replicate 6 ⟨5⟩), some (.both (.replicate 6 7))⟩ : Buffers Binary32 UInt32).Paired :=
    ⟨rfl, by rintro _ ⟨⟩; rfl⟩
  refine ⟨_, hlower, ?_⟩
  rw [(Program.executeBy_eq_execute hlower (fun _ => .lastFirst) _ hbuffers).1]
  cbv

end Program

end MergePathSort
