import Mathlib.Algebra.BigOperators.Group.List.Basic
import Mathlib.Algebra.Order.Floor.Div
import MergePathSort.Proofs.Faults
import MergePathSort.Proofs.Host.Contents
import MergePathSort.Proofs.Host.InPlace
import MergePathSort.Proofs.Host.SortedRows

/-!
# What a runner has executed

A runner counts launches, blocks and barriers. The blocks of a row are counted one after the other, over tiles or over
segments and the blocks of each, idle ones included, and then the counts of all rows are added. The grid of a launch has
the rows, or the segments of all rows, as its own rows, so that it has as many blocks. A block passes barriers only when
it sorts a tile, one behind the loading and one behind every round, and there are as many rounds in the tiles of a row as
the row has keys. So what a run adds to a report is known from the program, and the keys have no influence on it.

A log is kept beside a runner, of all calls and of how each of them has ended.

## Main definitions

* `Launch.cost`, `Program.cost` : what a launch and a program add to a report.
* `Lowered` : a program, and what it was lowered from.
* `HostRunner.Call`, `HostRunner.history` : what a runner is asked to do, and what a sequence of calls leaves.

## Main results

* `Launch.used_of_runAll`, `Launch.report_of_execute` : a launch on one row and on all rows.
* `Lowered.report_of_execute`, `Lowered.run_eq` : a program.
* `Lowered.run_workplace` : how a run on buffers where they are ends, and what it leaves.
* `HostRunner.report_history` : the report after every history.
-/

namespace MergePathSort

variable {κ ι : Type}

/-! ### Reports -/

instance : Zero Report := ⟨{}⟩

/-- Reports add up in any order. -/
instance : AddCommMonoid Report where
  add_assoc := Report.add_assoc
  zero_add report := by
    change Report.mk _ _ _ = report
    congr 1 <;> exact Nat.zero_add _
  add_zero _ := rfl
  add_comm a b := by
    change Report.mk _ _ _ = Report.mk _ _ _
    congr 1 <;> exact Nat.add_comm ..
  nsmul := nsmulRec

/-- A sum of reports, count by count. -/
theorem Report.sum_eq (reports : List Report) : reports.sum =
    ⟨(reports.map Report.launches).sum, (reports.map Report.blocks).sum, (reports.map Report.barriers).sum⟩ := by
  induction reports with
  | nil => rfl
  | cons report reports ih =>
    rw [List.sum_cons, ih]
    rfl

/-- The quotient rounded up. -/
theorem Size.eq_ceilDiv {a b q : Nat} (h : Size.divCeil a b = .ok q) : q = a ⌈/⌉ b := by
  rw [divCeil] at h
  split at h
  · exact absurd h (Outcome.fault_ne_ok _ _)
  · exact (Except.ok.inj h).symm

/-! ### Launches -/

/-- The barriers that a launch passes on a row of `size` keys. -/
def Launch.rowBarriers (launch : Launch) (size : Nat) : Nat :=
  match launch.stage with
  | .sortTiles _ => size + launch.grid.blocksPerRow.toNat
  | _ => 0

/-- The blocks that a launch runs on a row. -/
def Launch.rowBlocks (launch : Launch) : Nat :=
  match launch.stage with
  | .mergeRuns _ _ _ shape => shape.segments.toNat * shape.blocksPerSegment.toNat
  | _ => launch.grid.blocksPerRow.toNat

/-- What a launch adds to a report on `rows` rows of `size` keys. -/
def Launch.cost (launch : Launch) (rows size : Nat) : Report :=
  ⟨1, rows * launch.rowBlocks, rows * launch.rowBarriers size⟩

/-- A block that merges a part of a segment passes no barrier, and neither does one that has no part. -/
theorem used_of_run_mergeBlock [KeyOrder κ] {direction : Direction} {src : Side} {shape : MergeShape}
    {size segment number : Nat} {row row' : RowCells κ ι} {used : Usage}
    (h : (mergeBlock direction src shape size segment number).run row = .ok (row', used)) : used = ⟨1, 0⟩ := by
  refine Block.used_of_run (fun phases hphases => ?_) h
  obtain ⟨_, -, hphases⟩ := Outcome.bind_eq_ok_iff.mp hphases
  obtain ⟨share?, -, hphases⟩ := Outcome.bind_eq_ok_iff.mp hphases
  cases share? <;> cases hphases <;> rfl

/-- Blocks that pass no barrier. -/
theorem Block.used_of_runAll_without_barriers {ρ τ : Type} {blocks : List (Block ρ τ)}
    (hused : ∀ block ∈ blocks, ∀ row row' used, block.run row = .ok (row', used) → used = ⟨1, 0⟩) {row row' : ρ}
    {used : Usage} (h : runAll blocks row = .ok (row', used)) : used = ⟨blocks.length, 0⟩ := by
  rw [← List.map_id blocks] at h
  rw [used_of_runAll (fun _ => 0) hused h, List.map_const', List.sum_replicate, Nat.nsmul_eq_mul,
    Nat.mul_zero]

variable [Element κ] [IndexElement ι]

/-- What a launch uses on a row. -/
theorem Launch.used_of_runAll {launch : Launch} {program : Program} (hcovers : launch.Covers program.view.axisLen)
    {input : Array κ} {number : Nat} {row row' : RowCells κ ι} {used : Usage}
    (h : Block.runAll (launch.blocksOnRow program input number) row = .ok (row', used)) :
    used = ⟨launch.rowBlocks, launch.rowBarriers program.view.axisLen⟩ := by
  -- A lane of a copy acts once, so there is one phase.
  have hcopy : ∀ {lanes : Nat} {lane : Nat → RowCells κ ι → Outcome (RowCells κ ι)} (row row' : RowCells κ ι)
      (used : Usage), (Block.once lanes (noScratch : Cells κ ι) lane).run row = .ok (row', used) → used = ⟨1, 0⟩ :=
    fun _ _ _ => Block.used_of_run fun phases hphases => by cases hphases; rfl
  obtain ⟨stage, grid⟩ := launch
  cases stage with
  | copyIn =>
    rw [Block.used_of_runAll_without_barriers (List.forall_mem_map.mpr fun _ _ => hcopy) h, List.length_map,
      List.length_range]
    rfl
  | sortTiles tile =>
    rw [Block.used_of_runAll _ (fun _ _ _ _ _ => used_of_run_tileBlock) h, sum_tile_barriers hcovers.2.1,
      List.length_range]
    rfl
  | mergeRuns pass src dst shape =>
    have hmerge : ∀ block ∈ (List.range shape.segments.toNat).flatMap fun segment =>
        (List.range shape.blocksPerSegment.toNat).map
          (mergeBlock program.direction src shape program.view.axisLen segment),
        ∀ (row row' : RowCells κ ι) (used : Usage), block.run row = .ok (row', used) → used = ⟨1, 0⟩ := by
      intro block hblock
      obtain ⟨segment, -, hblock⟩ := List.mem_flatMap.mp hblock
      obtain ⟨number, -, rfl⟩ := List.mem_map.mp hblock
      exact fun _ _ _ => used_of_run_mergeBlock
    rw [Block.used_of_runAll_without_barriers hmerge h, length_flatMap_of_length fun segment _ =>
      (List.length_map _).trans List.length_range]
    rfl
  | copyBack =>
    rw [Block.used_of_runAll_without_barriers (List.forall_mem_map.mpr fun _ _ => hcopy) h, List.length_map,
      List.length_range]
    rfl

/-- What rows use that use the same. -/
theorem foldl_used_eq {ρ : Type} {results : List (ρ × Usage)} {blocks barriers : Nat}
    (h : ∀ result ∈ results, result.2 = ⟨blocks, barriers⟩) :
    results.foldl (fun used result => used + result.2) {} =
      (⟨results.length * blocks, results.length * barriers⟩ : Usage) := by
  induction results using List.reverseRecOn with
  | nil => simp
  | append_singleton results result ih =>
    rw [List.foldl_append, ih fun one hone => h one (List.mem_append_left _ hone), List.foldl_cons, List.foldl_nil,
      h result (List.mem_append_right _ List.mem_cons_self), List.length_append, List.length_singleton, Nat.succ_mul,
      Nat.succ_mul]
    rfl

section Rows

variable {program : Program} {input : Array κ} {rows rows' : List (RowCells κ ι)} {report : Report}

/-- What a launch adds to a report. It keeps the number of rows. -/
theorem Launch.report_of_execute {launch : Launch} (hcovers : launch.Covers program.view.axisLen)
    (h : launch.execute program input rows = .ok (rows', report)) :
    rows'.length = rows.length ∧ report = launch.cost rows.length program.view.axisLen := by
  obtain ⟨done, hdone, h⟩ := Outcome.bind_eq_ok_iff.mp h
  cases h
  obtain ⟨hlen, hget⟩ := Outcome.getElem_of_mapM_eq_ok hdone
  rw [List.length_zipIdx] at hlen
  have hused : ∀ result ∈ done, result.2 = ⟨launch.rowBlocks, launch.rowBarriers program.view.axisLen⟩ := by
    intro result hresult
    obtain ⟨number, hnumber, rfl⟩ := List.getElem_of_mem hresult
    exact Launch.used_of_runAll hcovers (hget number (by rwa [List.length_zipIdx, ← hlen]) hnumber)
  rw [List.length_map, foldl_used_eq hused, hlen]
  exact ⟨rfl, rfl⟩

/-- What launches add to a report. -/
theorem Launch.report_of_foldlM_step {launches : List Launch} {before : Report}
    (hcovers : ∀ launch ∈ launches, launch.Covers program.view.axisLen)
    (h : launches.foldlM (Launch.step program input) (rows, before) = .ok (rows', report)) :
    report = before + (launches.map (·.cost rows.length program.view.axisLen)).sum := by
  induction launches generalizing rows before with
  | nil =>
    cases h
    exact (add_zero report).symm
  | cons launch launches ih =>
    obtain ⟨hfirst, hrest⟩ := List.forall_mem_cons.mp hcovers
    rw [List.foldlM_cons] at h
    obtain ⟨⟨next, _⟩, hstep, h⟩ := Outcome.bind_eq_ok_iff.mp h
    obtain ⟨⟨_, more⟩, hexecute, hnext⟩ := Outcome.bind_eq_ok_iff.mp hstep
    cases hnext
    obtain ⟨hlen, rfl⟩ := Launch.report_of_execute hfirst hexecute
    rw [ih hrest h, hlen, List.map_cons, List.sum_cons, add_assoc]

end Rows

/-! ### Programs -/

/-- What a program with tiles of `tile` keys adds to a report: its launches, the blocks of their grids, and for every row
a barrier for each of its keys and for each of its tiles. -/
def Program.cost (program : Program) (tile : Nat) : Report where
  launches := program.launches.length
  blocks := (program.launches.map (·.grid.blocks)).sum
  barriers := program.view.before * (program.view.axisLen + program.view.axisLen ⌈/⌉ tile)

omit [Element κ] [IndexElement ι] in
/-- The launches of a sort, together. -/
theorem sum_cost_of_launchesFor {config : Config} (hvalid : config.problem? = none) {size rows : Nat}
    {launches : List Launch} (h : Program.launchesFor config size rows = .ok launches) :
    (launches.map (·.cost rows size)).sum = ⟨launches.length, (launches.map (·.grid.blocks)).sum,
      rows * (size + size ⌈/⌉ config.tuning.tile.toNat)⟩ := by
  obtain ⟨copy, tiles, shapes, hcopy, htiles, rfl, hmade⟩ := Program.launchesFor_eq_ok hvalid h
  obtain ⟨-, -, -, hcopyRows⟩ := Grid.perElement_eq_ok hcopy
  obtain ⟨-, htileBlocks, htileRows⟩ := Grid.perTile_eq_ok htiles
  generalize doublings size - config.tuning.tile.toNat.log2 = passes at hmade ⊢
  have hblocks : ∀ launch ∈ sortLaunches copy tiles config.tuning.tile passes shapes,
      (launch.cost rows size).blocks = launch.grid.blocks := by
    have hrow : ∀ grid : Grid, grid.rows.toNat = rows → rows * grid.blocksPerRow.toNat = grid.blocks := by
      rintro grid rfl
      exact Nat.mul_comm ..
    refine forall_mem_sortLaunches (hrow copy hcopyRows) (hrow tiles htileRows) (fun pass hpass => ?_)
      (hrow copy hcopyRows)
    -- The rows of the grid are the segments of all rows.
    have hrows := (hmade pass hpass).rows_eq
    calc rows * ((shapes pass).segments.toNat * (shapes pass).blocksPerSegment.toNat)
        = (shapes pass).blocksPerSegment.toNat * (shapes pass).grid.rows.toNat := by rw [hrows]; ac_rfl
      _ = (shapes pass).grid.blocks := rfl
  have hbarriers : ((sortLaunches copy tiles config.tuning.tile passes shapes).map
      fun launch => (launch.cost rows size).barriers).sum = rows * (size + tiles.blocksPerRow.toNat) := by
    have hmerges : ((List.range passes).map fun pass => ((passLaunch shapes pass).cost rows size).barriers).sum = 0 := by
      simp [Launch.cost, Launch.rowBarriers, passLaunch]
    rw [sortLaunches, launchesUpTo, List.map_append, List.map_append, List.sum_append, List.sum_append, List.map_map]
    refine (congrArg₂ (· + ·) (congrArg _ hmerges) (?_ : _ = 0)).trans ?_
    · split <;> simp [Launch.cost, Launch.rowBarriers]
    · simp [Launch.cost, Launch.rowBarriers]
  rw [Report.sum_eq, List.map_map, List.map_map, List.map_map, ← Size.eq_ceilDiv htileBlocks]
  congr 1
  · simp [Function.comp_def, Launch.cost]
  · exact congrArg List.sum (List.map_congr_left hblocks)

/-- The buffers that a run leaves. -/
def Program.left (program : Program) (input : Array κ) (buffers : Buffers κ ι) : Buffers κ ι :=
  if program.isEmpty then buffers
  else ⟨(program.sortedBuffers input : Buffers κ ι).keys,
    if program.indexed then (program.sortedBuffers input : Buffers κ ι).indices else buffers.indices⟩

/-- A program, and what it was lowered from. -/
structure Lowered where
  /-- The shape. -/
  shape : List Nat
  /-- The axis. -/
  axis : Nat
  /-- The direction of the sort. -/
  direction : Direction
  /-- The source position of every key is tracked. -/
  indexed : Bool
  /-- The configuration. -/
  config : Config
  /-- The program. -/
  program : Program
  /-- It is what the rest is lowered to. -/
  lower_eq : Program.lower shape axis direction indexed config = .ok program

namespace Lowered

variable (lowered : Lowered)

/-- What a run adds to a report. -/
def cost : Report := lowered.program.cost lowered.config.tuning.tile.toNat

omit [Element κ] [IndexElement ι] in
/-- A program without launches adds nothing. -/
theorem cost_of_launches_eq_nil (h : lowered.program.launches = []) : lowered.cost = 0 := by
  obtain ⟨hvalid, -, -, -, -, -, hlaunches⟩ := Program.lower_spec lowered.lower_eq
  have hrows : lowered.program.view.before * lowered.program.view.axisLen = 0 := by
    rcases hlaunches with ⟨hzero, -⟩ | ⟨-, hsome⟩
    · exact hzero
    · obtain ⟨_, _, _, _, hsorts, -⟩ := Program.launchesFor_spec hvalid hsome
      simp [h, sortLaunches, launchesUpTo] at hsorts
  have hbarriers : lowered.program.view.before * (lowered.program.view.axisLen +
      lowered.program.view.axisLen ⌈/⌉ lowered.config.tuning.tile.toNat) = 0 := by
    rcases Nat.mul_eq_zero.mp hrows with hbefore | hlen
    · rw [hbefore, Nat.zero_mul]
    · rw [hlen, zero_ceilDiv]
      exact Nat.mul_zero _
  rw [cost, Program.cost, h, hbarriers]
  rfl

variable {lowered} {input : Array κ} {buffers : Buffers κ ι}

omit [Element κ] [IndexElement ι] in
/-- The number of elements is a size. -/
theorem total_eq_ok :
    lowered.program.view.total = .ok (lowered.program.view.before * lowered.program.view.axisLen) := by
  obtain ⟨-, -, hafter, -, -, hlimit, -⟩ := Program.lower_spec lowered.lower_eq
  exact AxisView.total_eq_ok hafter hlimit

/-- A run that succeeds adds its cost to the report, whatever the keys are and whatever the buffers hold. -/
theorem report_of_execute {result : Buffers κ ι} {report : Report}
    (h : lowered.program.execute input buffers = .ok (result, report)) : report = lowered.cost := by
  obtain ⟨hvalid, -, -, -, -, -, hlaunches⟩ := Program.lower_spec lowered.lower_eq
  rw [Program.execute_eq] at h
  obtain ⟨⟨⟩, hcheck, h⟩ := Outcome.bind_eq_ok_iff.mp h
  rcases hlaunches with ⟨-, hnone⟩ | ⟨hrows, hsome⟩
  · have hempty : lowered.program.isEmpty = true := List.isEmpty_iff.mpr hnone
    rw [if_pos hempty] at h
    cases h
    exact (lowered.cost_of_launches_eq_nil hnone).symm
  · obtain ⟨_, _, _, _, hsorts⟩ := Program.exists_sorts_of_lower lowered.lower_eq hrows
    split at h
    · next hempty =>
      cases h
      exact (lowered.cost_of_launches_eq_nil (List.isEmpty_iff.mp hempty)).symm
    obtain ⟨⟨⟩, -, h⟩ := Outcome.bind_eq_ok_iff.mp h
    obtain ⟨⟨rows, sum⟩, hrun, h⟩ := Outcome.bind_eq_ok_iff.mp h
    cases h
    have hcount : ((lowered.program.tracked buffers).rows lowered.program.view.axisLen).length =
        lowered.program.view.before := by
      have hkeys : (lowered.program.tracked buffers).keys.front.size = _ :=
        ((Program.check_eq_ok_iff total_eq_ok).mp hcheck).2.1
      rw [Buffers.rows, List.length_map, List.length_range, hkeys, Nat.mul_div_cancel _ hsorts.axisLen_pos]
    rw [Launch.report_of_foldlM_step hsorts.covers hrun, hcount, sum_cost_of_launchesFor hvalid hsome]
    exact zero_add lowered.cost

/-- A run is its checks. What it leaves in the buffers is known from the input, and what it adds from the program. -/
theorem run_eq (lowered : Lowered) (input : Array κ) (runner : HostRunner) (hbuffers : buffers.Paired) :
    runner.run lowered.program input buffers = (do
      lowered.program.check input buffers
      return (lowered.program.left input buffers, ⟨runner.report + lowered.cost⟩)) := by
  have hexecute : ∀ {result report}, lowered.program.execute input buffers = .ok (result, report) →
      runner.run lowered.program input buffers = .ok (result, ⟨runner.report + lowered.cost⟩) := by
    intro result report h
    rw [HostRunner.run, h, report_of_execute h]
    rfl
  rcases hcheck : lowered.program.check input buffers with failure | ⟨⟨⟩⟩
  · rw [HostRunner.run, Program.execute_eq, hcheck]
    rfl
  rw [Outcome.ok_bind, Outcome.pure_eq_ok]
  cases hempty : lowered.program.isEmpty with
  | true =>
    rw [Program.left, if_pos hempty]
    have hnone : lowered.program.execute input buffers = .ok (buffers, {}) := by
      rw [Program.execute_eq, hcheck, Outcome.ok_bind, if_pos hempty]
      rfl
    exact hexecute hnone
  | false =>
    have hlaunches : lowered.program.launches ≠ [] := fun hnone => by simp [Program.isEmpty, hnone] at hempty
    obtain ⟨hinput, -, hindices⟩ := (Program.check_eq_ok_iff total_eq_ok).mp hcheck
    obtain ⟨_, hrun⟩ := HostRunner.exists_run runner lowered.lower_eq hlaunches hinput
      (Program.hasLength_of_check total_eq_ok hbuffers hcheck) fun hindexed hnone => by
        obtain ⟨_, hsome, -⟩ := hindices hindexed
        exact Option.some_ne_none _ (hsome.symm.trans hnone)
    obtain ⟨⟨result, report⟩, hresult, hrun⟩ := Outcome.bind_eq_ok_iff.mp hrun
    rw [hexecute hresult, (Prod.mk.inj (Except.ok.inj hrun)).1, Program.left, hempty]
    rfl

/-- How a run on the buffers where they are ends: as its checks do. It leaves the report with its cost added if it
succeeds, and as it was otherwise. -/
theorem run_workplace (lowered : Lowered) (input : Array κ) (runner : HostRunner) (hbuffers : buffers.Paired) :
    ∃ left, (Workplace.run lowered.program input).run ⟨runner, buffers⟩ =
      match lowered.program.check input buffers with
      | .ok _ => (.ok ⟨⟩, ⟨⟨runner.report + lowered.cost⟩, left⟩)
      | .error failure => (.error failure, ⟨runner, buffers⟩) := by
  rcases hcheck : lowered.program.check input buffers with failure | ⟨⟨⟩⟩
  · exact ⟨buffers, Workplace.run_of_check_eq_error hcheck⟩
  · have hrun := lowered.run_eq input runner hbuffers
    rw [hcheck] at hrun
    exact ⟨_, Workplace.run_eq_ok hbuffers hrun⟩

end Lowered

/-! ### Histories -/

namespace HostRunner

/-- What a runner is asked to do. -/
inductive Call : Type 1 where
  /-- Run a program that was lowered on an input and buffers. -/
  | run {κ ι : Type} [Element κ] [IndexElement ι] (lowered : Lowered) (input : Array κ) (buffers : Buffers κ ι)
    (paired : buffers.Paired)
  /-- Clear the report. -/
  | reset

namespace Call

/-- Does what is asked for. The buffers are left to the caller. -/
def perform : Call → Stateful HostRunner Unit
  | @run _ _ _ _ lowered input buffers _ => fun runner =>
    let (outcome, place) := (Workplace.run lowered.program input).run ⟨runner, buffers⟩
    (outcome, place.runner)
  | .reset => fun runner => (.ok (), runner.reset)

/-- The input and the buffers are as long as the program is large. -/
def Fits : Call → Prop
  | @run _ _ _ _ lowered input buffers _ =>
    input.size = lowered.program.view.before * lowered.program.view.axisLen ∧
      buffers.keys.front.size = lowered.program.view.before * lowered.program.view.axisLen ∧
      (lowered.program.indexed = true → ∃ indices, buffers.indices = some indices ∧
        indices.front.size = lowered.program.view.before * lowered.program.view.axisLen)
  | .reset => True

end Call

/-- A call, and how it has ended. -/
structure Entry : Type 1 where
  /-- The call. -/
  call : Call
  /-- Its outcome. -/
  outcome : Outcome Unit

namespace Entry

/-- The report has been cleared. -/
def isReset (entry : Entry) : Bool :=
  match entry.call with
  | .reset => true
  | _ => false

/-- What an entry adds to the report: a run that has succeeded the cost of its program, and a run that has failed
nothing. -/
def charge (entry : Entry) : Report :=
  match entry.call, entry.outcome with
  | @Call.run _ _ _ _ lowered _ _ _, .ok _ => lowered.cost
  | _, _ => 0

end Entry

/-- A runner and its log after one more call. -/
def Call.step (state : HostRunner × List Entry) (call : Call) : HostRunner × List Entry :=
  let (outcome, runner) := call.perform.run state.1
  (runner, ⟨call, outcome⟩ :: state.2)

/-- A new runner and its log after a sequence of calls. The last call stands first in the log. -/
def history (calls : List Call) : HostRunner × List Entry := calls.foldl Call.step ({}, [])

/-- The part of a log behind the last time that the report was cleared. -/
def sinceReset (log : List Entry) : List Entry := log.takeWhile (!·.isReset)

/-- The report is the sum of what has been added since it was last cleared, and every call in the log has ended as its
lengths say. -/
structure Accounted (runner : HostRunner) (log : List Entry) : Prop where
  /-- The report. -/
  report_eq : runner.report = ((sinceReset log).map Entry.charge).sum
  /-- A call succeeds exactly if its lengths fit. -/
  succeeds_iff : ∀ entry ∈ log, entry.outcome = .ok () ↔ entry.call.Fits
  /-- A call that does not succeed is refused. -/
  not_faults : ∀ entry ∈ log, ¬entry.outcome.Faults

section Runs

variable {lowered : Lowered} {input : Array κ} {buffers : Buffers κ ι}

/-- A run ends as its checks do. It adds its cost to the report if it succeeds, and nothing otherwise. -/
theorem Call.run_perform_run (paired : buffers.Paired) (runner : HostRunner) :
    (Call.run lowered input buffers paired).perform.run runner =
      match lowered.program.check input buffers with
      | .ok _ => (.ok (), ⟨runner.report + lowered.cost⟩)
      | .error failure => (.error failure, runner) := by
  obtain ⟨left, hrun⟩ := lowered.run_workplace input runner paired
  change (((Workplace.run lowered.program input).run ⟨runner, buffers⟩).1,
    ((Workplace.run lowered.program input).run ⟨runner, buffers⟩).2.runner) = _
  rw [hrun]
  rcases lowered.program.check input buffers with failure | _ <;> rfl

omit [Element κ] [IndexElement ι] in
/-- The checks before a run do not fault. -/
theorem not_faults_check : ¬(lowered.program.check input buffers).Faults := by
  have hlength : ∀ expected actual, ¬(checkLength expected actual).Faults := by
    intro expected actual
    rw [checkLength]
    split
    · exact Outcome.not_faults_ok ()
    · exact Outcome.not_faults_refuse _
  rw [Program.check, Lowered.total_eq_ok, Outcome.ok_bind]
  refine Outcome.not_faults_bind (hlength _ _) fun _ _ => Outcome.not_faults_bind (hlength _ _) fun _ _ => ?_
  unfold Program.checkIndices
  split
  · split
    · exact Outcome.not_faults_refuse _
    · exact hlength _ _
  · exact Outcome.not_faults_ok ()

end Runs

/-- How a call ends does not depend on the runner: it succeeds exactly if its lengths fit, and it does not fault. -/
theorem Call.outcome_perform (call : Call) (runner : HostRunner) :
    ((call.perform.run runner).1 = .ok () ↔ call.Fits) ∧ ¬(call.perform.run runner).1.Faults := by
  cases call with
  | run lowered input buffers paired =>
    have houtcome : ((Call.run lowered input buffers paired).perform.run runner).1 =
        lowered.program.check input buffers := by
      rw [Call.run_perform_run]
      rcases lowered.program.check input buffers with failure | _ <;> rfl
    rw [houtcome]
    exact ⟨Program.check_eq_ok_iff Lowered.total_eq_ok, not_faults_check⟩
  | reset => exact ⟨iff_of_true rfl trivial, Outcome.not_faults_ok ()⟩

variable {runner : HostRunner} {log : List Entry}

/-- A call that is not the last one to clear the report adds its charge to it. -/
theorem Call.report_perform (call : Call) (runner : HostRunner) :
    (call.perform.run runner).2.report =
      if (Entry.mk call (call.perform.run runner).1).isReset then 0
      else runner.report + (Entry.mk call (call.perform.run runner).1).charge := by
  cases call with
  | run lowered input buffers paired =>
    rw [Call.run_perform_run]
    rcases lowered.program.check input buffers with failure | _
    · exact (add_zero runner.report).symm
    · rfl
  | reset => rfl

/-- A call keeps the accounts. -/
theorem Accounted.step (h : Accounted runner log) (call : Call) :
    Accounted (Call.step (runner, log) call).1 (Call.step (runner, log) call).2 := by
  obtain ⟨hsucceeds, hfaults⟩ := call.outcome_perform runner
  refine ⟨?_, List.forall_mem_cons.mpr ⟨hsucceeds, h.succeeds_iff⟩, List.forall_mem_cons.mpr ⟨hfaults, h.not_faults⟩⟩
  change (call.perform.run runner).2.report =
    ((sinceReset (⟨call, (call.perform.run runner).1⟩ :: log)).map Entry.charge).sum
  rw [Call.report_perform, h.report_eq, sinceReset, sinceReset, List.takeWhile_cons]
  cases (Entry.mk call (call.perform.run runner).1).isReset with
  | true => rfl
  | false =>
    simp only [Bool.not_false, Bool.false_eq_true, if_false, if_true, List.map_cons, List.sum_cons]
    exact add_comm _ _

/-- The accounts are kept by every sequence of calls, and the log has all of them. -/
theorem accounted_foldl_step (h : Accounted runner log) (calls : List Call) :
    Accounted (calls.foldl Call.step (runner, log)).1 (calls.foldl Call.step (runner, log)).2 ∧
      (calls.foldl Call.step (runner, log)).2.map Entry.call = calls.reverse ++ log.map Entry.call := by
  induction calls generalizing runner log with
  | nil => exact ⟨h, rfl⟩
  | cons call calls ih =>
    obtain ⟨haccounted, hlog⟩ := ih (h.step call)
    refine ⟨haccounted, hlog.trans ?_⟩
    rw [List.reverse_cons, List.append_assoc]
    rfl

/-- **The report is the sum of the costs since it was last cleared.** After any sequence of runs and resets, with any
programs that were lowered, any inputs and any buffers, a run that has succeeded has added its launches, the blocks of
their grids, and for every row a barrier for each key and each tile. A run that has failed has added nothing, and neither
has a program without launches. A run succeeds exactly if its input and its buffers are as long as its program is large,
and is refused otherwise. -/
theorem report_history (calls : List Call) :
    Accounted (history calls).1 (history calls).2 ∧ (history calls).2.map Entry.call = calls.reverse ∧
      ∀ lowered : Lowered, lowered.program.launches = [] → lowered.cost = 0 := by
  have hstart : Accounted {} [] :=
    ⟨rfl, fun _ hentry => absurd hentry List.not_mem_nil, fun _ hentry => absurd hentry List.not_mem_nil⟩
  obtain ⟨haccounted, hlog⟩ := accounted_foldl_step hstart calls
  exact ⟨haccounted, hlog.trans (List.append_nil _), Lowered.cost_of_launches_eq_nil⟩

/-- The report is cleared, five keys are sorted in one tile, and an input of another length is refused. -/
example :
    let five : Lowered := ⟨[5], 0, .ascending, true, {}, _, rfl⟩
    let sort (input : Array Int32) : Call :=
      .run five input (⟨.zeros 5, some (.zeros 5)⟩ : Buffers Int32 UInt32) ⟨rfl, by rintro _ ⟨⟩; rfl⟩
    (history [sort #[2, 1, 0, 4, 3], .reset, sort #[5, 1, 4, 2, 2], sort #[1]]).1.report = ⟨2, 2, 5 + 1⟩ := by
  decide +kernel

end HostRunner

end MergePathSort
