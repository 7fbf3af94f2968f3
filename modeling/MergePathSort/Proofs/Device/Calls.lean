import MergePathSort.Device.Engine
import MergePathSort.Proofs.Faults

/-!
# Calls on a device

A call allocates buffers one after the other and owns each from then on. When it has succeeded or has been refused, the
buffers that it owns by then are given back; a call that faults ends where it stands. The launches of a program are issued
one after the other, and a launch that has run is logged with its threads and its scratch.

## Main definitions

* `DeviceEngine.issue` : issues one launch of a program.
* `LaunchRecord.Records` : what the record of a launch says of it.

## Main results

* `OpenCall.run_track`, `OpenCall.run_onEngine` : the steps of a call.
* `DeviceEngine.run_call_of_not_faults`, `DeviceEngine.run_call_of_faulted` : how a call ends.
* `DeviceEngine.exists_of_call` : what a call that has succeeded has done.
* `DeviceEngine.issued_launches` : the log after the launches of a program.
-/

namespace MergePathSort

/-! ### Steps of a call -/

namespace OpenCall

variable {α : Type} {state : OpenCall}

/-- A buffer that can be allocated is allocated, and owned. -/
theorem run_track {allocate : Pool → Outcome (BufferName × Pool)} {name : BufferName} {pool : Pool}
    (h : allocate state.engine.pool = .ok (name, pool)) :
    (track allocate).run state = (.ok name, ⟨{ state.engine with pool }, state.owned ++ [name]⟩) := by
  rw [track, Stateful.run_bind_of_eq_ok Stateful.run_get,
    Stateful.run_bind_of_eq_ok (Stateful.run_ofOutcome_of_eq_ok h state)]
  rfl

/-- Nothing changes if a buffer cannot be allocated. -/
theorem run_track_of_eq_error {allocate : Pool → Outcome (BufferName × Pool)} {failure : Failure}
    (h : allocate state.engine.pool = .error failure) : (track allocate).run state = (.error failure, state) := by
  rw [track, Stateful.run_bind_of_eq_ok Stateful.run_get, h]
  rfl

/-- A buffer has been allocated if the pool had one. -/
theorem exists_of_track {allocate : Pool → Outcome (BufferName × Pool)} {name : BufferName} {state' : OpenCall}
    (h : (track allocate).run state = (.ok name, state')) :
    ∃ pool, allocate state.engine.pool = .ok (name, pool) ∧
      (⟨{ state.engine with pool }, state.owned ++ [name]⟩ : OpenCall) = state' := by
  rcases hallocate : allocate state.engine.pool with failure | ⟨made, pool⟩
  · rw [run_track_of_eq_error hallocate] at h
    cases h
  · rw [run_track hallocate] at h
    cases h
    exact ⟨pool, rfl, rfl⟩

/-- A buffer that has been allocated is owned, and nothing has been issued. -/
theorem left_of_track {allocate : Pool → Outcome (BufferName × Pool)} {name : BufferName} {state' : OpenCall}
    (h : (track allocate).run state = (.ok name, state')) :
    state'.owned = state.owned ++ [name] ∧ state'.engine.log = state.engine.log := by
  obtain ⟨_, -, rfl⟩ := exists_of_track h
  exact ⟨rfl, rfl⟩

/-- A step of the engine leaves the ownership of buffers alone. -/
theorem run_onEngine {step : Stateful DeviceEngine α} {outcome : Outcome α} {engine : DeviceEngine}
    (h : step.run state.engine = (outcome, engine)) : (onEngine step).run state = (outcome, { state with engine }) := by
  change ((step.run state.engine).1, (⟨(step.run state.engine).2, state.owned⟩ : OpenCall)) = _
  rw [h]

/-- The call has succeeded if the engine's step has. -/
theorem onEngine_eq_ok {step : Stateful DeviceEngine α} {a : α} {state' : OpenCall}
    (h : (onEngine step).run state = (.ok a, state')) : step.run state.engine = (.ok a, state'.engine) := by
  rcases hstep : step.run state.engine with ⟨outcome, engine⟩
  rw [run_onEngine hstep] at h
  cases h
  rfl

end OpenCall

namespace DeviceEngine

section Call

variable {α : Type} {body : Stateful OpenCall α} {engine mid engine' : DeviceEngine} {owned : List BufferName}

/-- A call that does not fault gives back what it owns, and then ends as its body does. -/
theorem run_call_eq_freeBuffers {outcome : Outcome α} (hbody : body.run ⟨engine, []⟩ = (outcome, ⟨mid, owned⟩))
    (hfaults : ¬outcome.Faults) :
    (call body).run engine =
      (freeBuffers owned >>= fun _ => Stateful.ofOutcome outcome : Stateful DeviceEngine α).run mid := by
  rw [Stateful.run] at hbody
  simp only [Stateful.run, call, hbody]
  rcases outcome with (error | fault) | a
  · rfl
  · exact absurd (Outcome.faults_fault fault) hfaults
  · rfl

/-- A call that succeeds or is refused gives back what it owns. -/
theorem run_call_of_not_faults {outcome : Outcome α} (hbody : body.run ⟨engine, []⟩ = (outcome, ⟨mid, owned⟩))
    (hfaults : ¬outcome.Faults) (hfree : (freeBuffers owned).run mid = (.ok (), engine')) :
    (call body).run engine = (outcome, engine') := by
  rw [run_call_eq_freeBuffers hbody hfaults, Stateful.run_bind_of_eq_ok hfree]
  rfl

/-- A call that succeeds gives back what it owns. -/
theorem run_call_of_eq_ok {a : α} (hbody : body.run ⟨engine, []⟩ = (.ok a, ⟨mid, owned⟩))
    (hfree : (freeBuffers owned).run mid = (.ok (), engine')) : (call body).run engine = (.ok a, engine') :=
  run_call_of_not_faults hbody (Outcome.not_faults_ok a) hfree

/-- A call that faults ends where it stands. -/
theorem run_call_of_faulted {fault : Fault} (hbody : body.run ⟨engine, []⟩ = (.error (.faulted fault), ⟨mid, owned⟩)) :
    (call body).run engine = (.error (.faulted fault), mid) := by
  rw [Stateful.run] at hbody
  simp only [Stateful.run, call, hbody]
  rfl

/-- A call succeeds if its body does and its buffers can be given back. -/
theorem exists_of_call {a : α} (h : (call body).run engine = (.ok a, engine')) :
    ∃ state, body.run ⟨engine, []⟩ = (.ok a, state) ∧ (freeBuffers state.owned).run state.engine = (.ok (), engine') := by
  rcases hbody : body.run ⟨engine, []⟩ with ⟨(error | fault) | b, mid, owned⟩
  all_goals
    rw [Stateful.run] at hbody
    simp only [Stateful.run, call, hbody] at h
  · obtain ⟨_, _, -, hrefused⟩ := Stateful.run_bind_eq_ok_iff.mp h
    exact absurd (Stateful.run_ofOutcome_eq_ok_iff.mp hrefused).1 (Outcome.refuse_ne_ok _ _)
  · exact absurd (congrArg Prod.fst h) (Outcome.fault_ne_ok _ _)
  · obtain ⟨_, left, hfree, hend⟩ := Stateful.run_bind_eq_ok_iff.mp h
    obtain ⟨hb, rfl⟩ := Stateful.run_ofOutcome_eq_ok_iff.mp hend
    cases hb
    exact ⟨⟨mid, owned⟩, rfl, hfree⟩

/-- Giving buffers back issues nothing. -/
theorem leaves_freeBuffers (names : List BufferName) (engine : DeviceEngine) :
    Stateful.Leaves (fun left => left.log = engine.log) (freeBuffers names) engine := by
  induction names generalizing engine with
  | nil => exact rfl
  | cons name names ih =>
    refine Stateful.leaves_bind (Stateful.leaves_get_bind (Stateful.leaves_ofOutcome_bind rfl fun _ _ => rfl))
      fun _ freed _ hlog => ?_
    rw [← hlog]
    exact ih freed

end Call

end DeviceEngine

/-! ### Launches -/

/-- What the record of a launch says of it: its threads, and the scratch that they share. -/
structure LaunchRecord.Records (κ : Type) [Element κ] (indexed : Bool) (record : LaunchRecord) (launch : Launch) :
    Prop where
  /-- A group has a thread for every lane. -/
  threads_eq : record.threads = launch.grid.lanes
  /-- A group shares the scratch of the launch's stage. -/
  scratch_eq : record.scratch = launch.stage.scratchBytes κ indexed

namespace DeviceEngine

variable {κ : Type} [Element κ]

/-- Issues one launch of a program. -/
def issue (program : Program) (extents : DeviceExtents) (input : Array κ) (total indexLen : Nat) (cells : DeviceCells κ)
    (launch : Launch) : Stateful DeviceEngine (DeviceCells κ) := do
  let memory := (← get).groupMemory
  let (cells, syncs) ← Stateful.ofOutcome ((launch.kernel program extents memory input).1.launch launch.grid cells)
  let record := LaunchRecord.ofGrid launch.grid (launch.kernel program extents memory input).2
    (launch.stage.bufferLengths total indexLen) syncs (launch.stage.scratchBytes κ program.indexed)
  modify fun engine => { engine with log := record :: engine.log }
  return cells

variable {program : Program} {extents : DeviceExtents} {input : Array κ} {total indexLen : Nat}

theorem issueLaunches_eq_foldlM_issue (cells : DeviceCells κ) :
    issueLaunches program extents input total indexLen cells =
      program.launches.foldlM (issue program extents input total indexLen) cells := rfl

/-- A launch either fails, and nothing changes, or it is logged. -/
theorem run_issue (cells : DeviceCells κ) (launch : Launch) (engine : DeviceEngine) :
    (∃ failure, (issue program extents input total indexLen cells launch).run engine = (.error failure, engine)) ∨
      ∃ cells' record, record.Records κ program.indexed launch ∧
        (issue program extents input total indexLen cells launch).run engine =
          (.ok cells', { engine with log := record :: engine.log }) := by
  rcases hrun : (launch.kernel program extents engine.groupMemory input).1.launch launch.grid cells with
    failure | ⟨cells', syncs⟩
  · refine .inl ⟨failure, ?_⟩
    rw [issue, Stateful.run_bind_of_eq_ok Stateful.run_get]
    exact Stateful.run_bind_of_eq_error (congrArg (·, engine) hrun) _
  · refine .inr ⟨cells', LaunchRecord.ofGrid launch.grid (launch.kernel program extents engine.groupMemory input).2
      (launch.stage.bufferLengths total indexLen) syncs (launch.stage.scratchBytes κ program.indexed), ⟨rfl, rfl⟩, ?_⟩
    rw [issue, Stateful.run_bind_of_eq_ok Stateful.run_get,
      Stateful.run_bind_of_eq_ok (Stateful.run_ofOutcome_of_eq_ok hrun engine)]
    rfl

/-- The log after launches of a program: it has the records of those that have run, and of all of them if they all
have. -/
theorem issued_launches (launches : List Launch) (cells : DeviceCells κ) (engine : DeviceEngine) :
    ∃ issued outcome, (launches.foldlM (issue program extents input total indexLen) cells).run engine =
        (outcome, { engine with log := issued ++ engine.log }) ∧
      (∀ record ∈ issued, ∃ launch ∈ launches, record.Records κ program.indexed launch) ∧
      (∀ cells', outcome = .ok cells' →
        ∀ launch ∈ launches, ∃ record ∈ issued, record.Records κ program.indexed launch) := by
  induction launches generalizing cells engine with
  | nil => exact ⟨[], .ok cells, rfl, by simp, by simp⟩
  | cons launch launches ih =>
    rw [List.foldlM_cons]
    rcases run_issue cells launch engine with ⟨failure, hrun⟩ | ⟨cells', record, hrecord, hrun⟩
    · exact ⟨[], .error failure, Stateful.run_bind_of_eq_error hrun _, by simp, fun _ h => nomatch h⟩
    · obtain ⟨issued, outcome, hrest, hlaunched, hall⟩ := ih cells' { engine with log := record :: engine.log }
      refine ⟨issued ++ [record], outcome, ?_, ?_, fun cells'' houtcome => ?_⟩
      · rw [Stateful.run_bind_of_eq_ok hrun, hrest, List.append_assoc]
        rfl
      · intro other hother
        rcases List.mem_append.mp hother with hmem | hmem
        · obtain ⟨launch', hmem', hrecords⟩ := hlaunched other hmem
          exact ⟨launch', List.mem_cons_of_mem _ hmem', hrecords⟩
        · rw [List.mem_singleton.mp hmem]
          exact ⟨launch, List.mem_cons_self, hrecord⟩
      · refine List.forall_mem_cons.mpr ⟨⟨record, by simp, hrecord⟩, fun launch' hlaunch' => ?_⟩
        obtain ⟨record', hmem', hrecords⟩ := hall cells'' houtcome launch' hlaunch'
        exact ⟨record', List.mem_append_left _ hmem', hrecords⟩

end DeviceEngine

end MergePathSort
