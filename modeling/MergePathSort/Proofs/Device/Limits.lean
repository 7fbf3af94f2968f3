import MergePathSort.Proofs.Device.Ownership
import MergePathSort.Proofs.Plan.Lowering

/-!
# Launches within the limits of a device

A device runs groups of so many threads with so many bytes of scratch. The threads of every launch are bounded by the lanes
of the configuration, and these by the device's when an engine is made. The scratch of a sort is bounded by the bytes that
the configuration gives a block. An engine shaped by its device takes these from it; where a configuration is brought
along, nothing compares the two, and a sort whose tiles need more than the device has runs all the same.

## Main definitions

* `DeviceEngine.Job.Planned` : jobs whose programs are lowered under a configuration.
* `DeviceEngine.Job.scratch` : the bytes of scratch that the groups of a job share.

## Main results

* `Program.launches_of_lower` : the lanes of the launches of a program.
* `DeviceEngine.Job.record_of_issues` : what holds of the records of a job.
* `DeviceEngine.logged_execute` : a program that succeeds has issued all of its launches.
* `DeviceEngine.limits_of_job` : the launches of a job and the limits of the device.
-/

namespace MergePathSort

/-! ### Programs -/

/-- The lanes of a merge pass. -/
theorem Limits.lanesFor_le (limits : Limits) (width : Nat) : limits.lanesFor width ≤ limits.maxLanes.toNat := by
  rw [lanesFor]
  split
  · exact Nat.le_refl _
  · exact Nat.min_le_left _ _

/-- The launches of a program are those of a sort by tiles of the configuration, and none has more lanes than it allows. -/
theorem Program.launches_of_lower {shape : List Nat} {axis : Nat} {direction : Direction} {indexed : Bool}
    {config : Config} {program : Program} (h : Program.lower shape axis direction indexed config = .ok program) :
    (program.launches = [] ∨ ∃ copy tiles passes shapes,
      program.launches = sortLaunches copy tiles config.tuning.tile passes shapes) ∧
      ∀ launch ∈ program.launches, launch.grid.lanes ≤ config.limits.maxLanes := by
  obtain ⟨hvalid, -, -, -, -, -, ⟨-, hnone⟩ | ⟨-, hlaunches⟩⟩ := lower_spec h
  · rw [hnone]
    exact ⟨.inl rfl, fun _ hlaunch => absurd hlaunch List.not_mem_nil⟩
  · obtain ⟨copy, tiles, shapes, hcopy, htiles, heq, hmade⟩ := launchesFor_eq_ok hvalid hlaunches
    refine ⟨.inr ⟨copy, tiles, _, shapes, heq⟩, ?_⟩
    have hcopyLanes : copy.lanes ≤ config.limits.maxLanes := by
      rw [UInt32.le_iff_toNat_le, (Grid.perElement_eq_ok hcopy).2.1]
      exact Nat.min_le_left _ _
    rw [heq]
    refine forall_mem_sortLaunches hcopyLanes ?_ (fun pass hpass => ?_) hcopyLanes
    · rw [(Grid.perTile_eq_ok htiles).1]
      exact (Config.problem?_eq_none_iff.mp hvalid).2.2.2
    · rw [UInt32.le_iff_toNat_le]
      exact Nat.le_trans (Nat.le_of_eq (hmade pass hpass).lanes_eq) (config.limits.lanesFor_le _)

/-- No launch of a sort shares more scratch than that of its tiles. -/
theorem scratchBytes_sortLaunches {κ : Type} [Element κ] {copy tiles : Grid} {tile : UInt32} {passes : Nat}
    {shapes : Nat → MergeShape} {indexed : Bool} :
    ∀ launch ∈ sortLaunches copy tiles tile passes shapes,
      launch.stage.scratchBytes κ indexed ≤ (Stage.sortTiles tile).scratchBytes κ indexed :=
  forall_mem_sortLaunches (Nat.zero_le _) (Nat.le_refl _) (fun _ _ => Nat.zero_le _) (Nat.zero_le _)

namespace DeviceEngine

variable {κ : Type} [Element κ]

/-- A tile that has been checked fits the scratch of a block. -/
theorem scratchBytes_le {config : Config} (hvalid : config.problem? = none) (hchecked : checkScratch κ config = .ok ())
    (indexed : Bool) :
    (Stage.sortTiles config.tuning.tile).scratchBytes κ indexed ≤ config.limits.sharedBytes.toNat := by
  have htile := (Config.tile_of_valid hvalid).2
  have hneeded : scratchNeeded κ config ≤ config.limits.sharedBytes.toNat := by
    rw [checkScratch] at hchecked
    split at hchecked
    · exact absurd hchecked (Outcome.refuse_ne_ok _ _)
    · exact Nat.not_lt.mp ‹_›
  refine Nat.le_trans ?_ hneeded
  rw [scratchNeeded, Nat.mul_add, Stage.scratchBytes]
  cases indexed
  · simp only [Bool.false_eq_true, if_false]
    omega
  · exact Nat.le_refl _

/-! ### Jobs -/

/-- A program of the job is lowered under a configuration. -/
def Job.Planned (config : Config) : Job → Prop
  | @Job.sort _ _ program _ =>
    ∃ shape axis direction indexed, Program.lower shape axis direction indexed config = .ok program
  | _ => True

/-- The bytes of scratch that the groups of a job share. -/
def Job.scratch (config : Config) : Job → Nat
  | @Job.sort κ _ program _ =>
    if program.isEmpty then 0 else (Stage.sortTiles config.tuning.tile).scratchBytes κ program.indexed
  | _ => 0

/-- The launches of a job have no more lanes than the configuration allows, share no more scratch than the job needs, and
no more than the configuration gives a block. -/
theorem Job.record_of_issues {config : Config} (hvalid : config.problem? = none) {job : Job}
    (hplanned : job.Planned config) {record : LaunchRecord} (h : job.Issues config record) :
    record.threads ≤ config.limits.maxLanes ∧ record.scratch ≤ job.scratch config ∧
      record.scratch ≤ config.limits.sharedBytes.toNat := by
  cases job with
  | @sort κ _ program input =>
    obtain ⟨shape, axis, direction, indexed, hlower⟩ := hplanned
    obtain ⟨hchecked, launch, hlaunch, hthreads, hscratch⟩ := h
    obtain ⟨hempty | ⟨copy, tiles, passes, shapes, heq⟩, hlanes⟩ := Program.launches_of_lower hlower
    · rw [hempty] at hlaunch
      exact absurd hlaunch List.not_mem_nil
    · have hnonempty : program.isEmpty = false := by
        rw [Program.isEmpty, List.isEmpty_eq_false_iff]
        exact List.ne_nil_of_mem hlaunch
      rw [hthreads, hscratch, Job.scratch, hnonempty]
      have hle : launch.stage.scratchBytes κ program.indexed ≤
          (Stage.sortTiles config.tuning.tile).scratchBytes κ program.indexed :=
        scratchBytes_sortLaunches launch (heq ▸ hlaunch)
      exact ⟨hlanes launch hlaunch, hle, Nat.le_trans hle (scratchBytes_le hvalid hchecked program.indexed)⟩
  | search sorted values rowLen perRow batched right =>
    obtain ⟨⟨grid, hgrid, hthreads⟩, hscratch⟩ := h
    rw [hthreads, hscratch, UInt32.le_iff_toNat_le, (Grid.perElement_eq_ok hgrid).2.1]
    exact ⟨Nat.min_le_left _ _, Nat.zero_le _, Nat.zero_le _⟩

/-! ### Programs that succeed -/

/-- A program that has run on its buffers has issued all of its launches. -/
theorem logged_runOn {program : Program} {buffers : SortBuffers} {total indexLen : Nat} {engine engine' : DeviceEngine}
    {result : Array κ × Option (Array UInt32)}
    (h : (runOn (κ := κ) program buffers total indexLen).run engine = (.ok result, engine')) :
    ∃ issued, engine'.log = issued ++ engine.log ∧
      ∀ launch ∈ program.launches, ∃ record ∈ issued, record.Records κ program.indexed launch := by
  rw [runOn, Stateful.run_bind_of_eq_ok Stateful.run_get] at h
  obtain ⟨data, -, h⟩ := Stateful.run_ofOutcome_bind_eq_ok_iff.mp h
  obtain ⟨front, -, h⟩ := Stateful.run_ofOutcome_bind_eq_ok_iff.mp h
  obtain ⟨back, -, h⟩ := Stateful.run_ofOutcome_bind_eq_ok_iff.mp h
  obtain ⟨extents, -, h⟩ := Stateful.run_ofOutcome_bind_eq_ok_iff.mp h
  obtain ⟨cells, issuing, hissuing, h⟩ := Stateful.run_bind_eq_ok_iff.mp h
  obtain ⟨issued, outcome, hrun, -, hall⟩ :=
    @issued_launches κ _ program extents data total indexLen program.launches ⟨front, back⟩ engine
  rw [issueLaunches_eq_foldlM_issue, hrun] at hissuing
  cases hissuing
  refine ⟨issued, ?_, hall cells rfl⟩
  obtain ⟨_, stored, hstored, h⟩ := Stateful.run_bind_eq_ok_iff.mp h
  cases hstored
  rw [Stateful.run_bind_of_eq_ok Stateful.run_get] at h
  obtain ⟨keys, -, h⟩ := Stateful.run_ofOutcome_bind_eq_ok_iff.mp h
  split at h
  · obtain ⟨words, -, h⟩ := Stateful.run_ofOutcome_bind_eq_ok_iff.mp h
    obtain ⟨-, rfl⟩ := Stateful.run_pure_eq_ok_iff.mp h
    rfl
  · obtain ⟨-, rfl⟩ := Stateful.run_pure_eq_ok_iff.mp h
    rfl

/-- A program that succeeds has issued all of its launches. -/
theorem logged_execute {program : Program} {input : Array κ} {engine engine' : DeviceEngine}
    {result : Array κ × Option (Array UInt32)} (h : (execute program input).run engine = (.ok result, engine')) :
    ∃ issued, engine'.log = issued ++ engine.log ∧
      ∀ launch ∈ program.launches, ∃ record ∈ issued, record.Records κ program.indexed launch := by
  obtain ⟨state, hbody, hfree⟩ := exists_of_call h
  have hleft : engine'.log = state.engine.log := by
    have hleaves := leaves_freeBuffers state.owned state.engine
    rwa [Stateful.Leaves, hfree] at hleaves
  rw [hleft]
  obtain ⟨total, -, hbody⟩ := Stateful.run_ofOutcome_bind_eq_ok_iff.mp hbody
  split at hbody
  · exact absurd (Stateful.run_ofOutcome_eq_ok_iff.mp hbody).1 (Outcome.refuse_ne_ok _ _)
  split at hbody
  · next hempty =>
    obtain ⟨-, rfl⟩ := Stateful.run_pure_eq_ok_iff.mp hbody
    rw [Program.isEmpty, List.isEmpty_iff] at hempty
    rw [hempty]
    exact ⟨[], rfl, fun _ hlaunch => absurd hlaunch List.not_mem_nil⟩
  rw [Stateful.run_bind_of_eq_ok Stateful.run_get] at hbody
  obtain ⟨_, -, hbody⟩ := Stateful.run_ofOutcome_bind_eq_ok_iff.mp hbody
  obtain ⟨buffers, allocated, hallocate, hbody⟩ := Stateful.run_bind_eq_ok_iff.mp hbody
  obtain ⟨issued, hlog, hall⟩ := logged_runOn (OpenCall.onEngine_eq_ok hbody)
  exact ⟨issued, hlog.trans (congrArg _ (left_of_allocate hallocate).2), hall⟩

/-- A job that succeeds and needs scratch has issued a launch that shares it. -/
theorem Job.exists_issued {config : Config} {job : Job} (hplanned : job.Planned config) {engine engine' : DeviceEngine}
    (h : job.perform.run engine = (.ok (), engine')) (hscratch : 0 < job.scratch config) :
    ∃ issued, engine'.log = issued ++ engine.log ∧ ∃ record ∈ issued, record.scratch = job.scratch config := by
  cases job with
  | @sort κ _ program input =>
    obtain ⟨shape, axis, direction, indexed, hlower⟩ := hplanned
    obtain ⟨result, left, hexecute, hend⟩ := Stateful.run_bind_eq_ok_iff.mp h
    obtain ⟨-, rfl⟩ := Stateful.run_pure_eq_ok_iff.mp hend
    obtain ⟨issued, hlog, hall⟩ := logged_execute hexecute
    refine ⟨issued, hlog, ?_⟩
    rw [Job.scratch] at hscratch ⊢
    split at hscratch
    · exact absurd hscratch (Nat.lt_irrefl 0)
    · next hnonempty =>
      rw [Program.isEmpty, List.isEmpty_iff] at hnonempty
      rcases (Program.launches_of_lower hlower).1 with hempty | ⟨copy, tiles, passes, shapes, heq⟩
      · exact absurd hempty hnonempty
      · have htiles : (⟨.sortTiles config.tuning.tile, tiles⟩ : Launch) ∈ program.launches := by
          rw [heq]
          simp [sortLaunches, launchesUpTo]
        obtain ⟨record, hrecord, -, hshares⟩ := hall _ htiles
        rw [if_neg (by simpa [Program.isEmpty] using hnonempty)]
        exact ⟨record, hrecord, hshares⟩
  | search => exact absurd hscratch (Nat.lt_irrefl 0)

/-! ### Devices -/

/-- The configuration of a new engine is valid, its blocks are not larger than the device's groups, and if the device has
shaped it their scratch is the device's. -/
theorem Made.config_spec {device : Device} {made : DeviceEngine} (h : Made device made) :
    made.config.problem? = none ∧ made.config.limits.maxLanes ≤ device.threads ∧
      (ofDevice device = .ok made → made.config.limits.sharedBytes = device.shared) := by
  have hshaped : ofDevice device = .ok made → made.config.problem? = none ∧ made.config.limits = device.limits := by
    intro hmade
    obtain ⟨config, hconfig, hmade⟩ := Outcome.bind_eq_ok_iff.mp hmade
    obtain ⟨_, hvalid, hconfig⟩ := Outcome.bind_eq_ok_iff.mp hconfig
    cases hconfig
    cases hmade
    exact ⟨Config.problem?_of_validate hvalid, rfl⟩
  rcases h with h | ⟨config, h⟩
  · obtain ⟨hvalid, hlimits⟩ := hshaped h
    rw [hlimits]
    exact ⟨hvalid, UInt32.le_refl _, fun _ => rfl⟩
  · obtain ⟨_, hvalid, h⟩ := Outcome.bind_eq_ok_iff.mp h
    split at h
    · exact absurd h (Outcome.refuse_ne_ok _ _)
    · next hlanes =>
      cases h
      exact ⟨Config.problem?_of_validate hvalid, UInt32.not_lt.mp hlanes,
        fun hmade => congrArg Limits.sharedBytes (hshaped hmade).2⟩

/-- The launches that a job issues on an engine, however it was made, whatever has been done with it, and whether the job
succeeds or not. Their groups have no more threads than the device's, and share no more scratch than the configuration
says. If the device has shaped the engine, or if the job needs no more than the device has, this is no more than the
device has. Otherwise nothing stops the job: when it has succeeded a launch has shared more. -/
theorem limits_of_job {device : Device} {made engine : DeviceEngine} {events : List Event} {job : Job}
    (hmade : Made device made) (hevents : afterAll events made = .ok engine) (hplanned : job.Planned made.config) :
    ∃ issued, (job.perform.run engine).2.log = issued ++ engine.log ∧
      (∀ record ∈ issued,
        record.threads ≤ device.threads ∧ record.scratch ≤ made.config.limits.sharedBytes.toNat) ∧
      (ofDevice device = .ok made ∨ job.scratch made.config ≤ device.shared.toNat →
        ∀ record ∈ issued, record.scratch ≤ device.shared.toNat) ∧
      ((job.perform.run engine).1 = .ok () → device.shared.toNat < job.scratch made.config →
        ∃ record ∈ issued, device.shared.toNat < record.scratch) := by
  obtain ⟨hvalid, hlanes, hshaped⟩ := hmade.config_spec
  obtain ⟨hnumbered, hconfig⟩ := kept_afterAll hmade.numbered hevents
  obtain ⟨issued, hlog, hissues⟩ := (job.called hnumbered).log_eq
  rw [hconfig] at hissues
  have hrecords := fun record hrecord => Job.record_of_issues hvalid hplanned (hissues record hrecord)
  refine ⟨issued, hlog, fun record hrecord => ?_, fun hfits record hrecord => ?_, fun hsucceeds hlarge => ?_⟩
  · obtain ⟨hthreads, -, hscratch⟩ := hrecords record hrecord
    exact ⟨UInt32.le_trans hthreads hlanes, hscratch⟩
  · obtain ⟨-, hneeded, hscratch⟩ := hrecords record hrecord
    rcases hfits with hofDevice | hsmall
    · rwa [hshaped hofDevice] at hscratch
    · exact Nat.le_trans hneeded hsmall
  · obtain ⟨issued', hlog', record, hrecord, hshares⟩ :=
      Job.exists_issued hplanned (Prod.ext hsucceeds rfl) (Nat.lt_of_le_of_lt (Nat.zero_le _) hlarge)
    obtain rfl : issued' = issued := List.append_cancel_right (hlog'.symm.trans hlog)
    exact ⟨record, hrecord, hshares ▸ hlarge⟩

/-- Tiles of two bytes and their indices need ten bytes of scratch. A device with four runs the sort of a configuration that
leaves the bytes of a block as they are. -/
theorem limits_of_sort_beyond_scratch :
    ∃ (made : DeviceEngine) (job : Job), Made { shared := 4 } made ∧ job.Planned made.config ∧
      (job.perform.run made).1 = .ok () ∧ ∃ issued, (job.perform.run made).2.log = issued ++ made.log ∧
        (∀ record ∈ issued, record.threads ≤ 1024 ∧ record.scratch ≤ 49152) ∧
        ∃ record ∈ issued, 4 < record.scratch := by
  let config : Config := { tuning := { tile := 2 } }
  let program : Program := ⟨⟨1, 2, 1⟩, .ascending, true, [⟨.copyIn, ⟨2, 1, 1⟩⟩, ⟨.sortTiles 2, ⟨1, 1, 1⟩⟩]⟩
  let made : DeviceEngine := Device.engine { shared := 4 } config
  have hmade : Made { shared := 4 } made := .inr ⟨config, by cbv⟩
  have hlower : Program.lower [2] 0 .ascending true config = .ok program := by decide +kernel
  have hsucceeds : ((Job.sort program (#[7, 3] : Array UInt8)).perform.run made).1 = .ok () := by decide +kernel
  have hplanned : (Job.sort program (#[7, 3] : Array UInt8)).Planned config := ⟨[2], 0, .ascending, true, hlower⟩
  have hevents : afterAll [] made = .ok made := rfl
  obtain ⟨issued, hlog, hbounds, -, hbeyond⟩ := limits_of_job hmade hevents hplanned
  exact ⟨made, .sort program (#[7, 3] : Array UInt8), hmade, hplanned, hsucceeds, issued, hlog, hbounds,
    hbeyond hsucceeds (by decide +kernel)⟩

end DeviceEngine

end MergePathSort
