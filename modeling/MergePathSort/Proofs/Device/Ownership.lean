import MergePathSort.Proofs.Device.Ledger

/-!
# The buffers that calls leave

A call owns the buffers that it allocates, whatever step it has reached: they stand in the pool in front of those that were
there before, which no step of the call writes. When the call returns, its buffers are given back, so the pool holds what
it held before. This is so for programs and for searches, for those that succeed and for those that are refused, after
anything that has been done with the engine and its pool.

## Main definitions

* `Pool.Rewritten` : a pool in which the bytes of some buffers have been replaced.
* `DeviceEngine.Ran` : what a step of an engine may do.
* `OpenCall.Underway` : the invariant of a call, the buffers that it owns and those that it found.
* `DeviceEngine.Called` : what a call leaves.
* `DeviceEngine.Job`, `DeviceEngine.Event`, `DeviceEngine.afterAll` : sessions with an engine.

## Main results

* `DeviceEngine.called_call` : a call whose steps keep the invariant leaves the buffers that it found.
* `DeviceEngine.called_execute`, `DeviceEngine.called_search` : programs and searches.
* `DeviceEngine.allocated_after_jobs` : whatever jobs are done, the buffers stay as they were.
-/

namespace MergePathSort

/-! ### Pools -/

namespace Pool

/-- The numbers of the buffers have been handed out. -/
def Numbered (pool : Pool) : Prop := ∀ entry ∈ pool.allocated, entry.1.number < pool.nextNumber

/-- They have been after a request, whether it is met or not. -/
theorem Numbered.perform {pool : Pool} (h : pool.Numbered) (request : Request) :
    (request.perform.run pool).2.Numbered := by
  rw [Request.run_perform]
  rcases hanswer : request.answer pool with failure | ⟨reply, pool'⟩
  · exact h
  · have heffect := Request.effect_of_answer hanswer {}
    generalize Ledger.note {} request reply = noted at heffect
    cases heffect with
    | inserted hnames =>
      exact List.forall_mem_cons.mpr ⟨Nat.lt_succ_self _, fun entry hentry => Nat.lt_succ_of_lt (h entry hentry)⟩
    | kept => exact h
    | freed hfree =>
      obtain ⟨-, rfl⟩ := free_eq_ok_iff.mp hfree
      exact fun entry hentry => h entry (List.mem_filter.mp hentry).1
    | cleared => exact fun _ hentry => absurd hentry List.not_mem_nil

/-- A pool in which the bytes of some buffers may have been replaced. -/
structure Rewritten (names : List BufferName) (pool pool' : Pool) : Prop where
  /-- No number has been handed out. -/
  nextNumber_eq : pool'.nextNumber = pool.nextNumber
  /-- The buffers are the same, and those of other names have the same bytes. -/
  allocated_eq : ∃ bytes : BufferName × Array UInt8 → Array UInt8,
    pool'.allocated = pool.allocated.map (fun entry => (entry.1, bytes entry)) ∧
      ∀ entry, entry.1 ∉ names → bytes entry = entry.2

namespace Rewritten

variable {names : List BufferName} {pool pool' : Pool}

theorem refl (names : List BufferName) (pool : Pool) : Rewritten names pool pool :=
  ⟨rfl, Prod.snd, (List.map_id _).symm, fun _ _ => rfl⟩

/-- One more buffer is replaced. -/
theorem overwrite (h : Rewritten names pool pool') {name : BufferName} (hname : name ∈ names) (new : Array UInt8) :
    Rewritten names pool (pool'.overwrite name new) := by
  obtain ⟨bytes, hallocated, hothers⟩ := h.allocated_eq
  refine ⟨h.nextNumber_eq, fun entry => if entry.1 = name then new else bytes entry, ?_, fun entry hentry => ?_⟩
  · rw [Pool.overwrite, hallocated, List.map_map]
    refine List.map_congr_left fun entry _ => ?_
    by_cases heq : entry.1 = name <;> simp [heq]
  · have hne : entry.1 ≠ name := fun heq => hentry (heq ▸ hname)
    exact (if_neg hne).trans (hothers entry hentry)

/-- One more side is stored. -/
theorem storeSide (h : Rewritten names pool pool') {κ : Type} [Element κ] {keys indices : BufferName}
    (hkeys : keys ∈ names) (hindices : indices ∈ names) (cells : Cells κ UInt32) :
    Rewritten names pool (SortBuffers.storeSide pool' keys indices cells) := by
  rw [SortBuffers.storeSide]
  split
  · exact (h.overwrite hkeys _).overwrite hindices _
  · exact h.overwrite hkeys _

/-- Buffers of other names stay as they are. -/
theorem append (h : Rewritten names pool pool') {own rest : List (BufferName × Array UInt8)}
    (hpool : pool.allocated = own ++ rest) (hrest : ∀ entry ∈ rest, entry.1 ∉ names) :
    ∃ own', pool'.allocated = own' ++ rest ∧ own'.map Prod.fst = own.map Prod.fst := by
  obtain ⟨bytes, hallocated, hothers⟩ := h.allocated_eq
  have hsame : rest.map (fun entry => (entry.1, bytes entry)) = rest :=
    (List.map_congr_left fun entry hentry => congrArg (Prod.mk entry.1) (hothers entry (hrest entry hentry))).trans
      (List.map_id rest)
  refine ⟨own.map fun entry => (entry.1, bytes entry), ?_, ?_⟩
  · rw [hallocated, hpool, List.map_append, hsame]
  · rw [List.map_map]
    rfl

end Rewritten

end Pool

namespace DeviceEngine

/-! ### Steps on buffers -/

/-- What a step of an engine may do that is handed some buffers: write these, and issue launches. -/
structure Ran (launched : LaunchRecord → Prop) (names : List BufferName) (engine engine' : DeviceEngine) : Prop where
  /-- The configuration stays. -/
  config_eq : engine'.config = engine.config
  /-- No other buffer is written. -/
  rewritten : engine.pool.Rewritten names engine'.pool
  /-- Launches are added to the log. -/
  log_eq : ∃ issued, engine'.log = issued ++ engine.log ∧ ∀ record ∈ issued, launched record

theorem Ran.refl (launched : LaunchRecord → Prop) (names : List BufferName) (engine : DeviceEngine) :
    Ran launched names engine engine :=
  ⟨rfl, .refl names engine.pool, [], rfl, fun _ hrecord => absurd hrecord List.not_mem_nil⟩

variable {κ : Type} [Element κ]

/-- What the record of a sort says: it is that of a launch of the program, whose tiles had been checked before. -/
structure SortRecord (κ : Type) [Element κ] (program : Program) (config : Config) (record : LaunchRecord) : Prop where
  /-- A tile fits the scratch. -/
  checked : checkScratch κ config = .ok ()
  /-- The launch. -/
  exists_launch : ∃ launch ∈ program.launches, record.Records κ program.indexed launch

/-- Running a program on buffers writes these and issues its launches, whether it succeeds or not. -/
theorem ran_runOn (program : Program) (buffers : SortBuffers) (total indexLen : Nat) {engine : DeviceEngine}
    (hchecked : checkScratch κ engine.config = .ok ()) :
    Stateful.Leaves (Ran (SortRecord κ program engine.config) buffers.names engine)
      (runOn (κ := κ) program buffers total indexLen) engine := by
  have hsame := Ran.refl (SortRecord κ program engine.config) buffers.names engine
  refine Stateful.leaves_get_bind (Stateful.leaves_ofOutcome_bind hsame fun data _ =>
    Stateful.leaves_ofOutcome_bind hsame fun front _ => Stateful.leaves_ofOutcome_bind hsame fun back _ =>
    Stateful.leaves_ofOutcome_bind hsame fun extents _ => ?_)
  rw [issueLaunches_eq_foldlM_issue]
  refine Stateful.leaves_bind ?_ fun cells issuing _ hissued => ?_
  · obtain ⟨issued, outcome, hrun, hlaunched, -⟩ :=
      @issued_launches κ _ program extents data total indexLen program.launches ⟨front, back⟩ engine
    rw [Stateful.Leaves, hrun]
    exact ⟨rfl, .refl _ _, issued, rfl, fun record hrecord => ⟨hchecked, hlaunched record hrecord⟩⟩
  · refine Stateful.leaves_bind ?_ fun _ stored _ hstored => ?_
    · refine ⟨hissued.config_eq, ?_, hissued.log_eq⟩
      exact (hissued.rewritten.storeSide (by simp [SortBuffers.names]) (by simp [SortBuffers.names]) _).storeSide
        (by simp [SortBuffers.names]) (by simp [SortBuffers.names]) _
    · refine Stateful.leaves_get_bind (Stateful.leaves_ofOutcome_bind hstored fun keys _ => ?_)
      split
      · exact Stateful.leaves_ofOutcome_bind hstored fun words _ => Stateful.leaves_pure hstored _
      · exact Stateful.leaves_pure hstored _

/-- What the record of a search says: its groups have a thread for each needle, and no scratch. -/
structure SearchRecord (limits : Limits) (total : Nat) (record : LaunchRecord) : Prop where
  /-- The grid of the search. -/
  exists_grid : ∃ grid, Grid.perElement total 1 limits = .ok grid ∧ record.threads = grid.lanes
  /-- There is no scratch. -/
  scratch_eq : record.scratch = 0

/-- Searching writes the places and issues a launch, whether it succeeds or not. -/
theorem ran_searchOn (haystack needles out : BufferName) (rowLen perRow : Nat) (batched right : Bool)
    (engine : DeviceEngine) :
    Stateful.Leaves (Ran (SearchRecord engine.config.limits needles.len) [out] engine)
      (searchOn κ haystack needles out rowLen perRow batched right) engine := by
  have hsame := Ran.refl (SearchRecord engine.config.limits needles.len) [out] engine
  refine Stateful.leaves_get_bind (Stateful.leaves_ofOutcome_bind hsame fun sorted _ =>
    Stateful.leaves_ofOutcome_bind hsame fun values _ => Stateful.leaves_ofOutcome_bind hsame fun places _ =>
    Stateful.leaves_ofOutcome_bind hsame fun grid hgrid => Stateful.leaves_ofOutcome_bind hsame fun range _ =>
    Stateful.leaves_ofOutcome_bind hsame fun perRow _ => Stateful.leaves_ofOutcome_bind hsame fun total _ =>
    Stateful.leaves_ofOutcome_bind hsame fun found _ => ?_)
  refine Stateful.leaves_bind ?_ fun _ stored _ hstored => ?_
  · refine ⟨rfl, (Pool.Rewritten.refl _ _).overwrite List.mem_cons_self _, [_], rfl, ?_⟩
    rintro record hrecord
    rw [List.mem_singleton.mp hrecord]
    exact ⟨⟨grid, hgrid, rfl⟩, rfl⟩
  · exact Stateful.leaves_get_bind (Stateful.leaves_ofOutcome hstored _)

end DeviceEngine

/-! ### Calls -/

/-- The invariant of a call. The buffers that it owns, the last one first, stand in front of those that it found. -/
structure OpenCall.Underway (launched : LaunchRecord → Prop) (found : DeviceEngine) (state : OpenCall) : Prop where
  /-- The configuration stays. -/
  config_eq : state.engine.config = found.config
  /-- Launches are added to the log. -/
  log_eq : ∃ issued, state.engine.log = issued ++ found.log ∧ ∀ record ∈ issued, launched record
  /-- The buffers in the pool. -/
  allocated_eq : ∃ own, state.engine.pool.allocated = own ++ found.pool.allocated ∧
    own.map Prod.fst = state.owned.reverse
  /-- Nothing is owned twice. -/
  nodup : state.owned.Nodup
  /-- Numbers are handed out in order. -/
  nextNumber_le : found.pool.nextNumber ≤ state.engine.pool.nextNumber
  /-- The numbers of the buffers that the call owns are new. -/
  number_new : ∀ name ∈ state.owned,
    found.pool.nextNumber ≤ name.number ∧ name.number < state.engine.pool.nextNumber

namespace OpenCall.Underway

variable {launched : LaunchRecord → Prop} {found : DeviceEngine} {state : OpenCall}

/-- A call starts without buffers of its own. -/
theorem start (launched : LaunchRecord → Prop) (found : DeviceEngine) : Underway launched found ⟨found, []⟩ where
  config_eq := rfl
  log_eq := ⟨[], rfl, fun _ hrecord => absurd hrecord List.not_mem_nil⟩
  allocated_eq := ⟨[], rfl, rfl⟩
  nodup := List.nodup_nil
  nextNumber_le := Nat.le_refl _
  number_new _ hname := absurd hname List.not_mem_nil

/-- A buffer that the call found has no name that it owns. -/
theorem not_mem_owned (h : Underway launched found state) (hfound : found.pool.Numbered)
    {entry : BufferName × Array UInt8} (hentry : entry ∈ found.pool.allocated) : entry.1 ∉ state.owned :=
  fun hname => Nat.not_lt.mpr (h.number_new _ hname).1 (hfound entry hentry)

/-- A new buffer belongs to the call. -/
theorem insert (h : Underway launched found state) (len width : Nat) (bytes : Array UInt8) :
    Underway launched found ⟨{ state.engine with pool := (state.engine.pool.insert len width bytes).2 },
      state.owned ++ [(state.engine.pool.insert len width bytes).1]⟩ := by
  obtain ⟨own, hallocated, hown⟩ := h.allocated_eq
  refine ⟨h.config_eq, h.log_eq, ⟨((state.engine.pool.insert len width bytes).1, bytes) :: own, ?_, ?_⟩, ?_,
    Nat.le_succ_of_le h.nextNumber_le, ?_⟩
  · exact congrArg (List.cons _) hallocated
  · rw [List.map_cons, hown, List.reverse_append]
    rfl
  · refine List.nodup_append.mpr ⟨h.nodup, List.nodup_singleton _, fun name hname other hother heq => ?_⟩
    rw [heq, List.mem_singleton.mp hother] at hname
    exact Nat.lt_irrefl _ (h.number_new _ hname).2
  · intro name hname
    rcases List.mem_append.mp hname with hold | hnew
    · exact ⟨(h.number_new name hold).1, Nat.lt_succ_of_lt (h.number_new name hold).2⟩
    · rw [List.mem_singleton.mp hnew]
      exact ⟨h.nextNumber_le, Nat.lt_succ_self _⟩

/-- Allocating a buffer keeps the invariant: if it fails nothing has changed. -/
theorem track (h : Underway launched found state) {allocate : Pool → Outcome (BufferName × Pool)}
    (hallocate : ∀ pool name pool', allocate pool = .ok (name, pool') →
      ∃ len width bytes, pool.insert len width bytes = (name, pool')) :
    Stateful.Leaves (Underway launched found) (OpenCall.track allocate) state := by
  rcases hrun : allocate state.engine.pool with failure | ⟨name, pool⟩
  · rw [Stateful.Leaves, run_track_of_eq_error hrun]
    exact h
  · obtain ⟨len, width, bytes, hinsert⟩ := hallocate _ _ _ hrun
    have hnew := h.insert len width bytes
    rw [hinsert] at hnew
    rw [Stateful.Leaves, run_track hrun]
    exact hnew

theorem upload (h : Underway launched found state) {κ : Type} [Element κ] (data : Array κ) :
    Stateful.Leaves (Underway launched found) (OpenCall.track fun pool => .ok (pool.upload data)) state :=
  h.track fun _ _ _ hupload => ⟨_, _, _, Except.ok.inj hupload⟩

theorem reserve (h : Underway launched found state) (κ : Type) [Element κ] (len : Nat) :
    Stateful.Leaves (Underway launched found) (OpenCall.track (Pool.reserve κ · len)) state :=
  h.track fun _ _ _ hreserve => ⟨_, _, _, Pool.eq_reserved_of_reserve hreserve⟩

/-- A step on buffers that the call owns keeps the invariant. -/
theorem onEngine (h : Underway launched found state) (hfound : found.pool.Numbered) {α : Type}
    {step : Stateful DeviceEngine α} {names : List BufferName} (hnames : ∀ name ∈ names, name ∈ state.owned)
    (hstep : Stateful.Leaves (DeviceEngine.Ran launched names state.engine) step state.engine) :
    Stateful.Leaves (Underway launched found) (OpenCall.onEngine step) state := by
  rcases hrun : step.run state.engine with ⟨outcome, engine⟩
  rw [Stateful.Leaves, hrun] at hstep
  rw [Stateful.Leaves, run_onEngine hrun]
  obtain ⟨own, hallocated, hown⟩ := h.allocated_eq
  obtain ⟨before, hlog, hbefore⟩ := h.log_eq
  obtain ⟨issued, hissued, hlaunched⟩ := hstep.log_eq
  obtain ⟨own', hallocated', hown'⟩ := hstep.rewritten.append hallocated
    fun entry hentry hname => h.not_mem_owned hfound hentry (hnames _ hname)
  refine ⟨hstep.config_eq.trans h.config_eq, ⟨issued ++ before, ?_, ?_⟩, ⟨own', hallocated', hown'.trans hown⟩, h.nodup,
    ?_, ?_⟩
  · rw [hissued, hlog, List.append_assoc]
  · exact fun record hrecord => (List.mem_append.mp hrecord).elim (hlaunched record) (hbefore record)
  · rw [hstep.rewritten.nextNumber_eq]
    exact h.nextNumber_le
  · rw [hstep.rewritten.nextNumber_eq]
    exact h.number_new

end OpenCall.Underway

namespace DeviceEngine

/-- What a call leaves, given whether it faults. -/
structure Called (launched : LaunchRecord → Prop) (faults : Prop) (found left : DeviceEngine) : Prop where
  /-- The configuration stays. -/
  config_eq : left.config = found.config
  /-- Launches are added to the log. -/
  log_eq : ∃ issued, left.log = issued ++ found.log ∧ ∀ record ∈ issued, launched record
  /-- The buffers that the call found are there as they were, and no others, if it returns. -/
  allocated_eq : ¬faults → left.pool.allocated = found.pool.allocated
  /-- Numbers are handed out in order. -/
  nextNumber_le : found.pool.nextNumber ≤ left.pool.nextNumber

theorem Called.refl (launched : LaunchRecord → Prop) (faults : Prop) (engine : DeviceEngine) :
    Called launched faults engine engine where
  config_eq := rfl
  log_eq := ⟨[], rfl, fun _ hrecord => absurd hrecord List.not_mem_nil⟩
  allocated_eq _ := rfl
  nextNumber_le := Nat.le_refl _

variable {launched : LaunchRecord → Prop} {engine : DeviceEngine}

/-- When the buffers that a call owns are given back those that it found are left. -/
theorem run_freeBuffers_of_underway {state : OpenCall} (h : state.Underway launched engine)
    (hnumbered : engine.pool.Numbered) :
    (freeBuffers state.owned).run state.engine =
      (.ok (), { state.engine with pool := { state.engine.pool with allocated := engine.pool.allocated } }) := by
  obtain ⟨own, hallocated, hown⟩ := h.allocated_eq
  have howned : ∀ name, name ∈ own.map Prod.fst ↔ name ∈ state.owned := fun name => by
    rw [hown, List.mem_reverse]
  have hfound : (state.engine.pool.allocated.filter fun entry => entry.1 ∉ state.owned) = engine.pool.allocated := by
    have hgone : (own.filter fun entry => entry.1 ∉ state.owned) = [] :=
      List.filter_eq_nil_iff.mpr fun entry hentry => by
        simpa using (howned entry.1).mp (List.mem_map_of_mem hentry)
    have hleft : (engine.pool.allocated.filter fun entry => entry.1 ∉ state.owned) = engine.pool.allocated :=
      List.filter_eq_self.mpr fun entry hentry => by simpa using h.not_mem_owned hnumbered hentry
    rw [hallocated, List.filter_append, hgone, hleft, List.nil_append]
  have hthere : ∀ name ∈ state.owned, name ∈ state.engine.pool.allocated.map Prod.fst := by
    intro name hname
    rw [hallocated, List.map_append]
    exact List.mem_append_left _ ((howned name).mpr hname)
  rw [run_freeBuffers h.nodup hthere, hfound]

/-- A call whose steps keep the invariant leaves the buffers that it found. -/
theorem called_call {α : Type} {body : Stateful OpenCall α} (hnumbered : engine.pool.Numbered)
    (hbody : Stateful.Leaves (OpenCall.Underway launched engine) body ⟨engine, []⟩) :
    Called launched ((call body).Faults engine) engine ((call body).run engine).2 := by
  rcases hrun : body.run ⟨engine, []⟩ with ⟨outcome, state⟩
  rw [Stateful.Leaves, hrun] at hbody
  by_cases hfaults : outcome.Faults
  · obtain ⟨fault, rfl⟩ := hfaults
    have hcall := run_call_of_faulted hrun
    refine ⟨?_, ?_, fun hreturns => absurd ⟨fault, congrArg Prod.fst hcall⟩ hreturns, ?_⟩
    all_goals rw [hcall]
    · exact hbody.config_eq
    · exact hbody.log_eq
    · exact hbody.nextNumber_le
  · have hcall := run_call_of_not_faults hrun hfaults (run_freeBuffers_of_underway hbody hnumbered)
    refine ⟨?_, ?_, fun _ => ?_, ?_⟩
    all_goals rw [hcall]
    · exact hbody.config_eq
    · exact hbody.log_eq
    · exact hbody.nextNumber_le

/-! ### Programs and searches -/

/-- The buffers of a sort are allocated one after the other, and the call owns them. -/
theorem underway_allocate {state : OpenCall} (h : state.Underway launched engine) {κ : Type} [Element κ]
    (input : Array κ) (total indexLen : Nat) :
    Stateful.Leaves (OpenCall.Underway launched engine) (SortBuffers.allocate input total indexLen) state :=
  Stateful.leaves_bind (h.upload input) fun _ _ _ h => Stateful.leaves_bind (h.reserve κ total) fun _ _ _ h =>
    Stateful.leaves_bind (h.reserve κ total) fun _ _ _ h => Stateful.leaves_bind (h.reserve UInt32 indexLen) fun _ _ _ h =>
    Stateful.leaves_bind (h.reserve UInt32 indexLen) fun _ _ _ h => Stateful.leaves_pure h _

/-- The call owns the buffers of a sort when they have been allocated, and nothing has been issued. -/
theorem left_of_allocate {state state' : OpenCall} {κ : Type} [Element κ] {input : Array κ} {total indexLen : Nat}
    {buffers : SortBuffers} (h : (SortBuffers.allocate input total indexLen).run state = (.ok buffers, state')) :
    state'.owned = state.owned ++ buffers.names ∧ state'.engine.log = state.engine.log := by
  obtain ⟨data, first, hdata, h⟩ := Stateful.run_bind_eq_ok_iff.mp h
  obtain ⟨keysFront, second, hkeysFront, h⟩ := Stateful.run_bind_eq_ok_iff.mp h
  obtain ⟨keysBack, third, hkeysBack, h⟩ := Stateful.run_bind_eq_ok_iff.mp h
  obtain ⟨indicesFront, fourth, hindicesFront, h⟩ := Stateful.run_bind_eq_ok_iff.mp h
  obtain ⟨indicesBack, fifth, hindicesBack, h⟩ := Stateful.run_bind_eq_ok_iff.mp h
  obtain ⟨rfl, rfl⟩ := Stateful.run_pure_eq_ok_iff.mp h
  obtain ⟨hfirst, hlogFirst⟩ := OpenCall.left_of_track hdata
  obtain ⟨hsecond, hlogSecond⟩ := OpenCall.left_of_track hkeysFront
  obtain ⟨hthird, hlogThird⟩ := OpenCall.left_of_track hkeysBack
  obtain ⟨hfourth, hlogFourth⟩ := OpenCall.left_of_track hindicesFront
  obtain ⟨hfifth, hlogFifth⟩ := OpenCall.left_of_track hindicesBack
  refine ⟨?_, by rw [hlogFifth, hlogFourth, hlogThird, hlogSecond, hlogFirst]⟩
  rw [hfifth, hfourth, hthird, hsecond, hfirst]
  simp [SortBuffers.names]

/-- A program leaves the buffers that it found, whether it succeeds or is refused. -/
theorem called_execute {κ : Type} [Element κ] (program : Program) (input : Array κ) (hnumbered : engine.pool.Numbered) :
    Called (SortRecord κ program engine.config) ((execute program input).Faults engine) engine
      ((execute program input).run engine).2 := by
  refine called_call hnumbered ?_
  have hstart := OpenCall.Underway.start (SortRecord κ program engine.config) engine
  refine Stateful.leaves_ofOutcome_bind hstart fun total htotal => ?_
  split
  · exact Stateful.leaves_ofOutcome hstart _
  split
  · exact Stateful.leaves_pure hstart _
  refine Stateful.leaves_get_bind (Stateful.leaves_ofOutcome_bind hstart fun _ hchecked => ?_)
  refine Stateful.leaves_bind (underway_allocate hstart input total _) fun buffers state hallocate h => ?_
  have howned : ∀ name ∈ buffers.names, name ∈ state.owned := by
    rw [(left_of_allocate hallocate).1]
    exact fun name hname => List.mem_append_right _ hname
  rw [← h.config_eq] at hchecked
  have hran := ran_runOn program buffers total (if program.indexed then total else 1) hchecked
  rw [h.config_eq] at hran
  exact h.onEngine hnumbered howned hran

/-- A search leaves the buffers that it found, whether it succeeds or is refused. -/
theorem called_search {κ : Type} [Element κ] (sorted values : Array κ) (rowLen perRow : Nat) (batched right : Bool)
    (hnumbered : engine.pool.Numbered) :
    Called (SearchRecord engine.config.limits values.size)
      ((search sorted values rowLen perRow batched right).Faults engine) engine
      ((search sorted values rowLen perRow batched right).run engine).2 := by
  rw [search]
  split
  · exact .refl _ _ engine
  split
  · exact .refl _ _ engine
  refine called_call hnumbered ?_
  have hstart := OpenCall.Underway.start (SearchRecord engine.config.limits values.size) engine
  refine Stateful.leaves_bind (hstart.upload sorted) fun haystack _ _ h => ?_
  refine Stateful.leaves_bind (h.upload values) fun needles _ hneedles h => ?_
  refine Stateful.leaves_bind (h.reserve UInt32 values.size) fun out state hout h => ?_
  have howned : ∀ name ∈ [out], name ∈ state.owned := by
    rw [(OpenCall.left_of_track hout).1]
    exact fun name hname => List.mem_append_right _ hname
  obtain ⟨_, hupload, -⟩ := OpenCall.exists_of_track hneedles
  have hlen : needles.len = values.size := congrArg (fun made => made.1.len) (Except.ok.inj hupload).symm
  have hran := ran_searchOn (κ := κ) haystack needles out rowLen perRow batched right state.engine
  rw [h.config_eq, hlen] at hran
  exact h.onEngine hnumbered howned hran

/-! ### Sessions -/

/-- A new engine. -/
def Made (device : Device) (engine : DeviceEngine) : Prop :=
  ofDevice device = .ok engine ∨ ∃ config, ofConfig device config = .ok engine

/-- A new engine has no buffers. -/
theorem Made.pool_eq {device : Device} {made : DeviceEngine} (h : Made device made) :
    made.pool = { unwritten := device.reserved } := by
  rcases h with h | ⟨config, h⟩
  · obtain ⟨config, -, hmade⟩ := Outcome.bind_eq_ok_iff.mp h
    rw [← Except.ok.inj hmade]
    rfl
  · obtain ⟨_, -, h⟩ := Outcome.bind_eq_ok_iff.mp h
    split at h
    · exact absurd h (Outcome.refuse_ne_ok _ _)
    · rw [← Except.ok.inj h]
      rfl

/-- What an engine can be asked to do on its device. -/
inductive Job : Type 1 where
  /-- Run a program. -/
  | sort {κ : Type} [Element κ] (program : Program) (input : Array κ)
  /-- Place needles into sorted rows. -/
  | search {κ : Type} [Element κ] (sorted values : Array κ) (rowLen perRow : Nat) (batched right : Bool)

/-- Does a job, and forgets its result. -/
def Job.perform : Job → Stateful DeviceEngine Unit
  | @Job.sort _ _ program input => do let _ ← execute program input
  | @Job.search _ _ sorted values rowLen perRow batched right => do
    let _ ← DeviceEngine.search sorted values rowLen perRow batched right

/-- What the records of a job's launches say, under a configuration. -/
def Job.Issues (config : Config) : Job → LaunchRecord → Prop
  | @Job.sort κ _ program _ => SortRecord κ program config
  | @Job.search _ _ _ values _ _ _ _ => SearchRecord config.limits values.size

/-- The engine after a job that returns, whether it has succeeded or has been refused. -/
def Job.after (engine : DeviceEngine) (job : Job) : Outcome DeviceEngine :=
  match job.perform.run engine with
  | (.error (.faulted fault), _) => Outcome.fault fault
  | (_, engine) => .ok engine

/-- What can be done with an engine: its callers reach its pool, too. -/
inductive Event : Type 1 where
  /-- A request to the pool. -/
  | ask (request : Pool.Request)
  /-- A job. -/
  | call (job : Job)

/-- The engine after an event. -/
def Event.after (engine : DeviceEngine) : Event → Outcome DeviceEngine
  | .ask request => .ok { engine with pool := (request.perform.run engine.pool).2 }
  | .call job => job.after engine

/-- The engine after a sequence of events all of which return. -/
def afterAll (events : List Event) (engine : DeviceEngine) : Outcome DeviceEngine := events.foldlM Event.after engine

theorem Job.after_eq_ok_iff {job : Job} {engine' : DeviceEngine} :
    job.after engine = .ok engine' ↔ ¬job.perform.Faults engine ∧ (job.perform.run engine).2 = engine' := by
  rw [after, Stateful.Faults]
  rcases job.perform.run engine with ⟨(error | fault) | result, left⟩
  · exact ⟨fun h => ⟨Outcome.not_faults_refuse error, Except.ok.inj h⟩, fun h => congrArg _ h.2⟩
  · exact ⟨fun h => absurd h (Outcome.fault_ne_ok fault engine'), fun h => absurd (Outcome.faults_fault fault) h.1⟩
  · exact ⟨fun h => ⟨Outcome.not_faults_ok result, Except.ok.inj h⟩, fun h => congrArg _ h.2⟩

/-- What a job leaves. -/
theorem Job.called (job : Job) (hnumbered : engine.pool.Numbered) :
    Called (job.Issues engine.config) (job.perform.Faults engine) engine (job.perform.run engine).2 := by
  cases job with
  | sort program input =>
    rw [perform, Stateful.faults_bind_pure_iff, Stateful.run_bind_pure]
    exact called_execute program input hnumbered
  | search sorted values rowLen perRow batched right =>
    rw [perform, Stateful.faults_bind_pure_iff, Stateful.run_bind_pure]
    exact called_search sorted values rowLen perRow batched right hnumbered

/-- A job that returns leaves the buffers that it found. -/
theorem Job.allocated_after {job : Job} {engine' : DeviceEngine} (hnumbered : engine.pool.Numbered)
    (h : job.after engine = .ok engine') :
    engine'.pool.allocated = engine.pool.allocated ∧ engine.pool.nextNumber ≤ engine'.pool.nextNumber := by
  obtain ⟨hreturns, rfl⟩ := after_eq_ok_iff.mp h
  exact ⟨(job.called hnumbered).allocated_eq hreturns, (job.called hnumbered).nextNumber_le⟩

/-- After an event the numbers of the buffers have been handed out, and the configuration is the same. -/
theorem Event.kept_after {event : Event} {engine' : DeviceEngine} (hnumbered : engine.pool.Numbered)
    (h : event.after engine = .ok engine') : engine'.pool.Numbered ∧ engine'.config = engine.config := by
  cases event with
  | ask request =>
    rw [← Except.ok.inj h]
    exact ⟨hnumbered.perform request, rfl⟩
  | call job =>
    obtain ⟨hallocated, hnext⟩ := Job.allocated_after hnumbered h
    obtain ⟨-, rfl⟩ := Job.after_eq_ok_iff.mp h
    refine ⟨?_, (job.called hnumbered).config_eq⟩
    rw [Pool.Numbered, hallocated]
    exact fun entry hentry => Nat.lt_of_lt_of_le (hnumbered entry hentry) hnext

/-- This holds after a sequence of events. -/
theorem kept_afterAll {events : List Event} {engine' : DeviceEngine} (hnumbered : engine.pool.Numbered)
    (h : afterAll events engine = .ok engine') : engine'.pool.Numbered ∧ engine'.config = engine.config := by
  induction events generalizing engine with
  | nil =>
    rw [← Except.ok.inj h]
    exact ⟨hnumbered, rfl⟩
  | cons event events ih =>
    rw [afterAll, List.foldlM_cons] at h
    obtain ⟨next, hevent, hrest⟩ := Outcome.bind_eq_ok_iff.mp h
    obtain ⟨hnext, hconfig⟩ := event.kept_after hnumbered hevent
    exact ⟨(ih hnext hrest).1, (ih hnext hrest).2.trans hconfig⟩

/-- A new engine has no buffers without numbers. -/
theorem Made.numbered {device : Device} {made : DeviceEngine} (h : Made device made) : made.pool.Numbered := by
  rw [h.pool_eq]
  exact fun _ hentry => absurd hentry List.not_mem_nil

/-- Jobs that return leave the buffers that they found. -/
theorem allocated_afterAll {jobs : List Job} {engine' : DeviceEngine} (hnumbered : engine.pool.Numbered)
    (h : afterAll (jobs.map .call) engine = .ok engine') : engine'.pool.allocated = engine.pool.allocated := by
  induction jobs generalizing engine with
  | nil => rw [← Except.ok.inj h]
  | cons job jobs ih =>
    rw [afterAll, List.map_cons, List.foldlM_cons] at h
    obtain ⟨next, hjob, hrest⟩ := Outcome.bind_eq_ok_iff.mp h
    have hnext := (Event.kept_after hnumbered (show Event.after engine (.call job) = _ from hjob)).1
    rw [ih hnext hrest, (Job.allocated_after hnumbered hjob).1]

/-- No buffer leaks. Whatever has been done with a new engine and its pool, jobs that return, with any programs, inputs
and plans, whether they succeed or are refused, leave the buffers as they were: the same are live, each is found by its
name, and it holds what it held. -/
theorem allocated_after_jobs {device : Device} {made engine engine' : DeviceEngine} {events : List Event}
    {jobs : List Job} (hmade : Made device made) (hevents : afterAll events made = .ok engine)
    (hjobs : afterAll (jobs.map .call) engine = .ok engine') :
    engine'.pool.allocated = engine.pool.allocated ∧ ∀ name, engine'.pool.contents name = engine.pool.contents name := by
  have hallocated := allocated_afterAll (kept_afterAll hmade.numbered hevents).1 hjobs
  exact ⟨hallocated, fun name => by rw [Pool.contents, Pool.contents, hallocated]⟩

/-- A caller keeps its three bytes while a search succeeds, a search is refused when it has allocated its buffers, for its
rows are longer than a word says, and a program is refused for an input of another length. -/
theorem allocated_after_search_and_refusals :
    ∃ made engine engine' : DeviceEngine, Made {} made ∧
      afterAll [.ask (.upload (#[7, 8, 9] : Array UInt8))] made = .ok engine ∧
      afterAll ([.search (#[1, 3, 5] : Array UInt8) #[3] 3 1 false true,
        .search (#[1] : Array UInt8) #[0] 4294967296 1 false false,
        .sort ⟨.ofRows 1 2, .ascending, false, []⟩ (#[4] : Array UInt8)].map .call) engine = .ok engine' ∧
      engine.pool.allocated = [(⟨0, 3, 1⟩, #[7, 8, 9])] ∧
      engine'.pool.allocated = engine.pool.allocated ∧
      ∀ name, engine'.pool.contents name = engine.pool.contents name := by
  have hmade : Made {} (Device.engine {} {}) := .inl rfl
  have hbuffers : (do return (← afterAll [.ask (.upload (#[7, 8, 9] : Array UInt8))] (Device.engine {} {})).pool.allocated :
      Outcome _) = .ok [(⟨0, 3, 1⟩, #[7, 8, 9])] := by decide +kernel
  have hreturns : (do
      let engine ← afterAll [.ask (.upload (#[7, 8, 9] : Array UInt8))] (Device.engine {} {})
      let engine' ← afterAll ([.search (#[1, 3, 5] : Array UInt8) #[3] 3 1 false true,
        .search (#[1] : Array UInt8) #[0] 4294967296 1 false false,
        .sort ⟨.ofRows 1 2, .ascending, false, []⟩ (#[4] : Array UInt8)].map .call) engine
      return engine'.log.length : Outcome Nat) = .ok 1 := by decide +kernel
  obtain ⟨engine, hevents, hallocated⟩ := Outcome.bind_eq_ok_iff.mp hbuffers
  rw [hevents, Outcome.ok_bind] at hreturns
  obtain ⟨engine', hjobs, -⟩ := Outcome.bind_eq_ok_iff.mp hreturns
  exact ⟨_, engine, engine', hmade, hevents, hjobs, Except.ok.inj hallocated, allocated_after_jobs hmade hevents hjobs⟩

end DeviceEngine

end MergePathSort
