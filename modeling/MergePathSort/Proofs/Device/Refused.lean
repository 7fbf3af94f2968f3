import MergePathSort.Backend.Device
import MergePathSort.Proofs.Backend.Host
import MergePathSort.Proofs.Device.Execution
import MergePathSort.Proofs.Device.Ownership
import MergePathSort.Proofs.Launch.Unrefused

/-!
# Calls on a device that are refused

A call on a device is refused before it issues a launch or not at all. The extents and the input are checked before the
first launch, a launch is never refused, and what follows the last one cannot be: the buffers that are read are the
call's own, and so are those that are given back. Nothing is assumed of the engine that is called, and nothing of the
order of the keys.

## Main definitions

* `OpenCall.Holds` : the buffers that a call owns can be given back.

## Main results

* `DeviceEngine.meets_call` : a call that is refused first.
* `DeviceEngine.meets_execute`, `DeviceEngine.meets_search` : programs and searches.
-/

namespace MergePathSort

variable {κ : Type} [Element κ]

/-! ### Calls -/

namespace OpenCall

variable {α : Type} {state : OpenCall} {R : DeviceEngine → Prop}

/-- The buffers that a call owns are different ones, and they are there. -/
structure Holds (state : OpenCall) : Prop where
  /-- Nothing is owned twice. -/
  nodup : state.owned.Nodup
  /-- The buffers are in the pool. -/
  exists_bytes : ∀ name ∈ state.owned, ∃ bytes, state.engine.pool.bytes? name = some bytes

/-- A call with one more buffer. -/
def inserted (state : OpenCall) (len width : Nat) (bytes : Array UInt8) : OpenCall where
  engine := { state.engine with pool := (state.engine.pool.insert len width bytes).2 }
  owned := state.owned ++ [(state.engine.pool.insert len width bytes).1]

/-- Allocating a buffer inserts it, or nothing changes. -/
theorem meets_track {allocate : Pool → Outcome (BufferName × Pool)} {len width : Nat} {bytes : Array UInt8}
    (h : ∀ made, allocate state.engine.pool = .ok made → state.engine.pool.insert len width bytes = made)
    (hR : R state.engine) :
    Stateful.Meets (R ·.engine) (fun name left => (state.engine.pool.insert len width bytes).1 = name ∧
      state.inserted len width bytes = left) (track allocate) state := by
  refine Stateful.meets_get_bind (Stateful.meets_ofOutcome_bind hR fun made hmade => ?_)
  rw [← h made hmade]
  exact ⟨rfl, rfl⟩

/-- A buffer with given elements is inserted. -/
theorem meets_upload (data : Array κ) (hR : R state.engine) :
    Stateful.Meets (R ·.engine) (fun name left =>
      (state.engine.pool.insert data.size (Element.width κ) (Pool.encode data)).1 = name ∧
        state.inserted data.size (Element.width κ) (Pool.encode data) = left)
      (track fun pool => .ok (pool.upload data)) state :=
  meets_track (fun _ hmade => Except.ok.inj hmade) hR

/-- A buffer is reserved. -/
theorem meets_reserve (κ : Type) [Element κ] (len : Nat) (hR : R state.engine) :
    Stateful.Meets (R ·.engine) (fun name left => (state.engine.pool.reserved κ len).1 = name ∧
        state.inserted len (Element.width κ) (state.engine.pool.fresh (Pool.room len * Element.width κ)) = left)
      (track (Pool.reserve κ · len)) state :=
  meets_track (fun _ hmade => Pool.eq_reserved_of_reserve hmade) hR

/-- A step of the engine inside a call. -/
theorem meets_onEngine {Q : α → DeviceEngine → Prop} {step : Stateful DeviceEngine α}
    (h : Stateful.Meets R Q step state.engine) :
    Stateful.Meets (R ·.engine) (fun a left => Q a left.engine ∧ left.owned = state.owned) (onEngine step) state := by
  rw [Stateful.Meets] at h ⊢
  rcases hrun : step.run state.engine with ⟨(error | fault) | a, engine⟩
  all_goals
    rw [run_onEngine hrun]
    rw [hrun] at h
  · exact h
  · trivial
  · exact ⟨h, rfl⟩

end OpenCall

namespace DeviceEngine

/-- The log of an engine is as it was. -/
def SameLog (engine left : DeviceEngine) : Prop := left.log = engine.log

/-- A call whose body is refused first, and otherwise ends with the buffers that it owns, is refused first. -/
theorem meets_call {α : Type} {Q : α → Prop} {body : Stateful OpenCall α} {engine : DeviceEngine}
    (h : Stateful.Meets (SameLog engine ·.engine) (fun a state => Q a ∧ state.Holds) body ⟨engine, []⟩) :
    Stateful.Meets (SameLog engine) (fun a _ => Q a) (call body) engine := by
  rw [Stateful.Meets] at h
  rcases hrun : body.run ⟨engine, []⟩ with ⟨(error | fault) | a, state⟩
  all_goals rw [hrun] at h
  · -- Nothing was issued before, and nothing is issued when the buffers are given back, whether they are there or not.
    have hcall := run_call_eq_freeBuffers hrun (Outcome.not_faults_refuse error)
    have hfree : Stateful.Leaves (SameLog engine) (freeBuffers state.owned) state.engine :=
      (leaves_freeBuffers state.owned state.engine).trans h
    rw [Stateful.Meets, hcall]
    exact Stateful.meets_bind (Stateful.meets_of_leaves hfree) fun _ left hleft =>
      Stateful.meets_ofOutcome hleft fun a ha => by cases ha
  · rw [Stateful.Meets, run_call_of_faulted hrun]
    trivial
  · obtain ⟨ha, hnodup, hbytes⟩ := h
    have hfree := run_freeBuffers hnodup fun name hname => Pool.exists_bytes?_iff.mp (hbytes name hname)
    rw [Stateful.Meets, run_call_of_eq_ok hrun hfree]
    exact ha

end DeviceEngine

/-! ### Programs -/

/-- The buffers of a sort are allocated, or nothing has been issued. -/
theorem SortBuffers.meets_allocate (input : Array κ) (total indexLen : Nat) (engine : DeviceEngine) :
    Stateful.Meets (engine.SameLog ·.engine)
      (fun buffers state => buffers.Fresh state.engine.pool input total indexLen ∧ state.owned = buffers.names ∧
        engine.SameLog state.engine)
      (allocate input total indexLen) ⟨engine, []⟩ := by
  refine Stateful.meets_bind (OpenCall.meets_upload input rfl) ?_
  rintro _ _ ⟨rfl, rfl⟩
  refine Stateful.meets_bind (OpenCall.meets_reserve κ total rfl) ?_
  rintro _ _ ⟨rfl, rfl⟩
  refine Stateful.meets_bind (OpenCall.meets_reserve κ total rfl) ?_
  rintro _ _ ⟨rfl, rfl⟩
  refine Stateful.meets_bind (OpenCall.meets_reserve UInt32 indexLen rfl) ?_
  rintro _ _ ⟨rfl, rfl⟩
  refine Stateful.meets_bind (OpenCall.meets_reserve UInt32 indexLen rfl) ?_
  rintro _ _ ⟨rfl, rfl⟩
  exact Stateful.meets_pure ⟨fresh_reserved engine.pool input total indexLen, rfl, rfl⟩

namespace DeviceEngine

variable {program : Program} {extents : DeviceExtents} {input : Array κ} {total indexLen : Nat}
  {room : DoubleBuffer (Nat × Option Nat)} {R : DeviceEngine → Prop}

/-- Launches of a program are not refused, and keep the room of the buffers and the pool. -/
theorem meets_issueLaunches (engine : DeviceEngine) {cells : DeviceCells κ} (hcells : HasRoom room cells) :
    Stateful.Meets R (fun cells left => HasRoom room cells ∧ left.pool = engine.pool)
      (issueLaunches program extents input total indexLen cells) engine := by
  refine Stateful.meets_foldlM (fun cells launch left h => ?_) program.launches ⟨hcells, rfl⟩
  have hlaunch := (launch.keeps_kernel program extents left.groupMemory input).ensures_launch launch.grid h.1
  refine Stateful.meets_get_bind ?_
  refine Stateful.meets_ensures_bind hlaunch fun result hresult => ?_
  exact ⟨hresult, h.2⟩

/-- What a device returns: keys, and indices if they are tracked. -/
def ResultHasSize (indexed : Bool) (len : Nat) (result : Array κ × Option (Array UInt32)) : Prop :=
  Cells.room ⟨result.1, result.2⟩ = (len, if indexed then some len else none)

/-- Running a program on fresh buffers is refused before the first launch or not at all. -/
theorem meets_runOn [LawfulElement κ] {buffers : SortBuffers} {engine : DeviceEngine}
    (hfresh : buffers.Fresh engine.pool input total indexLen) (htotal : 0 < total)
    (hindexLen : program.indexed = true → indexLen = total) :
    Stateful.Meets (SameLog engine) (fun result left => ResultHasSize program.indexed total result ∧
        ∀ name ∈ buffers.names, ∃ bytes, left.pool.bytes? name = some bytes)
      (runOn (κ := κ) program buffers total indexLen) engine := by
  obtain ⟨front, hfrontLen, hfront⟩ :=
    SortBuffers.exists_sideCells htotal hindexLen hfresh.keysFront hfresh.indicesFront
  obtain ⟨back, hbackLen, hback⟩ := SortBuffers.exists_sideCells htotal hindexLen hfresh.keysBack hfresh.indicesBack
  have hroom : ∀ side : List (κ × Tag UInt32), side.length = total →
      (Cells.ofTagged program.indexed side).room = (total, if program.indexed then some total else none) := by
    rintro side rfl
    cases program.indexed <;> simp [Cells.ofTagged, Cells.room]
  refine Stateful.meets_get_bind (Stateful.meets_ofOutcome_bind rfl fun data _ => ?_)
  refine Stateful.meets_ofOutcome_bind rfl fun cells hcells => ?_
  obtain rfl := Except.ok.inj (hfront.symm.trans hcells)
  refine Stateful.meets_ofOutcome_bind rfl fun cells hcells => ?_
  obtain rfl := Except.ok.inj (hback.symm.trans hcells)
  refine Stateful.meets_ofOutcome_bind rfl fun extents _ => ?_
  -- From here on nothing is refused.
  have hcells : HasRoom (.both (total, if program.indexed then some total else none))
      (⟨Cells.ofTagged program.indexed front, Cells.ofTagged program.indexed back⟩ : DeviceCells κ) :=
    congrArg₂ DoubleBuffer.mk (hroom front hfrontLen) (hroom back hbackLen)
  refine Stateful.meets_bind (meets_issueLaunches engine hcells) fun cells launched h => ?_
  have hside := congrArg DoubleBuffer.front h.1
  have hstore := hfresh.bytes?_store cells rfl
  rw [← h.2] at hstore
  refine Stateful.meets_modify_bind (Stateful.meets_get_bind ?_)
  obtain ⟨hkeysStored, hindicesStored, hlive⟩ := hstore
  have hkeysSize : cells.front.keys.size = total := congrArg Prod.fst hside
  have hindicesSize : cells.front.indices.map Array.size = if program.indexed then some total else none :=
    congrArg Prod.snd hside
  refine Stateful.meets_ensures_bind (Q := (· = cells.front.keys)) ?_ fun keys hkeys => ?_
  · rw [Pool.read_eq_ok hkeysStored (hfresh.keys_len.trans hkeysSize.symm)]
    rfl
  subst hkeys
  cases hindexed : program.indexed with
  | false => exact ⟨Prod.ext hkeysSize rfl, hlive⟩
  | true =>
    rw [hindexed, if_pos rfl] at hindicesSize
    obtain ⟨words, hwords, hwordsSize⟩ := Option.map_eq_some_iff.mp hindicesSize
    refine Stateful.meets_ensures_bind (Q := (· = words)) ?_ fun found hfound => ?_
    · rw [Pool.read_eq_ok (hindicesStored words hwords)
        ((hfresh.indices_len.trans (hindexLen hindexed)).trans hwordsSize.symm)]
      rfl
    subst hfound
    exact ⟨Prod.ext hkeysSize (congrArg some hwordsSize), hlive⟩

/-- Running a program on keys is refused before the first launch or not at all. -/
theorem meets_execute [LawfulElement κ] (hlaunches : program.isEmpty = false) (hinput : input.size ≠ 0)
    (engine : DeviceEngine) :
    Stateful.Meets (SameLog engine) (fun result _ => ResultHasSize program.indexed input.size result)
      (execute program input) engine := by
  refine meets_call (Stateful.meets_ofOutcome_bind rfl fun total _ => ?_)
  split
  · exact Stateful.meets_ofOutcome rfl fun _ ha => nomatch ha
  · rename_i hsize
    obtain rfl : input.size = total := by simpa using hsize
    simp only [hlaunches, Bool.false_eq_true, if_false]
    refine Stateful.meets_get_bind (Stateful.meets_ofOutcome_bind rfl fun _ _ => ?_)
    refine Stateful.meets_bind (SortBuffers.meets_allocate input _ _ engine) fun buffers state h => ?_
    obtain ⟨hfresh, howned, hlog⟩ := h
    have hrun := meets_runOn hfresh (Nat.pos_of_ne_zero hinput) fun hindexed : program.indexed = true => if_pos hindexed
    refine (OpenCall.meets_onEngine hrun).mono (fun left hleft => hleft.trans hlog) ?_
    rintro result left ⟨⟨hresult, hlive⟩, howned'⟩
    rw [howned] at howned'
    exact ⟨hresult, howned' ▸ hfresh.nodup, howned' ▸ hlive⟩

/-! ### Searches -/

/-- Searching with fresh buffers is refused before the launch or not at all. -/
theorem meets_searchOn {haystack needles out : BufferName} {engine : DeviceEngine} (rowLen perRow : Nat)
    (batched right : Bool) (hout : engine.pool.HasRoomFor UInt32 out out.len) :
    Stateful.Meets (SameLog engine) (fun found left => found.size = out.len ∧
        ∀ name, (∃ bytes, engine.pool.bytes? name = some bytes) → ∃ bytes, left.pool.bytes? name = some bytes)
      (searchOn κ haystack needles out rowLen perRow batched right) engine := by
  refine Stateful.meets_get_bind (Stateful.meets_ofOutcome_bind rfl fun sorted _ => ?_)
  refine Stateful.meets_ofOutcome_bind rfl fun values _ => Stateful.meets_ofOutcome_bind rfl fun places hplaces => ?_
  obtain ⟨found, hfound, hplacesSize⟩ := hout.exists_read
  obtain rfl := Except.ok.inj (hfound.symm.trans hplaces)
  obtain ⟨_, hbytes, -⟩ := hout
  refine Stateful.meets_ofOutcome_bind rfl fun grid _ => Stateful.meets_ofOutcome_bind rfl fun range _ => ?_
  refine Stateful.meets_ofOutcome_bind rfl fun perRow _ => Stateful.meets_ofOutcome_bind rfl fun total _ => ?_
  -- From here on nothing is refused.
  refine Stateful.meets_ensures_bind (ensures_launchSearch sorted values right batched range perRow total grid found)
    fun places hplaces' => Stateful.meets_set_bind (Stateful.meets_get_bind ?_)
  have hsize : places.size = out.len := hplaces'.trans hplacesSize
  have hstored := Pool.bytes?_overwrite hbytes (Pool.encode places)
  refine Stateful.meets_ofOutcome_of_ensures ?_
  rw [Pool.read_eq_ok ((hstored out).trans (if_pos rfl)) hsize.symm]
  refine ⟨hsize, fun name hname => ?_⟩
  simp only [hstored]
  split
  · exact ⟨_, rfl⟩
  · exact hname

/-- Placing needles is refused before the launch or not at all. -/
theorem meets_search (sorted values : Array κ) (rowLen perRow : Nat) (batched right : Bool) (engine : DeviceEngine) :
    Stateful.Meets (SameLog engine) (fun found _ => found.size = values.size)
      (search sorted values rowLen perRow batched right) engine := by
  rw [search]
  split
  · rename_i hvalues
    exact Stateful.meets_pure (Array.isEmpty_iff_size_eq_zero.mp hvalues).symm
  split
  · exact Stateful.meets_pure Array.size_replicate
  refine meets_call (Stateful.meets_bind (OpenCall.meets_upload sorted rfl) ?_)
  rintro _ _ ⟨rfl, rfl⟩
  refine Stateful.meets_bind (OpenCall.meets_upload values rfl) ?_
  rintro _ _ ⟨rfl, rfl⟩
  refine Stateful.meets_bind (OpenCall.meets_reserve UInt32 values.size rfl) ?_
  rintro _ _ ⟨rfl, rfl⟩
  refine (OpenCall.meets_onEngine (meets_searchOn rowLen _ batched right
    (Pool.hasRoomFor_reserved _ values.size))).mono (fun left hleft => hleft) ?_
  rintro found left ⟨⟨hfound, hlive⟩, howned⟩
  refine ⟨hfound, howned ▸ ?_, howned ▸ fun name hname => hlive name ?_⟩
  · simp [OpenCall.inserted, Pool.insert, Nat.add_assoc]
  · simp only [OpenCall.inserted, List.nil_append, List.cons_append, List.mem_cons, List.not_mem_nil, or_false] at hname
    obtain rfl | rfl | rfl := hname
    all_goals
      simp only [OpenCall.inserted, Pool.bytes?_insert]
      simp [Pool.insert, Nat.add_assoc]

/-! ### The backend -/

/-- Sorting rows on a device is refused before the first launch or not at all. -/
theorem meets_runRows [LawfulElement κ] (hinput : input.size ≠ 0) (axisLen : Nat) (direction : Direction)
    (indexed : Bool) (engine : DeviceEngine) :
    Stateful.Meets (SameLog engine) (fun result _ => ResultHasSize indexed input.size result)
      (runRows input axisLen direction indexed) engine := by
  refine Stateful.meets_ofOutcome_bind rfl fun shape hshape => Stateful.meets_get_bind ?_
  refine Stateful.meets_ofOutcome_bind rfl fun program hlower => ?_
  obtain ⟨hpos, hlen, rfl⟩ := splitRows_eq_ok_iff.mp hshape
  obtain ⟨hview, -, rfl⟩ := Program.eq_of_lower_rows hlower
  obtain ⟨copy, tiles, passes, shapes, hsorts⟩ := Program.exists_sorts_of_lower_rows hlower (by rwa [hlen])
  refine meets_execute ?_ hinput engine
  rw [Program.isEmpty, hsorts.launches_eq]
  rfl

end DeviceEngine

end MergePathSort
