import MergePathSort.Proofs.Device.Calls
import MergePathSort.Proofs.Device.Launches
import MergePathSort.Proofs.Key.Bytes

/-!
# The buffers of a call

A pool is what its names lead to. A new buffer has a number that no other name of the call has, so it leaves the others
alone, and so do replacing and freeing a buffer. The buffers of a sort are five: the input, and keys and indices on
both sides. All that is known of a buffer that has only been reserved is its size.

## Main definitions

* `Pool.bytes?` : what a name leads to.
* `Pool.reserved` : a new buffer in which nothing has been stored.
* `Pool.HasRoomFor` : a name that leads to a buffer of some size, whatever stands in it.

## Main results

* `Pool.bytes?_insert`, `Pool.bytes?_overwrite`, `Pool.free_eq_ok_iff` : new, replaced and freed buffers.
* `DeviceEngine.run_freeBuffers` : the buffers of a call are given back.
-/

namespace MergePathSort

/-! ### Names -/

namespace Pool

variable {pool : Pool} {name : BufferName} {bytes : Array UInt8}

/-- The bytes that a name leads to. -/
def bytes? (pool : Pool) (name : BufferName) : Option (Array UInt8) :=
  (pool.allocated.find? (·.1 == name)).map (·.2)

theorem contents_eq_ok_iff : pool.contents name = .ok bytes ↔ pool.bytes? name = some bytes := by
  rw [contents, bytes?]
  cases pool.allocated.find? (·.1 == name) with
  | none => simp
  | some entry => simp

/-- What a name leads to in a list of buffers that starts with another one. -/
theorem find?_cons_eq (entry : BufferName × Array UInt8) (allocated : List (BufferName × Array UInt8))
    (name : BufferName) :
    ((entry :: allocated).find? (·.1 == name)).map (·.2) =
      if entry.1 = name then some entry.2 else (allocated.find? (·.1 == name)).map (·.2) := by
  by_cases h : entry.1 = name
  · rw [List.find?_cons_of_pos (by simp [h]), if_pos h]
    rfl
  · rw [List.find?_cons_of_neg (by simp [h]), if_neg h]

/-- What names lead to when there is a new buffer. -/
theorem bytes?_insert (pool : Pool) (len width : Nat) (bytes : Array UInt8) (name : BufferName) :
    (pool.insert len width bytes).2.bytes? name =
      if (⟨pool.nextNumber, len, width⟩ : BufferName) = name then some bytes else pool.bytes? name :=
  find?_cons_eq _ _ _

/-- What names lead to when a buffer is replaced. -/
theorem bytes?_overwrite (h : pool.bytes? name = some bytes) (new : Array UInt8) (other : BufferName) :
    (pool.overwrite name new).bytes? other = if name = other then some new else pool.bytes? other := by
  obtain ⟨nextNumber, allocated, unwritten⟩ := pool
  simp only [bytes?, overwrite] at h ⊢
  by_cases hother : name = other
  · subst hother
    rw [if_pos rfl]
    induction allocated with
    | nil => simp at h
    | cons entry allocated ih =>
      rw [find?_cons_eq] at h
      rw [List.map_cons, find?_cons_eq]
      by_cases hname : entry.1 = name
      · rw [if_pos hname, if_pos rfl]
      · rw [if_neg hname] at h ⊢
        rw [if_neg hname]
        exact ih h
  · rw [if_neg hother]
    clear h
    induction allocated with
    | nil => rfl
    | cons entry allocated ih =>
      rw [List.map_cons, find?_cons_eq, find?_cons_eq, ih]
      by_cases hname : entry.1 = name
      · rw [if_pos hname, if_neg hother, if_neg (by rw [hname]; exact hother)]
      · rw [if_neg hname]

/-- A name leads somewhere exactly if there is a buffer of that name. -/
theorem exists_bytes?_iff : (∃ bytes, pool.bytes? name = some bytes) ↔ name ∈ pool.allocated.map Prod.fst := by
  rw [bytes?, ← Option.isSome_iff_exists, Option.isSome_map, List.find?_isSome, List.mem_map]
  simp only [beq_iff_eq]

/-- A buffer can be given back exactly if it is there. -/
theorem free_eq_ok_iff {pool' : Pool} : pool.free name = .ok pool' ↔
    name ∈ pool.allocated.map Prod.fst ∧
      { pool with allocated := pool.allocated.filter (·.1 != name) } = pool' := by
  rw [Pool.free]
  by_cases hany : pool.allocated.any (·.1 == name) = true
  · rw [if_pos hany, Except.ok.injEq]
    obtain ⟨entry, hentry, hname⟩ := List.any_eq_true.mp hany
    exact ⟨fun h => ⟨List.mem_map.mpr ⟨entry, hentry, by simpa using hname⟩, h⟩, And.right⟩
  · rw [if_neg hany]
    refine ⟨fun h => absurd h (Outcome.refuse_ne_ok _ _), fun ⟨hname, _⟩ => absurd ?_ hany⟩
    obtain ⟨entry, hentry, rfl⟩ := List.mem_map.mp hname
    exact List.any_eq_true.mpr ⟨entry, hentry, by simp⟩

end Pool

/-! ### The buffers of a sort -/

/-- The new buffer and the pool when a buffer is reserved. -/
def Pool.reserved (κ : Type) [Element κ] (pool : Pool) (len : Nat) : BufferName × Pool :=
  pool.insert len (Element.width κ) (pool.fresh (room len * Element.width κ))

/-- A name leads to a buffer with room for a number of elements, at least one, whatever stands in it. -/
def Pool.HasRoomFor (κ : Type) [Element κ] (pool : Pool) (name : BufferName) (len : Nat) : Prop :=
  ∃ bytes, pool.bytes? name = some bytes ∧ bytes.size = room len * Element.width κ

@[simp]
theorem Pool.size_fresh (pool : Pool) (bytes : Nat) : (pool.fresh bytes).size = bytes := by
  simp [fresh]

/-- A reserved buffer has room for its elements. -/
theorem Pool.hasRoomFor_reserved {κ : Type} [Element κ] (pool : Pool) (len : Nat) :
    (pool.reserved κ len).2.HasRoomFor κ (pool.reserved κ len).1 len :=
  ⟨_, (bytes?_insert _ _ _ _ _).trans (if_pos rfl), size_fresh _ _⟩

/-- A buffer that is not too large can be reserved. -/
theorem Pool.reserve_eq_ok {κ : Type} [Element κ] [LawfulElement κ] (pool : Pool) {len : Nat}
    (hlen : len < 4294967296) : pool.reserve κ len = .ok (pool.reserved κ len) := by
  have hwidth := LawfulElement.width_le (κ := κ)
  have hbytes : Pool.room len * Element.width κ ≤ 4294967296 * 8 :=
    Nat.mul_le_mul (by simp only [Pool.room]; omega) hwidth
  have hmul : Size.mul (Pool.room len) (Element.width κ) = .ok (Pool.room len * Element.width κ) := by
    have hlimit : 4294967296 * 8 < Size.limit := by decide
    exact Size.mul_of_lt (by omega)
  have hroom : Buffer.requireRoom (Pool.room len * Element.width κ) 1 = .ok () := by
    have hlimit : 4294967296 * 8 < Buffer.byteLimit := by decide
    exact if_pos (by omega)
  rw [reserve, hmul, Outcome.ok_bind, hroom]
  rfl

/-- What a buffer is that has been reserved. -/
theorem Pool.eq_reserved_of_reserve {κ : Type} [Element κ] {pool : Pool} {len : Nat} {made : BufferName × Pool}
    (h : pool.reserve κ len = .ok made) : pool.reserved κ len = made := by
  obtain ⟨bytes, hbytes, h⟩ := Outcome.bind_eq_ok_iff.mp h
  obtain ⟨-, rfl⟩ := Size.mul_eq_ok_iff.mp hbytes
  obtain ⟨_, -, h⟩ := Outcome.bind_eq_ok_iff.mp h
  exact Except.ok.inj h

/-- The buffers of a sort as they are when they have been allocated. -/
structure SortBuffers.Fresh {κ : Type} [Element κ] (buffers : SortBuffers) (pool : Pool) (input : Array κ)
    (total indexLen : Nat) : Prop where
  /-- The names are different. -/
  nodup : buffers.names.Nodup
  /-- The input has its length. -/
  data_len : buffers.data.len = input.size
  /-- The sorted keys have the length of all rows. -/
  keys_len : buffers.keys.front.len = total
  /-- The sorted indices have their length. -/
  indices_len : buffers.indices.front.len = indexLen
  /-- The input is there. -/
  data : pool.bytes? buffers.data = some (Pool.encode input)
  /-- There is room for the keys of the front side. -/
  keysFront : pool.HasRoomFor κ buffers.keys.front total
  /-- There is room for the keys of the back side. -/
  keysBack : pool.HasRoomFor κ buffers.keys.back total
  /-- There is room for the indices of the front side. -/
  indicesFront : pool.HasRoomFor UInt32 buffers.indices.front indexLen
  /-- There is room for the indices of the back side. -/
  indicesBack : pool.HasRoomFor UInt32 buffers.indices.back indexLen

/-- Buffers that are made in a pool one after the other are fresh. -/
theorem SortBuffers.fresh_reserved {κ : Type} [Element κ] (pool : Pool) (input : Array κ) (total indexLen : Nat) :
    let data := pool.insert input.size (Element.width κ) (Pool.encode input)
    let keysFront := data.2.reserved κ total
    let keysBack := keysFront.2.reserved κ total
    let indicesFront := keysBack.2.reserved UInt32 indexLen
    let indicesBack := indicesFront.2.reserved UInt32 indexLen
    Fresh ⟨data.1, ⟨keysFront.1, keysBack.1⟩, ⟨indicesFront.1, indicesBack.1⟩⟩ indicesBack.2 input total indexLen := by
  refine ⟨?_, rfl, rfl, rfl, ?_, ?_, ?_, ?_, ?_⟩
  · simp [names, Pool.reserved, Pool.insert, Nat.add_assoc]
  all_goals
    simp only [Pool.HasRoomFor, Pool.reserved, Pool.bytes?_insert]
    simp [Pool.insert, Nat.add_assoc]

/-- The buffers of a sort can be allocated, and the call owns them. -/
theorem SortBuffers.exists_allocate {κ : Type} [Element κ] [LawfulElement κ] (engine : DeviceEngine) (input : Array κ)
    {total indexLen : Nat} (htotal : total < 4294967296) (hindexLen : indexLen < 4294967296) :
    ∃ buffers pool, (allocate input total indexLen).run ⟨engine, []⟩ =
        (.ok buffers, ⟨{ engine with pool }, buffers.names⟩) ∧ buffers.Fresh pool input total indexLen := by
  have hkeys : ∀ pool : Pool, pool.reserve κ total = .ok ((pool.reserved κ total).1, (pool.reserved κ total).2) :=
    fun pool => pool.reserve_eq_ok htotal
  have hindices : ∀ pool : Pool,
      pool.reserve UInt32 indexLen = .ok ((pool.reserved UInt32 indexLen).1, (pool.reserved UInt32 indexLen).2) :=
    fun pool => pool.reserve_eq_ok hindexLen
  have hdata : ∀ pool : Pool, (.ok (pool.upload input) : Outcome (BufferName × Pool)) =
      .ok ((pool.insert input.size (Element.width κ) (Pool.encode input)).1,
        (pool.insert input.size (Element.width κ) (Pool.encode input)).2) := fun _ => rfl
  rw [allocate, Stateful.run_bind_of_eq_ok (OpenCall.run_track (hdata _)),
    Stateful.run_bind_of_eq_ok (OpenCall.run_track (hkeys _)), Stateful.run_bind_of_eq_ok (OpenCall.run_track (hkeys _)),
    Stateful.run_bind_of_eq_ok (OpenCall.run_track (hindices _)),
    Stateful.run_bind_of_eq_ok (OpenCall.run_track (hindices _))]
  exact ⟨_, _, rfl, fresh_reserved engine.pool input total indexLen⟩

/-- Buffers that are there are given back, and the others stay. -/
theorem DeviceEngine.run_freeBuffers {names : List BufferName} (hnames : names.Nodup) {engine : DeviceEngine}
    (h : ∀ name ∈ names, name ∈ engine.pool.allocated.map Prod.fst) :
    (freeBuffers names).run engine = (.ok (),
      { engine with pool.allocated := engine.pool.allocated.filter (·.1 ∉ names) }) := by
  induction names generalizing engine with
  | nil =>
    have hall : engine.pool.allocated.filter (·.1 ∉ []) = engine.pool.allocated :=
      List.filter_eq_self.mpr fun _ _ => by simp
    rw [hall]
    rfl
  | cons name names ih =>
    obtain ⟨hname, hnodup⟩ := List.nodup_cons.mp hnames
    let freed : Pool := { engine.pool with allocated := engine.pool.allocated.filter (·.1 != name) }
    have hfree : engine.pool.free name = .ok freed := Pool.free_eq_ok_iff.mpr ⟨h name (by simp), rfl⟩
    have hrest : ∀ other ∈ names, other ∈ freed.allocated.map Prod.fst := by
      intro other hother
      obtain ⟨entry, hentry, rfl⟩ := List.mem_map.mp (h other (by simp [hother]))
      have hne : entry.1 ≠ name := fun heq => hname (heq ▸ hother)
      exact List.mem_map.mpr ⟨entry, List.mem_filter.mpr ⟨hentry, by simpa using hne⟩, rfl⟩
    have hfilter : freed.allocated.filter (·.1 ∉ names) = engine.pool.allocated.filter (·.1 ∉ name :: names) := by
      rw [List.filter_filter]
      refine List.filter_congr fun entry _ => ?_
      by_cases hentry : entry.1 = name <;> simp [hentry]
    rw [freeBuffers, List.forM, ← hfilter]
    refine Stateful.run_bind_eq_ok_iff.mpr ⟨⟨⟩, { engine with pool := freed }, ?_, ih hnodup hrest⟩
    rw [Stateful.run_bind_of_eq_ok Stateful.run_get,
      Stateful.run_bind_of_eq_ok (Stateful.run_ofOutcome_of_eq_ok hfree _)]
    rfl

end MergePathSort
