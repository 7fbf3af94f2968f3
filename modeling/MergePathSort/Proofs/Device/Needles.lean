import MergePathSort.Backend.Device
import MergePathSort.Backend.Host
import MergePathSort.Proofs.Device.Execution
import MergePathSort.Proofs.Device.Search
import MergePathSort.Proofs.Plan.Acceptance
import MergePathSort.Proofs.Search.Matching

/-!
# Needles on a device

A thread of the search kernel halves the row of its needle in words. If the keys that stand in front of the needle are at
the front of the row, it stops behind the last of them, as a host does that looks at one key after the other. There are
more threads than needles, and the numbers of the last ones can wrap around to needles that have been placed before; these
are placed again, and where they were. So a device and a host place all needles alike.

## Main definitions

* `DeviceEngine.PlacedBefore` : places of which the first are known.
* `SearchBuffers`, `SearchBuffers.Fresh` : the buffers of a search.

## Main results

* `halve_eq_length_takeWhile` : halving a partitioned row.
* `DeviceEngine.searchRow_eq_ok` : the search of a thread.
* `DeviceEngine.launchSearch_eq_ok` : the launch.
* `DeviceEngine.exists_search_eq_call`, `DeviceEngine.exists_run_searchOn` : the buffers of a search, and its launch.
* `DeviceEngine.exists_searchOn` : the search with its buffers.
* `DeviceEngine.exists_search_eq_host` : a device and a host place needles alike.
-/

namespace MergePathSort

/-! ### Halving -/

/-- Halving a partitioned row ends behind all elements that are asked for. -/
theorem halve_eq_length_takeWhile {α : Type} {p : α → Bool} {row : List α} (h : PartitionedBy p row) :
    halve (fun mid => row[mid]?.any p) 0 row.length = (row.takeWhile p).length := by
  obtain ⟨⟨-, hle⟩, hbefore, hbehind⟩ := halve_spec (fun mid => row[mid]?.any p) (Nat.zero_le row.length)
  generalize halve (fun mid => row[mid]?.any p) 0 row.length = place at hle hbefore hbehind ⊢
  have hfront : ∀ x ∈ row.take place, p x = true := by
    intro x hx
    obtain ⟨i, hi, rfl⟩ := List.getElem_of_mem hx
    rw [List.length_take] at hi
    have hlast : p row[place - 1] = true := by
      have hany := hbefore (by omega)
      rwa [List.getElem?_eq_getElem (by omega), Option.any_some] at hany
    rw [List.getElem_take]
    rcases Nat.lt_or_ge i (place - 1) with hlt | hge
    · exact List.pairwise_iff_getElem.mp h i (place - 1) (by omega) (by omega) hlt hlast
    · obtain rfl : i = place - 1 := by omega
      exact hlast
  have hrest : (row.drop place).takeWhile p = [] := by
    rcases Nat.lt_or_ge place row.length with hlt | hge
    · have hnot := hbehind hlt
      rw [List.getElem?_eq_getElem hlt, Option.any_some] at hnot
      rw [List.drop_eq_getElem_cons hlt, List.takeWhile_cons_of_neg (by rw [hnot]; exact Bool.false_ne_true)]
    · rw [List.drop_of_length_le hge, List.takeWhile_nil]
  calc place = (row.take place).length := by rw [List.length_take, Nat.min_eq_left hle]
    _ = ((row.take place ++ row.drop place).takeWhile p).length := by
      rw [List.takeWhile_append_of_pos hfront, hrest, List.append_nil]
    _ = (row.takeWhile p).length := by rw [List.take_append_drop]

namespace DeviceEngine

variable {κ : Type} [Element κ]

/-! ### Threads -/

/-- The search of a thread ends where a host places the needle. -/
theorem searchRow_eq_ok {haystack : Array κ} {right : Bool} {needle : κ} {rowLen number : Nat}
    (hinside : number * rowLen + rowLen ≤ haystack.size) (hkeys : haystack.size ≤ 2147483648)
    (hrow : PartitionedBy (standsBefore right · needle) (chunk rowLen haystack.toList number)) :
    searchRow haystack right (UInt32.ofNat (number * rowLen)) (UInt32.ofNat rowLen) needle =
      .ok (UInt32.ofNat (insertionPoint right (chunk rowLen haystack.toList number).toArray needle)) := by
  have hlen : (chunk rowLen haystack.toList number).length = rowLen := by
    rw [length_chunk, Array.length_toList]
    omega
  have hplace : insertionPoint right (chunk rowLen haystack.toList number).toArray needle =
      halve (fun mid => (chunk rowLen haystack.toList number)[mid]?.any (standsBefore right · needle)) 0 rowLen := by
    rw [insertionPoint, ← halve_eq_length_takeWhile hrow, hlen]
  rw [searchRow, hplace]
  refine Window.search_eq_ok (Nat.zero_le _) (by omega) fun mid _ hmid => ?_
  have haddress : (UInt32.ofNat (number * rowLen) + UInt32.ofNat mid).toNat = number * rowLen + mid := by
    rw [← UInt32.ofNat_add]
    exact UInt32.toNat_ofNat_of_lt' (show number * rowLen + mid < 4294967296 by omega)
  have hread : haystack[number * rowLen + mid]? = some haystack[number * rowLen + mid] :=
    Array.getElem?_eq_getElem (by omega)
  rw [haddress, Buffer.read_eq_ok_iff.mpr hread, Outcome.ok_bind, getElem?_chunk hmid, Array.getElem?_toList, hread]
  rfl

/-! ### Launches -/

/-- The first `count` places are those of the needles, and there are as many as needles. -/
structure PlacedBefore (places : Array UInt32) (count : Nat) (state : Array UInt32) : Prop where
  /-- There is a place for every needle. -/
  size_eq : state.size = places.size
  /-- The first places. -/
  getElem?_eq : ∀ n < count, state[n]? = places[n]?

section Launch

variable {haystack needles : Array κ} {right batched : Bool} {range perRow : UInt32} {places state : Array UInt32}
  (hsize : places.size = needles.size) (hcount : needles.size < 4294967296)
  (hplaced : ∀ (n : Nat) (hn : n < needles.size) (hn' : n < places.size),
    searchRow haystack right (if batched then UInt32.ofNat n / perRow * range else 0) range needles[n] = .ok places[n])
include hsize hcount hplaced

/-- A thread places the needle of its number. A number that has wrapped around is one of a needle that has been placed,
and that stays where it was. -/
theorem exists_searchThread {count : Nat} (h : PlacedBefore places count state) {threads thread : UInt32}
    {group : Workgroup} (hnumber : group.position threads thread = UInt32.ofNat count) :
    ∃ state', searchThread haystack needles right batched range perRow (UInt32.ofNat needles.size) threads group thread
        state = .ok state' ∧ PlacedBefore places (count + 1) state' := by
  have htotal : (UInt32.ofNat needles.size).toNat = needles.size := UInt32.toNat_ofNat_of_lt' hcount
  have hmod : (UInt32.ofNat count).toNat = count % 4294967296 := UInt32.toNat_ofNat
  obtain ⟨hlen, hbefore⟩ := h
  rw [searchThread, hnumber]
  by_cases hinside : UInt32.ofNat count < UInt32.ofNat needles.size
  · rw [if_pos hinside]
    rw [UInt32.lt_iff_toNat_lt, htotal] at hinside
    have hneedle := Array.getElem?_eq_getElem hinside
    have hword : UInt32.ofNat (UInt32.ofNat count).toNat = UInt32.ofNat count := UInt32.ofNat_toNat
    have hrow := hplaced _ hinside (by omega)
    rw [hword] at hrow
    rw [Buffer.read_eq_ok_iff.mpr hneedle, Outcome.ok_bind, hrow, Outcome.ok_bind, Buffer.write, dif_pos (by omega)]
    refine ⟨_, rfl, by rw [Array.size_set, hlen], fun n hn => ?_⟩
    rw [Array.getElem?_set]
    split
    · rename_i heq
      subst heq
      exact (Array.getElem?_eq_getElem (by omega)).symm
    · rcases Nat.lt_or_ge n count with hlt | hge
      · exact hbefore n hlt
      · -- The number has wrapped around, so there is no needle of number `count`.
        rw [Array.getElem?_eq_none (by omega), Array.getElem?_eq_none (by omega)]
  · rw [if_neg hinside]
    rw [UInt32.lt_iff_toNat_lt, htotal, hmod] at hinside
    refine ⟨state, rfl, hlen, fun n hn => ?_⟩
    rcases Nat.lt_or_ge n count with hlt | hge
    · exact hbefore n hlt
    · have hle := Nat.mod_le count 4294967296
      rw [Array.getElem?_eq_none (by omega), Array.getElem?_eq_none (by omega)]

/-- A launch with a thread for every needle places all of them. -/
theorem launchSearch_eq_ok {limits : Limits} {grid : Grid} (hgrid : Grid.perElement needles.size 1 limits = .ok grid)
    (hstate : state.size = needles.size) :
    launchSearch haystack needles right batched range perRow (UInt32.ofNat needles.size) grid state = .ok places := by
  obtain ⟨-, -, hblocks, hrows⟩ := Grid.perElement_eq_ok hgrid
  have hcover := (Size.divCeil_eq_ok hblocks).2.1
  have hone : grid.layeredRows = 1 := by
    have hrow : grid.rows = 1 := UInt32.toNat_inj.mp hrows
    rw [Grid.layeredRows, Grid.layers, hrow]
    rfl
  have hgroup : ∀ x < grid.blocksPerRow.toNat, ∀ state, PlacedBefore places (x * grid.lanes.toNat) state →
      ∃ state', forLanes grid.lanes.toNat (fun n => searchThread haystack needles right batched range perRow
          (UInt32.ofNat needles.size) grid.lanes ⟨UInt32.ofNat x, UInt32.ofNat 0⟩ (UInt32.ofNat n)) state = .ok state' ∧
        PlacedBefore places ((x + 1) * grid.lanes.toNat) state' := by
    intro x _ state hstate
    rw [forLanes_eq_foldlM, Nat.succ_mul]
    exact Outcome.exists_foldlM_range (P := fun n state => PlacedBefore places (x * grid.lanes.toNat + n) state) hstate
      fun n _ state hstate => exists_searchThread hsize hcount hplaced hstate (Workgroup.position_eq _ _ x n)
  have hstart : PlacedBefore places (0 * grid.lanes.toNat) state :=
    ⟨hstate.trans hsize.symm, fun n hn => by omega⟩
  obtain ⟨state', hfold, hlen, hall⟩ := Outcome.exists_foldlM_range
    (P := fun x state => PlacedBefore places (x * grid.lanes.toNat) state) hstart hgroup
  have hplaces : state' = places := by
    refine Array.ext_getElem? fun n => ?_
    rcases Nat.lt_or_ge n (grid.blocksPerRow.toNat * grid.lanes.toNat) with hlt | hge
    · exact hall n hlt
    · rw [Array.getElem?_eq_none (by omega), Array.getElem?_eq_none (by omega)]
  rw [launchSearch, Workgroup.all_eq, hone, Outcome.foldlM_flatMap_range, List.range_one, List.foldlM_cons,
    List.foldlM_map, hfold, hplaces]
  rfl

end Launch

end DeviceEngine

/-! ### Buffers -/

/-- The buffers of a search. -/
structure SearchBuffers where
  /-- The haystack. -/
  haystack : BufferName
  /-- The needles. -/
  needles : BufferName
  /-- The places. -/
  places : BufferName

namespace SearchBuffers

variable {κ : Type} [Element κ] {haystack needles : Array κ}

/-- The buffers' names, in the order in which they are allocated. -/
def names (buffers : SearchBuffers) : List BufferName := [buffers.haystack, buffers.needles, buffers.places]

/-- The buffers of a search as they are when they have been allocated. -/
structure Fresh (buffers : SearchBuffers) (pool : Pool) (haystack needles : Array κ) : Prop where
  /-- The names are different. -/
  nodup : buffers.names.Nodup
  /-- The haystack has its length. -/
  haystack_len : buffers.haystack.len = haystack.size
  /-- There is a buffer with the length of the needles. -/
  needles_len : buffers.needles.len = needles.size
  /-- There is a place for every needle. -/
  places_len : buffers.places.len = needles.size
  /-- The haystack is there. -/
  haystack_eq : pool.bytes? buffers.haystack = some (Pool.encode haystack)
  /-- The needles are there. -/
  needles_eq : pool.bytes? buffers.needles = some (Pool.encode needles)
  /-- There is room for the places. -/
  places_room : pool.HasRoomFor UInt32 buffers.places needles.size

/-- Buffers that are made in a pool one after the other are fresh. -/
theorem fresh_reserved (pool : Pool) (haystack needles : Array κ) :
    let first := pool.insert haystack.size (Element.width κ) (Pool.encode haystack)
    let second := first.2.insert needles.size (Element.width κ) (Pool.encode needles)
    let third := second.2.reserved UInt32 needles.size
    Fresh ⟨first.1, second.1, third.1⟩ third.2 haystack needles := by
  refine ⟨?_, rfl, rfl, rfl, ?_, ?_, ?_⟩
  · simp [names, Pool.reserved, Pool.insert, Nat.add_assoc]
  all_goals
    simp only [Pool.HasRoomFor, Pool.reserved, Pool.bytes?_insert]
    simp [Pool.insert, Nat.add_assoc]

/-- The buffers of a search can be allocated, and the call owns them. -/
theorem exists_allocate [LawfulElement κ] (engine : DeviceEngine) (haystack : Array κ) {needles : Array κ}
    (hcount : needles.size < 4294967296) :
    ∃ (buffers : SearchBuffers) (pool : Pool), buffers.Fresh pool haystack needles ∧
      ∀ rest : BufferName → BufferName → BufferName → Stateful OpenCall (Array UInt32),
        Stateful.run (do
          let first ← OpenCall.track fun pool => .ok (pool.upload haystack)
          let second ← OpenCall.track fun pool => .ok (pool.upload needles)
          let third ← OpenCall.track (Pool.reserve UInt32 · needles.size)
          rest first second third) ⟨engine, []⟩ =
        (rest buffers.haystack buffers.needles buffers.places).run ⟨{ engine with pool }, buffers.names⟩ := by
  refine ⟨_, _, fresh_reserved engine.pool haystack needles, fun rest => ?_⟩
  rw [Stateful.run_bind_of_eq_ok (OpenCall.run_track rfl), Stateful.run_bind_of_eq_ok (OpenCall.run_track rfl),
    Stateful.run_bind_of_eq_ok (OpenCall.run_track (Pool.reserve_eq_ok _ hcount))]
  rfl

end SearchBuffers

namespace DeviceEngine

variable {κ : Type} [Element κ]

/-- Without needles or without keys in front of which they could stand, a device launches nothing. -/
theorem run_search_of_isEmpty {haystack needles : Array κ} {rowLen : Nat}
    (h : needles.size = 0 ∨ haystack.size = 0 ∨ rowLen = 0) (perRow : Nat)
    (batched right : Bool) (engine : DeviceEngine) :
    (search haystack needles rowLen perRow batched right).run engine = (.ok (Array.replicate needles.size 0), engine) := by
  rw [search]
  split
  · rename_i hnone
    rw [Array.isEmpty_iff_size_eq_zero] at hnone
    rw [hnone]
    rfl
  · rename_i hneedles
    rw [Array.isEmpty_iff_size_eq_zero] at hneedles
    have hkeys : (haystack.isEmpty || rowLen == 0) = true := by
      rw [Bool.or_eq_true, Array.isEmpty_iff_size_eq_zero, beq_iff_eq]
      exact h.resolve_left hneedles
    rw [if_pos hkeys]
    rfl

/-- What a device answers is the words of its search, as numbers. -/
theorem run_backend_search {haystack needles : Array κ} {matching : Matching} {right : Bool} {places : Array UInt32}
    {engine engine' : DeviceEngine}
    (h : (search haystack needles matching.rowLen matching.perRow matching.batched right).run engine =
      (.ok places, engine')) :
    (Backend.search haystack needles matching right : Stateful DeviceEngine _).run engine =
      (.ok (places.map UInt32.toNat), engine') :=
  (Stateful.run_bind_of_eq_ok h _).trans rfl

variable [LawfulElement κ]

/-- A search with needles and keys is a call that allocates its buffers and then searches. -/
theorem exists_search_eq_call {haystack needles : Array κ} {rowLen : Nat} (perRow : Nat) (batched right : Bool)
    (hcount : needles.size < 4294967296) (hpos : 0 < needles.size) (hkeys : haystack.size ≠ 0) (hrow : rowLen ≠ 0)
    (engine : DeviceEngine) :
    ∃ (body : Stateful OpenCall (Array UInt32)) (buffers : SearchBuffers) (pool : Pool),
      search haystack needles rowLen perRow batched right = call body ∧ buffers.Fresh pool haystack needles ∧
        body.run ⟨engine, []⟩ =
          (OpenCall.onEngine (searchOn κ buffers.haystack buffers.needles buffers.places rowLen perRow batched
            right)).run ⟨{ engine with pool }, buffers.names⟩ := by
  have hvalues : needles.isEmpty = false := by
    rw [Array.isEmpty_eq_false_iff, ← Array.size_pos_iff]
    exact hpos
  have hsorted : (haystack.isEmpty || rowLen == 0) = false := by
    have hne : haystack.isEmpty = false := by
      rw [Array.isEmpty_eq_false_iff, ← Array.size_pos_iff]
      omega
    rw [hne, Bool.false_or, beq_eq_false_iff_ne]
    exact hrow
  obtain ⟨buffers, pool, hfresh, hallocate⟩ := SearchBuffers.exists_allocate engine haystack hcount
  have hallocated := hallocate fun haystack needles places =>
    OpenCall.onEngine (searchOn κ haystack needles places rowLen perRow batched right)
  refine ⟨_, buffers, pool, ?_, hfresh, hallocated⟩
  rw [search, hvalues, hsorted]
  rfl

/-- A search with fresh buffers finds its grid and its words, launches the kernel and stores what it leaves. -/
theorem exists_run_searchOn {haystack needles : Array κ} {rowLen perRow : Nat} (right batched : Bool)
    (hcount : needles.size < 4294967296) (hpos : 0 < needles.size) (hrowLen : rowLen < 4294967296)
    (hperRow : max perRow 1 < 4294967296) {engine : DeviceEngine} (hvalid : engine.config.problem? = none)
    {buffers : SearchBuffers} (hfresh : buffers.Fresh engine.pool haystack needles) :
    ∃ (grid : Grid) (state : Array UInt32), Grid.perElement needles.size 1 engine.config.limits = .ok grid ∧
      state.size = needles.size ∧
      (searchOn κ buffers.haystack buffers.needles buffers.places rowLen perRow batched right).run engine =
        Stateful.run (do
          let places ← Stateful.ofOutcome (launchSearch haystack needles right batched (UInt32.ofNat rowLen)
            (UInt32.ofNat (max perRow 1)) (UInt32.ofNat needles.size) grid state)
          let record := LaunchRecord.ofGrid grid
            [UInt32.ofNat rowLen, UInt32.ofNat (max perRow 1), UInt32.ofNat needles.size]
            [buffers.haystack.len, buffers.needles.len, buffers.places.len] 0 0
          set { engine with
                pool := engine.pool.overwrite buffers.places (Pool.encode places)
                log := record :: engine.log }
          Stateful.ofOutcome ((← get).pool.read UInt32 buffers.places)) engine := by
  have hhaystack := Pool.read_eq_ok hfresh.haystack_eq hfresh.haystack_len
  have hneedles := Pool.read_eq_ok hfresh.needles_eq hfresh.needles_len
  obtain ⟨state, hstate, hstateSize⟩ : ∃ state, engine.pool.read UInt32 buffers.places = .ok state ∧
      state.size = needles.size := by
    have hroom := hfresh.places_room
    rw [← hfresh.places_len] at hroom ⊢
    exact hroom.exists_read
  obtain ⟨grid, hgrid⟩ := Grid.exists_perElement hvalid hpos Nat.one_pos hcount (by decide)
  have hgrid' : Grid.perElement buffers.needles.len 1 engine.config.limits = .ok grid := by
    rw [hfresh.needles_len, hgrid]
  have hrange : toWord rowLen .deviceExtent = .ok (UInt32.ofNat rowLen) := if_pos hrowLen
  have hserved : toWord (max perRow 1) .deviceExtent = .ok (UInt32.ofNat (max perRow 1)) := if_pos hperRow
  have htotal : toWord buffers.needles.len .deviceExtent = .ok (UInt32.ofNat needles.size) := by
    rw [hfresh.needles_len]
    exact if_pos hcount
  refine ⟨grid, state, hgrid, hstateSize, ?_⟩
  rw [searchOn, Stateful.run_bind_of_eq_ok Stateful.run_get,
    Stateful.run_bind_of_eq_ok (Stateful.run_ofOutcome_of_eq_ok hhaystack engine),
    Stateful.run_bind_of_eq_ok (Stateful.run_ofOutcome_of_eq_ok hneedles engine),
    Stateful.run_bind_of_eq_ok (Stateful.run_ofOutcome_of_eq_ok hstate engine),
    Stateful.run_bind_of_eq_ok (Stateful.run_ofOutcome_of_eq_ok hgrid' engine),
    Stateful.run_bind_of_eq_ok (Stateful.run_ofOutcome_of_eq_ok hrange engine),
    Stateful.run_bind_of_eq_ok (Stateful.run_ofOutcome_of_eq_ok hserved engine),
    Stateful.run_bind_of_eq_ok (Stateful.run_ofOutcome_of_eq_ok htotal engine)]

section Search

variable {haystack needles : Array κ} {right batched : Bool} {rowLen perRow : Nat} {places : Array UInt32}
  (hsize : places.size = needles.size) (hcount : needles.size < 4294967296) (hpos : 0 < needles.size)
  (hrowLen : rowLen < 4294967296) (hperRow : max perRow 1 < 4294967296)
  (hplaced : ∀ (n : Nat) (hn : n < needles.size) (hn' : n < places.size),
    searchRow haystack right (if batched then UInt32.ofNat n / UInt32.ofNat (max perRow 1) * UInt32.ofNat rowLen else 0)
      (UInt32.ofNat rowLen) needles[n] = .ok places[n])
include hsize hcount hpos hrowLen hperRow hplaced

/-- A search with fresh buffers returns the places, and all of its buffers are there to be freed. -/
theorem exists_searchOn {engine : DeviceEngine} (hvalid : engine.config.problem? = none) {buffers : SearchBuffers}
    (hfresh : buffers.Fresh engine.pool haystack needles) :
    ∃ engine', (searchOn κ buffers.haystack buffers.needles buffers.places rowLen perRow batched right).run engine =
        (.ok places, engine') ∧
      ∀ name ∈ buffers.names, ∃ bytes, engine'.pool.bytes? name = some bytes := by
  obtain ⟨grid, state, hgrid, hstateSize, hsearch⟩ :=
    exists_run_searchOn right batched hcount hpos hrowLen hperRow hvalid hfresh
  have hlaunch := launchSearch_eq_ok hsize hcount hplaced hgrid hstateSize
  obtain ⟨_, hplaces, -⟩ := hfresh.places_room
  have hstored := Pool.bytes?_overwrite hplaces (Pool.encode places)
  have hread : (engine.pool.overwrite buffers.places (Pool.encode places)).read UInt32 buffers.places = .ok places :=
    Pool.read_eq_ok (by rw [hstored, if_pos rfl]) (by rw [hfresh.places_len, hsize])
  rw [hsearch, Stateful.run_bind_of_eq_ok (Stateful.run_ofOutcome_of_eq_ok hlaunch engine)]
  refine ⟨{ engine with
    pool := engine.pool.overwrite buffers.places (Pool.encode places)
    log := LaunchRecord.ofGrid grid [UInt32.ofNat rowLen, UInt32.ofNat (max perRow 1), UInt32.ofNat needles.size]
      [buffers.haystack.len, buffers.needles.len, buffers.places.len] 0 0 :: engine.log }, ?_, ?_⟩
  · refine Stateful.run_bind_eq_ok_iff.mpr ⟨⟨⟩, _, rfl, ?_⟩
    rw [Stateful.run_bind_of_eq_ok Stateful.run_get]
    exact Stateful.run_ofOutcome_of_eq_ok hread _
  · simp only [SearchBuffers.names, List.forall_mem_cons, List.not_mem_nil, false_implies, implies_true, and_true, hstored]
    refine ⟨?_, ?_, ⟨_, if_pos trivial⟩⟩ <;> split
    · exact ⟨_, rfl⟩
    · exact ⟨_, hfresh.haystack_eq⟩
    · exact ⟨_, rfl⟩
    · exact ⟨_, hfresh.needles_eq⟩

/-- A search allocates its buffers, returns the places and gives the buffers back. -/
theorem exists_search {engine : DeviceEngine} (hvalid : engine.config.problem? = none) (hkeys : haystack.size ≠ 0)
    (hrow : rowLen ≠ 0) :
    ∃ engine', (search haystack needles rowLen perRow batched right).run engine = (.ok places, engine') := by
  obtain ⟨body, buffers, pool, hsearch, hfresh, hbody⟩ :=
    exists_search_eq_call perRow batched right hcount hpos hkeys hrow engine
  have hvalid' : ({ engine with pool } : DeviceEngine).config.problem? = none := hvalid
  obtain ⟨engine', hrun, hlive⟩ := exists_searchOn hsize hcount hpos hrowLen hperRow hplaced hvalid' hfresh
  have hfree := run_freeBuffers hfresh.nodup fun name hname => Pool.exists_bytes?_iff.mp (hlive name hname)
  rw [hsearch]
  exact ⟨_, run_call_of_eq_ok (hbody.trans (OpenCall.run_onEngine hrun)) hfree⟩

end Search

/-! ### Devices and hosts -/

section Agreement

variable {sorted values : List Nat} {matching : Matching} {haystack needles : Array κ} {right : Bool}

/-- Where a thread finds the row of its needle, as a word. -/
theorem rowWord_eq (hmatches : matching.Matches sorted values) {needle : Nat} (hneedle : needle < values.prod)
    (hword : needle < 4294967296) (hperRow : max matching.perRow 1 < 4294967296) :
    (if matching.batched then UInt32.ofNat needle / UInt32.ofNat (max matching.perRow 1) * UInt32.ofNat matching.rowLen
      else 0) = UInt32.ofNat (matching.row needle * matching.rowLen) := by
  cases hmatches with
  | whole rowLen values => simp [Matching.row]
  | rows first leading rowLen perRow =>
    have hpos : 0 < perRow := by
      refine Nat.pos_of_ne_zero ?_
      rintro rfl
      simp at hneedle
    have hmax : max perRow 1 = perRow := Nat.max_eq_left hpos
    simp only [Matching.row, if_true, hmax] at hperRow ⊢
    rw [UInt32.ofNat_mul, UInt32.ofNat_div hword hperRow]

/-- A device finds the places of all needles, as words. -/
theorem exists_search_places (hmatches : matching.Matches sorted values) (hhaystack : haystack.size = sorted.prod)
    (hneedles : needles.size = values.prod) (hkeys : haystack.size ≤ 2147483648) (hcount : needles.size < 4294967296)
    (hrows : ∀ (needle : Nat) (value : κ), needles[needle]? = some value →
      PartitionedBy (standsBefore right · value) (chunk matching.rowLen haystack.toList (matching.row needle)))
    {engine : DeviceEngine} (hvalid : engine.config.problem? = none) :
    ∃ (words : Array UInt32) (engine' : DeviceEngine),
      (search haystack needles matching.rowLen matching.perRow matching.batched right).run engine =
        (.ok words, engine') ∧ words.map UInt32.toNat = matching.places haystack needles right := by
  by_cases hnone : needles.size = 0 ∨ haystack.size = 0 ∨ matching.rowLen = 0
  · refine ⟨_, engine, run_search_of_isEmpty hnone _ _ _ engine, ?_⟩
    rw [Matching.places_of_isEmpty hnone, Array.map_replicate]
    rfl
  obtain ⟨hpos, hsome, hrowLen⟩ : needles.size ≠ 0 ∧ haystack.size ≠ 0 ∧ matching.rowLen ≠ 0 := by
    simpa only [not_or] using hnone
  have hfirst := hmatches.row_inside (show 0 < values.prod by omega)
  have hperRow : max matching.perRow 1 < 4294967296 := by
    have hle := hmatches.perRow_le (by omega : values.prod ≠ 0)
    omega
  obtain ⟨words, hwords⟩ : ∃ words, words = (matching.places haystack needles right).map UInt32.ofNat := ⟨_, rfl⟩
  have hsize : words.size = needles.size := by rw [hwords, Array.size_map, Matching.size_places]
  have hplaced : ∀ (n : Nat) (hn : n < needles.size) (hn' : n < words.size), searchRow haystack right
      (if matching.batched then UInt32.ofNat n / UInt32.ofNat (max matching.perRow 1) * UInt32.ofNat matching.rowLen
        else 0) (UInt32.ofNat matching.rowLen) needles[n] = .ok words[n] := by
    intro n hn hn'
    have hneedle := Array.getElem?_eq_getElem hn
    have hword : words[n] = UInt32.ofNat (insertionPoint right
        (chunk matching.rowLen haystack.toList (matching.row n)).toArray needles[n]) := by
      rw [Array.getElem_eq_iff, hwords, Array.getElem?_map, Matching.getElem?_places hneedle, Option.map_some]
    have hinside := hmatches.row_inside (show n < values.prod by omega)
    rw [rowWord_eq hmatches (by omega) (by omega) hperRow, hword]
    exact searchRow_eq_ok (by omega) hkeys (hrows n _ hneedle)
  obtain ⟨engine', hrun⟩ := exists_search hsize hcount (by omega) (by omega) hperRow hplaced hvalid hsome hrowLen
  refine ⟨words, engine', hrun, ?_⟩
  have hexact : ∀ place ∈ matching.places haystack needles right, (UInt32.toNat ∘ UInt32.ofNat) place = id place := by
    intro place hplace
    have hle := (Matching.le_of_mem_places hplace).2
    exact UInt32.toNat_ofNat_of_lt' (show place < 4294967296 by omega)
  rw [hwords, Array.map_map, Array.map_congr_left hexact, Array.map_id]

/-- **A device and a host place needles alike**, whatever the shapes, as long as every row is partitioned by its needles:
the place of a needle is the number of keys in front of it, and no needle, no key or an empty row are no exception. -/
theorem exists_search_eq_host (hplan : Matching.ofShapes sorted values = .ok matching)
    (hhaystack : haystack.size = sorted.prod) (hneedles : needles.size = values.prod)
    (hkeys : haystack.size ≤ 2147483648) (hcount : needles.size < 4294967296)
    (hrows : ∀ (needle : Nat) (value : κ), needles[needle]? = some value →
      PartitionedBy (standsBefore right · value) (chunk matching.rowLen haystack.toList (matching.row needle)))
    (host : HostBackend) {engine : DeviceEngine} (hvalid : engine.config.validate = .ok ()) :
    ∃ places engine',
      (Backend.search haystack needles matching right : Stateful HostBackend _).run host = (.ok places, host) ∧
      (Backend.search haystack needles matching right : Stateful DeviceEngine _).run engine = (.ok places, engine') ∧
      places.size = needles.size ∧ ∀ (needle : Nat) (value : κ), needles[needle]? = some value →
        places[needle]? = some (insertionPoint right
          (chunk matching.rowLen haystack.toList (matching.row needle)).toArray value) := by
  have hmatches := Matching.matches_of_ofShapes hplan
  have hlimit : 2147483648 < Size.limit := by decide
  have hhost := hmatches.search_eq_ok hhaystack hneedles (Nat.lt_of_le_of_lt hkeys hlimit) right
  have hrun : (Backend.search haystack needles matching right : Stateful HostBackend _).run host =
      (.ok (matching.places haystack needles right), host) := Stateful.run_ofOutcome_of_eq_ok hhost host
  obtain ⟨words, engine', hdevice, hwords⟩ := exists_search_places hmatches hhaystack hneedles hkeys hcount hrows
    (Config.problem?_of_validate hvalid)
  exact ⟨_, engine', hrun, hwords ▸ run_backend_search hdevice, Matching.size_places _ _ _ _,
    fun _ _ => Matching.getElem?_places⟩

end Agreement

/-- Two rows of three keys, with two needles for each, on groups of three threads. One needle is NaN, in front of which no
key stands, and two of the six threads have no needle. The buffer of the places holds other bytes than zeros before. -/
theorem exists_search_two_rows :
    Matching.ofShapes [2, 3] [2, 2] = .ok ⟨3, 2, true, 4⟩ ∧
      Config.validate { limits := { maxLanes := 3 }, tuning := { tile := 2 } } = .ok () ∧
      ∃ (places : Array Nat) (engine' : DeviceEngine),
        (Backend.search
          (#[⟨1065353216⟩, ⟨1073741824⟩, ⟨1073741824⟩, ⟨0⟩, ⟨1065353216⟩, ⟨1077936128⟩] : Array Binary32)
          #[⟨1073741824⟩, ⟨2143289344⟩, ⟨1065353216⟩, ⟨1084227584⟩] ⟨3, 2, true, 4⟩ true :
            Stateful HostBackend _).run {} = (.ok places, {}) ∧
        (Backend.search
          (#[⟨1065353216⟩, ⟨1073741824⟩, ⟨1073741824⟩, ⟨0⟩, ⟨1065353216⟩, ⟨1077936128⟩] : Array Binary32)
          #[⟨1073741824⟩, ⟨2143289344⟩, ⟨1065353216⟩, ⟨1084227584⟩] ⟨3, 2, true, 4⟩ true :
            Stateful DeviceEngine _).run
              { config := { limits := { maxLanes := 3 }, tuning := { tile := 2 } }, pool := { unwritten := fun _ _ => 255 } } =
                (.ok places, engine') ∧
        places[0]? = some 3 ∧ places[1]? = some 0 := by
  have hplan : Matching.ofShapes [2, 3] [2, 2] = .ok ⟨3, 2, true, 4⟩ := rfl
  have hvalid : Config.validate { limits := { maxLanes := 3 }, tuning := { tile := 2 } } = .ok () := rfl
  have hrows : ∀ number < 2, (chunk 3 [(⟨1065353216⟩ : Binary32), ⟨1073741824⟩, ⟨1073741824⟩, ⟨0⟩, ⟨1065353216⟩,
      ⟨1077936128⟩] number).Pairwise (KeyOrder.le · · = true) := by decide
  have hpartitioned : ∀ (needle : Nat) (value : Binary32),
      (#[⟨1073741824⟩, ⟨2143289344⟩, ⟨1065353216⟩, ⟨1084227584⟩] : Array Binary32)[needle]? = some value →
      PartitionedBy (standsBefore true · value) (chunk 3 [⟨1065353216⟩, ⟨1073741824⟩, ⟨1073741824⟩, ⟨0⟩, ⟨1065353216⟩,
        ⟨1077936128⟩] (needle / 2)) := by
    intro needle value hvalue
    obtain ⟨hinside, -⟩ := Array.getElem?_eq_some_iff.mp hvalue
    rw [List.size_toArray] at hinside
    simp only [List.length_cons, List.length_nil] at hinside
    exact partitionedBy_of_ascending (hrows (needle / 2) (by omega)) true value
  obtain ⟨places, engine', hhost, hdevice, -, hplaces⟩ := @exists_search_eq_host Binary32 _ _ _ _ ⟨3, 2, true, 4⟩
    #[⟨1065353216⟩, ⟨1073741824⟩, ⟨1073741824⟩, ⟨0⟩, ⟨1065353216⟩, ⟨1077936128⟩]
    #[⟨1073741824⟩, ⟨2143289344⟩, ⟨1065353216⟩, ⟨1084227584⟩] true hplan rfl rfl (by decide) (by decide) hpartitioned {}
    { config := { limits := { maxLanes := 3 }, tuning := { tile := 2 } }, pool := { unwritten := fun _ _ => 255 } } hvalid
  exact ⟨hplan, hvalid, places, engine', hhost, hdevice, (hplaces 0 _ rfl).trans (by decide),
    (hplaces 1 _ rfl).trans (by decide)⟩

end DeviceEngine

end MergePathSort
