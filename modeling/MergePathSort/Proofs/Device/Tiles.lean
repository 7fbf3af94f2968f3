import Mathlib.Data.List.Forall2
import MergePathSort.Proofs.Device.Copies
import MergePathSort.Proofs.Host.Tiles
import MergePathSort.Proofs.Launch.Unrefused

/-!
# Sorting tiles on a device

A group sorts its tile in the phases in which a block of the host does, on the flat buffers instead of those of a row:
the words in which its threads compute are the places of the host's lanes. So what is known of a block of the host holds
of a group, and the groups of a launch sort the tiles of all rows, one after the other. What the scratch of a group held
before does not matter, since a group loads its tile before it looks at the scratch.

The threads of a kernel that does not move indices leave them alone, while the lanes of a block move whatever is there. So
the two do the same only on cells that are tracked exactly if the kernel moves indices.

## Main definitions

* `Tracks` : cells whose indices are tracked exactly if a kernel moves them.
* `SamePhase` : a phase that does what another one does.

## Main results

* `runPhases_words` : the phases of a group are those of a block.
* `exists_launch_tiles` : the launch on all rows.
-/

namespace MergePathSort

variable {κ : Type}

/-! ### Phases -/

section Phases

variable {lanes count start : Nat}

/-- A phase does what another one does in the states that have a property, and the other one keeps the property. -/
structure SamePhase {ρ τ : Type} (lanes : Nat) (P : ρ × τ → Prop) (phase phase' : LaneAction ρ τ) : Prop where
  /-- Every lane does the same. -/
  eq : ∀ n < lanes, ∀ state, P state → phase n state = phase' n state
  /-- The property is kept. -/
  keeps : ∀ n state, P state → (phase' n state).Ensures P

section Congruence

variable {ρ τ : Type} {P : ρ × τ → Prop}

/-- All lanes of a phase together do what those of the other one do. -/
theorem SamePhase.forLanes_eq {phase phase' : LaneAction ρ τ} (h : SamePhase lanes P phase phase') {state : ρ × τ}
    (hstate : P state) : forLanes lanes phase state = forLanes lanes phase' state := by
  rw [forLanes_eq_foldlM, forLanes_eq_foldlM]
  have hmem : ∀ numbers : List Nat, (∀ n ∈ numbers, n < lanes) → ∀ state, P state →
      numbers.foldlM (fun state n => phase n state) state = numbers.foldlM (fun state n => phase' n state) state := by
    intro numbers
    induction numbers with
    | nil => exact fun _ _ _ => rfl
    | cons n numbers ih =>
      intro hnumbers state hstate
      have hkeeps := h.keeps n state hstate
      rw [List.foldlM_cons, List.foldlM_cons, h.eq n (hnumbers n (by simp)) state hstate]
      cases hstep : phase' n state with
      | error failure => rfl
      | ok next =>
        rw [hstep] at hkeeps
        exact ih (fun m hm => hnumbers m (by simp [hm])) next hkeeps
  exact hmem _ (fun n hn => List.mem_range.mp hn) state hstate

/-- Phases that do the same, one after the other. -/
theorem runPhases_congr {phases phases' : List (LaneAction ρ τ)} (h : List.Forall₂ (SamePhase lanes P) phases phases')
    {state : ρ × τ} (hstate : P state) :
    Block.runPhases lanes phases state = Block.runPhases lanes phases' state := by
  induction h generalizing state with
  | nil => rfl
  | @cons phase phase' phases phases' hphase hphases ih =>
    have hkeeps := ensures_forLanes hphase.keeps lanes hstate
    rw [Block.runPhases, Block.runPhases, List.foldlM_cons, List.foldlM_cons, hphase.forLanes_eq hstate]
    cases hrun : forLanes lanes phase' state with
    | error failure => rfl
    | ok next =>
      rw [hrun] at hkeeps
      exact ih hkeeps

/-- The two places of a thread, as words. -/
theorem onOwnWords_eq {σ : Type} {P : σ → Prop} {n : Nat} (hn : 2 * n + 1 < 4294967296) (hcount : count < 4294967296)
    {act : UInt32 → σ → Outcome σ} {act' : Nat → σ → Outcome σ}
    (h : ∀ t < count, ∀ state, P state → act (UInt32.ofNat t) state = act' t state)
    (hkeeps : ∀ t state, P state → (act' t state).Ensures P) {state : σ} (hstate : P state) :
    onOwnWords (UInt32.ofNat count) (UInt32.ofNat n) act state = onOwnPlaces count n act' state := by
  have hfirst : UInt32.ofNat n * 2 = UInt32.ofNat (2 * n) := by
    rw [Nat.mul_comm, UInt32.ofNat_mul]
    rfl
  have hsecond : UInt32.ofNat (2 * n) + 1 = UInt32.ofNat (2 * n + 1) := by
    rw [UInt32.ofNat_add]
    rfl
  have hstep : ∀ t < 4294967296, ∀ state, P state →
      (if UInt32.ofNat t < UInt32.ofNat count then act (UInt32.ofNat t) state else .ok state) =
        if t < count then act' t state else .ok state := by
    intro t ht state hstate
    have hlt : UInt32.ofNat t < UInt32.ofNat count ↔ t < count := by
      rw [ofNat_lt_word ht, toNat_ofNat_word hcount]
    simp only [hlt]
    split
    · exact h t ‹_› state hstate
    · rfl
  have hkept : (if 2 * n < count then act' (2 * n) state else .ok state : Outcome σ).Ensures P :=
    Outcome.ensures_ite (fun _ => hkeeps _ state hstate) fun _ => hstate
  rw [onOwnWords, onOwnPlaces, hfirst, hsecond]
  simp only [List.foldlM_cons, List.foldlM_nil, hstep (2 * n) (by omega) state hstate]
  cases hrun : (if 2 * n < count then act' (2 * n) state else .ok state : Outcome σ) with
  | error failure => rfl
  | ok next =>
    rw [hrun] at hkept
    simp only [Outcome.ok_bind, hstep _ hn next hkept]

end Congruence

/-! ### Cells with and without indices -/

/-- Indices are tracked on the front side and in the scratch, or they are not. -/
structure Tracks (indexed : Bool) (state : DeviceCells κ × Cells κ UInt32) : Prop where
  /-- Of the front side. -/
  front : state.1.front.indices.isSome = indexed
  /-- Of the scratch. -/
  scratch : state.2.indices.isSome = indexed

section Tracked

variable {ι : Type} {indexed : Bool} {cells : Cells κ ι}

/-- A kernel that moves the indices that there are loads as a lane does. -/
theorem Cells.load_eq_fetch (h : cells.indices.isSome = indexed) (position : Nat) :
    cells.load indexed position = cells.fetch position := by
  obtain ⟨keys, _ | indices⟩ := cells <;> subst h <;> rfl

/-- A kernel that moves the indices that there are exchanges as a lane does. -/
theorem Cells.swap_eq_exchange (h : cells.indices.isSome = indexed) (i j : Nat) :
    cells.swap indexed i j = cells.exchange i j := by
  obtain ⟨keys, _ | indices⟩ := cells <;> subst h <;> rfl

/-- Cells with as much room have indices or not as before. -/
theorem Cells.isSome_indices_of_room {cells' : Cells κ ι} (h : cells.indices.isSome = indexed)
    (hroom : cells'.room = cells.room) : cells'.indices.isSome = indexed := by
  have hindices := congrArg (fun room : Nat × Option Nat => room.2.isSome) hroom
  rw [← h]
  simpa [Cells.room] using hindices

variable {state : DeviceCells κ × Cells κ UInt32}

/-- Loading a cell of the front side into the scratch. -/
theorem Tracks.load (h : Tracks indexed state) (position t : Nat) :
    (do
      let cell ← state.1.front.fetch position
      return (state.1, ← state.2.store t cell) : Outcome (DeviceCells κ × Cells κ UInt32)).Ensures (Tracks indexed) := by
  refine Outcome.ensures_bind_of_refusedOnly (Cells.refusedOnly_fetch _ _) fun cell _ => ?_
  refine Outcome.ensures_bind (Cells.ensures_store state.2 t cell) fun scratch hscratch => ?_
  exact ⟨h.front, Cells.isSome_indices_of_room h.scratch hscratch⟩

/-- Storing a cell of the scratch on both sides. -/
theorem Tracks.unload (h : Tracks indexed state) (position t : Nat) :
    (do
      let cell ← state.2.fetch t
      let cells ← state.1.modify .front (·.store position cell)
      let cells ← cells.modify .back (·.store position cell)
      return (cells, state.2) : Outcome (DeviceCells κ × Cells κ UInt32)).Ensures (Tracks indexed) := by
  refine Outcome.ensures_bind_of_refusedOnly (Cells.refusedOnly_fetch _ _) fun cell _ => ?_
  have hroom : HasRoom (state.1.map Cells.room) state.1 := rfl
  refine Outcome.ensures_bind (hroom.store .front position cell) fun front hfront => ?_
  refine Outcome.ensures_bind (hfront.store .back position cell) fun both hboth => ?_
  exact ⟨Cells.isSome_indices_of_room h.front (congrArg DoubleBuffer.front hboth), h.scratch⟩

/-- Exchanging neighbours in the scratch. -/
theorem Tracks.exchangePair [KeyOrder κ] (h : Tracks indexed state) (direction : Direction) (count round n : Nat) :
    (exchangePair direction count round n state).Ensures (Tracks indexed) := by
  obtain ⟨cells, scratch⟩ := state
  refine Outcome.ensures_ite (fun _ => ?_) fun _ => h
  refine Outcome.ensures_bind_of_refusedOnly (Buffer.refusedOnly_read _ _) fun a _ => ?_
  refine Outcome.ensures_bind_of_refusedOnly (Buffer.refusedOnly_read _ _) fun b _ => ?_
  refine Outcome.ensures_ite (fun _ => ?_) fun _ => h
  refine Outcome.ensures_bind (Cells.ensures_exchange scratch _ _) fun exchanged hexchanged => ?_
  exact ⟨h.front, Cells.isSome_indices_of_room h.scratch hexchanged⟩

end Tracked

/-! ### The phases of a group -/

section Words

variable {indexed : Bool} (hend : start + count < 4294967296)
include hend

/-- The threads load as the lanes of a block do. -/
theorem samePhase_loadWords (hlanes : 2 * lanes < 4294967296) :
    SamePhase lanes (Tracks indexed) (loadWords (UInt32.ofNat start) (UInt32.ofNat count) indexed : ThreadAction κ).lane
      (loadTile start count) := by
  refine ⟨fun n hn state hstate => ?_, fun n state hstate =>
    ensures_onOwnPlaces (fun t _ hstate => hstate.load (start + t) t) count n hstate⟩
  have hword : 2 * n + 1 < 4294967296 := by omega
  have hcount : count < 4294967296 := by omega
  unfold ThreadAction.lane loadWords loadTile
  refine onOwnWords_eq hword hcount (fun t ht state hstate => ?_) (fun t _ hstate => hstate.load (start + t) t) hstate
  have hload := Cells.load_eq_fetch hstate.front
  obtain ⟨cells, scratch⟩ := state
  simp only [← UInt32.ofNat_add, toNat_ofNat_word (show start + t < 4294967296 by omega),
    toNat_ofNat_word (show t < 4294967296 by omega), hload]

/-- The threads store as the lanes of a block do. -/
theorem samePhase_storeWords (hlanes : 2 * lanes < 4294967296) :
    SamePhase lanes (Tracks indexed) (storeWords (UInt32.ofNat start) (UInt32.ofNat count) indexed : ThreadAction κ).lane
      (storeTile start count) := by
  refine ⟨fun n hn state hstate => ?_, fun n state hstate =>
    ensures_onOwnPlaces (fun t _ hstate => hstate.unload (start + t) t) count n hstate⟩
  have hword : 2 * n + 1 < 4294967296 := by omega
  have hcount : count < 4294967296 := by omega
  unfold ThreadAction.lane storeWords storeTile
  refine onOwnWords_eq hword hcount (fun t ht state hstate => ?_) (fun t _ hstate => hstate.unload (start + t) t) hstate
  have hload := Cells.load_eq_fetch hstate.scratch
  obtain ⟨cells, scratch⟩ := state
  simp only [← UInt32.ofNat_add, toNat_ofNat_word (show start + t < 4294967296 by omega),
    toNat_ofNat_word (show t < 4294967296 by omega), hload]

omit hend in
/-- The threads exchange as the lanes of a block do. -/
theorem samePhase_exchangeWords [KeyOrder κ] (direction : Direction) (hcount : count < 4294967296) (round : Nat)
    (hlanes : 2 * lanes < 4294967296) :
    SamePhase lanes (Tracks indexed)
      (exchangeWords direction.flag indexed (UInt32.ofNat count) (UInt32.ofNat round) : ThreadAction κ).lane
      (exchangePair direction count round) := by
  refine ⟨fun n hn state hstate => ?_, fun n state hstate => hstate.exchangePair direction count round n⟩
  have hparity : UInt32.ofNat round % 2 = UInt32.ofNat (round % 2) := by
    apply UInt32.toNat_inj.mp
    rw [UInt32.toNat_mod, UInt32.toNat_ofNat', toNat_ofNat_word (by omega)]
    exact Nat.mod_mod_of_dvd _ (by decide)
  have hplace : UInt32.ofNat n * 2 + UInt32.ofNat round % 2 = UInt32.ofNat (2 * n + round % 2) := by
    rw [hparity, UInt32.ofNat_add, Nat.mul_comm, UInt32.ofNat_mul]
    rfl
  have hnext : UInt32.ofNat (2 * n + round % 2) + 1 = UInt32.ofNat (2 * n + round % 2 + 1) := by
    rw [UInt32.ofNat_add (2 * n + round % 2)]
    rfl
  have hword : (UInt32.ofNat (2 * n + round % 2)).toNat = 2 * n + round % 2 := toNat_ofNat_word (by omega)
  have hnextWord : (UInt32.ofNat (2 * n + round % 2 + 1)).toNat = 2 * n + round % 2 + 1 := toNat_ofNat_word (by omega)
  have hswap := Cells.swap_eq_exchange hstate.scratch
  obtain ⟨cells, scratch⟩ := state
  simp only [ThreadAction.lane, exchangeWords, exchangePair, hplace, hnext, hword, hnextWord, outOfOrder_flag, hswap,
    ofNat_lt_word (show 2 * n + round % 2 + 1 < 4294967296 by omega), toNat_ofNat_word hcount]

/-- The phases of a group are those of a block. -/
theorem runPhases_words [KeyOrder κ] (direction : Direction) (hlanes : 2 * lanes < 4294967296)
    {state : DeviceCells κ × Cells κ UInt32} (hstate : Tracks indexed state) :
    Block.runPhases lanes ((loadWords (UInt32.ofNat start) (UInt32.ofNat count) indexed).lane ::
        (List.range count).map (fun round =>
          (exchangeWords direction.flag indexed (UInt32.ofNat count) (UInt32.ofNat round)).lane)
        ++ [(storeWords (UInt32.ofNat start) (UInt32.ofNat count) indexed).lane]) state =
      Block.runPhases lanes (loadTile start count :: (List.range count).map (exchangePair direction count)
        ++ [storeTile start count]) state := by
  refine runPhases_congr (List.rel_append (.cons (samePhase_loadWords hend hlanes) ?_)
    (.cons (samePhase_storeWords hend hlanes) .nil)) hstate
  rw [List.forall₂_map_left_iff, List.forall₂_map_right_iff, List.forall₂_same]
  exact fun round _ => samePhase_exchangeWords direction (by omega) round hlanes

end Words

end Phases

/-! ### Groups -/

section Groups

variable {direction : Direction} {axisLen rows tile threads : UInt32} {tracked : Bool} {flat : TaggedRow κ UInt32}
  {blocks : Nat}

/-- The number of elements of a tile, as a word. -/
theorem tileCount_eq {x : Nat} (h : x * tile.toNat < axisLen.toNat) :
    tileCount axisLen (UInt32.ofNat (x * tile.toNat)) tile =
      UInt32.ofNat (min tile.toNat (axisLen.toNat - x * tile.toNat)) := by
  have hword := axisLen.toNat_lt
  have hsub : axisLen - UInt32.ofNat (x * tile.toNat) = UInt32.ofNat (axisLen.toNat - x * tile.toNat) := by
    rw [UInt32.ofNat_sub (Nat.le_of_lt h), UInt32.ofNat_toNat]
  rw [tileCount, hsub]
  by_cases hlast : axisLen.toNat - x * tile.toNat < tile.toNat
  · rw [if_pos ((ofNat_lt_word (by omega)).mpr hlast), Nat.min_eq_right (by omega)]
  · rw [if_neg (fun hlt => hlast ((ofNat_lt_word (by omega)).mp hlt)), Nat.min_eq_left (by omega), UInt32.ofNat_toNat]

variable [Element κ] {memory : GroupMemory}

/-- The sorted tiles before tile `x` of a row, those of the rows before included. -/
def tilesBefore (direction : Direction) (tile blocks axisLen : Nat) (front : List (κ × Tag UInt32)) (row x : Nat) :
    List (κ × Tag UInt32) :=
  ((List.range row).flatMap fun number => sortTiles direction tile (chunk axisLen front number) blocks) ++
    sortTiles direction tile (chunk axisLen front row) x

/-- The buffers before tile `x` of a row. -/
def tiledBefore (direction : Direction) (tile blocks axisLen : Nat) (flat : TaggedRow κ UInt32) (row x : Nat) :
    TaggedRow κ UInt32 :=
  ⟨overlay (tilesBefore direction tile blocks axisLen flat.front row x) flat.front,
    overlay (tilesBefore direction tile blocks axisLen flat.front row x) flat.back⟩

theorem length_tilesBefore {front : List (κ × Tag UInt32)} {tile blocks axisLen count : Nat}
    (hfront : front.length = count * axisLen) (hblocks : axisLen ≤ blocks * tile) {row x : Nat} (hrow : row < count) :
    (tilesBefore direction tile blocks axisLen front row x).length = row * axisLen + min (x * tile) axisLen := by
  have hrows : ∀ number < row, (sortTiles direction tile (chunk axisLen front number) blocks).length = axisLen := by
    intro number hnumber
    rw [length_sortTiles, length_chunk_of_length hfront (by omega), Nat.min_eq_right hblocks]
  rw [tilesBefore, List.length_append, length_flatMap_of_length hrows, length_sortTiles,
    length_chunk_of_length hfront hrow]

/-- A group behind the last row does nothing. -/
theorem tileGroup_masked {flag : UInt32} {group : Workgroup} (h : rows ≤ group.row) (cells : DeviceCells κ) :
    ∃ used, (tileGroup flag axisLen rows tile threads tracked memory group).run cells = .ok (cells, used) := by
  have hnot : ¬group.row < rows := UInt32.not_lt.mpr h
  exact Block.exists_run_of_phases (if_neg hnot) rfl

/-- The scratch of a group holds something in every place of the tile. -/
theorem exists_unwrittenCells (tile : Nat) (tracked : Bool) (memory : Nat → UInt8) :
    ∃ cells : List (κ × Tag UInt32), cells.length = tile ∧
      unwrittenCells tile tracked memory = Cells.ofTagged tracked cells := by
  obtain ⟨cells, hlen, hcells⟩ := Cells.exists_eq_ofTagged tracked (elementsAt κ memory 0 tile)
    (elementsAt UInt32 memory (tile * Element.width κ) tile) fun _ => by simp [elementsAt]
  exact ⟨cells, hlen.trans (by simp [elementsAt]), hcells⟩

/-- A group sorts its tile, whatever its scratch holds before. -/
theorem tileGroup_run (hflat : flat.HasLength (rows.toNat * axisLen.toNat))
    (htotal : rows.toNat * axisLen.toNat < 4294967296) (hthreads : 2 * threads.toNat = tile.toNat)
    (hblocks : axisLen.toNat ≤ blocks * tile.toNat) {row x : Nat} (hrow : row < rows.toNat)
    (hx : x * tile.toNat < axisLen.toNat) :
    ∃ used, (tileGroup direction.flag axisLen rows tile threads tracked memory ⟨UInt32.ofNat x, UInt32.ofNat row⟩).run
        ((tiledBefore direction tile.toNat blocks axisLen.toNat flat row x).cells tracked) =
      .ok ((tiledBefore direction tile.toNat blocks axisLen.toNat flat row (x + 1)).cells tracked, used) := by
  have htile := tile.toNat_lt
  have hlast := place_lt hrow (show axisLen.toNat - 1 < axisLen.toNat by omega)
  have hrowLen := length_chunk_of_length hflat.front hrow
  have hlen := length_chunk tile.toNat (chunk axisLen.toNat flat.front row) x
  rw [hrowLen] at hlen
  have hdone : (tilesBefore direction tile.toNat blocks axisLen.toNat flat.front row x).length =
      row * axisLen.toNat + x * tile.toNat := by
    rw [length_tilesBefore hflat.front hblocks hrow, Nat.min_eq_left (by omega)]
  have hnext : tilesBefore direction tile.toNat blocks axisLen.toNat flat.front row (x + 1) =
      tilesBefore direction tile.toNat blocks axisLen.toNat flat.front row x ++
        sortTile direction (chunk tile.toNat (chunk axisLen.toNat flat.front row) x) := by
    rw [tilesBefore, sortTiles_succ, ← List.append_assoc]
    rfl
  obtain ⟨scratch, hscratchLen, hscratch⟩ :=
    exists_unwrittenCells (κ := κ) tile.toNat tracked (memory ⟨UInt32.ofNat x, UInt32.ofNat row⟩)
  have htracks : Tracks tracked ((tiledBefore direction tile.toNat blocks axisLen.toNat flat row x).cells tracked,
      Cells.ofTagged tracked scratch) := by
    constructor <;> cases tracked <;> rfl
  have hphases : Block.runPhases threads.toNat _
      ((tiledBefore direction tile.toNat blocks axisLen.toNat flat row x).cells tracked,
        Cells.ofTagged tracked scratch) = .ok (_, _) :=
    runPhases_tile direction flat (chunk tile.toNat (chunk axisLen.toNat flat.front row) x) hdone
      (fun t ht => by
        have hinside : x * tile.toNat + t < axisLen.toNat := by omega
        rw [← List.getElem?_eq_getElem ht, getElem?_chunk (by omega), getElem?_chunk hinside, Nat.add_assoc])
      (by rw [hflat.front]; omega) (by rw [hflat.back]; omega) (by omega) (by omega)
  rw [← hnext, hlen, ← runPhases_words (by omega) direction (by omega) htracks, ← hscratch] at hphases
  refine Block.exists_run_of_phases ?_ hphases
  have hinside : UInt32.ofNat row < rows := (ofNat_lt_word (Nat.lt_trans hrow rows.toNat_lt)).mpr hrow
  have hstart : UInt32.ofNat x * tile = UInt32.ofNat (x * tile.toNat) := by
    rw [UInt32.ofNat_mul, UInt32.ofNat_toNat]
  have hbase : UInt32.ofNat row * axisLen + UInt32.ofNat (x * tile.toNat) =
      UInt32.ofNat (row * axisLen.toNat + x * tile.toNat) := flatAddress_eq axisLen row (x * tile.toNat)
  simp only [tileGroup, hinside, hstart, hbase, tileCount_eq hx, if_true,
    toNat_ofNat_word (show min tile.toNat (axisLen.toNat - x * tile.toNat) < 4294967296 by omega)]

/-- The launch that sorts the tiles of all rows. -/
theorem exists_launch_tiles {grid : Grid} (direction : Direction) (hrows : grid.rows = rows)
    (hflat : flat.HasLength (rows.toNat * axisLen.toNat)) (htotal : rows.toNat * axisLen.toNat < 4294967296)
    (hthreads : 2 * grid.lanes.toNat = tile.toNat) (hblocks : axisLen.toNat ≤ grid.blocksPerRow.toNat * tile.toNat)
    (hinside : ∀ x < grid.blocksPerRow.toNat, x * tile.toNat < axisLen.toNat) :
    ∃ syncs, (Kernel.ofBlock (tileGroup direction.flag axisLen rows tile grid.lanes tracked memory)).launch grid
        (flat.cells tracked) =
      .ok (TaggedRow.cells tracked (.both ((List.range rows.toNat).flatMap fun row =>
        sortTiles direction tile.toNat (chunk axisLen.toNat flat.front row) grid.blocksPerRow.toNat)), syncs) := by
  subst hrows
  have hstart : flat.cells tracked =
      (tiledBefore direction tile.toNat grid.blocksPerRow.toNat axisLen.toNat flat 0 0).cells tracked := rfl
  have hnext : ∀ row < grid.rows.toNat,
      tilesBefore direction tile.toNat grid.blocksPerRow.toNat axisLen.toNat flat.front (row + 1) 0 =
        tilesBefore direction tile.toNat grid.blocksPerRow.toNat axisLen.toNat flat.front row
          grid.blocksPerRow.toNat := by
    intro row _
    rw [tilesBefore, tilesBefore, List.range_succ, List.flatMap_append, List.flatMap_singleton]
    exact List.append_nil _
  have hall : tilesBefore direction tile.toNat grid.blocksPerRow.toNat axisLen.toNat flat.front grid.rows.toNat 0 =
      (List.range grid.rows.toNat).flatMap fun row =>
        sortTiles direction tile.toNat (chunk axisLen.toNat flat.front row) grid.blocksPerRow.toNat :=
    List.append_nil _
  have hlen : ((List.range grid.rows.toNat).flatMap fun row =>
      sortTiles direction tile.toNat (chunk axisLen.toNat flat.front row) grid.blocksPerRow.toNat).length =
        grid.rows.toNat * axisLen.toNat :=
    length_flatMap_of_length fun row hrow => by
      rw [length_sortTiles, length_chunk_of_length hflat.front hrow, Nat.min_eq_right hblocks]
  obtain ⟨cells', syncs, hlaunch, rfl⟩ := Kernel.exists_launch _
    (P := fun row x cells => cells =
      (tiledBefore direction tile.toNat grid.blocksPerRow.toNat axisLen.toNat flat row x).cells tracked) hstart
    (by
      rintro row hrow x hx cells rfl
      obtain ⟨more, hmore⟩ := Kernel.ofBlock_eq_ok
        (tileGroup_run hflat htotal hthreads hblocks hrow (hinside x hx))
      exact ⟨_, more, hmore, rfl⟩)
    (by
      rintro row hrow cells rfl
      rw [tiledBefore, tiledBefore, hnext row hrow])
    (fun group hgroup cells => Kernel.ofBlock_eq_ok (tileGroup_masked hgroup cells))
  refine ⟨syncs, ?_⟩
  rw [hlaunch, tiledBefore, hall, overlay_of_length_eq (hlen.trans hflat.front.symm),
    overlay_of_length_eq (hlen.trans hflat.back.symm)]
  rfl

end Groups

end MergePathSort
