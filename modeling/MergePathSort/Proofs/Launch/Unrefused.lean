import MergePathSort.Device.Engine
import MergePathSort.Host.Execution
import MergePathSort.Proofs.Unrefused

/-!
# Launches are not refused

Whatever the buffers hold and however wrong the extents are, a launch faults or runs to its end: its lanes do
arithmetic on sizes and words, and read and write buffers within their bounds. This is so for the blocks of a row on the
host and for the groups of a grid on a device. A launch replaces elements, and never changes the room of a buffer.

## Main definitions

* `Cells.room` : the room of a buffer, for keys and for indices.

## Main results

* `Block.ensures_run`, `Block.ensures_runAll` : blocks whose lanes keep something.
* `Launch.refusedOnly_execute` : launches on the host.
* `Kernel.Keeps.ensures_launch`, `ensures_launchSearch` : launches on a device.
-/

namespace MergePathSort

variable {κ ι : Type}

/-! ### Cells -/

/-- The room of a buffer: for keys, and for indices if they are tracked. -/
def Cells.room (cells : Cells κ ι) : Nat × Option Nat := (cells.keys.size, cells.indices.map Array.size)

@[simp]
theorem Cells.refusedOnly_fetch {P : Refusal → Prop} (cells : Cells κ ι) (position : Nat) :
    (cells.fetch position).RefusedOnly P := by
  obtain ⟨keys, _ | indices⟩ := cells <;> simp [fetch]

/-- Storing a cell keeps the room of a buffer. -/
theorem Cells.ensures_store (cells : Cells κ ι) (position : Nat) (cell : Cell κ ι) :
    (cells.store position cell).Ensures fun stored => stored.room = cells.room := by
  obtain ⟨keys, _ | indices⟩ := cells
  · refine Outcome.ensures_bind (Buffer.ensures_write keys position cell.1) fun written hwritten => ?_
    exact Prod.ext hwritten rfl
  · obtain ⟨key, _ | index⟩ := cell
    · refine Outcome.ensures_bind (Buffer.ensures_write keys position key) fun written hwritten => ?_
      exact Prod.ext hwritten rfl
    · refine Outcome.ensures_bind (Buffer.ensures_write keys position key) fun written hwritten => ?_
      refine Outcome.ensures_bind (Buffer.ensures_write indices position index) fun moved hmoved => ?_
      exact Prod.ext hwritten (congrArg some hmoved)

/-- Exchanging two cells keeps the room of a buffer. -/
theorem Cells.ensures_exchange (cells : Cells κ ι) (i j : Nat) :
    (cells.exchange i j).Ensures fun exchanged => exchanged.room = cells.room := by
  obtain ⟨keys, _ | indices⟩ := cells
  · refine Outcome.ensures_bind (Buffer.ensures_exchange keys i j) fun exchanged hexchanged => ?_
    exact Prod.ext hexchanged rfl
  · refine Outcome.ensures_bind (Buffer.ensures_exchange keys i j) fun exchanged hexchanged => ?_
    refine Outcome.ensures_bind (Buffer.ensures_exchange indices i j) fun moved hmoved => ?_
    exact Prod.ext hexchanged (congrArg some hmoved)

/-- A change of one side that keeps something of it keeps it on both sides. -/
theorem DoubleBuffer.ensures_modify {β γ : Type} {m : β → γ} {f : β → Outcome β}
    (hf : ∀ buffer, (f buffer).Ensures fun changed => m changed = m buffer) (side : Side) (pair : DoubleBuffer β) :
    Outcome.Ensures (fun changed => changed.map m = pair.map m) (pair.modify side f) := by
  obtain ⟨front, back⟩ := pair
  cases side with
  | front =>
    refine Outcome.ensures_bind (hf front) fun changed hchanged => ?_
    exact congrArg (DoubleBuffer.mk · (m back)) hchanged
  | back =>
    refine Outcome.ensures_bind (hf back) fun changed hchanged => ?_
    exact congrArg (DoubleBuffer.mk (m front)) hchanged

/-- Both sides have a given room. -/
def HasRoom (room : DoubleBuffer (Nat × Option Nat)) (cells : DoubleBuffer (Cells κ ι)) : Prop :=
  cells.map Cells.room = room

/-- Storing a cell on one side keeps the room of both. -/
theorem HasRoom.store {room : DoubleBuffer (Nat × Option Nat)} {cells : DoubleBuffer (Cells κ ι)}
    (h : HasRoom room cells) (side : Side) (position : Nat) (cell : Cell κ ι) :
    Outcome.Ensures (HasRoom room) (cells.modify side (·.store position cell)) :=
  (DoubleBuffer.ensures_modify (fun cells => cells.ensures_store position cell) side cells).mono
    fun _ hstored => hstored.trans h

@[simp]
theorem Cells.refusedOnly_store {P : Refusal → Prop} (cells : Cells κ ι) (position : Nat) (cell : Cell κ ι) :
    (cells.store position cell).RefusedOnly P :=
  (cells.ensures_store position cell).refusedOnly

@[simp]
theorem Cells.refusedOnly_exchange {P : Refusal → Prop} (cells : Cells κ ι) (i j : Nat) :
    (cells.exchange i j).RefusedOnly P :=
  (cells.ensures_exchange i j).refusedOnly

@[simp]
theorem Cells.refusedOnly_load {P : Refusal → Prop} (indexed : Bool) (cells : Cells κ ι) (position : Nat) :
    (cells.load indexed position).RefusedOnly P := by
  cases indexed <;> simp [load]

@[simp]
theorem Cells.refusedOnly_swap {P : Refusal → Prop} (indexed : Bool) (cells : Cells κ ι) (i j : Nat) :
    (cells.swap indexed i j).RefusedOnly P := by
  cases indexed
  · exact (Outcome.ensures_bind (Buffer.ensures_exchange cells.keys i j) fun keys _ => trivial :
      (cells.swap false i j).Ensures fun _ => True).refusedOnly
  · exact Cells.refusedOnly_exchange cells i j

/-! ### Blocks -/

section Blocks

variable {σ ρ τ : Type}

/-- Lanes that keep something, one after the other. -/
theorem ensures_forLanes {Q : σ → Prop} {lane : Nat → σ → Outcome σ}
    (hlane : ∀ n state, Q state → (lane n state).Ensures Q) (count : Nat) {state : σ} (hstate : Q state) :
    (forLanes count lane state).Ensures Q := by
  rw [forLanes_eq_foldlM]
  exact Outcome.ensures_foldlM (fun n _ state hstate => hlane n state hstate) hstate

/-- A phase of a block is never refused and keeps something of the row, whatever is in the scratch. -/
def LaneAction.Keeps (Q : ρ → Prop) (phase : LaneAction ρ τ) : Prop :=
  ∀ n state, Q state.1 → (phase n state).Ensures (Q ·.1)

/-- A block whose phases are planned without a refusal, and keep something of the row. -/
def Block.Keeps (Q : ρ → Prop) (block : Block ρ τ) : Prop :=
  ∀ row, (block.phases row).Ensures fun phases => ∀ phase ∈ phases, LaneAction.Keeps Q phase

/-- A block without scratch whose lanes keep something. -/
theorem Block.keeps_once {Q : ρ → Prop} {lane : Nat → ρ → Outcome ρ}
    (hlane : ∀ n row, Q row → (lane n row).Ensures Q) (lanes : Nat) (scratch : τ) :
    (once lanes scratch lane).Keeps Q := by
  intro row phase hphase n state hstate
  rw [List.mem_singleton.mp hphase]
  exact Outcome.ensures_bind (hlane n state.1 hstate) fun changed hchanged => hchanged

/-- A block keeps what its phases do, and is never refused. -/
theorem Block.Keeps.ensures_run {Q : ρ → Prop} {block : Block ρ τ} (h : block.Keeps Q) {row : ρ} (hrow : Q row) :
    (block.run row).Ensures (Q ·.1) := by
  refine Outcome.ensures_bind (h row) fun phases hphases => ?_
  have hrun : (runPhases block.lanes phases (row, block.scratch)).Ensures fun state => Q state.1 :=
    Outcome.ensures_foldlM (Q := fun state : ρ × τ => Q state.1) (fun phase hphase state hstate =>
      ensures_forLanes (hphases phase hphase) block.lanes hstate) hrow
  exact Outcome.ensures_bind hrun fun state hstate => hstate

/-- So do blocks in order. -/
theorem Block.ensures_runAll {Q : ρ → Prop} {blocks : List (Block ρ τ)} (h : ∀ block ∈ blocks, block.Keeps Q) {row : ρ}
    (hrow : Q row) : (runAll blocks row).Ensures (Q ·.1) := by
  refine Outcome.ensures_foldlM (Q := fun state : ρ × Usage => Q state.1) (fun block hblock state hstate => ?_) hrow
  exact Outcome.ensures_bind ((h block hblock).ensures_run hstate) fun result hresult => hresult

end Blocks

/-! ### Tiles -/

section Tiles

variable {room : DoubleBuffer (Nat × Option Nat)} {cells : DoubleBuffer (Cells κ ι)}

/-- Loading a cell into the scratch leaves the buffers alone. -/
theorem HasRoom.load (h : HasRoom room cells) {loaded : Outcome (Cell κ ι)}
    (hloaded : loaded.RefusedOnly fun _ => False) (scratch : Cells κ ι) (t : Nat) :
    (do
      let cell ← loaded
      return (cells, ← scratch.store t cell) : Outcome (DoubleBuffer (Cells κ ι) × Cells κ ι)).Ensures
      (HasRoom room ·.1) := by
  refine Outcome.ensures_bind_of_refusedOnly hloaded fun cell _ => ?_
  exact Outcome.ensures_bind_of_refusedOnly (Cells.refusedOnly_store _ _ _) fun scratch _ => h

/-- Exchanging two cells of the scratch, if they are out of order, leaves the buffers alone. -/
theorem HasRoom.exchange (h : HasRoom room cells) (misplaced : κ → κ → Bool) {exchanged : Outcome (Cells κ ι)}
    (hexchanged : exchanged.RefusedOnly fun _ => False) (scratch : Cells κ ι) (i j : Nat) :
    (do
      let a ← Buffer.read scratch.keys i
      let b ← Buffer.read scratch.keys j
      if misplaced a b then return (cells, ← exchanged)
      else return (cells, scratch) : Outcome (DoubleBuffer (Cells κ ι) × Cells κ ι)).Ensures (HasRoom room ·.1) := by
  refine Outcome.ensures_bind_of_refusedOnly (Buffer.refusedOnly_read _ _) fun a _ => ?_
  refine Outcome.ensures_bind_of_refusedOnly (Buffer.refusedOnly_read _ _) fun b _ => ?_
  refine Outcome.ensures_ite (fun _ => ?_) fun _ => h
  exact Outcome.ensures_bind_of_refusedOnly hexchanged fun scratch _ => h

/-- Storing a cell of the scratch on both sides keeps their room. -/
theorem HasRoom.unload (h : HasRoom room cells) {loaded : Outcome (Cell κ ι)}
    (hloaded : loaded.RefusedOnly fun _ => False) (scratch : Cells κ ι) (position : Nat) :
    (do
      let cell ← loaded
      let cells ← cells.modify .front (·.store position cell)
      let cells ← cells.modify .back (·.store position cell)
      return (cells, scratch) : Outcome (DoubleBuffer (Cells κ ι) × Cells κ ι)).Ensures (HasRoom room ·.1) := by
  refine Outcome.ensures_bind_of_refusedOnly hloaded fun cell _ => ?_
  refine Outcome.ensures_bind (h.store _ _ _) fun front hfront => ?_
  exact Outcome.ensures_bind (hfront.store _ _ _) fun both hboth => hboth

end Tiles

/-! ### Launches on the host -/

section Host

variable {P : Refusal → Prop} {room : DoubleBuffer (Nat × Option Nat)}

@[simp]
theorem AxisView.refusedOnly_index (view : AxisView) (row pos : Nat) : (view.index row pos).RefusedOnly P := by
  simp [index]

section Merging

variable [KeyOrder κ] (src : Array κ) (direction : Direction)

theorem Run.refusedOnly_bisect (run : Run) (diag first last : Nat) :
    (run.bisect src direction diag first last).RefusedOnly P := by
  induction first, last using Run.bisect.induct with
  | case1 first last hlt right left =>
    rw [bisect, if_pos hlt]
    simp [leftFirst, right, left]
  | case2 first last hlt =>
    rw [bisect, if_neg hlt]
    exact Outcome.refusedOnly_ok first

@[simp]
theorem Run.refusedOnly_partition (run : Run) (diag : Nat) : (run.partition src direction diag).RefusedOnly P :=
  Run.refusedOnly_bisect src direction run diag _ _

theorem refusedOnly_movesFrom (leftStop rightStop count i j out : Nat) :
    (movesFrom src direction leftStop rightStop count i j out).RefusedOnly P := by
  induction count generalizing i j out with
  | zero => exact Outcome.refusedOnly_ok []
  | succ count ih => simp [movesFrom, takesLeft, ih]

@[simp]
theorem Segment.refusedOnly_ofNumber (number width size : Nat) :
    (Segment.ofNumber number width size).RefusedOnly P := by
  simp [ofNumber]

@[simp]
theorem Segment.refusedOnly_share (segment : Segment) (sharing : Sharing) (block : Nat) :
    (segment.share? src direction sharing block).RefusedOnly P := by
  cases sharing <;> simp [share?, whole, len]

@[simp]
theorem BlockShare.refusedOnly_laneMoves (share : BlockShare) (lane : Nat) :
    (share.laneMoves src direction lane).RefusedOnly P := by
  simp [laneMoves, Run.total, Run.moves, refusedOnly_movesFrom]

end Merging

theorem ensures_onOwnPlaces {σ : Type} {Q : σ → Prop} {act : Nat → σ → Outcome σ}
    (h : ∀ t state, Q state → (act t state).Ensures Q) (count lane : Nat) {state : σ} (hstate : Q state) :
    (onOwnPlaces count lane act state).Ensures Q := by
  refine Outcome.ensures_foldlM (fun t _ state hstate => ?_) hstate
  exact Outcome.ensures_ite (fun _ => h t state hstate) fun _ => hstate

theorem keeps_loadTile (start count : Nat) :
    LaneAction.Keeps (HasRoom room) (loadTile start count : RowLane κ ι) :=
  fun n _ hstate => ensures_onOwnPlaces (Q := fun state : RowCells κ ι × Cells κ ι => HasRoom room state.1)
    (fun _ _ hstate => hstate.load (Cells.refusedOnly_fetch _ _) _ _) count n hstate

theorem keeps_exchangePair [KeyOrder κ] (direction : Direction) (count round : Nat) :
    LaneAction.Keeps (HasRoom room) (exchangePair direction count round : RowLane κ ι) :=
  fun _ _ hstate => Outcome.ensures_ite (fun _ =>
    hstate.exchange direction.misplaced (Cells.refusedOnly_exchange _ _ _) _ _ _) fun _ => hstate

theorem keeps_storeTile (start count : Nat) :
    LaneAction.Keeps (HasRoom room) (storeTile start count : RowLane κ ι) :=
  fun n _ hstate => ensures_onOwnPlaces (Q := fun state : RowCells κ ι × Cells κ ι => HasRoom room state.1)
    (fun _ _ hstate => hstate.unload (Cells.refusedOnly_fetch _ _) _ _) count n hstate

theorem HasRoom.carry {cells : RowCells κ ι} (h : HasRoom room cells) (src : Side) (move : Move) :
    (carry src cells move).Ensures (HasRoom room) :=
  Outcome.ensures_bind_of_refusedOnly (Cells.refusedOnly_fetch _ _) fun _ _ => h.store _ _ _

theorem keeps_mergeBlock [KeyOrder κ] (direction : Direction) (src : Side) (shape : MergeShape)
    (axisLen segment number : Nat) :
    (mergeBlock direction src shape axisLen segment number : RowBlock κ ι).Keeps (HasRoom room) := by
  intro row
  refine Outcome.ensures_bind_of_refusedOnly (Segment.refusedOnly_ofNumber _ _ _) fun segment _ => ?_
  refine Outcome.ensures_bind_of_refusedOnly (Segment.refusedOnly_share _ _ _ _ _) fun share _ => ?_
  cases share with
  | none => exact fun phase hphase => absurd hphase List.not_mem_nil
  | some share =>
    intro phase hphase n state hstate
    rw [List.mem_singleton.mp hphase]
    refine Outcome.ensures_bind_of_refusedOnly (BlockShare.refusedOnly_laneMoves _ _ _ _) fun moves _ => ?_
    have hmoves : (moves.foldlM (carry src) state.1).Ensures (HasRoom room) :=
      Outcome.ensures_foldlM (fun move _ cells hcells => hcells.carry src move) hstate
    exact Outcome.ensures_bind hmoves fun cells hcells => hcells

variable [Element κ] [IndexElement ι]

theorem keeps_tileBlock (direction : Direction) (tile axisLen : Nat) (grid : Grid) (indexed : Bool) (number : Nat) :
    (tileBlock direction tile axisLen grid indexed number : RowBlock κ ι).Keeps (HasRoom room) := by
  intro row
  refine Outcome.ensures_bind_of_refusedOnly (Size.refusedOnly_sub _ _) fun rest _ phase hphase => ?_
  simp only [List.cons_append, List.mem_cons, List.mem_append, List.mem_map, List.not_mem_nil, or_false] at hphase
  obtain rfl | ⟨round, -, rfl⟩ | rfl := hphase
  · exact keeps_loadTile _ _
  · exact keeps_exchangePair _ _ _
  · exact keeps_storeTile _ _

/-- The blocks of a launch on a row are never refused, and keep the room of the row. -/
theorem Launch.keeps_blocksOnRow (launch : Launch) (program : Program) (input : Array κ) (row : Nat) :
    ∀ block ∈ (launch.blocksOnRow program input row : List (RowBlock κ ι)),
      block.Keeps (HasRoom room) := by
  obtain ⟨stage, grid⟩ := launch
  cases stage with
  | copyIn =>
    refine List.forall_mem_map.mpr fun number _ => Block.keeps_once (fun n cells hcells => ?_) _ _
    refine Outcome.ensures_ite (fun _ => ?_) fun _ => hcells
    refine Outcome.ensures_bind_of_refusedOnly (AxisView.refusedOnly_index _ _ _) fun position _ => ?_
    exact Outcome.ensures_bind_of_refusedOnly (Buffer.refusedOnly_read _ _) fun key _ => hcells.store _ _ _
  | sortTiles tile => exact List.forall_mem_map.mpr fun number _ => keeps_tileBlock _ _ _ _ _ _
  | mergeRuns pass src dst shape =>
    refine List.forall_mem_flatMap.mpr fun segment _ => ?_
    exact List.forall_mem_map.mpr fun number _ => keeps_mergeBlock _ _ _ _ _ _
  | copyBack =>
    refine List.forall_mem_map.mpr fun number _ => Block.keeps_once (fun n cells hcells => ?_) _ _
    refine Outcome.ensures_ite (fun _ => ?_) fun _ => hcells
    exact Outcome.ensures_bind_of_refusedOnly (Cells.refusedOnly_fetch _ _) fun cell _ => hcells.store _ _ _

/-- A launch on the host is never refused, and keeps the room of all rows. -/
theorem Launch.ensures_execute (launch : Launch) (program : Program) (input : Array κ) {rows : List (RowCells κ ι)}
    (hrows : ∀ cells ∈ rows, HasRoom room cells) :
    (launch.execute program input rows).Ensures fun result =>
      result.1.length = rows.length ∧ ∀ cells ∈ result.1, HasRoom room cells := by
  refine Outcome.ensures_bind (Outcome.ensures_mapM (Q := fun result : RowCells κ ι × Usage => HasRoom room result.1)
    fun numbered hnumbered => ?_) fun done hdone => ⟨?_, List.forall_mem_map.mpr hdone.2⟩
  · exact Block.ensures_runAll (launch.keeps_blocksOnRow program input numbered.2)
      (hrows _ (List.fst_mem_of_mem_zipIdx hnumbered))
  · rw [List.length_map, hdone.1, List.length_zipIdx]

/-- A launch on the host is never refused, whatever the rows are. -/
theorem Launch.refusedOnly_execute (launch : Launch) (program : Program) (input : Array κ)
    (rows : List (RowCells κ ι)) : (launch.execute program input rows).RefusedOnly P := by
  refine Outcome.refusedOnly_bind (Outcome.refusedOnly_mapM (fun numbered => ?_) _) fun done => Outcome.refusedOnly_ok _
  exact (Block.ensures_runAll (launch.keeps_blocksOnRow program input numbered.2) rfl).refusedOnly

end Host

/-! ### Launches on a device -/

section Device

variable {room : DoubleBuffer (Nat × Option Nat)}

theorem ensures_onOwnWords {σ : Type} {Q : σ → Prop} {act : UInt32 → σ → Outcome σ}
    (h : ∀ t state, Q state → (act t state).Ensures Q) (count thread : UInt32) {state : σ} (hstate : Q state) :
    (onOwnWords count thread act state).Ensures Q := by
  refine Outcome.ensures_foldlM (fun t _ state hstate => ?_) hstate
  exact Outcome.ensures_ite (fun _ => h t state hstate) fun _ => hstate

theorem keeps_copyInGroup (data : Array κ) (axisLen after rows threads : UInt32) (indexed : Bool) (group : Workgroup) :
    (copyInGroup data axisLen after rows threads indexed group).Keeps (HasRoom room) := by
  refine Block.keeps_once (Q := HasRoom room) (fun n cells hcells => ?_) _ _
  refine Outcome.ensures_ite (fun _ => ?_) fun _ => hcells
  exact Outcome.ensures_bind_of_refusedOnly (Buffer.refusedOnly_read _ _) fun key _ => hcells.store _ _ _

theorem keeps_copyBackGroup (axisLen rows threads : UInt32) (indexed : Bool) (group : Workgroup) :
    (copyBackGroup axisLen rows threads indexed group : GroupBlock κ).Keeps (HasRoom room) := by
  refine Block.keeps_once (Q := HasRoom room) (fun n cells hcells => ?_) _ _
  refine Outcome.ensures_ite (fun _ => ?_) fun _ => hcells
  exact Outcome.ensures_bind_of_refusedOnly (Cells.refusedOnly_load _ _ _) fun cell _ => hcells.store _ _ _

section Tiles

variable (base count : UInt32) (indexed : Bool)

/-- Threads that act on their own words, as a phase of a group. -/
theorem keeps_onOwnWords {act : UInt32 → DeviceCells κ × Cells κ UInt32 → Outcome (DeviceCells κ × Cells κ UInt32)}
    (h : ∀ t state, HasRoom room state.1 → (act t state).Ensures (HasRoom room ·.1)) :
    LaneAction.Keeps (HasRoom room) (ThreadAction.lane fun thread => onOwnWords count thread act) :=
  fun n _ hstate => ensures_onOwnWords (Q := fun state : DeviceCells κ × Cells κ UInt32 =>
    HasRoom room state.1) h count (UInt32.ofNat n) hstate

theorem keeps_loadWords :
    LaneAction.Keeps (HasRoom room) (loadWords base count indexed : ThreadAction κ).lane :=
  keeps_onOwnWords count fun _ _ hstate => hstate.load (Cells.refusedOnly_load _ _ _) _ _

theorem keeps_exchangeWords [KeyOrder κ] (flag round : UInt32) :
    LaneAction.Keeps (HasRoom room) (exchangeWords flag indexed count round : ThreadAction κ).lane :=
  fun _ _ hstate => Outcome.ensures_ite (fun _ =>
    hstate.exchange (outOfOrder flag) (Cells.refusedOnly_swap _ _ _ _) _ _ _) fun _ => hstate

theorem keeps_storeWords :
    LaneAction.Keeps (HasRoom room) (storeWords base count indexed : ThreadAction κ).lane :=
  keeps_onOwnWords count fun _ _ hstate => hstate.unload (Cells.refusedOnly_load _ _ _) _ _

end Tiles

theorem keeps_tileGroup [Element κ] (flag axisLen rows tile threads : UInt32) (indexed : Bool) (memory : GroupMemory)
    (group : Workgroup) :
    (tileGroup flag axisLen rows tile threads indexed memory group : GroupBlock κ).Keeps (HasRoom room) := by
  intro row
  refine Outcome.ensures_ite (fun _ phase hphase => ?_) fun _ phase hphase => absurd hphase List.not_mem_nil
  simp only [List.cons_append, List.mem_cons, List.mem_append, List.mem_map, List.not_mem_nil, or_false] at hphase
  obtain rfl | ⟨round, -, rfl⟩ | rfl := hphase
  · exact keeps_loadWords _ _ _
  · exact keeps_exchangeWords _ _ _ _
  · exact keeps_storeWords _ _ _

/-! ### Merging on a device -/

theorem Window.refusedOnly_search {P : Refusal → Prop} {goesRight : UInt32 → Outcome Bool}
    (h : ∀ word, (goesRight word).RefusedOnly P) (window : Window) : (search goesRight window).RefusedOnly P := by
  rw [search]
  generalize 18446744073709551616 = budget
  induction budget generalizing window with
  | zero => exact Outcome.refusedOnly_fault _
  | succ budget ih => simp [shrink, h, ih]

section Merging

variable [KeyOrder κ] {P : Refusal → Prop} (src : Array κ)

@[simp]
theorem DeviceRun.refusedOnly_partition (run : DeviceRun) (flag diag : UInt32) :
    (run.partition src flag diag).RefusedOnly P :=
  Window.refusedOnly_search (fun mid => by simp) _

@[simp]
theorem MergeExtents.refusedOnly_cursor (extents : MergeExtents) (settings : MergeSettings) (group : Workgroup)
    (thread : UInt32) : (extents.cursor? settings src group thread).RefusedOnly P := by
  rw [cursor?]
  split <;> simp [DeviceRun.cursor]

@[simp]
theorem Cursor.refusedOnly_takesLeft (flag : UInt32) (cursor : Cursor) : (cursor.takesLeft src flag).RefusedOnly P := by
  simp [takesLeft]

omit [KeyOrder κ] in
theorem HasRoom.carryTogether {cells : DeviceCells κ} (h : HasRoom room cells) (indexed : Bool) (src dst : Side)
    (cursors : List (Cursor × Bool)) : (carryTogether indexed src dst cells cursors).Ensures (HasRoom room) := by
  refine Outcome.ensures_bind_of_refusedOnly (Outcome.refusedOnly_mapM (fun cursor => by simp) _) fun loaded _ => ?_
  exact Outcome.ensures_foldlM (fun moved _ cells hcells => hcells.store _ _ _) h

/-- The turns of the threads of a group keep the room of the buffers. -/
theorem HasRoom.mergeTurns {cells : DeviceCells κ} (h : HasRoom room cells) (settings : MergeSettings) (src dst : Side)
    (turns : Nat) (cursors : List Cursor) :
    (mergeTurns settings src dst turns cells cursors).Ensures (HasRoom room) := by
  induction turns generalizing cells cursors with
  | zero => exact h
  | succ turns ih =>
    refine Outcome.ensures_ite (fun _ => h) fun _ => ?_
    refine Outcome.ensures_bind (Q := fun result => HasRoom room result.1) ?_
      fun result hresult => ih hresult _
    refine Outcome.ensures_bind_of_refusedOnly (Outcome.refusedOnly_mapM (fun cursor => by simp) _) fun sided _ => ?_
    refine Outcome.ensures_bind (h.carryTogether _ src dst _) fun cells hcells => ?_
    exact Outcome.ensures_bind (hcells.carryTogether _ src dst _) fun cells hcells => hcells

theorem HasRoom.mergeGroup {cells : DeviceCells κ} (h : HasRoom room cells) (settings : MergeSettings) (src dst : Side)
    (extents : MergeExtents) (threads : UInt32) (group : Workgroup) :
    (mergeGroup settings src dst extents threads cells group).Ensures (HasRoom room) := by
  refine Outcome.ensures_bind_of_refusedOnly (Outcome.refusedOnly_mapM (fun n => by simp) _) fun cursors _ => ?_
  exact h.mergeTurns settings src dst _ _

end Merging

/-! ### Kernels -/

variable [Element κ]

/-- A kernel keeps the room of the buffers, and is never refused. -/
def Kernel.Keeps (room : DoubleBuffer (Nat × Option Nat)) (kernel : Kernel κ) : Prop :=
  ∀ cells group, HasRoom room cells →
    (kernel cells group).Ensures fun result => HasRoom room result.1

omit [Element κ] in
theorem Kernel.keeps_ofBlock {block : Workgroup → GroupBlock κ}
    (h : ∀ group, (block group).Keeps (HasRoom room)) : Kernel.Keeps room (.ofBlock block) :=
  fun _ group hcells => Outcome.ensures_bind ((h group).ensures_run hcells) fun _ hresult => hresult

/-- The kernels of a program keep the room of the buffers. -/
theorem Launch.keeps_kernel (launch : Launch) (program : Program) (extents : DeviceExtents) (memory : GroupMemory)
    (input : Array κ) : Kernel.Keeps room (launch.kernel program extents memory input).1 := by
  obtain ⟨stage, grid⟩ := launch
  cases stage with
  | copyIn => exact Kernel.keeps_ofBlock fun group => keeps_copyInGroup _ _ _ _ _ _ _
  | sortTiles tile => exact Kernel.keeps_ofBlock fun group => keeps_tileGroup _ _ _ _ _ _ _ _
  | mergeRuns pass src dst shape =>
    intro cells group hcells
    exact Outcome.ensures_bind (hcells.mergeGroup _ _ _ _ _ _) fun merged hmerged => hmerged
  | copyBack => exact Kernel.keeps_ofBlock fun group => keeps_copyBackGroup _ _ _ _ _

omit [Element κ] in
/-- A launch on a device is never refused, and keeps the room of the buffers. -/
theorem Kernel.Keeps.ensures_launch {kernel : Kernel κ} (h : Kernel.Keeps room kernel) (grid : Grid)
    {cells : DeviceCells κ} (hcells : HasRoom room cells) :
    (kernel.launch grid cells).Ensures fun result => HasRoom room result.1 := by
  refine Outcome.ensures_foldlM (Q := fun state : DeviceCells κ × Nat => HasRoom room state.1)
    (fun group _ state hstate => ?_) hcells
  exact Outcome.ensures_bind (h state.1 group hstate) fun result hresult => hresult

/-! ### Searching -/

@[simp]
theorem refusedOnly_searchRow {P : Refusal → Prop} (sorted : Array κ) (right : Bool) (start range : UInt32)
    (needle : κ) : (DeviceEngine.searchRow sorted right start range needle).RefusedOnly P :=
  Window.refusedOnly_search (fun mid => by simp) _

/-- A search on a device is never refused, and finds as many places as there is room for. -/
theorem ensures_launchSearch (sorted values : Array κ) (right batched : Bool) (range perRow total : UInt32)
    (grid : Grid) (places : Array UInt32) :
    (DeviceEngine.launchSearch sorted values right batched range perRow total grid places).Ensures
      fun found => found.size = places.size := by
  refine Outcome.ensures_foldlM (Q := fun found : Array UInt32 => found.size = places.size)
    (fun group _ found hfound => ?_) rfl
  refine ensures_forLanes (fun n found hfound => Outcome.ensures_ite (fun _ => ?_) fun _ => hfound) _ hfound
  refine Outcome.ensures_bind_of_refusedOnly (Buffer.refusedOnly_read _ _) fun needle _ => ?_
  refine Outcome.ensures_bind_of_refusedOnly (refusedOnly_searchRow _ _ _ _ _) fun place _ => ?_
  exact (Buffer.ensures_write found _ place).mono fun written hwritten => hwritten.trans hfound

end Device

end MergePathSort
