import MergePathSort.Device.MergeKernel
import MergePathSort.Device.Pool
import MergePathSort.Plan.Program
import MergePathSort.Search

/-!
# The device engine

The engine runs programs and searches on a device. Every call allocates its buffers in the engine's pool, launches
kernels one after the other, and gives the buffers back, whether it succeeds or is refused. A program is refused
before anything is launched: if the input has another length, if a tile does not fit the scratch of a group, or if
an extent does not fit a 32-bit word.

Nothing is known of what new buffers and the scratch of a group hold before anything is stored there. A device has
functions that say what it is, its engines keep them, and what is proved of engines holds whatever the functions are. An
engine that runs finds zeros.

## Main definitions

* `Device`, `DeviceEngine`, `DeviceEngine.ofDevice`, `DeviceEngine.ofConfig` : engines.
* `LaunchRecord` : a kernel launch as it was issued.
* `OpenCall`, `OpenCall.track`, `DeviceEngine.call` : calls, and the buffers that a call owns.
* `DeviceEngine.execute` : runs a program.
* `DeviceEngine.search` : places needles into sorted rows.
-/

namespace MergePathSort

/-- What a device offers, and what its memory holds before anything is stored there. -/
structure Device where
  /-- The largest number of threads of a group. -/
  threads : UInt32 := 1024
  /-- The bytes of scratch of a group. -/
  shared : UInt64 := 49152
  /-- The bytes of reserved buffers, by the buffer's number and the byte's place. -/
  reserved : Nat → Nat → UInt8 := fun _ _ => 0
  /-- The scratch of the groups of a launch, by the number of the next buffer and the launches in the log. No two launches
  of a call and no two calls share it. -/
  scratch : Nat → Nat → GroupMemory := fun _ _ _ _ => 0
  deriving Inhabited

/-- The limits of a device. -/
def Device.limits (device : Device) : Limits where
  maxLanes := device.threads
  fixedLanes := false
  sharedBytes := device.shared

/-- A kernel launch as it was issued. -/
structure LaunchRecord where
  /-- The groups along the three axes of the grid. -/
  count : UInt32 × UInt32 × UInt32
  /-- The threads of a group. -/
  threads : UInt32
  /-- The words handed to the kernel, in order. -/
  scalars : List UInt32
  /-- The lengths of the buffers handed to the kernel, in order. -/
  buffers : List Nat
  /-- The barriers that its groups passed. -/
  syncs : Nat
  /-- The bytes of scratch that the threads of a group share. -/
  scratch : Nat
  deriving DecidableEq, Inhabited

/-- The record of a launch on a grid. -/
def LaunchRecord.ofGrid (grid : Grid) (scalars : List UInt32) (buffers : List Nat) (syncs scratch : Nat) :
    LaunchRecord :=
  let (y, z) := grid.layers
  ⟨(grid.blocksPerRow, y, z), grid.lanes, scalars, buffers, syncs, scratch⟩

/-- An engine on a device. -/
structure DeviceEngine where
  /-- The configuration that programs are lowered with. -/
  config : Config
  /-- The buffers. -/
  pool : Pool := {}
  /-- The launches issued so far, the last one first. -/
  log : List LaunchRecord := []
  /-- What the scratch of the groups of a launch holds when they start, by the number of the next buffer and the launches
  in the log. -/
  unwritten : Nat → Nat → GroupMemory := fun _ _ _ _ => 0
  deriving Inhabited

/-- What the scratch of the groups holds when the next launch starts them. -/
def DeviceEngine.groupMemory (engine : DeviceEngine) : GroupMemory :=
  engine.unwritten engine.pool.nextNumber engine.log.length

/-- A new engine on a device. -/
def Device.engine (device : Device) (config : Config) : DeviceEngine where
  config := config
  pool := { unwritten := device.reserved }
  unwritten := device.scratch

/-- The engine shaped by what a device offers. -/
def DeviceEngine.ofDevice (device : Device) : Outcome DeviceEngine := do
  return device.engine (← Config.checked { limits := device.limits })

/-- The engine of a configuration, whose blocks must not be larger than the device's groups. -/
def DeviceEngine.ofConfig (device : Device) (config : Config) : Outcome DeviceEngine := do
  config.validate
  if device.threads < config.limits.maxLanes then
    .refuse (ConfigProblem.lanesBeyondDevice config.limits.maxLanes device.threads).refusal
  return device.engine config

/-! ### Calls -/

/-- An engine inside a call. -/
structure OpenCall where
  /-- The engine. -/
  engine : DeviceEngine
  /-- The buffers that the call has allocated so far and owns, in order. -/
  owned : List BufferName := []

namespace OpenCall

variable {α : Type}

/-- Allocates a buffer, which the call owns from then on. -/
def track (allocate : Pool → Outcome (BufferName × Pool)) : Stateful OpenCall BufferName := do
  let state ← get
  let (name, pool) ← Stateful.ofOutcome (allocate state.engine.pool)
  set (⟨{ state.engine with pool }, state.owned ++ [name]⟩ : OpenCall)
  return name

/-- A step of the engine inside a call. -/
def onEngine (step : Stateful DeviceEngine α) : Stateful OpenCall α := fun state =>
  let (outcome, engine) := step state.engine
  (outcome, { state with engine })

end OpenCall

namespace DeviceEngine

/-- Gives buffers back. -/
def freeBuffers (names : List BufferName) : Stateful DeviceEngine Unit :=
  names.forM fun name => do
    let engine ← get
    set { engine with pool := ← Stateful.ofOutcome (engine.pool.free name) }

/-- Makes a call. Whether it succeeds or is refused, the buffers that it owns are given back; if it faults, it ends
where it stands. -/
def call {α : Type} (body : Stateful OpenCall α) : Stateful DeviceEngine α := fun engine =>
  match body ⟨engine, []⟩ with
  | (.error (.faulted fault), state) => (Outcome.fault fault, state.engine)
  | (outcome, state) => (do freeBuffers state.owned; Stateful.ofOutcome outcome : Stateful DeviceEngine α) state.engine

end DeviceEngine

/-- The kernels of a call read and write the sort buffers. -/
abbrev Kernel (κ : Type) : Type := DeviceCells κ → Workgroup → Outcome (DeviceCells κ × Nat)

variable {κ : Type}

/-- A kernel whose groups are blocks. A barrier is passed only if the group has a thread. -/
def Kernel.ofBlock (block : Workgroup → GroupBlock κ) : Kernel κ := fun cells group => do
  let (cells, used) ← (block group).run cells
  return (cells, if (block group).lanes = 0 then 0 else used.barriers)

/-- Runs a kernel on all groups of a grid, and counts the barriers. -/
def Kernel.launch (kernel : Kernel κ) (grid : Grid) (cells : DeviceCells κ) :
    Outcome (DeviceCells κ × Nat) :=
  (Workgroup.all grid).foldlM (fun (cells, syncs) group => do
    let (cells, more) ← kernel cells group
    return (cells, syncs + more)) (cells, 0)

variable [Element κ]

/-! ### Programs -/

/-- The extents of a program as words. -/
structure DeviceExtents where
  /-- The length of a row. -/
  axisLen : UInt32
  /-- The stride of a row. -/
  after : UInt32
  /-- The number of rows. -/
  rows : UInt32

/-- The extents of a view, if they fit words. -/
def DeviceExtents.ofView (view : AxisView) : Outcome DeviceExtents := do
  return { axisLen := ← toWord view.axisLen .deviceExtent
           after := ← toWord view.after .deviceExtent
           rows := ← toWord (← view.rowCount) .deviceExtent }

/-- The kernel of a launch and the words that it is handed, where the scratch of its groups holds `memory` when they
start. -/
def Launch.kernel (launch : Launch) (program : Program) (extents : DeviceExtents) (memory : GroupMemory)
    (data : Array κ) : Kernel κ × List UInt32 :=
  let ⟨axisLen, after, rows⟩ := extents
  let threads := launch.grid.lanes
  let flag := program.direction.flag
  let indexed := program.indexed
  match launch.stage with
  | .copyIn => (.ofBlock (copyInGroup data axisLen after rows threads indexed), [axisLen, after, rows])
  | .sortTiles tile => (.ofBlock (tileGroup flag axisLen rows tile threads indexed memory), [axisLen, rows])
  | .mergeRuns _ src dst shape =>
    let settings := MergeSettings.ofSharing shape.sharing flag indexed
    let merged : MergeExtents := ⟨axisLen, shape.width, rows, shape.segments⟩
    (fun cells group => do return (← mergeGroup settings src dst merged threads cells group, 0),
      [axisLen, shape.width, rows, shape.segments, settings.step])
  | .copyBack => (.ofBlock (copyBackGroup axisLen rows threads indexed), [axisLen, rows])

/-- The bytes of scratch that the kernel of a stage shares within a group: the keys of a tile and their indices, or one
index if they are not tracked. -/
def Stage.scratchBytes (κ : Type) [Element κ] (stage : Stage) (indexed : Bool) : Nat :=
  match stage with
  | .sortTiles tile => tile.toNat * Element.width κ + (if indexed then tile.toNat else 1) * 4
  | _ => 0

/-- The elements that the buffers have room for which a launch is handed: the keys of both sides, or the input and
the keys it is copied to, and as many index buffers. -/
def Stage.bufferLengths (stage : Stage) (total indexLen : Nat) : List Nat :=
  let keys := Pool.room total
  let indices := Pool.room indexLen
  match stage with
  | .copyIn => [total, keys, indices]
  | _ => [keys, keys, indices, indices]

/-- The names of the buffers of a sort. -/
structure SortBuffers where
  /-- The input. -/
  data : BufferName
  /-- The keys. -/
  keys : DoubleBuffer BufferName
  /-- The indices. -/
  indices : DoubleBuffer BufferName

/-- The buffers' names, in the order in which they are allocated. -/
def SortBuffers.names (buffers : SortBuffers) : List BufferName :=
  [buffers.data, buffers.keys.front, buffers.keys.back, buffers.indices.front, buffers.indices.back]

/-- Allocates the buffers of a sort. -/
def SortBuffers.allocate (input : Array κ) (total indexLen : Nat) : Stateful OpenCall SortBuffers := do
  let data ← OpenCall.track fun pool => .ok (pool.upload input)
  let keysFront ← OpenCall.track (Pool.reserve κ · total)
  let keysBack ← OpenCall.track (Pool.reserve κ · total)
  let indicesFront ← OpenCall.track (Pool.reserve UInt32 · indexLen)
  let indicesBack ← OpenCall.track (Pool.reserve UInt32 · indexLen)
  return ⟨data, ⟨keysFront, keysBack⟩, ⟨indicesFront, indicesBack⟩⟩

/-- The cells of one side, as the pool holds them. -/
def SortBuffers.sideCells (κ : Type) [Element κ] (pool : Pool) (indexed : Bool)
    (keys indices : BufferName) : Outcome (Cells κ UInt32) := do
  let keys ← pool.elements κ keys
  if indexed then return ⟨keys, some (← pool.elements UInt32 indices)⟩
  else return ⟨keys, none⟩

/-- The pool with the cells of one side written back. -/
def SortBuffers.storeSide (pool : Pool) (keys indices : BufferName) (cells : Cells κ UInt32) : Pool :=
  let pool := pool.overwrite keys (Pool.encode cells.keys)
  match cells.indices with
  | some words => pool.overwrite indices (Pool.encode words)
  | none => pool

namespace DeviceEngine

/-- The bytes of scratch that a tile of a key type needs: its keys and their indices. -/
def scratchNeeded (κ : Type) [Element κ] (config : Config) : Nat :=
  config.tuning.tile.toNat * (Element.width κ + 4)

/-- Refuses a key type of which a tile does not fit the scratch. -/
def checkScratch (κ : Type) [Element κ] (config : Config) : Outcome Unit :=
  let needed := scratchNeeded κ config
  if config.limits.sharedBytes.toNat < needed then
    .refuse (ConfigProblem.tileBeyondScratch config.tuning.tile needed config.limits.sharedBytes).refusal
  else .ok ()

/-- Issues the launches of a program on its buffers. -/
def issueLaunches (program : Program) (extents : DeviceExtents) (data : Array κ) (total indexLen : Nat)
    (cells : DeviceCells κ) : Stateful DeviceEngine (DeviceCells κ) :=
  program.launches.foldlM (fun cells launch => do
    let memory := (← get).groupMemory
    let (kernel, scalars) := launch.kernel program extents memory data
    let (cells, syncs) ← Stateful.ofOutcome (kernel.launch launch.grid cells)
    let record := LaunchRecord.ofGrid launch.grid scalars (launch.stage.bufferLengths total indexLen) syncs
      (launch.stage.scratchBytes κ program.indexed)
    modify fun engine => { engine with log := record :: engine.log }
    return cells) cells

/-- Runs a program on buffers that are allocated. -/
def runOn (program : Program) (buffers : SortBuffers) (total indexLen : Nat) :
    Stateful DeviceEngine (Array κ × Option (Array UInt32)) := do
  let pool := (← get).pool
  let data ← Stateful.ofOutcome (pool.read κ buffers.data)
  let side (keys indices : BufferName) :=
    Stateful.ofOutcome (SortBuffers.sideCells κ pool program.indexed keys indices)
  let front ← side buffers.keys.front buffers.indices.front
  let back ← side buffers.keys.back buffers.indices.back
  let extents ← Stateful.ofOutcome (DeviceExtents.ofView program.view)
  let cells ← issueLaunches program extents data total indexLen ⟨front, back⟩
  modify fun engine =>
    let pool := SortBuffers.storeSide engine.pool buffers.keys.front buffers.indices.front cells.front
    { engine with pool := SortBuffers.storeSide pool buffers.keys.back buffers.indices.back cells.back }
  let pool := (← get).pool
  let keys ← Stateful.ofOutcome (pool.read κ buffers.keys.front)
  if program.indexed then
    return (keys, some (← Stateful.ofOutcome (pool.read UInt32 buffers.indices.front)))
  else return (keys, none)

/-- Runs a program: the sorted keys, and their source positions if the program tracks indices. -/
def execute (program : Program) (input : Array κ) :
    Stateful DeviceEngine (Array κ × Option (Array UInt32)) := call do
  let total ← Stateful.ofOutcome program.view.total
  if input.size ≠ total then
    return ← Stateful.ofOutcome (.refuse (.bufferMismatch total input.size))
  if program.isEmpty then
    return (#[], if program.indexed then some #[] else none)
  Stateful.ofOutcome (checkScratch κ (← get).engine.config)
  let indexLen := if program.indexed then total else 1
  let buffers ← SortBuffers.allocate input total indexLen
  OpenCall.onEngine (runOn program buffers total indexLen)

/-! ### Searches -/

/-- The search loop of a thread: the part of its row that is in front of its needle. -/
def searchRow (sorted : Array κ) (right : Bool) (start range : UInt32) (needle : κ) : Outcome UInt32 :=
  Window.search (fun mid => do
    return standsBefore right (← Buffer.read sorted (start + mid).toNat) needle) ⟨0, range⟩

/-- What a thread of the search kernel does: it places the needle of its number. -/
def searchThread (sorted values : Array κ) (right batched : Bool) (range perRow total threads : UInt32)
    (group : Workgroup) (thread : UInt32) (places : Array UInt32) : Outcome (Array UInt32) :=
  let number := group.position threads thread
  if number < total then do
    let start := if batched then number / perRow * range else 0
    let needle ← Buffer.read values number.toNat
    Buffer.write places number.toNat (← searchRow sorted right start range needle)
  else .ok places

/-- Runs the search kernel on a grid. -/
def launchSearch (sorted values : Array κ) (right batched : Bool) (range perRow total : UInt32) (grid : Grid)
    (places : Array UInt32) : Outcome (Array UInt32) :=
  (Workgroup.all grid).foldlM (fun places group =>
    forLanes grid.lanes.toNat (fun n =>
      searchThread sorted values right batched range perRow total grid.lanes group (UInt32.ofNat n)) places) places

/-- Searches with buffers that are allocated. -/
def searchOn (κ : Type) [Element κ] (haystack needles out : BufferName) (rowLen perRow : Nat) (batched right : Bool) :
    Stateful DeviceEngine (Array UInt32) := do
  let engine ← get
  let sorted ← Stateful.ofOutcome (engine.pool.read κ haystack)
  let values ← Stateful.ofOutcome (engine.pool.read κ needles)
  let places ← Stateful.ofOutcome (engine.pool.read UInt32 out)
  let grid ← Stateful.ofOutcome (Grid.perElement needles.len 1 engine.config.limits)
  let range ← Stateful.ofOutcome (toWord rowLen .deviceExtent)
  let perRow ← Stateful.ofOutcome (toWord (max perRow 1) .deviceExtent)
  let total ← Stateful.ofOutcome (toWord needles.len .deviceExtent)
  let places ← Stateful.ofOutcome (launchSearch sorted values right batched range perRow total grid places)
  let record := LaunchRecord.ofGrid grid [range, perRow, total] [haystack.len, needles.len, out.len] 0 0
  set { engine with
        pool := engine.pool.overwrite out (Pool.encode places)
        log := record :: engine.log }
  Stateful.ofOutcome ((← get).pool.read UInt32 out)

/-- Places needles into sorted rows of `rowLen` keys. If the rows are batched, each serves `perRow` needles
that follow each other. -/
def search (sorted values : Array κ) (rowLen perRow : Nat) (batched right : Bool) :
    Stateful DeviceEngine (Array UInt32) := do
  if values.isEmpty then return #[]
  if sorted.isEmpty || rowLen == 0 then return Array.replicate values.size 0
  call do
    let haystack ← OpenCall.track fun pool => .ok (pool.upload sorted)
    let needles ← OpenCall.track fun pool => .ok (pool.upload values)
    let out ← OpenCall.track (Pool.reserve UInt32 · values.size)
    OpenCall.onEngine (searchOn κ haystack needles out rowLen perRow batched right)

/-- The launches issued since the log was last taken, in order. -/
def takeLog : Stateful DeviceEngine (List LaunchRecord) := do
  let engine ← get
  set { engine with log := [] }
  return engine.log.reverse

end DeviceEngine

end MergePathSort
