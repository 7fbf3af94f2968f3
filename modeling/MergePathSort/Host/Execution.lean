import MergePathSort.Host.Stages

/-!
# Running a program on the host

The host runs the launches of a program one after the other, the rows of a launch independently of each other, the
blocks of a row in order and the lanes of a block phase by phase. The result is left on the front sides. Before
the first launch the lengths of the input and of the buffers are checked, so a refused run changes nothing.

## Main definitions

* `Report` : the launches, blocks and barriers that were executed.
* `Program.execute` : runs a program on an input and given buffers.
* `HostRunner`, `HostRunner.run` : a runner, which keeps a report of all its runs.
-/

namespace MergePathSort

/-- What has been executed. -/
structure Report where
  /-- The launches. -/
  launches : Nat := 0
  /-- The blocks of all rows. -/
  blocks : Nat := 0
  /-- The barriers that they passed. -/
  barriers : Nat := 0
  deriving DecidableEq, Inhabited

/-- Reports add up. -/
instance : Add Report := ⟨fun a b => ⟨a.launches + b.launches, a.blocks + b.blocks, a.barriers + b.barriers⟩⟩

/-- The report of one launch. -/
def Report.ofLaunch (used : Usage) : Report := ⟨1, used.blocks, used.barriers⟩

variable {κ ι : Type}

/-- Two buffers of zeros. -/
def DoubleBuffer.zeros [Element κ] (len : Nat) : DoubleBuffer (Array κ) :=
  .both (Array.replicate len Element.zero)

/-- Two buffers of zeros, if there can be buffers of that length. -/
def DoubleBuffer.allocate (κ : Type) [Element κ] (len : Nat) : Outcome (DoubleBuffer (Array κ)) := do
  Buffer.requireRoom len (Element.width κ)
  return .zeros len

/-- The buffers that a program works on: the keys, and the indices if there are any. -/
structure Buffers (κ ι : Type) where
  /-- The keys. -/
  keys : DoubleBuffer (Array κ)
  /-- The indices. -/
  indices : Option (DoubleBuffer (Array ι))
  deriving DecidableEq

/-- Refuses a buffer of another length. -/
def checkLength (expected actual : Nat) : Outcome Unit :=
  if expected = actual then .ok () else .refuse (.bufferMismatch expected actual)

namespace Buffers

/-- One side of a row: its part of the keys, and of the indices if they are tracked. -/
def rowCells (axisLen row : Nat) (keys : Array κ) (indices : Option (Array ι)) : Cells κ ι :=
  let part {α : Type} (buffer : Array α) : Array α := buffer.extract (row * axisLen) (row * axisLen + axisLen)
  ⟨part keys, indices.map part⟩

/-- The rows of the buffers. -/
def rows (buffers : Buffers κ ι) (axisLen : Nat) : List (RowCells κ ι) :=
  (List.range (buffers.keys.front.size / axisLen)).map fun row =>
    ⟨rowCells axisLen row buffers.keys.front (buffers.indices.map (·.front)),
     rowCells axisLen row buffers.keys.back (buffers.indices.map (·.back))⟩

/-- A buffer put together from rows. -/
def join {α : Type} (rows : List (Array α)) : Array α := rows.foldl (· ++ ·) #[]

/-- The buffers put together from rows. -/
def ofRows (rows : List (RowCells κ ι)) (indexed : Bool) : Buffers κ ι where
  keys := ⟨join (rows.map (·.front.keys)), join (rows.map (·.back.keys))⟩
  indices :=
    if indexed then
      some ⟨join (rows.filterMap (·.front.indices)), join (rows.filterMap (·.back.indices))⟩
    else none

end Buffers

variable [Element κ] [IndexElement ι]

/-- Runs a launch on all rows. -/
def Launch.execute (launch : Launch) (program : Program) (input : Array κ) (rows : List (RowCells κ ι)) :
    Outcome (List (RowCells κ ι) × Report) := do
  let done ← rows.zipIdx.mapM fun (cells, row) =>
    Block.runAll (launch.blocksOnRow program input row) cells
  return (done.map (·.1), .ofLaunch (done.foldl (fun used result => used + result.2) {}))

/-- Runs launches one after the other. -/
def Program.runLaunches (program : Program) (input : Array κ) (rows : List (RowCells κ ι)) :
    Outcome (List (RowCells κ ι) × Report) :=
  program.launches.foldlM (fun (rows, report) launch => do
    let (rows, more) ← launch.execute program input rows
    return (rows, report + more)) (rows, {})

/-- Runs a program. The index buffers are checked, used and given back only if the program tracks indices; a
program that does not leaves them alone. -/
def Program.execute (program : Program) (input : Array κ) (buffers : Buffers κ ι) :
    Outcome (Buffers κ ι × Report) := do
  let total ← program.view.total
  checkLength total input.size
  checkLength total buffers.keys.front.size
  if program.indexed then
    match buffers.indices with
    | none => .refuse (.bufferMismatch total 0)
    | some indices => checkLength total indices.front.size
  if program.isEmpty then return (buffers, {})
  if !program.view.isPacked then .fault .assertion
  if program.view.axisLen = 0 then .fault .arithmetic
  let tracked : Buffers κ ι := ⟨buffers.keys, if program.indexed then buffers.indices else none⟩
  let (rows, report) ← program.runLaunches input (tracked.rows program.view.axisLen)
  let result := Buffers.ofRows rows program.indexed
  return (⟨result.keys, if program.indexed then result.indices else buffers.indices⟩, report)

/-! ### Runners -/

/-- A runner of programs, which keeps a report. -/
structure HostRunner where
  /-- What has been executed since the report was last cleared. -/
  report : Report := {}
  deriving DecidableEq, Inhabited

/-- Runs a program and adds it to the report. -/
def HostRunner.run (runner : HostRunner) (program : Program) (input : Array κ) (buffers : Buffers κ ι) :
    Outcome (Buffers κ ι × HostRunner) := do
  let (buffers, more) ← program.execute input buffers
  return (buffers, ⟨runner.report + more⟩)

/-- Clears the report. -/
def HostRunner.reset (_runner : HostRunner) : HostRunner := {}

end MergePathSort
