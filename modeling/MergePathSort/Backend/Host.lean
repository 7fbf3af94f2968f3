import MergePathSort.Backend.Basic
import MergePathSort.Host.Execution

/-!
# The host backend

The host backend lowers the rows to a program and executes it. Its report counts what it has executed since it
was made.

## Main definitions

* `HostBackend`, `HostBackend.ofConfig` : the backend.
* `HostBackend.runRows` : sorts rows, with or without indices.
-/

namespace MergePathSort

/-- The host backend. -/
structure HostBackend where
  /-- The configuration that programs are lowered with. -/
  config : Config := {}
  /-- The runner of the programs. -/
  runner : HostRunner := {}
  deriving DecidableEq, Inhabited

namespace HostBackend

/-- The backend of a configuration, which must be valid. -/
def ofConfig (config : Config) : Outcome HostBackend := do
  return { config := ← config.checked }

/-- What has been executed. -/
def report (backend : HostBackend) : Report := backend.runner.report

variable {κ ι : Type} [Element κ] [IndexElement ι]

/-- Sorts rows on fresh buffers. -/
def runRows (data : Array κ) (axisLen : Nat) (direction : Direction) (indices : Option (DoubleBuffer (Array ι))) :
    Stateful HostBackend (Buffers κ ι) := do
  let backend ← get
  let shape ← Stateful.ofOutcome (splitRows data.size axisLen)
  let program ← Stateful.ofOutcome (Program.lower shape 1 direction indices.isSome backend.config)
  let (buffers, runner) ← Stateful.ofOutcome
    (backend.runner.run program data ⟨.zeros data.size, indices⟩)
  set { backend with runner }
  return buffers

end HostBackend

instance : Backend HostBackend where
  name := "host-mergepath"
  sort data axisLen direction := do
    if data.isEmpty then return #[]
    let buffers ← HostBackend.runRows (ι := UInt32) data axisLen direction none
    return buffers.keys.front
  argsort ι _ _ data axisLen direction := do
    if data.isEmpty then return (#[], #[])
    let buffers ← HostBackend.runRows (ι := ι) data axisLen direction (some (.zeros data.size))
    return (buffers.keys.front, (buffers.indices.map (·.front)).getD #[])
  search sorted values matching right := Stateful.ofOutcome (matching.search sorted values right)

end MergePathSort
