import MergePathSort.Backend.Host
import MergePathSort.Backend.Slice
import MergePathSort.Bench.Request
import MergePathSort.Bench.Summary
import MergePathSort.Decimal.Fixed
import MergePathSort.Text.Term

/-!
# Benchmarks

A benchmark sorts the same keys row by row on every backend, a number of times, and prints statistics of the times.

## Main definitions

* `keys` : the keys that are sorted.
* `Summary.lines` : the statistics as they are printed.
* `run` : the benchmark of a request on a console.
-/

namespace MergePathSort.Bench

/-! ### Keys -/

/-- The state of the generator of keys after the next key. -/
def nextState (state : UInt64) : UInt64 := state * 6364136223846793005 + 1442695040888963407

/-- The key that a state of the generator stands for, between -5000 and 5000. -/
def stateKey (state : UInt64) : Binary32 :=
  ⟨((state >>> 40).toFloat32 / 16777216.0 * 10000.0 - 5000.0).toBits⟩

/-- Keys in no order. -/
def keys (count : Nat) : Array Binary32 :=
  ((List.range count).foldl (fun (out, state) _ => (out.push (stateKey state), nextState state))
    (Array.mkEmpty count, nextState 1)).1

/-! ### Printing -/

/-- A number filled up with blanks on the left to eight characters. -/
def column (places : Nat) (x : Float) : String := Decimal.padLeft ' ' 8 (Binary64.fixed places ⟨x.toBits⟩)

/-- A line of the statistics. -/
def statistic (label : String) (value : String) : String :=
  "    " ++ (label ++ ":").pushn ' ' (14 - label.length) ++ value

/-- The statistics as they are printed: `launches` is the number of launches of a pass, if there are any. -/
def Summary.lines (summary : Summary) (name : String) (launches : Option Nat) : List String :=
  let time (label : String) (x : Float) := statistic label (column 3 x ++ " ms")
  let rate (label : String) (x : Float) := statistic label (column 2 x ++ " GB/s")
  let perLaunch (count : Nat) :=
    let micros := summary.average * 1000.0 / Float.ofNat (max count 1)
    statistic "Avg/Launch" (column 2 micros ++ s!" µs  ({count} launches)")
  ["", s!"  {name} argsort ({summary.iterations} iterations)", "  Timing Statistics:",
    time "Min (best)" summary.least, time "Median (P50)" summary.median, time "Average" summary.average] ++
  (launches.map perLaunch).toList ++
  [time "P95" summary.percentile95, time "P99" summary.percentile99, time "Max (worst)" summary.greatest,
    statistic "CV" (column 2 summary.variation ++ "%"), "", "  Throughput:",
    rate "Peak" summary.peakThroughput, rate "Average" summary.averageThroughput, ""]

/-- Dots for iterations. -/
def dots (count : Nat) : String := "".pushn '.' count

/-- What a benchmark prints about its request. -/
def Request.lines (request : Request) (program : Program) : Outcome (List String) := do
  let bytes ← Size.mul request.size elementBytes
  return ["Configuration:",
    s!"  Size:       {request.size} elements ({showBytes bytes})",
    s!"  Rows:       {request.rows} x {request.axisLen}",
    s!"  Passes:     {program.passCount} merge, reconcile={program.copiesBack}",
    s!"  Warmup:     {request.warmups} iterations",
    s!"  Benchmark:  {request.iterations} iterations", ""]

/-! ### Running -/

/-- One pass on a backend. A backend that loses keys is at fault. -/
def pass {β : Type} [Backend β] (backend : β) (request : Request) (data : Array Binary32) : Outcome Unit := do
  let argsorted : Stateful β (Array Binary32 × Array UInt32) :=
    Backend.argsort UInt32 data request.axisLen .ascending
  let (values, indices) ← (argsorted backend).1
  if values.size ≠ data.size ∨ indices.size ≠ data.size then .fault .assertion

variable {m : Type → Type} [Monad m]

/-- A benchmark on a console, which may end early. -/
abbrev Running (m : Type → Type) (α : Type) : Type := ExceptT Ending m α

/-- Goes on with an outcome, or ends. A refusal is shown as a term. -/
def goOn {α : Type} (outcome : Outcome α) : Running m α :=
  match outcome with
  | .ok x => pure x
  | .error failure => throw (endingOf (fun error => "Error: " ++ error.term) failure)

/-- The bytes of a time. -/
def timeBytes : Nat := 8

/-- Measures one backend and prints its statistics. The first runs warm up and are not counted. More times than a
buffer can hold are a fault, which is found when the backend has warmed up. -/
def measureBackend {β : Type} [Backend β] (console : Console m) (backend : β) (request : Request)
    (data : Array Binary32) (launches : Option Nat) : Running m Unit := do
  let name := Backend.name β
  let rule := "".pushn '-' 40
  let bytes := data.size * elementBytes
  console.printLines [rule, s!"{name}: {data.size} elements ({showBytes bytes})", rule]
  console.print s!"Warming up ({request.warmups} iterations)..."
  let room := Buffer.requireRoom request.iterations timeBytes
  let counted := if room.isOk then request.iterations else 0
  let times ← goOn (← console.measure (request.warmups + counted) fun _ => pass backend request data)
  console.printLine (dots request.warmups ++ " done")
  console.print s!"Benchmarking ({request.iterations} iterations)..."
  goOn room
  console.printLine (dots (request.iterations / 5) ++ " done")
  let summary ← goOn (Summary.ofRuns bytes ((times.drop request.warmups).map fun t => ⟨t.toBits⟩))
  console.printLines (summary.lines name launches)

/-- The benchmark of a request, on the host backend and on the slice backend. -/
def runRequest (console : Console m) (request : Request) : Running m Unit := do
  console.printLines ["", "== mergepath argsort benchmark ==", ""]
  let program ← goOn (Program.lower [request.rows, request.axisLen] 1 .ascending true {})
  console.printLines (← goOn (request.lines program))
  let data := keys request.size
  let host ← goOn (HostBackend.ofConfig {})
  measureBackend console host request data (some program.launches.length)
  let slice ← goOn (SliceBackend.ofWorkspace request.size)
  measureBackend console slice request data none
  console.printLines ["", "Benchmark complete!", ""]

/-- The benchmark that the arguments ask for. -/
def run (console : Console m) (args : List String) : m Ending := do
  match Request.parse args with
  | .error ending => return ending
  | .ok request =>
    match ← (runRequest console request).run with
    | .ok () => return .finished
    | .error ending => return ending

end MergePathSort.Bench
