import MergePathSort.Bench.Transcript
import MergePathSort.Demo

/-!
# The command line

`demo` runs the demonstration, with the configuration in the file that the variable `SORT_CONFIG` names, if it is
set. `bench` runs a benchmark and takes the size, the iterations and the rows.
-/

namespace MergePathSort

/-- The time that a piece of work takes, in milliseconds. -/
def timed (work : Unit → Outcome Unit) : IO (Outcome Float) := do
  let start ← IO.monoNanosNow
  match work () with
  | .error failure => return .error failure
  | .ok () =>
    let stop ← IO.monoNanosNow
    return .ok (Float.ofNat (stop - start) / 1000000.0)

/-- The times of a number of runs, up to the first that fails. -/
def timedRuns (work : Unit → Outcome Unit) : Nat → IO (Outcome (List Float))
  | 0 => return .ok []
  | count + 1 => do
    match ← timed work with
    | .error failure => return .error failure
    | .ok time => return (← timedRuns work count).map (time :: ·)

/-- The console of a terminal. -/
def terminal : Console IO where
  print text := do
    let out ← IO.getStdout
    out.putStr text
    out.flush
  measure count work := timedRuns work count

/-- The contents of a file, if it can be read. -/
def fileContents (path : String) : IO (Option Json.Text) := do
  try
    let bytes ← IO.FS.readBinFile path
    return some bytes.toList
  catch _ => return none

/-- Ends the command: says why it cannot go on, and gives the exit code. -/
def conclude (ending : Ending) : IO UInt32 := do
  match ending with
  | .finished => return ending.code
  | .failed message => IO.eprintln message
  | .crashed _ => IO.eprintln "the command crashed"
  return ending.code

end MergePathSort

open MergePathSort

/-- The command line: a command and its arguments. -/
def main (args : List String) : IO UInt32 := do
  match args with
  | "bench" :: rest => conclude (← Bench.run terminal rest)
  | ["demo"] =>
    let file? ← (← IO.getEnv "SORT_CONFIG").mapM fileContents
    conclude (← Demo.run terminal file?)
  | _ => conclude (.failed "usage: demo | bench [SIZE] [ITERATIONS] [ROWS]")
