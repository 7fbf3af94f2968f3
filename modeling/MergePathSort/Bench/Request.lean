import MergePathSort.Bench.Size
import MergePathSort.Console

/-!
# Requests for a benchmark

A benchmark is asked for by up to three arguments: the size, the number of iterations, and the number of rows into
which the size is divided. Arguments are judged from left to right.

## Main definitions

* `Request`, `Request.parse` : what is to be measured.
-/

namespace MergePathSort.Bench

/-- What is to be measured. -/
structure Request where
  /-- The number of elements. -/
  size : Nat := 262144
  /-- The number of measured iterations. -/
  iterations : Nat := 20
  /-- The number of rows. -/
  rows : Nat := 1
  deriving DecidableEq, Inhabited

/-- A command that fails by an outcome: a refusal is shown as text, a fault crashes it. -/
def endingOf (refusalText : Refusal → String) : Failure → Ending
  | .refused error => .failed (refusalText error)
  | .faulted fault => .crashed fault

/-- The size that an argument asks for. -/
def sizeArgument (text : String) : Except Ending Nat :=
  match readSize text with
  | .ok (some size) => .ok size
  | .ok none => .error (.failed s!"Invalid size: {text}. Use 64kb, 256mb, 1gb, or element count")
  | .error failure => .error (endingOf Refusal.message failure)

/-- The number that an argument asks for. -/
def countArgument (what text : String) : Except Ending Nat :=
  match parseNatural text.toList with
  | some n => .ok n
  | none => .error (.failed s!"Invalid {what}: {text}. Use a positive number")

namespace Request

/-- What the arguments ask for. Arguments after the third say nothing. At least one iteration is measured. -/
def parse (args : List String) : Except Ending Request := do
  let size ← (args[0]?.mapM sizeArgument : Except Ending (Option Nat))
  let iterations ← (args[1]?.mapM (countArgument "iterations") : Except Ending (Option Nat))
  let rows ← (args[2]?.mapM (countArgument "rows") : Except Ending (Option Nat))
  let standard : Request := {}
  let size := size.getD standard.size
  let rows := rows.getD standard.rows
  if rows = 0 ∨ size % rows ≠ 0 then
    .error (.failed s!"Size {size} is not divisible into {rows} rows")
  return { size, iterations := max (iterations.getD standard.iterations) 1, rows }

/-- The length of a row. -/
def axisLen (request : Request) : Nat := request.size / request.rows

/-- The iterations before those that are measured. -/
def warmups (request : Request) : Nat := min request.iterations 5

end Request

end MergePathSort.Bench
