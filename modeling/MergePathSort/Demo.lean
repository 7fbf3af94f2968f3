import MergePathSort.Backend.Host
import MergePathSort.Backend.Slice
import MergePathSort.Config.Text
import MergePathSort.Console
import MergePathSort.Tensor.Sort
import MergePathSort.Text.Term

/-!
# The demonstration

The demonstration sorts and searches a few small tensors on the host backend and on the slice backend, and prints
what comes out. It can be told to use a configuration from a file.

## Main definitions

* `demonstrations` : the lines that are printed for a backend.
* `run` : the demonstration on a console.
-/

namespace MergePathSort.Demo

/-! ### Printing -/

/-- A list between brackets. -/
def listText {α : Type} (text : α → String) (xs : Array α) : String :=
  "[" ++ ", ".intercalate (xs.toList.map text) ++ "]"

/-- The whole number that a float from one on is, cut to its whole part; smaller floats count as zero. -/
def wholePart (x : Binary32) : Nat :=
  let exponent := x.bits.toNat / 8388608 % 256
  let significand := 8388608 + x.bits.toNat % 8388608
  if exponent < 127 then 0 else significand * Nat.pow 2 (exponent - 127) / 8388608

/-- A key of the demonstration. They are all whole, and are shown with one place. -/
def keyText (x : Binary32) : String := toString (wholePart x) ++ ".0"

/-- Keys of the demonstration. -/
def keysText (xs : Array Binary32) : String := listText keyText xs

/-- Positions along an axis. -/
def positionsText {ι : Type} [Element ι] (xs : Array ι) : String :=
  listText (fun x => toString (Element.toNumber x)) xs

/-! ### What is shown -/

/-- Keys of whole numbers. -/
def keysOf (numbers : List Nat) : Array Binary32 := (numbers.map Binary32.ofNat).toArray

/-- The row that is sorted. -/
def row : Tensor Binary32 := .vector (keysOf [5, 1, 4, 2, 2])

/-- The tensor that is sorted along its middle axis. -/
def grid : Outcome (Tensor Binary32) :=
  Tensor.ofShape (keysOf ((List.range 24).map fun n => n * 7 % 11)) [2, 3, 4]

variable {β : Type} [Backend β]

/-- Sorts the row. -/
def showSort : Stateful β String := do
  let (values, indices) ← row.sortIndexed Int64 (-1) .ascending
  return s!"sort     {keysText row.data} -> {keysText values.data} {positionsText indices.data}"

/-- Takes the two greatest keys of the row. -/
def showTop : Stateful β String := do
  let kind ← Stateful.ofOutcome (ReturnKind.parse "both")
  let top ← row.top Int64 2 (-1) kind .descending
  let values := (top.values?.map (·.data)).getD #[]
  let indices := (top.indices?.map (·.data)).getD #[]
  return s!"topk k=2 {keysText values} {positionsText indices}"

/-- Sorts a tensor along its middle axis. -/
def showMiddle : Stateful β String := do
  let grid ← Stateful.ofOutcome grid
  let order ← grid.argsort UInt32 1 .descending
  return s!"argsort axis 1 of {sizesText grid.shape}: {positionsText order.data}"

/-- Places a needle into a sorted row, from the left and from the right. -/
def showSearch : Stateful β String := do
  let sorted : Tensor Binary32 := .vector (keysOf [1, 3, 3, 5])
  let needle : Tensor Binary32 := .vector (keysOf [3])
  let left ← sorted.searchLast Int64 needle false
  let right ← sorted.searchLast Int64 needle true
  return s!"searchsorted 3 -> left {positionsText left.data} right {positionsText right.data}"

/-- The lines that are printed for a backend. -/
def demonstrations : List (Stateful β String) := [showSort, showTop, showMiddle, showSearch]

/-! ### Running -/

variable {m : Type → Type} [Monad m]

/-- How the demonstration ends when something fails. -/
def endingOf : Failure → Ending
  | .refused error => .failed ("Error: " ++ Text.tupleTerm "Sort" error.term)
  | .faulted fault => .crashed fault

/-- Goes on with an outcome, or ends. -/
def goOn {α : Type} (outcome : Outcome α) : ExceptT Ending m α :=
  match outcome with
  | .ok x => pure x
  | .error failure => throw (endingOf failure)

/-- Prints the lines for a backend, each as soon as it is there. -/
def showAll (console : Console m) : List (Stateful β String) → β → ExceptT Ending m Unit
  | [], _ => return ()
  | line :: rest, backend => do
    let (outcome, backend) := line backend
    console.printLine ("[" ++ Backend.name β ++ "] " ++ (← goOn outcome))
    showAll console rest backend

/-- The demonstration with a configuration: the standard one, or that of a file, if it is there. -/
def runConfig (console : Console m) (file? : Option (Option Json.Text)) : ExceptT Ending m Unit := do
  let config ← match file? with
    | none => pure {}
    | some contents => goOn (Config.load contents)
  let _ ← goOn (Program.lower [4, 3000] 1 .ascending true config)
  let host ← goOn (HostBackend.ofConfig config)
  showAll console demonstrations host
  let slice ← goOn (SliceBackend.ofWorkspace 1024)
  showAll console demonstrations slice

/-- The demonstration. -/
def run (console : Console m) (file? : Option (Option Json.Text)) : m Ending := do
  match ← (runConfig console file?).run with
  | .ok () => return .finished
  | .error ending => return ending

end MergePathSort.Demo
