/-!
# Refusals of the sort engine

Everything the engine can refuse is a value of `Refusal`, which carries the cause; the wording shown to a user is
one function, `Refusal.message`.

## Main definitions

* `GridProblem` : why a problem size has no launch grid, with its wording `GridProblem.text`.
* `Json.Category` : the three ways in which reading configuration text fails.
* `Refusal`, `Refusal.message` : the refusals and their wording.
-/

namespace MergePathSort

/-- Reading JSON text fails in one of three ways: the text is not JSON, it is JSON of the wrong kind, or it
ends inside the value. -/
inductive Json.Category where
  /-- The text breaks the grammar. -/
  | malformed
  /-- The text is grammatical so far, but the value is not one that is asked for. -/
  | mismatched
  /-- The text ends inside or before the value. -/
  | truncated
  deriving DecidableEq, Inhabited

/-- The reasons for which a problem size has no launch grid: a size that is out of its domain, or an extent of
the grid that does not fit a 32-bit word. -/
inductive GridProblem where
  /-- The axis has no elements. -/
  | sizeZero
  /-- There are no rows. -/
  | rowsZero
  /-- A merge segment is narrower than two. -/
  | widthBelowTwo
  /-- The lane count does not fit. -/
  | lanes
  /-- The number of blocks of a row or a segment does not fit. -/
  | blocksPerRow
  /-- The number of rows, or of the segments of all rows, does not fit. -/
  | rows
  /-- The number of the segments of all rows does not even fit a size. -/
  | rowsOverflow
  /-- The outputs of one lane do not fit. -/
  | step
  /-- The outputs of one block do not fit. -/
  | stepCount
  /-- The segment width does not fit. -/
  | width
  /-- The number of segments does not fit. -/
  | segments
  /-- An extent handed to a device kernel does not fit. -/
  | deviceExtent
  deriving DecidableEq, Inhabited

/-- The wording of a grid problem: the offended rule, or the name of the extent that does not fit. -/
def GridProblem.text : GridProblem → String
  | .sizeZero => "problem size is zero"
  | .rowsZero => "row count is zero"
  | .widthBelowTwo => "merge width below 2"
  | .lanes => "lanes"
  | .blocksPerRow => "blocks_x"
  | .rows => "blocks_y"
  | .rowsOverflow => "blocks_y overflow"
  | .step => "step"
  | .stepCount => "step_count"
  | .width => "width"
  | .segments => "segments"
  | .deviceExtent => "extent exceeds u32"

/-- What the engine refuses to do, by cause. -/
inductive Refusal where
  /-- The axis is not one of a tensor of that rank. -/
  | invalidAxis (axis : Int) (rank : Nat)
  /-- The text names no way to return the top entries. -/
  | unknownReturnKind (text : String)
  /-- The needles' shape does not fit the haystack's. -/
  | searchShapeMismatch (sorted values : List Nat)
  /-- The problem size has no launch grid. -/
  | noGrid (problem : GridProblem)
  /-- A buffer has not the length that the program asks for. -/
  | bufferMismatch (expected actual : Nat)
  /-- Positions along the axis do not fit the index type. -/
  | indexRange (axisLen : Nat) (typeName : String)
  /-- A shape does not describe that many elements. -/
  | shapeMismatch (shape : List Nat) (len : Nat)
  /-- A configuration breaks a rule, or asks too much of a device. -/
  | invalidConfig (reason : String)
  /-- A configuration is written in another version. -/
  | configVersion (found expected : String)
  /-- The text of a configuration cannot be read. -/
  | unreadableText (category : Json.Category)
  /-- The file of a configuration cannot be opened. -/
  | missingFile
  /-- A lock was left behind by a task that failed. -/
  | poisonedLock (reason : String)
  /-- The device does not know a buffer. -/
  | device (reason : String)
  deriving DecidableEq, Inhabited

/-- A list of sizes is written between brackets, separated by a comma and a blank. -/
def sizesText (sizes : List Nat) : String :=
  "[" ++ ", ".intercalate (sizes.map toString) ++ "]"

/-- The wording of a refusal. -/
def Refusal.message : Refusal → String
  | .invalidAxis axis rank => s!"axis {axis} is out of range for a tensor of rank {rank}"
  | .unknownReturnKind text => s!"unknown return type '{text}', expected one of both, values, indices"
  | .searchShapeMismatch sorted values =>
    "searchsorted shape mismatch: sorted " ++ sizesText sorted ++ " vs values " ++ sizesText values
  | .noGrid problem => "invalid geometry: " ++ problem.text
  | .bufferMismatch expected actual => s!"buffer mismatch: expected {expected} elements, got {actual}"
  | .indexRange axisLen typeName => s!"axis length {axisLen} does not fit index type {typeName}"
  | .shapeMismatch shape len => "shape " ++ sizesText shape ++ s!" does not match {len} elements"
  | .invalidConfig reason => "invalid configuration: " ++ reason
  | .configVersion found expected => s!"config version {found} is not supported, expected {expected}"
  | .unreadableText .malformed => "malformed configuration text"
  | .unreadableText .mismatched => "configuration text of the wrong kind"
  | .unreadableText .truncated => "configuration text ends too early"
  | .missingFile => "IO Config Error"
  | .poisonedLock reason => "Poisoned lock: " ++ reason
  | .device reason => "device error: " ++ reason

end MergePathSort
