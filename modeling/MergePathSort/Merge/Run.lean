import MergePathSort.Key.Order
import MergePathSort.Outcome

/-!
# Merging two adjacent runs along a merge path

Two sorted runs of a row are merged by moves, each from a source position to a destination. A position `diag` of
the merged run is a diagonal of the grid spanned by the two runs. A binary search along the diagonal finds how
many elements of the left run stand before it, so a lane can start there without knowing what others do. No
assumption on the keys is built in: the search and the moves are defined for any comparison and any positions.

## Main definitions

* `Run`, `Segment`, `Segment.whole` : two adjacent runs, and the part of a row that a merge pass merges.
* `Run.partition` : the number of left elements before a diagonal.
* `Run.moves` : the moves that start at a diagonal.
-/

namespace MergePathSort

/-- A left run and a right run of a row. -/
structure Run where
  /-- Where the left run starts. -/
  leftStart : Nat
  /-- The length of the left run. -/
  leftLen : Nat
  /-- Where the right run starts. -/
  rightStart : Nat
  /-- The length of the right run. -/
  rightLen : Nat
  deriving DecidableEq, Inhabited

/-- The number of elements of both runs. -/
def Run.total (run : Run) : Outcome Nat := Size.add run.leftLen run.rightLen

/-- An element is taken from `source` and stored at `destination`. -/
structure Move where
  /-- Where the element is taken from. -/
  source : Nat
  /-- Where it is stored. -/
  destination : Nat
  deriving DecidableEq, Inhabited

/-! ### Segments -/

/-- A segment of a row: its left run from `start` to `middle`, its right run from there to `stop`. -/
structure Segment where
  /-- Where the left run starts. -/
  start : Nat
  /-- Where the left run stops and the right run starts. -/
  middle : Nat
  /-- Where the right run stops. -/
  stop : Nat
  deriving DecidableEq, Inhabited

namespace Segment

/-- The segment with a number in a row of `size` elements that is cut into segments of `width`. The last segments
are cut off where the row ends. -/
def ofNumber (number width size : Nat) : Outcome Segment := do
  let start ← Size.mul width number
  return { start
           middle := min (← Size.add start (width / 2)) size
           stop := min (← Size.add start width) size }

/-- The number of elements. -/
def len (segment : Segment) : Outcome Nat := Size.sub segment.stop segment.start

/-- The segment stops where it starts. -/
def isEmpty (segment : Segment) : Bool := segment.stop == segment.start

/-- Both runs of the segment. -/
def whole (segment : Segment) : Outcome Run := do
  return { leftStart := segment.start
           leftLen := ← Size.sub segment.middle segment.start
           rightStart := segment.middle
           rightLen := ← Size.sub segment.stop segment.middle }

end Segment

/-! ### Diagonal search -/

variable {κ : Type} [KeyOrder κ]

/-- On a diagonal, the left element numbered `mid` may stand before the right element across from it. -/
def Run.leftFirst (src : Array κ) (run : Run) (direction : Direction) (diag mid : Nat) : Outcome Bool := do
  let a ← Buffer.read src (← Size.add run.leftStart mid)
  let b ← Buffer.read src (← Size.sub (← Size.sub (← Size.add run.rightStart diag) 1) mid)
  return direction.mayPrecede a b

/-- Halves the interval from `first` to `last` until it is empty: to the right of a left element that stands
before its opposite, to the left of one that does not. -/
def Run.bisect (src : Array κ) (run : Run) (direction : Direction) (diag first last : Nat) : Outcome Nat :=
  if first < last then do
    let _ ← Size.add first last
    if ← run.leftFirst src direction diag ((first + last) / 2) then
      run.bisect src direction diag ((first + last) / 2 + 1) last
    else run.bisect src direction diag first ((first + last) / 2)
  else .ok first
termination_by last - first

/-- The number of elements of the left run among the first `diag` outputs. -/
def Run.partition (src : Array κ) (run : Run) (direction : Direction) (diag : Nat) : Outcome Nat :=
  run.bisect src direction diag (diag - run.rightLen) (min diag run.leftLen)

/-! ### Moves -/

/-- The next output comes from the left run: there is a left element, and no right element that must stand
before it. -/
def takesLeft (src : Array κ) (direction : Direction) (leftStop rightStop i j : Nat) : Outcome Bool :=
  if i < leftStop then
    if rightStop ≤ j then .ok true
    else do return direction.mayPrecede (← Buffer.read src i) (← Buffer.read src j)
  else .ok false

/-- The moves of `count` outputs, the first of them to `out`, with the runs read from `i` and `j` on. -/
def movesFrom (src : Array κ) (direction : Direction) (leftStop rightStop : Nat) :
    Nat → Nat → Nat → Nat → Outcome (List Move)
  | 0, _, _, _ => .ok []
  | count + 1, i, j, out => do
    let destination ← Size.fit out
    if ← takesLeft src direction leftStop rightStop i j then
      let rest ← movesFrom src direction leftStop rightStop count (← Size.add i 1) j (out + 1)
      return ⟨i, destination⟩ :: rest
    else
      let rest ← movesFrom src direction leftStop rightStop count i (← Size.add j 1) (out + 1)
      return ⟨j, destination⟩ :: rest

/-- The moves of at most `step` outputs from a diagonal on, when `first` left elements stand before it. The
outputs of the runs are stored from `outStart` on. -/
def Run.moves (src : Array κ) (run : Run) (direction : Direction) (outStart diag step first : Nat) :
    Outcome (List Move) := do
  let leftStop ← Size.add run.leftStart run.leftLen
  let rightStop ← Size.add run.rightStart run.rightLen
  let i ← Size.add run.leftStart first
  let j ← Size.sub (← Size.add run.rightStart diag) first
  let left ← Size.sub (← run.total) diag
  movesFrom src direction leftStop rightStop (min left step) i j (outStart + diag)

end MergePathSort
