import MergePathSort.Key.Order
import MergePathSort.Outcome

/-!
# Searching sorted rows

A search places needles into sorted rows. A haystack of one axis serves every needle. A haystack of more axes
serves needles of the same rank and the same leading extents, each of its rows the needles of one row. The place
of a needle is the number of keys in front of it: those less than it, or, from the right, those that are not
greater.

## Main definitions

* `Matching`, `Matching.ofShapes` : how needles are matched with rows.
* `insertionPoint`, `Matching.search` : the place of one needle, and of all.
-/

namespace MergePathSort

/-- How needles are matched with the rows of a haystack. -/
structure Matching where
  /-- The length of a row. -/
  rowLen : Nat
  /-- The needles that one row serves. -/
  perRow : Nat
  /-- Every row of needles has a row of its own. -/
  batched : Bool
  /-- The number of needles. -/
  total : Nat
  deriving DecidableEq, Inhabited

/-- The matching of a haystack and needles of given shapes. -/
def Matching.ofShapes (sorted values : List Nat) : Outcome Matching := do
  let total ← Size.product values
  match sorted.reverse, values.reverse with
  | [], _ => .refuse (.searchShapeMismatch sorted values)
  | [rowLen], _ => return ⟨rowLen, total, false, total⟩
  | rowLen :: sortedLeading, perRow :: valuesLeading =>
    if sortedLeading = valuesLeading then return ⟨rowLen, perRow, true, total⟩
    else .refuse (.searchShapeMismatch sorted values)
  | _, [] => .refuse (.searchShapeMismatch sorted values)

/-- Where the row of a needle starts. -/
def Matching.rowStart (matching : Matching) (needle : Nat) : Outcome Nat :=
  if matching.batched ∧ 0 < matching.perRow then Size.mul (needle / matching.perRow) matching.rowLen
  else .ok 0

variable {κ : Type} [KeyOrder κ]

/-- A key of the row stands in front of a needle. -/
def standsBefore (right : Bool) (key needle : κ) : Bool :=
  if right then KeyOrder.le key needle else KeyOrder.lt key needle

/-- The number of leading keys of a row that stand in front of a needle. -/
def insertionPoint (right : Bool) (row : Array κ) (needle : κ) : Nat :=
  (row.toList.takeWhile (standsBefore right · needle)).length

/-- The places of all needles. -/
def Matching.search (matching : Matching) (sorted values : Array κ) (right : Bool) : Outcome (Array Nat) := do
  let places ← values.toList.zipIdx.mapM fun (value, needle) => do
    let start ← matching.rowStart needle
    let _ ← Size.add start matching.rowLen
    let row ← Buffer.slice sorted start matching.rowLen
    return insertionPoint right row value
  return places.toArray

end MergePathSort
