import MergePathSort.Backend.Basic
import MergePathSort.Tensor.Axis
import MergePathSort.Tensor.Basic

/-!
# Sorting tensors

Tensors are sorted along any axis on any backend. The axis is moved to the end, so that its rows follow each
other, the backend sorts the rows, and the axis is moved back. The leading entries of a sorted axis are its
top ones.

## Main definitions

* `MovedAxis` : a tensor with its sort axis moved to the end, and the way back.
* `Tensor.sort`, `Tensor.sortIndexed`, `Tensor.argsort` : sorting along an axis.
* `ReturnKind`, `Tensor.top` : the leading entries along an axis.
* `Tensor.searchLast` : places needles into the last axis of a sorted tensor.
-/

namespace MergePathSort

/-! ### Moving the axis -/

/-- A tensor with its sort axis moved to the end. -/
structure MovedAxis (κ : Type) where
  /-- Where the sort axis was. -/
  axis : Nat
  /-- The last axis, where it is now. -/
  last : Nat
  /-- The tensor, as it is now. -/
  tensor : Tensor κ
  /-- The length of the sort axis. -/
  axisLen : Nat

namespace MovedAxis

variable {κ α : Type}

/-- Moves an axis, which may be counted from the end, to the end. -/
def ofTensor (tensor : Tensor κ) (axis : Int) : Outcome (MovedAxis κ) := do
  let axis ← resolveAxis axis tensor.rank
  let last := tensor.rank - 1
  let tensor ← tensor.exchangeAxes axis last
  match tensor.shape[last]? with
  | some axisLen => return ⟨axis, last, tensor, axisLen⟩
  | none => .fault .index

/-- Takes rows as a tensor of the moved shape, keeps its leading entries along the sort axis, or all of them, and
moves the axis back. -/
def putBack (moved : MovedAxis κ) (data : Array α) (keep : Option Nat) : Outcome (Tensor α) := do
  let whole ← Tensor.ofShape data moved.tensor.shape
  let kept ← match keep with
    | some len => whole.takeAlong moved.last len
    | none => .ok whole
  kept.exchangeAxes moved.axis moved.last

end MovedAxis

/-- Refuses an axis some of whose positions do not fit the index type. -/
def requirePositions (ι : Type) [IndexElement ι] (len : Nat) : Outcome Unit :=
  if IndexElement.fits ι len then .ok () else .refuse (.indexRange len (IndexElement.name ι))

/-! ### Sorting -/

namespace Tensor

variable {β : Type} [Backend β] {κ : Type} [Element κ]

/-- The tensor sorted along an axis. -/
def sort (tensor : Tensor κ) (axis : Int) (direction : Direction) : Stateful β (Tensor κ) := do
  let moved ← Stateful.ofOutcome (MovedAxis.ofTensor tensor axis)
  let values ← Backend.sort moved.tensor.data moved.axisLen direction
  Stateful.ofOutcome (moved.putBack values none)

/-- The tensor sorted along an axis, and for every entry its position along the axis before. -/
def sortIndexed (ι : Type) [IndexElement ι] (tensor : Tensor κ) (axis : Int) (direction : Direction) :
    Stateful β (Tensor κ × Tensor ι) := do
  let moved ← Stateful.ofOutcome (MovedAxis.ofTensor tensor axis)
  Stateful.ofOutcome (requirePositions ι moved.axisLen)
  let (values, indices) ← Backend.argsort ι moved.tensor.data moved.axisLen direction
  let values ← Stateful.ofOutcome (moved.putBack values none)
  let indices ← Stateful.ofOutcome (moved.putBack indices none)
  return (values, indices)

/-- For every entry of the sorted tensor, its position along the axis before. -/
def argsort (ι : Type) [IndexElement ι] (tensor : Tensor κ) (axis : Int) (direction : Direction) :
    Stateful β (Tensor ι) := do
  let (_, indices) ← tensor.sortIndexed ι axis direction
  return indices

end Tensor

/-! ### Top entries -/

/-- What of the top entries is returned. -/
inductive ReturnKind where
  /-- The entries and their positions. -/
  | both
  /-- The entries. -/
  | values
  /-- Their positions. -/
  | indices
  deriving DecidableEq

/-- Both are returned if nothing else is asked for. -/
instance : Inhabited ReturnKind := ⟨.both⟩

/-- The kind of a name. -/
def ReturnKind.parse (text : String) : Outcome ReturnKind :=
  if text = "both" then .ok .both
  else if text = "values" then .ok .values
  else if text = "indices" then .ok .indices
  else .refuse (.unknownReturnKind text)

/-- The top entries along an axis, as far as they are asked for. -/
inductive TopEntries (κ ι : Type) where
  /-- The entries and their positions. -/
  | both (values : Tensor κ) (indices : Tensor ι)
  /-- The entries. -/
  | values (values : Tensor κ)
  /-- The positions. -/
  | indices (indices : Tensor ι)

namespace TopEntries

variable {κ ι : Type}

/-- The entries, if they are there. -/
def values? : TopEntries κ ι → Option (Tensor κ)
  | .both entries _ | .values entries => some entries
  | .indices _ => none

/-- The positions, if they are there. -/
def indices? : TopEntries κ ι → Option (Tensor ι)
  | .both _ positions | .indices positions => some positions
  | .values _ => none

end TopEntries

/-- How many entries of an axis a request for the top `count` keeps: at most the whole axis, and all of it if the
count is below one. -/
def keptEntries (count : Int) (axisLen : Nat) : Option Nat :=
  if 1 ≤ count then some (min count.toNat axisLen) else none

namespace Tensor

variable {β : Type} [Backend β] {κ : Type} [Element κ]

/-- The leading entries of the sorted tensor along an axis. -/
def top (ι : Type) [IndexElement ι] (tensor : Tensor κ) (count axis : Int) (kind : ReturnKind)
    (direction : Direction) : Stateful β (TopEntries κ ι) := do
  let moved ← Stateful.ofOutcome (MovedAxis.ofTensor tensor axis)
  let keep := keptEntries count moved.axisLen
  if kind = .values then
    let values ← Backend.sort moved.tensor.data moved.axisLen direction
    return .values (← Stateful.ofOutcome (moved.putBack values keep))
  Stateful.ofOutcome (requirePositions ι moved.axisLen)
  let (values, indices) ← Backend.argsort ι moved.tensor.data moved.axisLen direction
  let indices ← Stateful.ofOutcome (moved.putBack indices keep)
  if kind = .indices then return .indices indices
  return .both (← Stateful.ofOutcome (moved.putBack values keep)) indices

/-! ### Searching -/

/-- The places of needles in the last axis of a sorted tensor. -/
def searchLast (ι : Type) [IndexElement ι] (sorted needles : Tensor κ) (right : Bool) :
    Stateful β (Tensor ι) := do
  let matching ← Stateful.ofOutcome (Matching.ofShapes sorted.shape needles.shape)
  let places ← Stateful.ofOutcome (Size.add matching.rowLen 1)
  Stateful.ofOutcome (requirePositions ι places)
  let found ← Backend.search sorted.data needles.data matching right
  Stateful.ofOutcome (Tensor.ofShape (found.map IndexElement.ofPosition) needles.shape)

end Tensor

end MergePathSort
