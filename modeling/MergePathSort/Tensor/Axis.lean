import MergePathSort.Outcome

/-!
# Rows along an axis

A tensor seen around one axis has three extents: what comes before the axis, the axis, and what comes after it.
A row is every element that shares the coordinates before and after the axis. Rows are numbered
`before * view.after + after`, and a row walks the axis with stride `view.after`.

## Main definitions

* `AxisView`, `AxisView.ofShape`, `AxisView.index` : the view, and where an element of a row is stored.
* `resolveAxis` : resolves an axis that may be counted from the end.
-/

namespace MergePathSort

/-- A tensor seen around one axis. -/
structure AxisView where
  /-- The number of elements before the axis. -/
  before : Nat
  /-- The length of the axis. -/
  axisLen : Nat
  /-- The number of elements after the axis. -/
  after : Nat
  deriving DecidableEq, Inhabited

namespace AxisView

/-- The view of a shape around one of its axes. -/
def ofShape (shape : List Nat) (axis : Nat) : Outcome AxisView :=
  match shape[axis]? with
  | none => .refuse (.invalidAxis (Size.toSigned axis) shape.length)
  | some axisLen => do
    let before ← Size.product (shape.take axis)
    let after ← Size.product (shape.drop (axis + 1))
    return ⟨before, axisLen, after⟩

/-- The view of `rows` rows of `axisLen` elements, stored one after the other. -/
def ofRows (rows axisLen : Nat) : AxisView := ⟨rows, axisLen, 1⟩

/-- The number of rows. -/
def rowCount (view : AxisView) : Outcome Nat := Size.mul view.before view.after

/-- The number of elements. -/
def total (view : AxisView) : Outcome Nat := do
  Size.mul (← Size.mul view.before view.axisLen) view.after

/-- The axis is the last one, up to axes of length one. -/
def isPacked (view : AxisView) : Bool := view.after == 1

/-- The position of an element of a row. -/
def index (view : AxisView) (row pos : Nat) : Outcome Nat := do
  let before ← Size.div row view.after
  let after ← Size.mod row view.after
  Size.add (← Size.mul (← Size.add (← Size.mul before view.axisLen) pos) view.after) after

end AxisView

/-- The axis counted from the front. A negative axis counts from the end. The rank is read as a signed word
before it is added, so the sum can leave the signed range. -/
def resolveAxis (axis : Int) (rank : Nat) : Outcome Nat :=
  if 0 ≤ axis then
    if axis.toNat < rank then .ok axis.toNat else .refuse (.invalidAxis axis rank)
  else do
    let resolved ← Size.fitSigned (axis + Size.toSigned rank)
    if 0 ≤ resolved ∧ resolved.toNat < rank then return resolved.toNat
    else .refuse (.invalidAxis axis rank)

end MergePathSort
