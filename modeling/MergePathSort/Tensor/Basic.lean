import MergePathSort.Outcome

/-!
# Tensors

A tensor is a buffer with a shape and a stride for each axis; the element at a coordinate stands at the sum of
the coordinate's entries times the strides. Tensors made from a shape are row-major. Exchanging two axes counts
through the coordinates of the exchanged shape, reads through the strides and writes a row-major tensor; cutting an
axis keeps its leading entries and reads the buffer as a row-major one.

A tensor that is made has as many elements as its shape describes, but any three fields are a tensor. What moving and
cutting axes does with those that have more elements or fewer is defined as well.

## Main definitions

* `rowMajorStrides` : the strides of a row-major tensor.
* `Tensor`, `Tensor.ofStrides`, `Tensor.ofShape`, `Tensor.vector` : tensors and how they are made.
* `offset`, `odometer` : where a coordinate is stored, and the coordinate that comes next.
* `countThrough` : the elements at the first coordinates of a shape.
* `Tensor.exchangeAxes`, `Tensor.takeAlong` : moving and cutting axes.
-/

namespace MergePathSort

/-- The strides of a row-major tensor of that shape: the last axis has stride one, every other axis the stride
of the next one times its extent. -/
def rowMajorStrides : List Nat → Outcome (List Nat)
  | [] => .ok []
  | _ :: rest => do
    let strides ← rowMajorStrides rest
    match strides, rest with
    | stride :: _, extent :: _ => return (← Size.mul stride extent) :: strides
    | _, _ => return [1]

/-- Where a coordinate is stored: the sum of its entries times the strides. -/
def offset (coordinate strides : List Nat) : Outcome Nat :=
  (coordinate.zip strides).foldlM (fun sum (entry, stride) => do
    Size.add sum (← Size.mul entry stride)) 0

/-- The coordinate that comes next in a shape, and whether there was none and the first one comes again. The last entry
moves on. An entry that has run out starts again, and the one in front of it moves on. -/
def odometer : List Nat → List Nat → List Nat × Bool
  | extent :: shape, entry :: coordinate =>
    let (rest, carry) := odometer shape coordinate
    if !carry then (entry :: rest, false)
    else if entry + 1 < extent then ((entry + 1) :: rest, false)
    else (0 :: rest, true)
  | _, _ => ([], true)

/-- The element that stands, by some strides, at a coordinate. -/
def readAt {κ : Type} (data : Array κ) (stride coordinate : List Nat) : Outcome κ := do
  Buffer.read data (← offset coordinate stride)

/-- An element is read, and the odometer turned. -/
def readNext {κ : Type} (data : Array κ) (shape stride : List Nat) (state : List Nat × Array κ) :
    Outcome (List Nat × Array κ) := do
  let element ← readAt data stride state.1
  return ((odometer shape state.1).1, state.2.push element)

/-- The elements that stand, by some strides, at the first `count` coordinates of a shape. Behind the last coordinate
the first one comes again. -/
def countThrough {κ : Type} (data : Array κ) (shape stride : List Nat) (count : Nat) : Outcome (Array κ) := do
  let (_, elements) ← (List.range count).foldlM (fun state _ => readNext data shape stride state)
    (shape.map fun _ => 0, #[])
  return elements

/-- The list with two of its entries exchanged. -/
def exchangeEntries (xs : List Nat) (a b : Nat) : Outcome (List Nat) :=
  match xs[a]?, xs[b]? with
  | some x, some y => .ok ((xs.set a y).set b x)
  | _, _ => .fault .index

/-- A tensor: its buffer, and the stride and the extent of every axis. -/
structure Tensor (κ : Type) where
  /-- The elements. -/
  data : Array κ
  /-- The distance in the buffer between neighbours along each axis. -/
  stride : List Nat
  /-- The extent of each axis. -/
  shape : List Nat
  deriving DecidableEq

namespace Tensor

variable {κ : Type}

/-- The tensor of a buffer with given strides. The shape must describe as many elements as there are. -/
def ofStrides (data : Array κ) (stride shape : List Nat) : Outcome (Tensor κ) := do
  let total ← Size.product shape
  if total = data.size then return ⟨data, stride, shape⟩
  else .refuse (.shapeMismatch shape data.size)

/-- The row-major tensor of a buffer. -/
def ofShape (data : Array κ) (shape : List Nat) : Outcome (Tensor κ) := do
  ofStrides data (← rowMajorStrides shape) shape

/-- The tensor of rank one. -/
def vector (data : Array κ) : Tensor κ := ⟨data, [1], [data.size]⟩

/-- The number of axes. -/
def rank (t : Tensor κ) : Nat := t.shape.length

/-- The number of elements that the shape describes. -/
def elementCount (t : Tensor κ) : Outcome Nat := Size.product t.shape

/-- The strides are those of a row-major tensor. -/
def isRowMajor (t : Tensor κ) : Outcome Bool := do
  return t.stride == (← rowMajorStrides t.shape)

/-- The element at a coordinate. -/
def elementAt (t : Tensor κ) (coordinate : List Nat) : Outcome κ := readAt t.data t.stride coordinate

/-- The tensor with two axes exchanged, in row-major order. Exchanging an axis with itself changes nothing. -/
def exchangeAxes (t : Tensor κ) (a b : Nat) : Outcome (Tensor κ) :=
  if t.rank ≤ a ∨ t.rank ≤ b then
    .refuse (.invalidAxis (Size.toSigned (max a b)) t.rank)
  else if a = b then .ok t
  else do
    let shape ← exchangeEntries t.shape a b
    let stride ← rowMajorStrides shape
    let source ← exchangeEntries t.stride a b
    return ⟨← countThrough t.data shape source t.data.size, stride, shape⟩

/-- Of `count` parts of `axisLen * after` elements, which follow each other, the first `kept * after` each. -/
def leading (data : Array κ) (count axisLen after kept : Nat) : Outcome (Array κ) :=
  (List.range count).foldlM (fun out n => do
    let start ← Size.mul (← Size.mul n axisLen) after
    return out ++ (← Buffer.slice data start (kept * after))) #[]

/-- The leading `len` entries along an axis, or all of them if it has fewer. -/
def takeAlong (t : Tensor κ) (axis len : Nat) : Outcome (Tensor κ) :=
  match t.shape[axis]? with
  | none => .refuse (.invalidAxis (Size.toSigned axis) t.rank)
  | some axisLen => do
    let kept := min len axisLen
    let before ← Size.product (t.shape.take axis)
    let after ← Size.product (t.shape.drop (axis + 1))
    let _ ← Size.mul (← Size.mul before kept) after
    let data ← leading t.data before axisLen after kept
    let shape := t.shape.set axis kept
    return ⟨data, ← rowMajorStrides shape, shape⟩

end Tensor

end MergePathSort
