import MergePathSort.Proofs.Backend.Untracked
import MergePathSort.Proofs.Tensor.Lines
import MergePathSort.Tensor.Sort

/-!
# Sorting along an axis

A tensor is sorted along an axis by moving the axis to the end, sorting the rows of the buffer, and moving the axis back.
Its lines along the axis are the rows of the moved tensor, and the lines of the result are the rows that the backend
returns. So every line of the result is its line of the tensor, sorted stably, and the indices along the same line are
the positions along it where the keys came from.

## Main definitions

* `MovedAxis.Moves` : a tensor with an axis moved to the end.

## Main results

* `resolveAxis_eq_ok`, `resolveAxis_eq_refuse` : axes that may be counted from the end.
* `MovedAxis.Moves.line_eq`, `MovedAxis.Moves.putBack` : lines before and after.
* `Tensor.sortIndexed_lines` : sorting on the host, line by line.
-/

namespace MergePathSort

variable {κ ι α : Type}

/-! ### Axes -/

section Axes

variable {axis : Int} {rank : Nat}

/-- A rank is read as itself when it is taken as a signed word. -/
theorem Size.toSigned_eq (h : rank < Buffer.byteLimit) : Size.toSigned rank = rank := by
  have hlimit := Buffer.two_mul_byteLimit
  refine Int.bmod_eq_of_le ?_ ?_ <;> omega

/-- An axis between the negated rank and the rank, counted from the front. -/
theorem resolveAxis_eq_ok (hrank : rank < Buffer.byteLimit) (hlow : -(rank : Int) ≤ axis) (hhigh : axis < rank) :
    resolveAxis axis rank = .ok (axis % rank).toNat := by
  have hlimit : Buffer.byteLimit = 9223372036854775808 := rfl
  unfold resolveAxis
  by_cases hsign : 0 ≤ axis
  · rw [if_pos hsign, if_pos (by omega), Int.emod_eq_of_lt hsign hhigh]
  · have hfit : Size.fitSigned (axis + Size.toSigned rank) = .ok (axis + rank) := by
      rw [Size.toSigned_eq hrank, Size.fitSigned, if_pos (by omega)]
    have hmod : axis % rank = axis + rank := by
      rw [← Int.add_emod_right]
      exact Int.emod_eq_of_lt (by omega) (by omega)
    rw [if_neg hsign, hfit, Outcome.ok_bind, if_pos (by omega), hmod]
    rfl

/-- Any other axis is refused. -/
theorem resolveAxis_eq_refuse (hrank : rank < Buffer.byteLimit) (hword : -9223372036854775808 ≤ axis)
    (haxis : axis < -(rank : Int) ∨ (rank : Int) ≤ axis) :
    resolveAxis axis rank = .refuse (.invalidAxis axis rank) := by
  have hlimit : Buffer.byteLimit = 9223372036854775808 := rfl
  unfold resolveAxis
  by_cases hsign : 0 ≤ axis
  · rw [if_pos hsign, if_neg (by omega)]
  · have hfit : Size.fitSigned (axis + Size.toSigned rank) = .ok (axis + rank) := by
      rw [Size.toSigned_eq hrank, Size.fitSigned, if_pos (by omega)]
    rw [if_neg hsign, hfit, Outcome.ok_bind, if_neg (by omega)]

end Axes

/-! ### The moved axis -/

/-- A tensor with one of its axes moved to the end: the axis and the last one are exchanged. -/
structure MovedAxis.Moves (moved : MovedAxis κ) (tensor : Tensor κ) (axis : Nat) : Prop where
  /-- Where the axis was. -/
  axis_eq : moved.axis = axis
  /-- It was an axis of the tensor. -/
  axis_lt : axis < tensor.shape.length
  /-- It is the last one now. -/
  last_eq : moved.last = tensor.shape.length - 1
  /-- The tensor, as it is now. -/
  exchange_eq : tensor.exchangeAxes axis moved.last = .ok moved.tensor
  /-- The length of the axis. -/
  axisLen_eq : moved.tensor.shape[moved.last]? = some moved.axisLen

namespace MovedAxis

/-- The extents in front of the moved axis. -/
def front (moved : MovedAxis κ) : List Nat := moved.tensor.shape.take moved.last

/-- The number of the row that a line of the tensor has become. -/
def row (moved : MovedAxis κ) (coordinate : List Nat) : Nat :=
  Tensor.lineNumber moved.front (exchanged coordinate moved.axis moved.last)

variable {moved : MovedAxis κ} {tensor : Tensor κ}

/-- An axis that is found is moved to the end. -/
theorem Moves.of_ofTensor {axis : Int} {position : Nat} (hresolve : resolveAxis axis tensor.rank = .ok position)
    (h : MovedAxis.ofTensor tensor axis = .ok moved) (hposition : position < tensor.shape.length) :
    moved.Moves tensor position := by
  rw [ofTensor, hresolve, Outcome.ok_bind] at h
  obtain ⟨exchanged, hexchange, h⟩ := Outcome.bind_eq_ok_iff.mp h
  cases hextent : exchanged.shape[tensor.rank - 1]? with
  | none =>
    rw [hextent] at h
    exact absurd h (Outcome.fault_ne_ok _ _)
  | some axisLen =>
    rw [hextent] at h
    cases h
    exact ⟨rfl, hposition, rfl, hexchange, hextent⟩

/-- The moved tensor's extents: those in front, and the axis. -/
theorem Moves.shape_eq {axis : Nat} (h : moved.Moves tensor axis) (hmajor : tensor.RowMajor) :
    moved.tensor.shape = moved.front ++ [moved.axisLen] ∧ moved.front.length = moved.last ∧
      moved.tensor.shape = exchanged tensor.shape axis moved.last := by
  obtain ⟨⟨-, hlast⟩, -, hshape, -, -⟩ := hmajor.exchangeAxes h.exchange_eq
  have hlen : moved.tensor.shape.length = tensor.shape.length := by rw [hshape, length_exchanged]
  have heq := h.last_eq
  obtain ⟨hinside, hextent⟩ := List.getElem?_eq_some_iff.mp h.axisLen_eq
  refine ⟨?_, by rw [front, List.length_take]; omega, hshape⟩
  rw [front, ← hextent, List.take_append_getElem, List.take_of_length_le (by omega)]

/-- The extent of the axis, where it was. -/
theorem Moves.extent_eq {axis : Nat} (h : moved.Moves tensor axis) (hmajor : tensor.RowMajor) :
    tensor.shape[axis]? = some moved.axisLen := by
  obtain ⟨⟨haxis, hlast⟩, -, hshape, -, -⟩ := hmajor.exchangeAxes h.exchange_eq
  have hmoved := h.axisLen_eq
  rwa [hshape, getElem?_exchanged haxis hlast, if_pos rfl] at hmoved

/-- An axis that is moved was found, and is one of the tensor's. -/
theorem exists_moves {axis : Int} (hmajor : tensor.RowMajor) (h : MovedAxis.ofTensor tensor axis = .ok moved) :
    ∃ position, resolveAxis axis tensor.rank = .ok position ∧ moved.Moves tensor position := by
  obtain ⟨position, hresolve, hrest⟩ := Outcome.bind_eq_ok_iff.mp h
  obtain ⟨_, hexchange, -⟩ := Outcome.bind_eq_ok_iff.mp hrest
  exact ⟨position, hresolve, .of_ofTensor hresolve h (hmajor.exchangeAxes hexchange).1.1⟩

section Moves

variable {axis : Nat} {coordinate : List Nat}

/-- A line of the tensor is a row of the moved tensor. -/
theorem Moves.line_eq (h : moved.Moves tensor axis) (hmajor : tensor.RowMajor)
    (hc : InShapeBut axis coordinate tensor.shape) :
    moved.row coordinate < moved.front.prod ∧
      tensor.line axis coordinate = .ok (chunk moved.axisLen moved.tensor.data.toList (moved.row coordinate)) := by
  obtain ⟨hsplit, hfront, hshape⟩ := h.shape_eq hmajor
  obtain ⟨⟨haxis, hlast⟩, hmoved, -, -, -⟩ := hmajor.exchangeAxes h.exchange_eq
  have hlen := hc.length_eq
  have hexchanged : InShapeBut moved.last (exchanged coordinate axis moved.last) moved.tensor.shape := by
    rw [hshape]
    exact hc.exchanged haxis hlast
  have hline := hmajor.line_exchangeAxes h.exchange_eq (.inr ⟨rfl, rfl⟩) hexchanged
  rw [exchanged_exchanged (by omega) (by omega)] at hline
  rw [← hfront] at hexchanged
  rw [← hline, row, h.axis_eq, ← hfront]
  exact hmoved.line_last hsplit hexchanged

/-- Rows that are put back are lines again, of a tensor of the shape that the axis was moved in. -/
theorem Moves.putBack (h : moved.Moves tensor axis) (hmajor : tensor.RowMajor) {data : Array α} {result : Tensor α}
    (hput : moved.putBack data none = .ok result) :
    result.RowMajor ∧ result.shape = tensor.shape ∧ ∀ coordinate, InShapeBut axis coordinate tensor.shape →
      result.line axis coordinate = .ok (chunk moved.axisLen data.toList (moved.row coordinate)) := by
  obtain ⟨whole, hwhole, hput⟩ := Outcome.bind_eq_ok_iff.mp hput
  obtain ⟨kept, hkept, hexchange⟩ := Outcome.bind_eq_ok_iff.mp hput
  cases hkept
  rw [h.axis_eq] at hexchange
  obtain ⟨hsplit, hfront, hshape⟩ := h.shape_eq hmajor
  obtain ⟨hmade, rfl, hwholeShape⟩ := Tensor.RowMajor.of_ofShape hwhole
  obtain ⟨⟨haxis, hlast⟩, hresult, hresultShape, -, -⟩ := hmade.exchangeAxes hexchange
  have hback : result.shape = tensor.shape := by
    rw [hwholeShape, hshape, length_exchanged] at haxis hlast
    rw [hresultShape, hwholeShape, hshape, exchanged_exchanged haxis hlast]
  refine ⟨hresult, hback, fun c hc => ?_⟩
  rw [← hback] at hc
  have hexchanged : InShapeBut moved.last (exchanged c axis moved.last) whole.shape := by
    have hthere := hc.exchanged (b := moved.last) (by rw [hresultShape]; simpa using haxis)
      (by rw [hresultShape]; simpa using hlast)
    rwa [hresultShape, exchanged_exchanged haxis hlast] at hthere
  rw [hmade.line_exchangeAxes hexchange (.inl ⟨rfl, rfl⟩) hc, row, h.axis_eq]
  rw [← hfront] at hexchanged ⊢
  exact (hmade.line_last (hwholeShape.trans hsplit) hexchanged).2

end Moves

end MovedAxis

/-! ### Sorted lines -/

/-- What sorting a tensor along an axis returns: every line of the values is the stable sort of the tensor's line, and
the indices along it are the positions where the keys came from. -/
structure Tensor.SortsLines [KeyOrder κ] [IndexElement ι] (direction : Direction) (axis : Nat) (tensor values : Tensor κ)
    (indices : Tensor ι) : Prop where
  /-- The values are row-major. -/
  values_rowMajor : values.RowMajor
  /-- The values have the shape of the tensor. -/
  values_shape : values.shape = tensor.shape
  /-- The indices are row-major. -/
  indices_rowMajor : indices.RowMajor
  /-- The indices have the shape of the tensor. -/
  indices_shape : indices.shape = tensor.shape
  /-- A line, whatever the coordinates along the other axes. -/
  line : ∀ coordinate, InShapeBut axis coordinate tensor.shape → ∃ keys positions order,
    tensor.line axis coordinate = .ok keys ∧ direction.StableOrder keys order ∧
    values.line axis coordinate = .ok (gather keys order) ∧
    indices.line axis coordinate = .ok positions ∧ positions.map Element.toNumber = order.map Nat.cast

section Sorting

variable [Element κ] [IndexElement ι] {tensor values : Tensor κ} {indices : Tensor ι} {axis : Int} {direction : Direction}
  {backend backend' other : HostBackend}

/-- Sorting with indices: the axis is moved to the end, the backend sorts the rows, and the rows are put back. -/
theorem Tensor.exists_of_sortIndexed
    (h : (tensor.sortIndexed ι axis direction : Stateful HostBackend _).run backend = (.ok (values, indices), backend')) :
    ∃ moved sortedKeys sortedIndices, MovedAxis.ofTensor tensor axis = .ok moved ∧
      requirePositions ι moved.axisLen = .ok () ∧
      (Backend.argsort ι moved.tensor.data moved.axisLen direction : Stateful HostBackend _).run backend =
        (.ok (sortedKeys, sortedIndices), backend') ∧
      moved.putBack sortedKeys none = .ok values ∧ moved.putBack sortedIndices none = .ok indices := by
  rw [sortIndexed] at h
  simp only [Stateful.run_bind_eq_ok_iff, Stateful.run_ofOutcome_eq_ok_iff] at h
  obtain ⟨moved, _, ⟨hmoved, rfl⟩, ⟨⟩, _, ⟨hfits, rfl⟩, ⟨sortedKeys, sortedIndices⟩, _, hsorted, values', _,
    ⟨hvalues, rfl⟩, indices', _, ⟨hindices, rfl⟩, hresult⟩ := h
  obtain ⟨hpair, rfl⟩ := Stateful.run_pure_eq_ok_iff.mp hresult
  cases hpair
  exact ⟨moved, sortedKeys, sortedIndices, hmoved, hfits, hsorted, hvalues, hindices⟩

/-- A backend of the same configuration sorts the tensor alike, with indices or without. -/
theorem Tensor.exists_sort_argsort
    (h : (tensor.sortIndexed ι axis direction : Stateful HostBackend _).run backend = (.ok (values, indices), backend'))
    (hconfig : other.config = backend.config) :
    (∃ other', (tensor.sort axis direction : Stateful HostBackend _).run other = (.ok values, other')) ∧
      ∃ other', (tensor.argsort ι axis direction : Stateful HostBackend _).run other = (.ok indices, other') := by
  obtain ⟨moved, sortedKeys, sortedIndices, hmoved, hfits, hsorted, hvalues, hindices⟩ := exists_of_sortIndexed h
  obtain ⟨other', hkeys⟩ := HostBackend.exists_sort hsorted hconfig
  obtain ⟨other'', hboth⟩ := HostBackend.exists_argsort hsorted hconfig
  constructor
  · refine ⟨other', ?_⟩
    rw [sort, Stateful.run_bind_of_eq_ok (Stateful.run_ofOutcome_of_eq_ok hmoved other),
      Stateful.run_bind_of_eq_ok hkeys]
    exact Stateful.run_ofOutcome_of_eq_ok hvalues other'
  · refine ⟨other'', ?_⟩
    rw [argsort, sortIndexed]
    simp only [Stateful.run_bind_eq_ok_iff, Stateful.run_ofOutcome_eq_ok_iff, Stateful.run_pure_eq_ok_iff]
    exact ⟨(values, indices), _, ⟨moved, _, ⟨hmoved, rfl⟩, ⟨⟩, _, ⟨hfits, rfl⟩, _, _, hboth, values, _, ⟨hvalues, rfl⟩,
      indices, _, ⟨hindices, rfl⟩, rfl, rfl⟩, rfl, rfl⟩

/-- An axis that is refused stops every way to sort. -/
theorem Tensor.sort_refused {failure : Failure} (h : resolveAxis axis tensor.rank = .error failure) :
    (tensor.sort axis direction : Stateful HostBackend _).run backend = (.error failure, backend) ∧
      (tensor.sortIndexed ι axis direction : Stateful HostBackend _).run backend = (.error failure, backend) ∧
      (tensor.argsort ι axis direction : Stateful HostBackend _).run backend = (.error failure, backend) := by
  have hmoved : MovedAxis.ofTensor tensor axis = .error failure := by
    rw [MovedAxis.ofTensor, h]
    rfl
  have hfirst : (Stateful.ofOutcome (MovedAxis.ofTensor tensor axis) : Stateful HostBackend _).run backend =
      (.error failure, backend) := by
    rw [hmoved]
    rfl
  have hindexed : (tensor.sortIndexed ι axis direction : Stateful HostBackend _).run backend =
      (.error failure, backend) := Stateful.run_bind_of_eq_error hfirst _
  exact ⟨Stateful.run_bind_of_eq_error hfirst _, hindexed, Stateful.run_bind_of_eq_error hindexed _⟩

namespace MovedAxis

variable {moved : MovedAxis κ} {position : Nat}

omit [Element κ] in
/-- The rows of the moved tensor. -/
theorem Moves.size_div (h : moved.Moves tensor position) (hmajor : tensor.RowMajor) (hpos : 0 < moved.axisLen) :
    moved.tensor.data.size / moved.axisLen = moved.front.prod := by
  obtain ⟨hsplit, -, -⟩ := h.shape_eq hmajor
  obtain ⟨-, hmoved, -, -, -⟩ := hmajor.exchangeAxes h.exchange_eq
  rw [hmoved.size_eq, hsplit, List.prod_append, List.prod_singleton, Nat.mul_div_cancel _ hpos]

/-- The keys of a row of the moved tensor are keys of the tensor. -/
theorem Moves.comparable (h : moved.Moves tensor position) (hmajor : tensor.RowMajor)
    (hcomparable : KeyOrder.Comparable tensor.data.toList) (row : Nat) :
    KeyOrder.Comparable (chunk moved.axisLen moved.tensor.data.toList row) := by
  obtain ⟨-, -, -, -, hmem⟩ := hmajor.exchangeAxes h.exchange_eq
  have hall : ∀ key ∈ chunk moved.axisLen moved.tensor.data.toList row, key ∈ tensor.data.toList := fun key hkey =>
    Array.mem_toList_iff.mpr (hmem key (Array.mem_toList_iff.mp (List.mem_of_mem_drop (List.mem_of_mem_take hkey))))
  exact fun a ha b hb => hcomparable a (hall a ha) b (hall b hb)

/-- The lines that sorted rows become when they are put back. -/
theorem Moves.sortsLines [RankedOrder κ] [FaithfulIndex ι] (h : moved.Moves tensor position) (hmajor : tensor.RowMajor)
    (hcomparable : KeyOrder.Comparable tensor.data.toList) {sortedKeys : Array κ} {sortedIndices : Array ι}
    (hsorted : (Backend.argsort ι moved.tensor.data moved.axisLen direction : Stateful HostBackend _).run backend =
      (.ok (sortedKeys, sortedIndices), backend'))
    (hvalues : moved.putBack sortedKeys none = .ok values) (hindices : moved.putBack sortedIndices none = .ok indices) :
    Tensor.SortsLines direction position tensor values indices := by
  obtain ⟨hkeysMajor, hkeysShape, hkeysLine⟩ := h.putBack hmajor hvalues
  obtain ⟨hindicesMajor, hindicesShape, hindicesLine⟩ := h.putBack hmajor hindices
  refine ⟨hkeysMajor, hkeysShape, hindicesMajor, hindicesShape, fun c hc => ?_⟩
  obtain ⟨hrow, hline⟩ := h.line_eq hmajor hc
  by_cases hzero : moved.axisLen = 0
  · have hempty : ∀ {γ : Type} (xs : List γ), chunk moved.axisLen xs (moved.row c) = [] := fun xs => by
      rw [chunk, hzero, List.take_zero]
    refine ⟨[], [], [], ?_, ⟨.refl _, .nil, .nil⟩, ?_, ?_, rfl⟩
    · rw [hline, hempty]
    · rw [hkeysLine c hc, hempty]
      rfl
    · rw [hindicesLine c hc, hempty]
  · rw [← h.size_div hmajor (by omega)] at hrow
    obtain ⟨order, horder, hpositions, hkeys⟩ :=
      HostBackend.exists_order_of_argsort hsorted hrow (h.comparable hmajor hcomparable _)
    exact ⟨_, _, order, hline, horder, hkeys ▸ hkeysLine c hc, hindicesLine c hc, hpositions⟩

end MovedAxis

/-- Sorting a row-major tensor on the host. An axis that is none of the tensor's, from the front or the end, is refused.
Along any other axis, comparable keys come back line by line in their stable order, with the positions that they had in
the line, and sorting without indices or for the indices alone gives the same tensors. -/
theorem Tensor.sortIndexed_lines [RankedOrder κ] [FaithfulIndex ι] (hmajor : tensor.RowMajor)
    (hrank : tensor.rank < Buffer.byteLimit) (hword : -9223372036854775808 ≤ axis) :
    (axis < -(tensor.rank : Int) ∨ (tensor.rank : Int) ≤ axis →
      (tensor.sort axis direction : Stateful HostBackend _).run backend =
          (.error (.refused (.invalidAxis axis tensor.rank)), backend) ∧
        (tensor.sortIndexed ι axis direction : Stateful HostBackend _).run backend =
          (.error (.refused (.invalidAxis axis tensor.rank)), backend) ∧
        (tensor.argsort ι axis direction : Stateful HostBackend _).run backend =
          (.error (.refused (.invalidAxis axis tensor.rank)), backend)) ∧
    (-(tensor.rank : Int) ≤ axis → axis < tensor.rank → KeyOrder.Comparable tensor.data.toList →
      ∀ values indices backend', (tensor.sortIndexed ι axis direction : Stateful HostBackend _).run backend =
          (.ok (values, indices), backend') →
        SortsLines direction (axis % tensor.rank).toNat tensor values indices ∧
        ∀ other : HostBackend, other.config = backend.config →
          (∃ other', (tensor.sort axis direction : Stateful HostBackend _).run other = (.ok values, other')) ∧
            ∃ other', (tensor.argsort ι axis direction : Stateful HostBackend _).run other = (.ok indices, other')) := by
  refine ⟨fun haxis => sort_refused (resolveAxis_eq_refuse hrank hword haxis), ?_⟩
  intro hlow hhigh hcomparable values indices backend' hrun
  have hresolve := resolveAxis_eq_ok hrank hlow hhigh
  have hposition : (axis % tensor.rank).toNat < tensor.shape.length := by
    have hmod := Int.emod_lt_of_pos axis (b := tensor.rank) (by omega)
    change (axis % tensor.rank).toNat < tensor.rank
    omega
  obtain ⟨moved, _, _, hmoved, -, hsorted, hvalues, hindices⟩ := exists_of_sortIndexed hrun
  have hmoves : moved.Moves tensor (axis % tensor.rank).toNat := .of_ofTensor hresolve hmoved hposition
  exact ⟨hmoves.sortsLines hmajor hcomparable hsorted hvalues hindices, fun other hconfig =>
    exists_sort_argsort hrun hconfig⟩

end Sorting

/-- Two columns of three keys, sorted along the first of two axes, which is counted from the end. The second axis is the
last one that can be counted from the front. -/
theorem Tensor.sortIndexed_two_columns :
    ∃ backend', ((⟨#[2, 1, 2, 0, 1, 1], [2, 1], [3, 2]⟩ : Tensor Int32).sortIndexed UInt32 (-2) .ascending :
        Stateful HostBackend _).run { config := { limits := { maxLanes := 2 }, tuning := { tile := 2 } } } =
      (.ok (⟨#[1, 0, 2, 1, 2, 1], [2, 1], [3, 2]⟩, ⟨#[2, 1, 0, 0, 1, 2], [2, 1], [3, 2]⟩), backend') ∧
      SortsLines .ascending 0 (⟨#[2, 1, 2, 0, 1, 1], [2, 1], [3, 2]⟩ : Tensor Int32)
        ⟨#[1, 0, 2, 1, 2, 1], [2, 1], [3, 2]⟩ (⟨#[2, 1, 0, 0, 1, 2], [2, 1], [3, 2]⟩ : Tensor UInt32) ∧
      ((⟨#[2, 1, 2, 0, 1, 1], [2, 1], [3, 2]⟩ : Tensor Int32).sort 2 .ascending : Stateful HostBackend _).run {} =
        (.error (.refused (.invalidAxis 2 2)), {}) := by
  have hfirst : (((⟨#[2, 1, 2, 0, 1, 1], [2, 1], [3, 2]⟩ : Tensor Int32).sortIndexed UInt32 (-2) .ascending :
      Stateful HostBackend _).run { config := { limits := { maxLanes := 2 }, tuning := { tile := 2 } } }).1 =
      .ok (⟨#[1, 0, 2, 1, 2, 1], [2, 1], [3, 2]⟩, ⟨#[2, 1, 0, 0, 1, 2], [2, 1], [3, 2]⟩) := by cbv
  obtain ⟨backend', hrun⟩ := Stateful.exists_run_of_fst_eq hfirst
  have hmajor : (⟨#[2, 1, 2, 0, 1, 1], [2, 1], [3, 2]⟩ : Tensor Int32).RowMajor := ⟨rfl, rfl, by decide⟩
  have hcomparable : KeyOrder.Comparable ([2, 1, 2, 0, 1, 1] : List Int32) := fun _ _ _ _ => rfl
  have hlines := (sortIndexed_lines hmajor (by decide) (by decide)).2 (by decide) (by decide) hcomparable _ _ _ hrun
  exact ⟨_, hrun, hlines.1, ((sortIndexed_lines (ι := UInt32) hmajor (by decide) (by decide)).1 (by decide)).1⟩

end MergePathSort
