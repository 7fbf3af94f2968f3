import MergePathSort.Proofs.Chunk
import MergePathSort.Proofs.Lanes.Tagged
import MergePathSort.Proofs.Tensor.Odometer

/-!
# Lines of tensors

A line of a tensor along an axis is what stands at a coordinate whose entry for the axis runs through its extent.
Exchanging two axes of a row-major tensor gives a row-major tensor with the same lines, each along the axis that took
the place of its own. Along the last axis the lines are the rows of the buffer.

## Main definitions

* `Tensor.RowMajor` : row-major tensors.
* `InShapeBut`, `Tensor.line` : the lines of a tensor.

## Main results

* `Tensor.RowMajor.of_ofShape`, `Tensor.RowMajor.vector` : tensors that are made are row-major.
* `Tensor.RowMajor.exchangeAxes`, `Tensor.RowMajor.line_exchangeAxes` : exchanging axes.
* `Tensor.RowMajor.line_last` : the lines along the last axis.
-/

namespace MergePathSort

variable {κ : Type}

/-! ### Row-major tensors -/

/-- A tensor whose strides are those of its shape, and which has as many elements as its shape describes. -/
structure Tensor.RowMajor (t : Tensor κ) : Prop where
  /-- The strides are those of the shape. -/
  isRowMajor_eq : t.isRowMajor = .ok true
  /-- The shape describes the elements. -/
  size_eq : t.data.size = t.shape.prod
  /-- The number of elements is a size. -/
  size_lt : t.data.size < Size.limit

namespace Tensor

variable {t t' : Tensor κ}

/-- A tensor that is made from a shape is row-major. -/
theorem RowMajor.of_ofShape {data : Array κ} {shape : List Nat} (h : Tensor.ofShape data shape = .ok t) :
    t.RowMajor ∧ t.data = data ∧ t.shape = shape := by
  obtain ⟨strides, hstrides, h⟩ := Outcome.bind_eq_ok_iff.mp h
  obtain ⟨total, htotal, h⟩ := Outcome.bind_eq_ok_iff.mp h
  obtain ⟨hprod, hlt⟩ := Size.product_eq_ok htotal
  by_cases heq : total = data.size
  · rw [if_pos heq] at h
    cases h
    refine ⟨⟨?_, heq ▸ hprod, heq ▸ hlt⟩, rfl, rfl⟩
    simp [isRowMajor, hstrides]
  · rw [if_neg heq] at h
    cases h

/-- A tensor of rank one is row-major. -/
theorem RowMajor.vector {data : Array κ} (h : data.size < Size.limit) : (Tensor.vector data).RowMajor :=
  ⟨rfl, (Nat.mul_one _).symm, h⟩

theorem RowMajor.stride_eq (h : t.RowMajor) : t.stride = trailingProducts t.shape := by
  obtain ⟨strides, hstrides, heq⟩ := Outcome.bind_eq_ok_iff.mp h.isRowMajor_eq
  rw [← rowMajorStrides_eq_ok hstrides]
  simpa using heq

/-- The element at a coordinate of the shape. -/
theorem RowMajor.elementAt_eq (h : t.RowMajor) {c : List Nat} (hc : InShape c t.shape) :
    t.elementAt c = Buffer.read t.data (storedAt c (trailingProducts t.shape)) := by
  have hlt := hc.storedAt_lt
  have hsize := h.size_eq
  have hlimit := h.size_lt
  rw [elementAt, readAt, h.stride_eq, offset_eq_ok (by omega), Outcome.ok_bind]

/-- A coordinate leads to the same place when its entries are exchanged, or the strides. -/
theorem RowMajor.offset_exchanged (h : t.RowMajor) {a b : Nat} (ha : a < t.shape.length) (hb : b < t.shape.length)
    {c : List Nat} (hc : InShape c (exchanged t.shape a b)) :
    offset (exchanged c a b) t.stride = offset c (exchanged t.stride a b) := by
  have hlen := hc.length_eq
  rw [length_exchanged] at hlen
  have hlt := (hc.of_exchanged ha hb).storedAt_lt
  have hsize := h.size_eq
  have hlimit := h.size_lt
  rw [h.stride_eq]
  exact offset_exchanged_left (by rw [length_trailingProducts]; omega) (hlen ▸ ha) (hlen ▸ hb) (by omega)

/-- Exchanging two axes of a row-major tensor. -/
theorem RowMajor.exchangeAxes (h : t.RowMajor) {a b : Nat} (hexchange : t.exchangeAxes a b = .ok t') :
    (a < t.shape.length ∧ b < t.shape.length) ∧ t'.RowMajor ∧ t'.shape = exchanged t.shape a b ∧
      (∀ c, InShape c t'.shape → t'.elementAt c = t.elementAt (exchanged c a b)) ∧ ∀ x ∈ t'.data, x ∈ t.data := by
  rw [exchangeAxes_eq_lookup h.size_eq, exchangeByLookup] at hexchange
  by_cases hrank : t.rank ≤ a ∨ t.rank ≤ b
  · rw [if_pos hrank] at hexchange
    exact absurd hexchange (Outcome.refuse_ne_ok _ _)
  obtain ⟨ha, hb⟩ : a < t.shape.length ∧ b < t.shape.length := by
    rw [rank] at hrank
    omega
  rw [if_neg hrank] at hexchange
  by_cases hab : a = b
  · subst hab
    rw [if_pos rfl] at hexchange
    cases hexchange
    refine ⟨⟨ha, hb⟩, h, (exchanged_self ha).symm, fun c hc => ?_, fun x hx => hx⟩
    rw [exchanged_self (by rwa [hc.length_eq])]
  · rw [if_neg hab, exchangeEntries_eq_ok ha hb, Outcome.ok_bind] at hexchange
    obtain ⟨stride, hstride, hexchange⟩ := Outcome.bind_eq_ok_iff.mp hexchange
    have hstrides : t.stride.length = t.shape.length := by rw [h.stride_eq, length_trailingProducts]
    rw [exchangeEntries_eq_ok (by omega) (by omega), Outcome.ok_bind] at hexchange
    obtain ⟨data, hdata, hexchange⟩ := Outcome.bind_eq_ok_iff.mp hexchange
    cases hexchange
    obtain ⟨hlen, hget⟩ := Outcome.getElem_of_mapM_eq_ok hdata
    simp only [List.length_range, List.getElem_range] at hlen hget
    have hsize : data.toArray.size = (exchanged t.shape a b).prod := by
      rw [prod_exchanged ha hb, ← h.size_eq]
      exact hlen
    have hmajor : RowMajor (⟨data.toArray, stride, exchanged t.shape a b⟩ : Tensor κ) :=
      ⟨by simp [isRowMajor, hstride], hsize, hsize ▸ prod_exchanged ha hb ▸ h.size_eq ▸ h.size_lt⟩
    refine ⟨⟨ha, hb⟩, hmajor, rfl, fun c hc => ?_, fun x hx => ?_⟩
    · -- The position where the coordinate is stored now was read from where it was stored before.
      have hplace := hc.storedAt_lt
      rw [← hsize] at hplace
      have hread := hget _ (by rw [← hlen]; exact hplace) hplace
      rw [hc.coordinate_storedAt, readAt, ← h.offset_exchanged ha hb hc] at hread
      rw [hmajor.elementAt_eq hc, elementAt, readAt, hread]
      exact Buffer.read_toArray hplace
    · obtain ⟨n, hn, rfl⟩ := List.getElem_of_mem (by simpa using hx)
      obtain ⟨place, -, hread⟩ := Outcome.bind_eq_ok_iff.mp (hget n (by omega) hn)
      exact Array.mem_of_getElem? (Buffer.read_eq_ok_iff.mp hread)

end Tensor

/-! ### Lines -/

/-- A choice of entries for all axes but one. The entry for that axis does not matter. -/
structure InShapeBut (axis : Nat) (coordinate shape : List Nat) : Prop where
  /-- There is an entry for every axis. -/
  length_eq : coordinate.length = shape.length
  /-- An entry for another axis is below its extent. -/
  lt : ∀ other entry extent : Nat, other ≠ axis → coordinate[other]? = some entry → shape[other]? = some extent →
    entry < extent

/-- Any entry below the extent makes a coordinate of the shape. -/
theorem InShapeBut.set {axis : Nat} {c shape : List Nat} (h : InShapeBut axis c shape) {p : Nat}
    (hp : p < shape.getD axis 0) : InShape (c.set axis p) shape := by
  refine ⟨by rw [List.length_set, h.length_eq], fun other entry extent hentry hextent => ?_⟩
  rw [List.getElem?_set] at hentry
  by_cases haxis : axis = other
  · subst haxis
    rw [List.getD_eq_getElem?_getD, hextent] at hp
    rw [if_pos rfl] at hentry
    split at hentry
    · cases hentry
      exact hp
    · cases hentry
  · rw [if_neg haxis] at hentry
    exact h.lt other entry extent (Ne.symm haxis) hentry hextent

/-- A choice of entries with two of them exchanged. -/
theorem InShapeBut.exchanged {a b : Nat} {c shape : List Nat} (h : InShapeBut a c shape) (ha : a < shape.length)
    (hb : b < shape.length) : InShapeBut b (exchanged c a b) (exchanged shape a b) := by
  have hlen := h.length_eq
  refine ⟨by simp [hlen], fun other entry extent hother hentry hextent => ?_⟩
  rw [getElem?_exchanged (by omega) (by omega), if_neg hother] at hentry hextent
  refine h.lt _ entry extent ?_ hentry hextent
  split
  · rename_i heq
    rintro rfl
    exact hother heq
  · assumption

namespace Tensor

variable {t t' : Tensor κ}

/-- What stands along an axis, from the first position to the last, where the other entries of a coordinate lead to. -/
def line (t : Tensor κ) (axis : Nat) (coordinate : List Nat) : Outcome (List κ) :=
  (List.range (t.shape.getD axis 0)).mapM fun p => t.elementAt (coordinate.set axis p)

/-- Exchanging two axes of a row-major tensor exchanges its lines along them. -/
theorem RowMajor.line_exchangeAxes (h : t.RowMajor) {a b here there : Nat} (hexchange : t.exchangeAxes a b = .ok t')
    (haxes : here = a ∧ there = b ∨ here = b ∧ there = a) {c : List Nat} (hc : InShapeBut here c t'.shape) :
    t'.line here c = t.line there (exchanged c a b) := by
  obtain ⟨⟨ha, hb⟩, -, hshape, hget, -⟩ := h.exchangeAxes hexchange
  have hlen := hc.length_eq
  rw [hshape, length_exchanged] at hlen
  have hextent : t'.shape.getD here 0 = t.shape.getD there 0 := by
    rw [hshape, List.getD_eq_getElem?_getD, List.getD_eq_getElem?_getD, getElem?_exchanged ha hb]
    rcases haxes with ⟨rfl, rfl⟩ | ⟨rfl, rfl⟩
    · by_cases hab : here = there <;> simp [hab]
    · rw [if_pos rfl]
  have hset : ∀ p, exchanged (c.set here p) a b = (exchanged c a b).set there p := by
    intro p
    rcases haxes with ⟨rfl, rfl⟩ | ⟨rfl, rfl⟩
    · exact exchanged_set (by omega) (by omega) p
    · exact exchanged_set_right (by omega) (by omega) p
  rw [line, line, hextent]
  refine Outcome.mapM_congr fun p hp => ?_
  rw [List.mem_range, ← hextent] at hp
  rw [hget _ (hc.set hp), hset]

/-- The row of a coordinate: the number of lines along the last axis that come before its own. -/
def lineNumber (front coordinate : List Nat) : Nat := storedAt (coordinate.take front.length) (trailingProducts front)

/-- The lines of a row-major tensor along the last axis are the rows of its buffer. -/
theorem RowMajor.line_last (h : t.RowMajor) {front : List Nat} {extent : Nat} (hshape : t.shape = front ++ [extent])
    {c : List Nat} (hc : InShapeBut front.length c t.shape) :
    lineNumber front c < front.prod ∧
      t.line front.length c = .ok (chunk extent t.data.toList (lineNumber front c)) := by
  have hlen := hc.length_eq
  rw [hshape, List.length_append, List.length_singleton] at hlen
  have hne : c ≠ [] := fun hnil => by simp [hnil] at hlen
  obtain ⟨others, last, rfl⟩ : ∃ others last, c = others ++ [last] :=
    ⟨c.dropLast, c.getLast hne, (List.dropLast_concat_getLast hne).symm⟩
  rw [List.length_append, List.length_singleton, Nat.add_right_cancel_iff] at hlen
  have hnumber : lineNumber front (others ++ [last]) = storedAt others (trailingProducts front) := by
    rw [lineNumber, List.take_left' hlen]
  have hin : InShape others front := by
    refine ⟨hlen, fun axis entry bound hentry hbound => ?_⟩
    obtain ⟨hinside, -⟩ := List.getElem?_eq_some_iff.mp hbound
    refine hc.lt axis entry bound (by omega) ?_ ?_
    · rwa [List.getElem?_append_left (by omega)]
    · rwa [hshape, List.getElem?_append_left hinside]
  have hrow := hin.storedAt_lt
  have hextent : t.shape.getD front.length 0 = extent := by simp [hshape]
  have hsize : t.data.size = front.prod * extent := by rw [h.size_eq, hshape, List.prod_append]; simp
  have hroom : (storedAt others (trailingProducts front) + 1) * extent ≤ front.prod * extent :=
    Nat.mul_le_mul_right extent hrow
  rw [hnumber]
  refine ⟨hrow, Outcome.mapM_eq_ok_of_getElem ?_ fun p hp hp' => ?_⟩
  · rw [length_chunk, Array.length_toList, List.length_range, hextent, hsize]
    rw [Nat.succ_mul] at hroom
    omega
  · rw [List.length_range] at hp
    rw [List.getElem_range, h.elementAt_eq (hc.set hp), hshape, ← hlen, List.set_append_right _ _ (Nat.le_refl _),
      Nat.sub_self, List.set_cons_zero, storedAt_append_singleton hlen, Buffer.read_eq_ok_iff, getElem_chunk]
    exact Array.getElem?_eq_getElem _

end Tensor

end MergePathSort
