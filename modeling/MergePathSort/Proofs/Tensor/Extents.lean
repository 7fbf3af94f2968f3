import MergePathSort.Proofs.Faults
import MergePathSort.Proofs.Tensor.Lines

/-!
# Products of extents

The elements of a shape are counted from the left and its strides from the right. As a zero hides what comes after it,
but not what comes before it, a shape with a zero can have a product that leaves the range of a size in one direction and
not in the other, and an exchange of two axes can bring one about. A shape that describes elements has no such product in
any order of its axes.

## Main definitions

* `ProductsFit`, `StridesFit` : the products from the left and from the right are sizes.
* `Tensor.Made` : tensors that are made from a shape, or as a vector.

## Main results

* `Size.product_of_fits`, `Size.product_of_not_fits`, `rowMajorStrides_of_fits`, `rowMajorStrides_of_not_fits` : counting
  succeeds exactly if the products fit.
* `Tensor.RowMajor.exists_exchangeAxes`, `Tensor.RowMajor.exchangeAxes_of_not_fits` : when two axes can be exchanged.
* `Tensor.RowMajor.exists_takeAlong` : cutting an axis.
-/

namespace MergePathSort

/-- The products of extents taken from the left are sizes. -/
def ProductsFit (shape : List Nat) : Prop := ∀ k, (shape.take k).prod < Size.limit

/-- The products of extents that are the strides of a shape, taken from the right, are sizes. -/
def StridesFit (shape : List Nat) : Prop := ∀ k, (shape.drop (k + 1)).prod < Size.limit

/-! ### Counting from the left -/

section Products

variable {shape : List Nat} {k : Nat}

theorem Size.mul_eq_fault {a b : Nat} (h : Size.limit ≤ a * b) : Size.mul a b = .fault .arithmetic := by
  rw [mul, fit, if_neg (Nat.not_lt_of_le h)]

theorem ProductsFit.prod_lt (h : ProductsFit shape) : shape.prod < Size.limit := by
  have hall := h shape.length
  rwa [List.take_length] at hall

/-- The first extents of a shape. -/
theorem ProductsFit.take (h : ProductsFit shape) (k : Nat) : ProductsFit (shape.take k) := by
  intro j
  rw [List.take_take]
  exact h _

/-- The factors of a product that is not zero are no larger. -/
theorem prod_take_le (hne : shape.prod ≠ 0) (k : Nat) : (shape.take k).prod ≤ shape.prod := by
  have hsplit : (shape.take k).prod * (shape.drop k).prod = shape.prod := by
    rw [← List.prod_append, List.take_append_drop]
  have hrest : 0 < (shape.drop k).prod := Nat.pos_of_ne_zero fun hzero => hne (by rw [← hsplit, hzero, Nat.mul_zero])
  rw [← hsplit]
  exact Nat.le_mul_of_pos_right _ hrest

theorem prod_drop_le (hne : shape.prod ≠ 0) (k : Nat) : (shape.drop k).prod ≤ shape.prod := by
  have hsplit : (shape.take k).prod * (shape.drop k).prod = shape.prod := by
    rw [← List.prod_append, List.take_append_drop]
  have hfirst : 0 < (shape.take k).prod := Nat.pos_of_ne_zero fun hzero => hne (by rw [← hsplit, hzero, Nat.zero_mul])
  rw [← hsplit]
  exact Nat.le_mul_of_pos_left _ hfirst

/-- The products of a shape that describes elements fit if their number does. -/
theorem fits_of_prod_ne_zero (hne : shape.prod ≠ 0) (hlt : shape.prod < Size.limit) :
    StridesFit shape ∧ ProductsFit shape :=
  ⟨fun k => Nat.lt_of_le_of_lt (prod_drop_le hne (k + 1)) hlt, fun k => Nat.lt_of_le_of_lt (prod_take_le hne k) hlt⟩

/-- A product from the left succeeds if all that it runs through fit. -/
theorem Size.foldlM_mul_of_fits {sizes : List Nat} {start : Nat}
    (h : ∀ k, start * (sizes.take k).prod < Size.limit) : sizes.foldlM Size.mul start = .ok (start * sizes.prod) := by
  induction sizes generalizing start with
  | nil => simp
  | cons size sizes ih =>
    have hfirst : Size.mul start size = .ok (start * size) := by
      have hone := h 1
      rw [List.take_one, List.head?_cons, Option.toList_some, List.prod_singleton] at hone
      exact Size.mul_of_lt hone
    have hrest : ∀ k, start * size * (sizes.take k).prod < Size.limit := fun k => by
      have hnext := h (k + 1)
      rwa [List.take_succ_cons, List.prod_cons, ← Nat.mul_assoc] at hnext
    rw [List.foldlM_cons, hfirst, Outcome.ok_bind, ih hrest, List.prod_cons, Nat.mul_assoc]

/-- A product from the left faults if it runs through one that does not fit. -/
theorem Size.foldlM_mul_of_not_fits {sizes : List Nat} {start : Nat} (hstart : start < Size.limit)
    (h : ¬∀ k, start * (sizes.take k).prod < Size.limit) : sizes.foldlM Size.mul start = .fault .arithmetic := by
  induction sizes generalizing start with
  | nil => exact absurd (fun k => by simpa using hstart) h
  | cons size sizes ih =>
    rw [List.foldlM_cons]
    rcases Nat.lt_or_ge (start * size) Size.limit with hlt | hge
    · rw [Size.mul_of_lt hlt, Outcome.ok_bind]
      refine ih hlt fun hrest => h fun k => ?_
      cases k with
      | zero => simpa using hstart
      | succ k =>
        rw [List.take_succ_cons, List.prod_cons, ← Nat.mul_assoc]
        exact hrest k
    · rw [Size.mul_eq_fault hge]
      rfl

/-- Elements can be counted if the products from the left fit. -/
theorem Size.product_of_fits (h : ProductsFit shape) : Size.product shape = .ok shape.prod := by
  have hone : ∀ k, 1 * (shape.take k).prod < Size.limit := fun k => by
    rw [Nat.one_mul]
    exact h k
  rw [Size.product, Size.foldlM_mul_of_fits hone, Nat.one_mul]

/-- Elements cannot be counted if they do not. -/
theorem Size.product_of_not_fits (h : ¬ProductsFit shape) : Size.product shape = .fault .arithmetic := by
  refine Size.foldlM_mul_of_not_fits (by decide) fun hall => h fun k => ?_
  have hk := hall k
  rwa [Nat.one_mul] at hk

/-- What can be counted fits. -/
theorem productsFit_of_product {n : Nat} (h : Size.product shape = .ok n) : ProductsFit shape := by
  by_cases hfit : ProductsFit shape
  · exact hfit
  · rw [Size.product_of_not_fits hfit] at h
    exact absurd h (Outcome.fault_ne_ok _ _)

end Products

/-! ### Counting from the right -/

section Strides

variable {shape : List Nat}

theorem stridesFit_cons {extent : Nat} : StridesFit (extent :: shape) ↔ shape.prod < Size.limit ∧ StridesFit shape := by
  constructor
  · exact fun h => ⟨h 0, fun k => h (k + 1)⟩
  · rintro ⟨hfirst, hrest⟩ k
    cases k with
    | zero => exact hfirst
    | succ k => exact hrest k

/-- Strides can be found if the products from the right fit. -/
theorem rowMajorStrides_of_fits (h : StridesFit shape) : rowMajorStrides shape = .ok (trailingProducts shape) := by
  induction shape with
  | nil => rfl
  | cons first rest ih =>
    obtain ⟨hlt, hrest⟩ := stridesFit_cons.mp h
    rw [rowMajorStrides, ih hrest, Outcome.ok_bind]
    cases rest with
    | nil => rfl
    | cons extent rest =>
      have hstride : Size.mul rest.prod extent = .ok (extent :: rest).prod := by
        rw [List.prod_cons, Nat.mul_comm] at hlt ⊢
        exact Size.mul_of_lt hlt
      simp only [trailingProducts, hstride]
      rfl

/-- Strides cannot be found if they do not. -/
theorem rowMajorStrides_of_not_fits (h : ¬StridesFit shape) : rowMajorStrides shape = .fault .arithmetic := by
  induction shape with
  | nil => exact absurd (fun _ => by simp [Size.limit]) h
  | cons first rest ih =>
    rw [rowMajorStrides]
    by_cases hrest : StridesFit rest
    · rw [rowMajorStrides_of_fits hrest, Outcome.ok_bind]
      cases rest with
      | nil => exact absurd (stridesFit_cons.mpr ⟨by decide, hrest⟩) h
      | cons extent rest =>
        have hlarge : Size.limit ≤ rest.prod * extent := by
          refine Nat.le_of_not_lt fun hlt => h (stridesFit_cons.mpr ⟨?_, hrest⟩)
          rwa [List.prod_cons, Nat.mul_comm]
        simp only [trailingProducts, Size.mul_eq_fault hlarge]
        rfl
    · rw [ih hrest]
      rfl

/-- A product with a factor replaced by one that is no larger. -/
theorem prod_set_le {axis entry : Nat} (h : ∀ extent ∈ shape[axis]?, entry ≤ extent) :
    (shape.set axis entry).prod ≤ shape.prod := by
  induction shape generalizing axis with
  | nil => exact Nat.le_refl _
  | cons first rest ih =>
    cases axis with
    | zero => exact Nat.mul_le_mul_right _ (h first rfl)
    | succ axis => exact Nat.mul_le_mul_left _ (ih h)

/-- Strides still fit when an extent becomes smaller. -/
theorem StridesFit.set {axis entry : Nat} (hfit : StridesFit shape) (h : ∀ extent ∈ shape[axis]?, entry ≤ extent) :
    StridesFit (shape.set axis entry) := by
  intro k
  refine Nat.lt_of_le_of_lt ?_ (hfit k)
  rw [List.drop_set]
  split
  · exact Nat.le_refl _
  · rename_i hinside
    refine prod_set_le fun extent hextent => h extent ?_
    rwa [List.getElem?_drop, Nat.add_sub_cancel' (Nat.not_lt.mp hinside)] at hextent

end Strides

/-! ### Tensors -/

namespace Tensor

variable {κ : Type} {t : Tensor κ}

/-- A tensor that is made from data and a shape that are accepted, or from data alone. -/
inductive Made : Tensor κ → Prop where
  /-- A tensor of a shape. -/
  | ofShape {data : Array κ} {shape : List Nat} {t : Tensor κ} (h : Tensor.ofShape data shape = .ok t) : Made t
  /-- A tensor of rank one. -/
  | vector {data : Array κ} (h : data.size < Size.limit) : Made (Tensor.vector data)

/-- A tensor that is made is row-major, and its elements can be counted. -/
theorem Made.rowMajor (h : t.Made) : t.RowMajor ∧ ProductsFit t.shape := by
  cases h with
  | ofShape h =>
    obtain ⟨hmajor, -, hshape⟩ := RowMajor.of_ofShape h
    obtain ⟨strides, -, h⟩ := Outcome.bind_eq_ok_iff.mp h
    obtain ⟨total, htotal, -⟩ := Outcome.bind_eq_ok_iff.mp h
    exact ⟨hmajor, hshape ▸ productsFit_of_product htotal⟩
  | @vector data h =>
    have htotal : Size.product [data.size] = .ok data.size := by
      have hone : Size.mul 1 data.size = .ok data.size := Size.mul_eq_ok_iff.mpr ⟨by omega, by omega⟩
      rw [Size.product, List.foldlM_cons, hone, Outcome.ok_bind, List.foldlM_nil, Outcome.pure_eq_ok]
    exact ⟨.vector h, productsFit_of_product htotal⟩

theorem RowMajor.stridesFit (h : t.RowMajor) : StridesFit t.shape := by
  by_cases hfit : StridesFit t.shape
  · exact hfit
  · obtain ⟨strides, hstrides, -⟩ := Outcome.bind_eq_ok_iff.mp h.isRowMajor_eq
    rw [rowMajorStrides_of_not_fits hfit] at hstrides
    exact absurd hstrides (Outcome.fault_ne_ok _ _)

section Exchange

variable {a b : Nat}

/-- Two axes can be exchanged if the strides of the exchanged shape fit. -/
theorem RowMajor.exists_exchangeAxes (h : t.RowMajor) (ha : a < t.shape.length) (hb : b < t.shape.length)
    (hfit : StridesFit (exchanged t.shape a b)) : ∃ t', t.exchangeAxes a b = .ok t' := by
  have hrank : ¬(t.rank ≤ a ∨ t.rank ≤ b) := by
    rw [rank]
    omega
  rw [exchangeAxes_eq_lookup h.size_eq, exchangeByLookup, if_neg hrank]
  by_cases hab : a = b
  · exact ⟨t, if_pos hab⟩
  have hstrides : t.stride.length = t.shape.length := by rw [h.stride_eq, length_trailingProducts]
  -- Every position has a coordinate in the exchanged shape, and with its entries exchanged it is one of the tensor's.
  have hread : ∀ n ∈ List.range t.data.size,
      ∃ x, readAt t.data (exchanged t.stride a b) (coordinate (exchanged t.shape a b) n) = .ok x := by
    intro n hn
    rw [List.mem_range, h.size_eq, ← prod_exchanged ha hb] at hn
    obtain ⟨hin, -⟩ := storedAt_coordinate hn
    have hback := hin.of_exchanged ha hb
    have hplace := hback.storedAt_lt
    rw [← h.size_eq] at hplace
    rw [readAt, ← h.offset_exchanged ha hb hin]
    refine ⟨_, (h.elementAt_eq hback).trans (Buffer.read_eq_ok_iff.mpr (Array.getElem?_eq_getElem hplace))⟩
  obtain ⟨data, hdata⟩ := Outcome.exists_mapM hread
  rw [if_neg hab, exchangeEntries_eq_ok ha hb, Outcome.ok_bind, rowMajorStrides_of_fits hfit, Outcome.ok_bind,
    exchangeEntries_eq_ok (by omega) (by omega), Outcome.ok_bind, hdata]
  exact ⟨_, rfl⟩

/-- Two axes cannot be exchanged if they do not. -/
theorem RowMajor.exchangeAxes_of_not_fits (h : t.RowMajor) (ha : a < t.shape.length) (hb : b < t.shape.length)
    (hfit : ¬StridesFit (exchanged t.shape a b)) : t.exchangeAxes a b = .fault .arithmetic := by
  have hrank : ¬(t.rank ≤ a ∨ t.rank ≤ b) := by
    rw [rank]
    omega
  have hab : a ≠ b := by
    rintro rfl
    rw [exchanged_self ha] at hfit
    exact hfit h.stridesFit
  rw [Tensor.exchangeAxes, if_neg hrank, if_neg hab, exchangeEntries_eq_ok ha hb, Outcome.ok_bind,
    rowMajorStrides_of_not_fits hfit]
  rfl

end Exchange

/-! ### Cutting an axis -/

/-- The first elements of every block. -/
theorem leading_eq_ok {data : Array κ} {count axisLen after kept : Nat} (hsize : data.size = count * (axisLen * after))
    (hlimit : data.size < Size.limit) (hrows : count * axisLen < Size.limit) (hkept : kept ≤ axisLen) :
    leading data count axisLen after kept =
      .ok ((List.range count).flatMap fun n =>
        (chunk (axisLen * after) data.toList n).take (kept * after)).toArray := by
  have hpartial : kept * after ≤ axisLen * after := Nat.mul_le_mul_right after hkept
  rw [leading]
  generalize hkeptSize : kept * after = part at hpartial ⊢
  generalize hblock : axisLen * after = block at hsize hpartial
  refine Outcome.foldlM_range_eq_ok
    (fun n => ((List.range n).flatMap fun i => (chunk block data.toList i).take part).toArray) fun n hn => ?_
  have hinside : n * block + block ≤ data.size := by
    rw [hsize, ← Nat.succ_mul]
    exact Nat.mul_le_mul_right block hn
  have hrow : Size.mul n axisLen = .ok (n * axisLen) :=
    Size.mul_of_lt (Nat.lt_of_le_of_lt (Nat.mul_le_mul_right axisLen (Nat.le_of_lt hn)) hrows)
  have hstart : Size.mul (n * axisLen) after = .ok (n * block) := by
    rw [← hblock, ← Nat.mul_assoc]
    exact Size.mul_of_lt (by rw [Nat.mul_assoc, hblock]; omega)
  have hpart : data.extract (n * block) (n * block + part) = ((chunk block data.toList n).take part).toArray := by
    rw [← Array.toList_inj, Array.toList_extract, List.extract_eq_take_drop, chunk, List.take_take,
      Nat.add_sub_cancel_left, Nat.min_eq_left hpartial]
  rw [hrow, Outcome.ok_bind, hstart, Outcome.ok_bind, Buffer.slice, if_pos (by omega), Outcome.ok_bind, hpart,
    List.range_succ, List.flatMap_append, List.flatMap_singleton, List.append_toArray, Outcome.pure_eq_ok]

/-- Cutting an axis keeps the first entries of every block of elements behind it. -/
theorem RowMajor.exists_takeAlong (h : t.RowMajor) {front back : List Nat} {extent : Nat}
    (hshape : t.shape = front ++ extent :: back) (hfront : ProductsFit (front ++ [extent])) (hback : ProductsFit back)
    (len : Nat) :
    ∃ cut, t.takeAlong front.length len = .ok cut ∧ cut.RowMajor ∧ cut.shape = front ++ min len extent :: back ∧
      cut.data.toList = (List.range front.prod).flatMap fun n =>
        (chunk (extent * back.prod) t.data.toList n).take (min len extent * back.prod) := by
  obtain ⟨kept, hmin⟩ : ∃ kept, kept = min len extent := ⟨_, rfl⟩
  have hkept : kept ≤ extent := hmin ▸ Nat.min_le_right len extent
  have hextent : t.shape[front.length]? = some extent := by simp [hshape]
  have hset : t.shape.set front.length kept = front ++ kept :: back := by simp [hshape]
  have htotal : t.data.size = front.prod * (extent * back.prod) := by
    rw [h.size_eq, hshape, List.prod_append, List.prod_cons]
  have hblock : kept * back.prod ≤ extent * back.prod := Nat.mul_le_mul_right _ hkept
  have hfrontRows := hfront.prod_lt
  rw [List.prod_append, List.prod_singleton] at hfrontRows
  have hdata := leading_eq_ok htotal h.size_lt hfrontRows hkept
  obtain ⟨cells, hcells⟩ : ∃ cells, cells = (List.range front.prod).flatMap fun n =>
    (chunk (extent * back.prod) t.data.toList n).take (kept * back.prod) := ⟨_, rfl⟩
  rw [← hcells] at hdata
  have hbefore : Size.product (t.shape.take front.length) = .ok front.prod := by
    rw [hshape, List.take_left' rfl]
    exact Size.product_of_fits (by simpa using hfront.take front.length)
  have hafter : Size.product (t.shape.drop (front.length + 1)) = .ok back.prod := by
    rw [hshape, ← List.drop_drop, List.drop_left' rfl, List.drop_one, List.tail_cons]
    exact Size.product_of_fits hback
  have hrows : Size.mul front.prod kept = .ok (front.prod * kept) :=
    Size.mul_of_lt (Nat.lt_of_le_of_lt (Nat.mul_le_mul_left _ hkept) hfrontRows)
  have hcount : front.prod * kept * back.prod < Size.limit := by
    have hle := Nat.mul_le_mul_left front.prod hblock
    have hlt := h.size_lt
    rw [Nat.mul_assoc]
    omega
  have hstrides : StridesFit (front ++ kept :: back) := by
    rw [← hset]
    refine h.stridesFit.set fun e he => ?_
    rw [hextent] at he
    cases he
    exact hkept
  have hlength : cells.length = (front ++ kept :: back).prod := by
    rw [hcells, length_flatMap_of_length fun n hn => ?_, List.prod_append, List.prod_cons]
    rw [List.length_take, length_chunk_of_length (by rwa [Array.length_toList]) hn, Nat.min_eq_left hblock]
  refine ⟨⟨cells.toArray, trailingProducts (front ++ kept :: back), front ++ kept :: back⟩, ?_, ⟨?_, hlength, ?_⟩,
    by rw [hmin], by rw [← hmin]; exact hcells⟩
  · rw [takeAlong, hextent]
    simp only [← hmin, hbefore, hafter, hrows, hdata, hset, rowMajorStrides_of_fits hstrides, Outcome.ok_bind,
      Size.mul_of_lt hcount, Outcome.pure_eq_ok]
  · simp [isRowMajor, rowMajorStrides_of_fits hstrides]
  · rw [Nat.mul_assoc, ← List.prod_cons, ← List.prod_append, ← hlength] at hcount
    exact hcount

end Tensor

end MergePathSort
