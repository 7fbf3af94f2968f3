import Mathlib.Algebra.GroupWithZero.Nat
import MergePathSort.Proofs.Chunk
import MergePathSort.Proofs.Outcome
import MergePathSort.Tensor.Basic

/-!
# Coordinates and strides

The strides of a row-major tensor are the products of the extents behind each axis, and where a coordinate is stored is
a sum of products. The positions of a shape are numbered by its coordinates: each position has one coordinate in the
shape, and is what the coordinate adds up to. When two axes are exchanged in a coordinate and in the strides alike, the
sum stays the same.

## Main definitions

* `trailingProducts`, `storedAt` : row-major strides, and where a coordinate is stored.
* `coordinate`, `InShape` : the coordinate of a position, and coordinates of a shape.
* `exchanged` : a list with two of its entries exchanged.

## Main results

* `rowMajorStrides_eq_ok`, `offset_eq_ok` : the checked definitions in these terms.
* `storedAt_coordinate`, `coordinate_storedAt` : positions and coordinates of a shape.
* `storedAt_exchanged` : exchanging axes and strides.
* `storedAt_append` : coordinates in two parts.
-/

namespace MergePathSort

/-! ### Strides -/

/-- For every axis the product of the extents behind it. -/
def trailingProducts : List Nat → List Nat
  | [] => []
  | _ :: rest => rest.prod :: trailingProducts rest

@[simp]
theorem length_trailingProducts (shape : List Nat) : (trailingProducts shape).length = shape.length := by
  induction shape with
  | nil => rfl
  | cons extent shape ih => rw [trailingProducts, List.length_cons, ih, List.length_cons]

/-- The strides of a row-major tensor are products of extents. -/
theorem rowMajorStrides_eq_ok {shape strides : List Nat} (h : rowMajorStrides shape = .ok strides) :
    strides = trailingProducts shape := by
  induction shape generalizing strides with
  | nil =>
    cases h
    rfl
  | cons first rest ih =>
    rw [rowMajorStrides] at h
    obtain ⟨inner, hinner, h⟩ := Outcome.bind_eq_ok_iff.mp h
    obtain rfl := ih hinner
    cases rest with
    | nil =>
      cases h
      rfl
    | cons extent rest =>
      obtain ⟨stride, hstride, h⟩ := Outcome.bind_eq_ok_iff.mp h
      obtain ⟨-, rfl⟩ := Size.mul_eq_ok_iff.mp hstride
      cases h
      change _ = (extent :: rest).prod :: trailingProducts (extent :: rest)
      rw [List.prod_cons, Nat.mul_comm]

/-- The number of elements of a shape. -/
theorem Size.product_eq_ok {sizes : List Nat} {n : Nat} (h : Size.product sizes = .ok n) :
    n = sizes.prod ∧ n < Size.limit := by
  have hall : ∀ start, start < Size.limit → sizes.foldlM Size.mul start = .ok n →
      n = start * sizes.prod ∧ n < Size.limit := by
    clear h
    induction sizes with
    | nil =>
      rintro start hstart ⟨⟩
      exact ⟨(Nat.mul_one _).symm, hstart⟩
    | cons size sizes ih =>
      intro start _ h
      rw [List.foldlM_cons] at h
      obtain ⟨next, hnext, h⟩ := Outcome.bind_eq_ok_iff.mp h
      obtain ⟨hlt, rfl⟩ := Size.mul_eq_ok_iff.mp hnext
      obtain ⟨rfl, hn⟩ := ih _ hlt h
      exact ⟨by rw [List.prod_cons, Nat.mul_assoc], hn⟩
  simpa using hall 1 (by decide) h

/-! ### Where a coordinate is stored -/

/-- The sum of a coordinate's entries times the strides. -/
def storedAt (coordinate strides : List Nat) : Nat := (List.zipWith (· * ·) coordinate strides).sum

@[simp]
theorem storedAt_cons (entry stride : Nat) (coordinate strides : List Nat) :
    storedAt (entry :: coordinate) (stride :: strides) = entry * stride + storedAt coordinate strides := by
  rw [storedAt, List.zipWith_cons_cons, List.sum_cons]
  rfl

@[simp]
theorem storedAt_nil (strides : List Nat) : storedAt [] strides = 0 := rfl

/-- The sum of a coordinate's entries times the strides, with every sum checked. -/
theorem offset_eq_ok {coordinate strides : List Nat} (h : storedAt coordinate strides < Size.limit) :
    offset coordinate strides = .ok (storedAt coordinate strides) := by
  have hall : ∀ start, start + storedAt coordinate strides < Size.limit →
      (coordinate.zip strides).foldlM (fun sum entry => do Size.add sum (← Size.mul entry.1 entry.2)) start =
        (.ok (start + storedAt coordinate strides) : Outcome Nat) := by
    clear h
    induction coordinate generalizing strides with
    | nil => exact fun _ _ => rfl
    | cons entry coordinate ih =>
      intro start hstart
      cases strides with
      | nil => rfl
      | cons stride strides =>
        rw [storedAt_cons] at hstart ⊢
        have hmul : Size.mul entry stride = .ok (entry * stride) := Size.mul_of_lt (by omega)
        have hadd : Size.add start (entry * stride) = .ok (start + entry * stride) :=
          Size.add_of_lt (by omega)
        rw [List.zip_cons_cons, List.foldlM_cons]
        simp only [hmul, hadd, Outcome.ok_bind]
        rw [ih _ (by omega), Nat.add_assoc]
  have hstart := hall 0 (by omega)
  rwa [Nat.zero_add] at hstart

/-! ### Coordinates of a shape -/

/-- The coordinate of the element numbered `n` in row-major order. -/
def coordinate : List Nat → Nat → List Nat
  | [], _ => []
  | _ :: rest, n => n / rest.prod :: coordinate rest (n % rest.prod)

@[simp]
theorem coordinate_nil (n : Nat) : coordinate [] n = [] := rfl

@[simp]
theorem coordinate_cons (extent : Nat) (shape : List Nat) (n : Nat) :
    coordinate (extent :: shape) n = n / shape.prod :: coordinate shape (n % shape.prod) :=
  rfl

/-- A coordinate of a shape: one entry for every axis, below its extent. -/
structure InShape (coordinate shape : List Nat) : Prop where
  /-- There is an entry for every axis. -/
  length_eq : coordinate.length = shape.length
  /-- An entry is below its extent. -/
  lt : ∀ axis entry extent : Nat, coordinate[axis]? = some entry → shape[axis]? = some extent → entry < extent

theorem inShape_cons {entry extent : Nat} {coordinate shape : List Nat} :
    InShape (entry :: coordinate) (extent :: shape) ↔ entry < extent ∧ InShape coordinate shape := by
  constructor
  · rintro ⟨hlen, hlt⟩
    exact ⟨hlt 0 _ _ rfl rfl, by simpa using hlen, fun axis e n he hn => hlt (axis + 1) e n he hn⟩
  · rintro ⟨hfirst, hlen, hlt⟩
    refine ⟨by simpa using hlen, fun axis e n he hn => ?_⟩
    cases axis with
    | zero =>
      cases he
      cases hn
      exact hfirst
    | succ axis => exact hlt axis e n he hn

/-- A coordinate of a shape, in two parts. -/
theorem inShape_append {first second front back : List Nat} (hlen : first.length = front.length) :
    InShape (first ++ second) (front ++ back) ↔ InShape first front ∧ InShape second back := by
  induction front generalizing first with
  | nil =>
    cases List.length_eq_zero_iff.mp hlen
    exact (and_iff_right ⟨rfl, by simp⟩).symm
  | cons extent front ih =>
    obtain ⟨entry, first, rfl⟩ := List.exists_cons_of_length_eq_add_one hlen
    rw [List.cons_append, List.cons_append, inShape_cons, inShape_cons, ih (by simpa using hlen), and_assoc]

/-- A coordinate of a shape with a shorter axis. -/
theorem InShape.of_set {coordinate shape : List Nat} {axis kept : Nat} (h : InShape coordinate (shape.set axis kept))
    (hkept : ∀ extent ∈ shape[axis]?, kept ≤ extent) : InShape coordinate shape := by
  refine ⟨h.length_eq.trans List.length_set, fun other entry extent hentry hextent => ?_⟩
  by_cases haxis : axis = other
  · subst haxis
    obtain ⟨hinside, -⟩ := List.getElem?_eq_some_iff.mp hextent
    exact Nat.lt_of_lt_of_le (h.lt axis entry kept hentry (List.getElem?_set_self hinside)) (hkept extent hextent)
  · exact h.lt other entry extent hentry (by rwa [List.getElem?_set_ne haxis])

/-- A coordinate of a shape is stored in front of its end. -/
theorem InShape.storedAt_lt {coordinate shape : List Nat} (h : InShape coordinate shape) :
    storedAt coordinate (trailingProducts shape) < shape.prod := by
  induction shape generalizing coordinate with
  | nil => cases List.length_eq_zero_iff.mp h.length_eq; simp
  | cons extent shape ih =>
    obtain ⟨entry, coordinate, rfl⟩ := List.exists_cons_of_length_eq_add_one h.length_eq
    obtain ⟨hentry, hrest⟩ := inShape_cons.mp h
    rw [trailingProducts, storedAt_cons, List.prod_cons]
    exact place_lt hentry (ih hrest)

/-- The coordinate of a position lies in the shape, and leads back to the position. -/
theorem storedAt_coordinate {shape : List Nat} {n : Nat} (h : n < shape.prod) :
    InShape (coordinate shape n) shape ∧ storedAt (coordinate shape n) (trailingProducts shape) = n := by
  induction shape generalizing n with
  | nil =>
    have hzero : n = 0 := by simpa using h
    exact ⟨⟨rfl, by simp⟩, hzero.symm⟩
  | cons extent shape ih =>
    rw [List.prod_cons] at h
    have hpos : 0 < shape.prod := Nat.pos_of_ne_zero fun hzero => by simp [hzero] at h
    obtain ⟨hrest, hplace⟩ := ih (Nat.mod_lt n hpos)
    rw [coordinate_cons, trailingProducts, storedAt_cons, hplace]
    exact ⟨inShape_cons.mpr ⟨(Nat.div_lt_iff_lt_mul hpos).mpr h, hrest⟩, Nat.div_add_mod' n shape.prod⟩

/-- A coordinate of a shape is that of the position where it is stored. -/
theorem InShape.coordinate_storedAt {c shape : List Nat} (h : InShape c shape) :
    coordinate shape (storedAt c (trailingProducts shape)) = c := by
  induction shape generalizing c with
  | nil => exact (List.length_eq_zero_iff.mp h.length_eq).symm
  | cons extent shape ih =>
    obtain ⟨entry, c, rfl⟩ := List.exists_cons_of_length_eq_add_one h.length_eq
    obtain ⟨-, hrest⟩ := inShape_cons.mp h
    have hlt := hrest.storedAt_lt
    rw [trailingProducts, storedAt_cons, coordinate_cons, place_div entry hlt, place_mod entry hlt, ih hrest]

/-! ### Exchanging entries -/

/-- The list with the entries at two positions exchanged. -/
def exchanged (xs : List Nat) (a b : Nat) : List Nat := (xs.set a (xs.getD b 0)).set b (xs.getD a 0)

section Exchanged

variable {xs ys : List Nat} {a b : Nat}

theorem exchangeEntries_eq_ok (ha : a < xs.length) (hb : b < xs.length) :
    exchangeEntries xs a b = .ok (exchanged xs a b) := by
  simp [exchangeEntries, exchanged, ha, hb]

@[simp]
theorem length_exchanged (xs : List Nat) (a b : Nat) : (exchanged xs a b).length = xs.length := by
  simp [exchanged]

/-- An entry of a list with two entries exchanged. -/
theorem getElem?_exchanged (ha : a < xs.length) (hb : b < xs.length) (i : Nat) :
    (exchanged xs a b)[i]? = xs[if i = b then a else if i = a then b else i]? := by
  rw [exchanged, List.getElem?_set, List.getElem?_set, List.length_set]
  by_cases hib : b = i
  · subst hib
    simp [ha, hb]
  · by_cases hia : a = i
    · subst hia
      simp [ha, hb, hib, Ne.symm hib]
    · simp [hib, hia, Ne.symm hib, Ne.symm hia]

theorem exchanged_comm (ha : a < xs.length) (hb : b < xs.length) : exchanged xs a b = exchanged xs b a := by
  refine List.ext_getElem? fun i => ?_
  rw [getElem?_exchanged ha hb, getElem?_exchanged hb ha]
  by_cases hib : i = b
  · subst hib
    by_cases hab : i = a <;> simp [hab]
  · by_cases hia : i = a
    · subst hia
      simp [hib]
    · simp [hib, hia]

/-- Exchanging twice changes nothing. -/
theorem exchanged_exchanged (ha : a < xs.length) (hb : b < xs.length) :
    exchanged (exchanged xs a b) a b = xs := by
  refine List.ext_getElem? fun i => ?_
  rw [getElem?_exchanged (by simpa) (by simpa), getElem?_exchanged ha hb]
  by_cases hib : i = b
  · subst hib
    by_cases hab : a = i <;> simp [hab]
  · by_cases hia : i = a
    · subst hia
      simp [hib]
    · simp [hib, hia]

/-- Exchanging an entry with itself changes nothing. -/
theorem exchanged_self (ha : a < xs.length) : exchanged xs a a = xs := by
  refine List.ext_getElem? fun i => ?_
  rw [getElem?_exchanged ha ha]
  by_cases hia : i = a <;> simp [hia]

theorem exchanged_perm (ha : a < xs.length) (hb : b < xs.length) : (exchanged xs a b).Perm xs := by
  have hfirst : xs.getD a 0 = xs[a] := by simp [ha]
  have hsecond : xs.getD b 0 = xs[b] := by simp [hb]
  rw [exchanged, hfirst, hsecond]
  exact List.set_set_perm ha hb

/-- Exchanging entries does not change how many elements a shape has. -/
theorem prod_exchanged (ha : a < xs.length) (hb : b < xs.length) : (exchanged xs a b).prod = xs.prod :=
  (exchanged_perm ha hb).prod_nat

/-- An exchanged coordinate is one of the exchanged shape. -/
theorem InShape.exchanged (h : InShape xs ys) (ha : a < ys.length) (hb : b < ys.length) :
    InShape (exchanged xs a b) (exchanged ys a b) := by
  have hlen := h.length_eq
  refine ⟨by simp [hlen], fun i entry extent hentry hextent => ?_⟩
  rw [getElem?_exchanged (by omega) (by omega)] at hentry hextent
  exact h.lt _ _ _ hentry hextent

/-- A coordinate of the exchanged shape, exchanged back. -/
theorem InShape.of_exchanged (h : InShape xs (MergePathSort.exchanged ys a b)) (ha : a < ys.length) (hb : b < ys.length) :
    InShape (MergePathSort.exchanged xs a b) ys := by
  have hback := h.exchanged (a := a) (b := b) (by simpa using ha) (by simpa using hb)
  rwa [exchanged_exchanged ha hb] at hback

/-- A coordinate is stored where it was when its entries and the strides are exchanged alike. -/
theorem storedAt_exchanged (hlen : xs.length ≤ ys.length) (ha : a < xs.length) (hb : b < xs.length) :
    storedAt (exchanged xs a b) (exchanged ys a b) = storedAt xs ys := by
  have hzip : (List.zipWith (· * ·) xs ys).length = xs.length := by
    rw [List.length_zipWith, Nat.min_eq_left hlen]
  have hexchanged : List.zipWith (· * ·) (exchanged xs a b) (exchanged ys a b) =
      exchanged (List.zipWith (· * ·) xs ys) a b := by
    refine List.ext_getElem? fun i => ?_
    rw [getElem?_exchanged (by omega) (by omega), List.getElem?_zipWith, List.getElem?_zipWith,
      getElem?_exchanged ha hb, getElem?_exchanged (by omega) (by omega)]
  rw [storedAt, storedAt, hexchanged]
  exact (exchanged_perm (by omega) (by omega)).sum_nat

/-- It is the same to exchange the entries of the coordinate or the strides. -/
theorem storedAt_exchanged_left (hlen : xs.length ≤ ys.length) (ha : a < xs.length) (hb : b < xs.length) :
    storedAt (exchanged xs a b) ys = storedAt xs (exchanged ys a b) := by
  have hlen' : xs.length ≤ (exchanged ys a b).length := by rwa [length_exchanged]
  have hboth := storedAt_exchanged hlen' ha hb
  rwa [exchanged_exchanged (by omega) (by omega)] at hboth

/-- A coordinate leads to the same place when its entries are exchanged, or the strides. -/
theorem offset_exchanged_left (hlen : xs.length ≤ ys.length) (ha : a < xs.length) (hb : b < xs.length)
    (hlt : storedAt (exchanged xs a b) ys < Size.limit) :
    offset (exchanged xs a b) ys = offset xs (exchanged ys a b) := by
  rw [offset_eq_ok hlt, storedAt_exchanged_left hlen ha hb, offset_eq_ok (by rwa [← storedAt_exchanged_left hlen ha hb])]

/-- An entry replaced before or after the exchange. -/
theorem exchanged_set (ha : a < xs.length) (hb : b < xs.length) (x : Nat) :
    exchanged (xs.set a x) a b = (exchanged xs a b).set b x := by
  refine List.ext_getElem? fun i => ?_
  rw [getElem?_exchanged (by simpa) (by simpa), List.getElem?_set, List.getElem?_set, length_exchanged,
    getElem?_exchanged ha hb]
  by_cases hib : i = b
  · subst hib
    simp [ha, hb]
  · by_cases hia : i = a
    · subst hia
      simp [hib, Ne.symm hib]
    · simp [hib, hia, Ne.symm hib, Ne.symm hia]

theorem exchanged_set_right (ha : a < xs.length) (hb : b < xs.length) (x : Nat) :
    exchanged (xs.set b x) a b = (exchanged xs a b).set a x := by
  rw [exchanged_comm (by simpa using ha) (by simpa using hb), exchanged_set hb ha, exchanged_comm hb ha]

end Exchanged

/-! ### Parts of a shape -/

/-- Where a coordinate in two parts is stored. -/
theorem storedAt_append {first second front back : List Nat} (hlen : first.length = front.length) :
    storedAt (first ++ second) (trailingProducts (front ++ back)) =
      storedAt first (trailingProducts front) * back.prod + storedAt second (trailingProducts back) := by
  induction front generalizing first with
  | nil =>
    cases List.length_eq_zero_iff.mp hlen
    simp [trailingProducts]
  | cons extent front ih =>
    obtain ⟨entry, first, rfl⟩ := List.exists_cons_of_length_eq_add_one hlen
    rw [List.cons_append, List.cons_append, trailingProducts, trailingProducts, storedAt_cons, storedAt_cons,
      ih (by simpa using hlen), List.prod_append, Nat.add_mul, Nat.mul_assoc, Nat.add_assoc]

/-- Positions along the last axis follow each other. -/
theorem storedAt_append_singleton {front shape : List Nat} (hlen : front.length = shape.length) (extent p : Nat) :
    storedAt (front ++ [p]) (trailingProducts (shape ++ [extent])) =
      storedAt front (trailingProducts shape) * extent + p := by
  rw [storedAt_append hlen]
  simp [trailingProducts]

end MergePathSort
