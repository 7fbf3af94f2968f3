import Mathlib.Algebra.BigOperators.Group.List.Lemmas
import MergePathSort.Proofs.Tensor.Strided
import MergePathSort.Proofs.Tensor.Top

/-!
# Moving and cutting axes

A row-major tensor is known from its shape and from what stands at its coordinates. So exchanging two axes twice gives the
tensor back, and cutting an axis is the same as moving it, cutting it where it has come to, and moving it back.

## Main definitions

* `AllProductsFit` : all products of extents are sizes.
* `Tensor.Exchanges` : a tensor with two axes exchanged.

## Main results

* `Tensor.RowMajor.ext` : row-major tensors with the same elements are the same.
* `Tensor.RowMajor.exists_exchanges`, `Tensor.RowMajor.exists_cut` : exchanging two axes, and cutting one.
* `Tensor.axes_moved_and_cut` : what the two have to do with each other.
-/

namespace MergePathSort

variable {κ : Type}

/-! ### Products of extents -/

/-- The products of any extents of a shape are sizes. -/
def AllProductsFit (shape : List Nat) : Prop := ∀ extents : List Nat, extents.Sublist shape → extents.prod < Size.limit

section Products

variable {shape other : List Nat}

theorem AllProductsFit.sublist (h : AllProductsFit shape) (hsub : other.Sublist shape) : AllProductsFit other :=
  fun extents hextents => h extents (hextents.trans hsub)

theorem AllProductsFit.perm (h : AllProductsFit shape) (hperm : other.Perm shape) : AllProductsFit other := by
  intro extents hextents
  obtain ⟨same, hsame, hsub⟩ := List.exists_perm_sublist hextents hperm
  rw [← hsame.prod_nat]
  exact h same hsub

theorem AllProductsFit.productsFit (h : AllProductsFit shape) : ProductsFit shape := fun k => h _ (List.take_sublist k _)

theorem AllProductsFit.stridesFit (h : AllProductsFit shape) : StridesFit shape := fun _ => h _ (List.drop_sublist _ _)

/-- The products of a shape that describes elements are sizes if the number of elements is. -/
theorem allProductsFit_of_prod_ne_zero (hne : shape.prod ≠ 0) (hlt : shape.prod < Size.limit) : AllProductsFit shape :=
  fun _ hextents => Nat.lt_of_le_of_lt (Nat.le_of_dvd (Nat.pos_of_ne_zero hne) hextents.prod_dvd_prod) hlt

end Products

/-- The coordinates of a shape with a shorter axis are those whose entry for the axis is small. -/
theorem inShape_set_iff {coordinate shape : List Nat} {axis kept : Nat} (haxis : axis < shape.length)
    (hkept : kept ≤ shape[axis]) :
    InShape coordinate (shape.set axis kept) ↔ InShape coordinate shape ∧ ∀ entry ∈ coordinate[axis]?, entry < kept := by
  constructor
  · intro h
    refine ⟨h.of_set fun extent hextent => ?_, fun entry hentry => ?_⟩
    · rw [List.getElem?_eq_getElem haxis] at hextent
      exact Option.some.inj hextent ▸ hkept
    · exact h.lt axis entry kept hentry (List.getElem?_set_self haxis)
  · rintro ⟨h, hsmall⟩
    refine ⟨h.length_eq.trans List.length_set.symm, fun other entry extent hentry hextent => ?_⟩
    by_cases hother : axis = other
    · subst hother
      rw [List.getElem?_set_self haxis] at hextent
      exact Option.some.inj hextent ▸ hsmall entry hentry
    · rw [List.getElem?_set_ne hother] at hextent
      exact h.lt other entry extent hentry hextent

namespace Tensor

variable {t u moved : Tensor κ} {a b : Nat}

/-! ### Elements -/

/-- There is an element at every coordinate of the shape. -/
theorem RowMajor.exists_elementAt (h : t.RowMajor) {c : List Nat} (hc : InShape c t.shape) :
    ∃ element, t.elementAt c = .ok element := by
  have hplace := hc.storedAt_lt
  rw [← h.size_eq] at hplace
  exact ⟨_, (h.elementAt_eq hc).trans (Buffer.read_eq_ok_iff.mpr (Array.getElem?_eq_getElem hplace))⟩

/-- Row-major tensors with the same elements are the same. -/
theorem RowMajor.ext (ht : t.RowMajor) (hu : u.RowMajor) (h : t.SameElements u) : t = u := by
  have hsize : t.data.size = u.data.size := by rw [ht.size_eq, hu.size_eq, h.shape_eq]
  have hdata : t.data = u.data := by
    refine Array.ext hsize fun n hn hn' => ?_
    -- The position is where its coordinate is stored.
    have hposition : n < t.shape.prod := by rwa [← ht.size_eq]
    obtain ⟨hin, hplace⟩ := storedAt_coordinate hposition
    have hsame := h.elementAt_eq _ hin
    rw [ht.elementAt_eq hin, hplace, hu.elementAt_eq (h.shape_eq ▸ hin), ← h.shape_eq, hplace] at hsame
    have hread : Buffer.read t.data n = .ok t.data[n] := Buffer.read_eq_ok_iff.mpr (Array.getElem?_eq_getElem hn)
    rw [hread] at hsame
    obtain ⟨_, hget⟩ := Array.getElem?_eq_some_iff.mp (Buffer.read_eq_ok_iff.mp hsame.symm)
    exact hget.symm
  have hstride : t.stride = u.stride := by rw [ht.stride_eq, hu.stride_eq, h.shape_eq]
  obtain ⟨data, stride, shape⟩ := t
  obtain rfl : data = u.data := hdata
  obtain rfl : stride = u.stride := hstride
  obtain rfl : shape = u.shape := h.shape_eq
  rfl

/-! ### Exchanging two axes -/

/-- A tensor that consists of the elements of another one at the coordinates with two entries exchanged. -/
structure Exchanges (moved whole : Tensor κ) (a b : Nat) : Prop where
  /-- The tensor is row-major. -/
  rowMajor : moved.RowMajor
  /-- The shape is the other one's, with two extents exchanged. -/
  shape_eq : moved.shape = exchanged whole.shape a b
  /-- An element is the other one's at the exchanged coordinate. -/
  elementAt_eq : ∀ coordinate, InShape coordinate moved.shape →
    moved.elementAt coordinate = whole.elementAt (exchanged coordinate a b)

/-- Two axes of a row-major tensor are exchanged if the strides of the exchanged shape fit. -/
theorem RowMajor.exists_exchanges (h : t.RowMajor) (ha : a < t.shape.length) (hb : b < t.shape.length)
    (hfit : StridesFit (exchanged t.shape a b)) : ∃ moved, t.exchangeAxes a b = .ok moved ∧ moved.Exchanges t a b := by
  obtain ⟨moved, hmoved⟩ := h.exists_exchangeAxes ha hb hfit
  obtain ⟨-, hmajor, hshape, helement, -⟩ := h.exchangeAxes hmoved
  exact ⟨moved, hmoved, hmajor, hshape, helement⟩

/-- Two axes that have been exchanged are exchanged back. -/
theorem Exchanges.exchangeAxes (h : moved.Exchanges t a b) (ht : t.RowMajor) (ha : a < t.shape.length)
    (hb : b < t.shape.length) : moved.exchangeAxes a b = .ok t := by
  have hlen : moved.shape.length = t.shape.length := by rw [h.shape_eq, length_exchanged]
  have hshape : exchanged moved.shape a b = t.shape := by rw [h.shape_eq, exchanged_exchanged ha hb]
  obtain ⟨back, hback, hexchanges⟩ := h.rowMajor.exists_exchanges (a := a) (b := b) (by omega) (by omega)
    (hshape ▸ ht.stridesFit)
  have hsame : back.SameElements t := by
    refine ⟨hexchanges.shape_eq.trans hshape, fun c hc => ?_⟩
    have hin := hc
    rw [hexchanges.shape_eq] at hin
    have hlength := hin.length_eq
    rw [length_exchanged] at hlength
    rw [hexchanges.elementAt_eq c hc, h.elementAt_eq _ (hin.of_exchanged (by omega) (by omega)),
      exchanged_exchanged (by omega) (by omega)]
  rw [hback, hexchanges.rowMajor.ext ht hsame]

/-! ### Cutting an axis -/

/-- The leading entries of a tensor along an axis are one tensor. -/
theorem Leads.unique {cut cut' whole : Tensor κ} {axis kept : Nat} (h : cut.Leads whole axis kept)
    (h' : cut'.Leads whole axis kept) : cut = cut' := by
  have hshape : cut.shape = cut'.shape := h.shape_eq.trans h'.shape_eq.symm
  refine h.rowMajor.ext h'.rowMajor ⟨hshape, fun c hc => ?_⟩
  rw [h.elementAt_eq c hc, h'.elementAt_eq c (hshape ▸ hc)]

/-- An axis of a row-major tensor is cut. -/
theorem RowMajor.exists_cut (h : t.RowMajor) (hfit : AllProductsFit t.shape) (ha : a < t.shape.length) (len : Nat) :
    ∃ cut, t.takeAlong a len = .ok cut ∧ cut.Leads t a (min len t.shape[a]) := by
  have hshape : t.shape = t.shape.take a ++ t.shape[a] :: t.shape.drop (a + 1) := by simp
  have hlen : (t.shape.take a).length = a := by rw [List.length_take]; omega
  have hfront : AllProductsFit (t.shape.take a ++ [t.shape[a]]) := by
    rw [List.take_append_getElem ha]
    exact hfit.sublist (List.take_sublist _ _)
  have hback : AllProductsFit (t.shape.drop (a + 1)) := hfit.sublist (List.drop_sublist _ _)
  have hcut := h.exists_takeAlong_leads hshape hfront.productsFit hback.productsFit len
  rwa [hlen] at hcut

/-- An axis is cut by moving it, cutting it where it has come to, and moving it back. -/
theorem Exchanges.exchangeAxes_cut {cut movedCut : Tensor κ} {kept : Nat} (h : moved.Exchanges t a b) (ht : t.RowMajor)
    (ha : a < t.shape.length) (hb : b < t.shape.length) (hcut : cut.Leads t a kept)
    (hmovedCut : movedCut.Leads moved b kept) : movedCut.exchangeAxes a b = .ok cut := by
  have hlen : moved.shape.length = t.shape.length := by rw [h.shape_eq, length_exchanged]
  have hlen' : movedCut.shape.length = t.shape.length := by rw [hmovedCut.shape_eq, List.length_set, hlen]
  have hshape : exchanged movedCut.shape a b = t.shape.set a kept := by
    rw [hmovedCut.shape_eq, exchanged_set_right (by omega) (by omega), h.shape_eq, exchanged_exchanged ha hb]
  have hfit : StridesFit (exchanged movedCut.shape a b) := hshape ▸ ht.stridesFit.set hcut.kept_le
  obtain ⟨back, hback, -⟩ := hmovedCut.rowMajor.exists_exchanges (by omega) (by omega) hfit
  have hleads := hmovedCut.exchangeAxes h.rowMajor (h.exchangeAxes ht ha hb) hback
  rw [hback, hleads.unique hcut]

/-- **Moving and cutting axes.** Let all products of extents of a row-major tensor be sizes. Two of its axes can be
exchanged, by counting through the coordinates or by looking every position up. The exchanged tensor is row-major, its
extents are exchanged, and its element at a coordinate is the tensor's at the exchanged coordinate; exchanging the same
axes again gives the tensor back. An axis can be cut to any length. What is left has the tensor's elements at exactly
those coordinates whose entry for the axis is below the length, or at all of them if there are no more; and it is what is
left when the axis is moved, cut where it has come to, and moved back. -/
theorem axes_moved_and_cut {t : Tensor κ} (hmajor : t.RowMajor) (hfit : AllProductsFit t.shape) {a b : Nat}
    (ha : a < t.shape.length) (hb : b < t.shape.length) (len : Nat) :
    (∀ coordinate, InShape coordinate t.shape → ∃ element, t.elementAt coordinate = .ok element) ∧
    ∃ moved cut movedCut,
      (t.exchangeAxes a b = .ok moved ∧ t.exchangeByLookup a b = .ok moved ∧ moved.Exchanges t a b ∧
        moved.exchangeAxes a b = .ok t) ∧
      (t.takeAlong a len = .ok cut ∧ cut.Leads t a (min len t.shape[a]) ∧
        ∀ coordinate, InShape coordinate cut.shape ↔
          InShape coordinate t.shape ∧ ∀ entry ∈ coordinate[a]?, entry < min len t.shape[a]) ∧
      moved.takeAlong b len = .ok movedCut ∧ movedCut.exchangeAxes a b = .ok cut := by
  have hmovedFit : AllProductsFit (exchanged t.shape a b) := hfit.perm (exchanged_perm ha hb)
  obtain ⟨moved, hmoved, hexchanges⟩ := hmajor.exists_exchanges ha hb hmovedFit.stridesFit
  have hlen : b < moved.shape.length := by rwa [hexchanges.shape_eq, length_exchanged]
  have hextent : moved.shape[b] = t.shape[a] := by
    have hget := getElem?_exchanged ha hb b
    rw [← hexchanges.shape_eq, if_pos rfl] at hget
    simpa [ha, hlen] using hget
  obtain ⟨cut, hcut, hleads⟩ := hmajor.exists_cut hfit ha len
  obtain ⟨movedCut, hmovedCut, hmovedLeads⟩ := hexchanges.rowMajor.exists_cut (hexchanges.shape_eq ▸ hmovedFit) hlen len
  rw [hextent] at hmovedLeads
  refine ⟨fun c hc => hmajor.exists_elementAt hc, moved, cut, movedCut, ⟨hmoved, ?_, hexchanges, ?_⟩,
    ⟨hcut, hleads, fun c => ?_⟩, hmovedCut, ?_⟩
  · rw [← exchangeAxes_eq_lookup hmajor.size_eq, hmoved]
  · exact hexchanges.exchangeAxes hmajor ha hb
  · rw [hleads.shape_eq]
    exact inShape_set_iff ha (Nat.min_le_right _ _)
  · exact hexchanges.exchangeAxes_cut hmajor ha hb hleads hmovedLeads

/-- The rows of a matrix of two rows and three columns become columns, and all but the last column are kept. -/
theorem axes_moved_and_cut_matrix :
    let t : Tensor Int32 := ⟨#[0, 1, 2, 3, 4, 5], [3, 1], [2, 3]⟩
    t.exchangeAxes 1 0 = .ok ⟨#[0, 3, 1, 4, 2, 5], [2, 1], [3, 2]⟩ ∧
      exchangeAxes ⟨#[0, 3, 1, 4, 2, 5], [2, 1], [3, 2]⟩ 1 0 = .ok t ∧
      t.takeAlong 1 2 = .ok ⟨#[0, 1, 3, 4], [2, 1], [2, 2]⟩ ∧
      (exchangeAxes ⟨#[0, 3, 1, 4], [2, 1], [2, 2]⟩ 1 0 : Outcome (Tensor Int32)) =
        .ok ⟨#[0, 1, 3, 4], [2, 1], [2, 2]⟩ := by
  intro t
  have hmajor : t.RowMajor := ⟨rfl, rfl, by decide⟩
  have hfit : AllProductsFit t.shape := allProductsFit_of_prod_ne_zero (by decide) (by decide)
  obtain ⟨-, moved, cut, movedCut, ⟨hmoved, -, -, hback⟩, ⟨hcut, -⟩, hmovedCut, hsame⟩ :=
    axes_moved_and_cut (a := 1) (b := 0) hmajor hfit (by decide) (by decide) 2
  have hmoved' : t.exchangeAxes 1 0 = .ok ⟨#[0, 3, 1, 4, 2, 5], [2, 1], [3, 2]⟩ := by decide +kernel
  obtain rfl := Except.ok.inj (hmoved'.symm.trans hmoved)
  have hcut' : t.takeAlong 1 2 = .ok ⟨#[0, 1, 3, 4], [2, 1], [2, 2]⟩ := by decide +kernel
  obtain rfl := Except.ok.inj (hcut'.symm.trans hcut)
  have hmovedCut' : takeAlong (⟨#[0, 3, 1, 4, 2, 5], [2, 1], [3, 2]⟩ : Tensor Int32) 0 2 =
      .ok ⟨#[0, 3, 1, 4], [2, 1], [2, 2]⟩ := by decide +kernel
  obtain rfl := Except.ok.inj (hmovedCut'.symm.trans hmovedCut)
  exact ⟨hmoved, hback, hcut, hsame⟩

end Tensor

end MergePathSort
