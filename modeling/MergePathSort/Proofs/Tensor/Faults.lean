import MergePathSort.Proofs.Plan.Safety
import MergePathSort.Proofs.Tensor.Search
import MergePathSort.Proofs.Tensor.Sort

/-!
# When tensor operations fault

An operation on tensors that were made without a fault can fault itself: sorting counts the elements of the shape with
the axis moved to the end, once from the right for its strides and once from the left, and a tensor without elements may
have a shape whose extents can be multiplied in one order and not in the other. A search adds one to the length of a row.
These are the only faults. In particular no operation faults that sorts a tensor with elements, or along the last axis.

## Main definitions

* `Tensor.HasAxis`, `Tensor.movedShape`, `Tensor.extent` : an axis counted from the front or the end, the shape with it
  moved to the end, and its extent.

## Main results

* `HostBackend.not_faults_sort`, `HostBackend.not_faults_argsort` : the host backend never faults.
* `MovedAxis.Moves.faults_putBack_iff` : moving an axis back.
* `Tensor.faults_iff` : when an operation faults.
-/

namespace MergePathSort

/-! ### The host backend -/

section Backend

variable {κ ι : Type} [Element κ] [IndexElement ι] {data : Array κ} {axisLen : Nat} {direction : Direction}
  {backend : HostBackend}

/-- The host backend sorts rows or refuses them. -/
theorem HostBackend.not_faults_runRows {indices : Option (DoubleBuffer (Array ι))} (hlimit : data.size < Size.limit)
    (hdata : data.size ≠ 0)
    (hindices : ∀ pair, indices = some pair → pair.front.size = data.size ∧ pair.back.size = data.size) :
    ¬Stateful.Faults (runRows data axisLen direction indices) backend := by
  rw [runRows, Stateful.faults_bind_iff]
  rintro (⟨_, ⟨⟩⟩ | ⟨_, _, hget, hrest⟩)
  obtain ⟨rfl, rfl⟩ := Stateful.run_get_eq_ok_iff.mp hget
  rw [Stateful.faults_ofOutcome_bind_iff] at hrest
  rcases hrest with hsplit | ⟨shape, hshape, hrest⟩
  · rw [splitRows] at hsplit
    split at hsplit
    · exact Outcome.not_faults_refuse _ hsplit
    · exact Outcome.not_faults_ok _ hsplit
  obtain ⟨-, hlen, rfl⟩ := splitRows_eq_ok_iff.mp hshape
  rw [Stateful.faults_ofOutcome_bind_iff] at hrest
  rcases hrest with hlower | ⟨program, hlower, hrest⟩
  · have hproduct : [data.size / axisLen, axisLen].prod = data.size := by
      rw [List.prod_cons, List.prod_singleton, hlen]
    have hrows : ProductsFit ([data.size / axisLen, axisLen].take 2) :=
      (fits_of_prod_ne_zero (hproduct.symm ▸ hdata) (hproduct.symm ▸ hlimit)).2
    have hbehind : ProductsFit ([data.size / axisLen, axisLen].drop 2) := fun k => by simp [Size.limit]
    exact Program.not_faults_lower hrows hbehind _ _ _ hlower
  obtain ⟨result, report, hexecute, -, -⟩ := exists_execute_rows hlower hlen hdata hindices
  rw [Stateful.faults_ofOutcome_bind_iff, HostRunner.run, hexecute] at hrest
  rcases hrest with hrun | ⟨_, _, hrest⟩
  · exact Outcome.not_faults_ok _ hrun
  · exact Outcome.not_faults_ok _ hrest

/-- Sorting on the host backend never faults, and data without elements is sorted. -/
theorem HostBackend.not_faults_sort (hlimit : data.size < Size.limit) (axisLen : Nat) (direction : Direction)
    (backend : HostBackend) :
    ¬Stateful.Faults (Backend.sort data axisLen direction : Stateful HostBackend _) backend ∧
      (data.size = 0 →
        (Backend.sort data axisLen direction : Stateful HostBackend _).run backend = (.ok #[], backend)) := by
  by_cases hdata : data.size = 0
  · have hempty : (Backend.sort data axisLen direction : Stateful HostBackend _).run backend = (.ok #[], backend) := by
      simp only [Backend.sort, Array.isEmpty, hdata]
      rfl
    exact ⟨(Stateful.faults_iff_of_run_eq hempty).not.mpr (Outcome.not_faults_ok _), fun _ => hempty⟩
  · refine ⟨?_, fun h => absurd h hdata⟩
    have hempty : data.isEmpty = false := by simpa using hdata
    simp only [Backend.sort, hempty]
    refine Stateful.faults_bind_pure_iff.not.mpr (HostBackend.not_faults_runRows hlimit hdata ?_)
    rintro pair ⟨⟩

/-- Sorting on the host backend with indices never faults, and data without elements is sorted. -/
theorem HostBackend.not_faults_argsort (ι : Type) [IndexElement ι] (hlimit : data.size < Size.limit) (axisLen : Nat)
    (direction : Direction) (backend : HostBackend) :
    ¬Stateful.Faults (Backend.argsort ι data axisLen direction : Stateful HostBackend _) backend ∧
      (data.size = 0 →
        (Backend.argsort ι data axisLen direction : Stateful HostBackend _).run backend = (.ok (#[], #[]), backend)) := by
  by_cases hdata : data.size = 0
  · have hempty : (Backend.argsort ι data axisLen direction : Stateful HostBackend _).run backend =
        (.ok (#[], #[]), backend) := by
      simp only [Backend.argsort, Array.isEmpty, hdata]
      rfl
    exact ⟨(Stateful.faults_iff_of_run_eq hempty).not.mpr (Outcome.not_faults_ok _), fun _ => hempty⟩
  · refine ⟨?_, fun h => absurd h hdata⟩
    have hempty : data.isEmpty = false := by simpa using hdata
    simp only [Backend.argsort, hempty]
    refine Stateful.faults_bind_pure_iff.not.mpr (HostBackend.not_faults_runRows hlimit hdata ?_)
    rintro pair ⟨⟩
    exact ⟨Array.size_replicate, Array.size_replicate⟩

end Backend

/-! ### Moving the axis -/

section Moved

variable {κ α : Type} {moved : MovedAxis κ} {tensor : Tensor κ}

/-- The axis is one of the tensor's, counted from the front or from the end. -/
def Tensor.HasAxis (tensor : Tensor κ) (axis : Int) : Prop := -(tensor.rank : Int) ≤ axis ∧ axis < tensor.rank

/-- The shape of a tensor with an axis, which may be counted from the end, moved to the end. -/
def Tensor.movedShape (tensor : Tensor κ) (axis : Int) : List Nat :=
  exchanged tensor.shape (axis % tensor.rank).toNat (tensor.rank - 1)

/-- The extent of an axis, which may be counted from the end. -/
def Tensor.extent (tensor : Tensor κ) (axis : Int) : Nat := tensor.shape.getD (axis % tensor.rank).toNat 0

/-- An axis of the tensor, counted from the front. -/
theorem Tensor.HasAxis.position_lt {axis : Int} (h : tensor.HasAxis axis) :
    (axis % tensor.rank).toNat < tensor.shape.length := by
  obtain ⟨hlow, hhigh⟩ := h
  have hmod := Int.emod_lt_of_pos axis (b := tensor.rank) (by omega)
  change (axis % tensor.rank).toNat < tensor.rank
  omega

/-- A tensor with an axis has a last one. -/
theorem Tensor.HasAxis.last_lt {axis : Int} (h : tensor.HasAxis axis) : tensor.rank - 1 < tensor.shape.length := by
  have hposition := h.position_lt
  rw [Tensor.rank]
  omega

/-- An axis is moved to the end if the strides of the moved shape fit. -/
theorem MovedAxis.exists_ofTensor {axis : Int} (hmajor : tensor.RowMajor) (hrank : tensor.rank < Buffer.byteLimit)
    (haxis : tensor.HasAxis axis) (hfit : StridesFit (tensor.movedShape axis)) :
    ∃ moved, MovedAxis.ofTensor tensor axis = .ok moved ∧ moved.Moves tensor (axis % tensor.rank).toNat ∧
      moved.tensor.shape = tensor.movedShape axis ∧ moved.axisLen = tensor.extent axis := by
  have hposition := haxis.position_lt
  have hlast := haxis.last_lt
  have hresolve := resolveAxis_eq_ok hrank haxis.1 haxis.2
  obtain ⟨result, hexchange⟩ := hmajor.exists_exchangeAxes hposition hlast hfit
  obtain ⟨-, -, hshape, -, -⟩ := hmajor.exchangeAxes hexchange
  have hextent : result.shape[tensor.rank - 1]? = some (tensor.extent axis) := by
    rw [hshape, getElem?_exchanged hposition hlast, if_pos rfl, Tensor.extent, List.getD_eq_getElem?_getD,
      List.getElem?_eq_getElem hposition, Option.getD_some]
  have hmoved : MovedAxis.ofTensor tensor axis =
      .ok ⟨(axis % tensor.rank).toNat, tensor.rank - 1, result, tensor.extent axis⟩ := by
    simp only [ofTensor, hresolve, hexchange, hextent, Outcome.ok_bind, Outcome.pure_eq_ok]
  exact ⟨_, hmoved, .of_ofTensor hresolve hmoved hposition, hshape, rfl⟩

/-- An axis cannot be moved if they do not. -/
theorem MovedAxis.ofTensor_of_not_fits {axis : Int} (hmajor : tensor.RowMajor) (hrank : tensor.rank < Buffer.byteLimit)
    (haxis : tensor.HasAxis axis) (hfit : ¬StridesFit (tensor.movedShape axis)) :
    MovedAxis.ofTensor tensor axis = .fault .arithmetic := by
  have hposition := haxis.position_lt
  have hlast := haxis.last_lt
  have hresolve := resolveAxis_eq_ok hrank haxis.1 haxis.2
  have hfault := hmajor.exchangeAxes_of_not_fits hposition hlast hfit
  simp only [ofTensor, hresolve, hfault, Outcome.ok_bind]
  rfl

/-- An axis that is none of the tensor's is refused. -/
theorem MovedAxis.ofTensor_of_not_hasAxis {axis : Int} (hrank : tensor.rank < Buffer.byteLimit)
    (hword : -9223372036854775808 ≤ axis) (haxis : ¬tensor.HasAxis axis) :
    MovedAxis.ofTensor tensor axis = .refuse (.invalidAxis axis tensor.rank) := by
  have houtside : axis < -(tensor.rank : Int) ∨ (tensor.rank : Int) ≤ axis := by
    rw [Tensor.HasAxis] at haxis
    omega
  rw [ofTensor, resolveAxis_eq_refuse hrank hword houtside]
  rfl

/-- The axis can be moved back, whatever is kept of it. -/
theorem MovedAxis.Moves.exists_exchangeAxes {axis : Nat} (h : moved.Moves tensor axis) (hmajor : tensor.RowMajor)
    {kept : Tensor α} (hkept : kept.RowMajor) {len : Nat} (hlen : len ≤ moved.axisLen)
    (hshape : kept.shape = moved.front ++ [len]) :
    ∃ result, kept.exchangeAxes moved.axis moved.last = .ok result := by
  obtain ⟨hsplit, hfront, hexchanged⟩ := h.shape_eq hmajor
  obtain ⟨⟨haxis, hlast⟩, -, -, -, -⟩ := hmajor.exchangeAxes h.exchange_eq
  have hset : kept.shape = moved.tensor.shape.set moved.last len := by
    rw [hshape, hsplit, ← hfront, List.set_append_right _ _ (Nat.le_refl _), Nat.sub_self, List.set_cons_zero]
  -- Moved back, the shape is the tensor's own, with a shorter axis.
  have hback : exchanged kept.shape axis moved.last = tensor.shape.set axis len := by
    rw [hset, hexchanged, exchanged_set_right (by simpa using haxis) (by simpa using hlast),
      exchanged_exchanged haxis hlast]
  have hlength : kept.shape.length = tensor.shape.length := by
    rw [hset, hexchanged, List.length_set, length_exchanged]
  rw [h.axis_eq]
  refine hkept.exists_exchangeAxes (by omega) (by omega) ?_
  rw [hback]
  refine hmajor.stridesFit.set fun extent hmem => ?_
  rw [h.extent_eq hmajor] at hmem
  cases hmem
  exact hlen

/-- Putting rows back, or their leading entries, faults exactly if the moved shape's elements cannot be counted. -/
theorem MovedAxis.Moves.faults_putBack_iff {axis : Nat} (h : moved.Moves tensor axis) (hmajor : tensor.RowMajor)
    (data : Array α) (keep : Option Nat) : (moved.putBack data keep).Faults ↔ ¬ProductsFit moved.tensor.shape := by
  obtain ⟨hsplit, hfront, -⟩ := h.shape_eq hmajor
  obtain ⟨-, hmoved, -, -, -⟩ := hmajor.exchangeAxes h.exchange_eq
  by_cases hfit : ProductsFit moved.tensor.shape
  · refine iff_of_false (Outcome.not_faults_bind ?_ fun whole hwhole => ?_) (fun hnot => hnot hfit)
    · rw [Tensor.ofShape, rowMajorStrides_of_fits hmoved.stridesFit, Outcome.ok_bind, Tensor.ofStrides,
        Size.product_of_fits hfit, Outcome.ok_bind]
      split
      · exact Outcome.not_faults_ok _
      · exact Outcome.not_faults_refuse _
    obtain ⟨hmade, -, hshape⟩ := Tensor.RowMajor.of_ofShape hwhole
    rw [hsplit] at hfit hshape
    cases keep with
    | none =>
      obtain ⟨result, hresult⟩ := h.exists_exchangeAxes hmajor hmade (Nat.le_refl _) hshape
      simp only [Outcome.ok_bind, hresult]
      exact Outcome.not_faults_ok _
    | some len =>
      obtain ⟨cut, hcut, hcutMajor, hcutShape, -⟩ :=
        hmade.exists_takeAlong hshape hfit (fun k => by simp [Size.limit]) len
      obtain ⟨result, hresult⟩ := h.exists_exchangeAxes hmajor hcutMajor (Nat.min_le_right len _) hcutShape
      rw [hfront] at hcut
      simp only [hcut, Outcome.ok_bind, hresult]
      exact Outcome.not_faults_ok _
  · refine iff_of_true ?_ hfit
    rw [MovedAxis.putBack, Tensor.ofShape, rowMajorStrides_of_fits hmoved.stridesFit, Outcome.ok_bind, Tensor.ofStrides,
      Size.product_of_not_fits hfit]
    exact Outcome.faults_fault _

end Moved

/-! ### Sorting -/

section Sorting

variable {κ ι α β γ : Type} [Element κ] [IndexElement ι] {tensor : Tensor κ} {axis : Int} {direction : Direction}
  {backend : HostBackend}

namespace MovedAxis

section Moves

variable {moved : MovedAxis κ} {position : Nat} (h : moved.Moves tensor position) (hmajor : tensor.RowMajor)
include h hmajor

omit [Element κ] in
/-- What comes after rows are put back: it faults exactly if putting back does, as long as it only faults then. -/
theorem Moves.faults_putBack_bind_iff {data : Array α} {keep : Option Nat} {f : Tensor α → Stateful HostBackend β}
    (hf : ∀ result s, Stateful.Faults (f result) s → ¬ProductsFit moved.tensor.shape) (s : HostBackend) :
    Stateful.Faults (Stateful.ofOutcome (moved.putBack data keep) >>= f) s ↔ ¬ProductsFit moved.tensor.shape := by
  rw [Stateful.faults_ofOutcome_bind_iff, h.faults_putBack_iff hmajor]
  constructor
  · rintro (hfit | ⟨result, -, hfaults⟩)
    · exact hfit
    · exact hf result s hfaults
  · exact .inl

omit [Element κ] in
/-- Rows that are sorted without a fault, and what comes after. A tensor whose moved shape cannot be counted has no
elements, and no rows that could be refused. -/
theorem Moves.faults_rows_bind_iff {rows : Stateful HostBackend γ} {f : γ → Stateful HostBackend β}
    (hrows : ¬rows.Faults backend) (hempty : moved.tensor.data.size = 0 → ∃ a, rows.run backend = (.ok a, backend))
    (hf : ∀ a s, Stateful.Faults (f a) s ↔ ¬ProductsFit moved.tensor.shape) :
    Stateful.Faults (rows >>= f) backend ↔ ¬ProductsFit moved.tensor.shape := by
  obtain ⟨-, hmoved, -, -, -⟩ := hmajor.exchangeAxes h.exchange_eq
  rw [Stateful.faults_bind_iff]
  constructor
  · rintro (hfaults | ⟨a, s', -, hfaults⟩)
    · exact absurd hfaults hrows
    · exact (hf a s').mp hfaults
  · intro hfit
    have hnone : moved.tensor.data.size = 0 := by
      by_cases hsize : moved.tensor.data.size = 0
      · exact hsize
      · rw [hmoved.size_eq] at hsize
        exact absurd (fits_of_prod_ne_zero hsize (hmoved.size_eq ▸ hmoved.size_lt)).2 hfit
    obtain ⟨a, hrun⟩ := hempty hnone
    exact .inr ⟨a, backend, hrun, (hf a backend).mpr hfit⟩

/-- Sorting the rows of the moved tensor, and what comes after. -/
theorem Moves.faults_sort_bind_iff {f : Array κ → Stateful HostBackend β}
    (hf : ∀ values s, Stateful.Faults (f values) s ↔ ¬ProductsFit moved.tensor.shape) :
    Stateful.Faults (Backend.sort moved.tensor.data moved.axisLen direction >>= f) backend ↔
      ¬ProductsFit moved.tensor.shape := by
  obtain ⟨-, hmoved, -, -, -⟩ := hmajor.exchangeAxes h.exchange_eq
  obtain ⟨hrows, hempty⟩ := HostBackend.not_faults_sort hmoved.size_lt moved.axisLen direction backend
  exact h.faults_rows_bind_iff hmajor hrows (fun hnone => ⟨_, hempty hnone⟩) hf

/-- Sorting the rows of the moved tensor with indices, if the index type holds their positions. -/
theorem Moves.faults_argsort_bind_iff {f : Array κ × Array ι → Stateful HostBackend β}
    (hf : ∀ sorted s, Stateful.Faults (f sorted) s ↔ ¬ProductsFit moved.tensor.shape) :
    Stateful.Faults (do
      Stateful.ofOutcome (requirePositions ι moved.axisLen)
      Backend.argsort ι moved.tensor.data moved.axisLen direction >>= f) backend ↔
      ¬ProductsFit moved.tensor.shape ∧ IndexElement.fits ι moved.axisLen = true := by
  obtain ⟨-, hmoved, -, -, -⟩ := hmajor.exchangeAxes h.exchange_eq
  obtain ⟨hrows, hempty⟩ := HostBackend.not_faults_argsort ι hmoved.size_lt moved.axisLen direction backend
  have hsorted := h.faults_rows_bind_iff hmajor hrows (fun hnone => ⟨_, hempty hnone⟩) hf
  rw [Stateful.faults_ofOutcome_bind_iff, requirePositions]
  by_cases hfits : IndexElement.fits ι moved.axisLen = true
  · simp [hfits, hsorted]
  · simp [hfits]

end Moves

omit [Element κ] in
/-- Moving an axis to the end, and what comes after: `later` says when that faults. -/
theorem faults_ofTensor_bind_iff {later : Prop} {f : MovedAxis κ → Stateful HostBackend β} (hmajor : tensor.RowMajor)
    (hrank : tensor.rank < Buffer.byteLimit) (hword : -9223372036854775808 ≤ axis)
    (hf : ∀ moved, moved.Moves tensor (axis % tensor.rank).toNat → moved.tensor.shape = tensor.movedShape axis →
      moved.axisLen = tensor.extent axis → (Stateful.Faults (f moved) backend ↔ later)) :
    Stateful.Faults (Stateful.ofOutcome (MovedAxis.ofTensor tensor axis) >>= f) backend ↔
      tensor.HasAxis axis ∧ (¬StridesFit (tensor.movedShape axis) ∨ later) := by
  by_cases haxis : tensor.HasAxis axis
  · by_cases hfit : StridesFit (tensor.movedShape axis)
    · obtain ⟨moved, hmoved, hmoves, hshape, hextent⟩ := exists_ofTensor hmajor hrank haxis hfit
      simp [Stateful.faults_ofOutcome_bind_iff, hmoved, haxis, hfit, hf moved hmoves hshape hextent]
    · have hfault := ofTensor_of_not_fits hmajor hrank haxis hfit
      simp [Stateful.faults_ofOutcome_bind_iff, hfault, haxis, hfit]
  · have hrefused := ofTensor_of_not_hasAxis hrank hword haxis
    simp [Stateful.faults_ofOutcome_bind_iff, hrefused, haxis]

end MovedAxis

namespace Tensor

variable (hmajor : tensor.RowMajor) (hrank : tensor.rank < Buffer.byteLimit) (hword : -9223372036854775808 ≤ axis)
include hmajor hrank hword

/-- When sorting a tensor faults. -/
theorem faults_sort_iff (direction : Direction) (backend : HostBackend) :
    Stateful.Faults (tensor.sort axis direction) backend ↔
      tensor.HasAxis axis ∧ (¬StridesFit (tensor.movedShape axis) ∨ ¬ProductsFit (tensor.movedShape axis)) := by
  refine MovedAxis.faults_ofTensor_bind_iff hmajor hrank hword fun moved hmoves hshape _ => ?_
  rw [← hshape]
  exact hmoves.faults_sort_bind_iff hmajor fun values _ => hmoves.faults_putBack_iff hmajor values none

/-- When sorting a tensor with indices faults. -/
theorem faults_sortIndexed_iff (direction : Direction) (backend : HostBackend) :
    Stateful.Faults (tensor.sortIndexed ι axis direction) backend ↔
      tensor.HasAxis axis ∧ (¬StridesFit (tensor.movedShape axis) ∨
        ¬ProductsFit (tensor.movedShape axis) ∧ IndexElement.fits ι (tensor.extent axis) = true) := by
  refine MovedAxis.faults_ofTensor_bind_iff hmajor hrank hword fun moved hmoves hshape hextent => ?_
  rw [← hshape, ← hextent]
  refine hmoves.faults_argsort_bind_iff hmajor fun (values, indices) s => ?_
  refine hmoves.faults_putBack_bind_iff hmajor (fun _ s hfaults => ?_) s
  exact (hmoves.faults_putBack_bind_iff hmajor (fun _ _ hpure => absurd hpure (Stateful.not_faults_pure _)) s).mp hfaults

/-- When finding the positions of a sorted tensor faults. -/
theorem faults_argsort_iff (direction : Direction) (backend : HostBackend) :
    Stateful.Faults (tensor.argsort ι axis direction) backend ↔
      tensor.HasAxis axis ∧ (¬StridesFit (tensor.movedShape axis) ∨
        ¬ProductsFit (tensor.movedShape axis) ∧ IndexElement.fits ι (tensor.extent axis) = true) := by
  rw [argsort, Stateful.faults_bind_pure_iff]
  exact faults_sortIndexed_iff hmajor hrank hword direction backend

/-- When the top entries fault. -/
theorem faults_top_iff (count : Int) (kind : ReturnKind) (direction : Direction) (backend : HostBackend) :
    Stateful.Faults (tensor.top ι count axis kind direction) backend ↔
      tensor.HasAxis axis ∧ (¬StridesFit (tensor.movedShape axis) ∨
        ¬ProductsFit (tensor.movedShape axis) ∧ (kind = .values ∨ IndexElement.fits ι (tensor.extent axis) = true)) := by
  refine MovedAxis.faults_ofTensor_bind_iff hmajor hrank hword fun moved hmoves hshape hextent => ?_
  rw [← hshape, ← hextent]
  have hpure : ∀ {data : Array κ} {keep : Option Nat} {f : Tensor κ → TopEntries κ ι} (s : HostBackend),
      Stateful.Faults (do return f (← Stateful.ofOutcome (moved.putBack data keep))) s ↔
        ¬ProductsFit moved.tensor.shape := fun s =>
    hmoves.faults_putBack_bind_iff hmajor (fun _ _ hpure => absurd hpure (Stateful.not_faults_pure _)) s
  by_cases hvalues : kind = .values
  · simp only [hvalues, if_true, true_or, and_true]
    exact hmoves.faults_sort_bind_iff hmajor fun values s => hpure s
  · simp only [hvalues, if_false, false_or]
    refine hmoves.faults_argsort_bind_iff hmajor fun (values, indices) s => ?_
    refine hmoves.faults_putBack_bind_iff hmajor (fun _ s hfaults => ?_) s
    split at hfaults
    · exact absurd hfaults (Stateful.not_faults_pure _)
    · exact (hpure s).mp hfaults

omit [Element κ] hrank hword in
/-- The moved shape fits if there are elements, or if nothing has to be moved. -/
theorem fits_movedShape (hfit : ProductsFit tensor.shape) (haxis : tensor.HasAxis axis)
    (h : tensor.data.size ≠ 0 ∨ (axis % tensor.rank).toNat = tensor.rank - 1) :
    StridesFit (tensor.movedShape axis) ∧ ProductsFit (tensor.movedShape axis) := by
  have hposition := haxis.position_lt
  have hlast := haxis.last_lt
  rcases h with hsize | heq
  · have hprod : (tensor.movedShape axis).prod = tensor.data.size := by
      rw [hmajor.size_eq]
      exact prod_exchanged hposition hlast
    exact fits_of_prod_ne_zero (hprod ▸ hsize) (hprod ▸ hmajor.size_lt)
  · have hsame : tensor.movedShape axis = tensor.shape := by
      rw [movedShape, heq]
      exact exchanged_self hlast
    rw [hsame]
    exact ⟨hmajor.stridesFit, hfit⟩

end Tensor

end Sorting

/-! ### All operations -/

namespace Tensor

variable {κ ι β : Type} [Element κ] [IndexElement ι] [Backend β] {tensor sorted needles : Tensor κ} {axis : Int}

/-- When a search faults: the shapes are matched, and the length of a row is the largest size. -/
theorem faults_searchLast_iff [SearchesRows β] (hsorted : sorted.RowMajor) (hneedles : needles.RowMajor)
    (hfit : ProductsFit needles.shape) (right : Bool) (backend : β) :
    Stateful.Faults (sorted.searchLast ι needles right) backend ↔
      ¬Matching.Mismatch sorted.shape needles.shape ∧
        ∃ rowLen, sorted.shape.getLast? = some rowLen ∧ Size.limit ≤ rowLen + 1 := by
  have hproduct : needles.elementCount = .ok needles.shape.prod := Size.product_of_fits hfit
  by_cases hmatch : Matching.Mismatch sorted.shape needles.shape
  · refine iff_of_false ?_ fun h => h.1 hmatch
    rw [Stateful.faults_iff_of_run_eq (searchLast_of_mismatch hproduct hmatch)]
    exact Outcome.not_faults_refuse _
  obtain ⟨matching, hshapes, hmatches⟩ := Matching.exists_ofShapes hproduct hmatch
  have hlast := hmatches.getLast?_eq
  rcases Nat.lt_or_ge (matching.rowLen + 1) Size.limit with hroom | hlarge
  · refine iff_of_false ?_ ?_
    · rcases Nat.lt_or_ge (IndexElement.maxPosition ι) matching.rowLen with hrange | hrange
      · rw [Stateful.faults_iff_of_run_eq (searchLast_of_indexRange hshapes hroom hrange)]
        exact Outcome.not_faults_refuse _
      · obtain ⟨found, hrun, -⟩ := exists_searchLast hsorted hneedles (hneedles.size_eq ▸ hproduct) hshapes hmatches
          hroom hrange right backend
        rw [Stateful.faults_iff_of_run_eq hrun]
        exact Outcome.not_faults_ok _
    · rintro ⟨-, rowLen, hrowLen, hlarge⟩
      rw [hlast] at hrowLen
      cases hrowLen
      omega
  · refine iff_of_true ?_ ⟨hmatch, matching.rowLen, hlast, hlarge⟩
    have hplaces : Size.add matching.rowLen 1 = .fault .arithmetic := by
      rw [Size.add, Size.fit, if_neg (Nat.not_lt_of_le hlarge)]
    rw [searchLast, Stateful.faults_ofOutcome_bind_iff]
    refine .inr ⟨matching, hshapes, ?_⟩
    rw [Stateful.faults_ofOutcome_bind_iff, hplaces]
    exact .inl (Outcome.faults_fault _)

/-- When an operation on tensors that were made faults on the host. Sorting faults if the axis is one of the tensor's and
its extents, with the axis moved to the end, cannot be multiplied; if positions are returned, an index type that is too
small for the axis is noticed between the products for the strides and the count of the elements. None of this happens to
a tensor with elements, or along the last axis. A search faults if it gets as far as the number of places in a row and
that is no size. -/
theorem faults_iff (htensor : tensor.Made) (hsorted : sorted.Made) (hneedles : needles.Made)
    (hrank : tensor.rank < Buffer.byteLimit) (hword : -9223372036854775808 ≤ axis) (count : Int) (kind : ReturnKind)
    (direction : Direction) (right : Bool) (backend : HostBackend) :
    (Stateful.Faults (tensor.sort axis direction) backend ↔
      tensor.HasAxis axis ∧ (¬StridesFit (tensor.movedShape axis) ∨ ¬ProductsFit (tensor.movedShape axis))) ∧
    (Stateful.Faults (tensor.sortIndexed ι axis direction) backend ↔
      tensor.HasAxis axis ∧ (¬StridesFit (tensor.movedShape axis) ∨
        ¬ProductsFit (tensor.movedShape axis) ∧ IndexElement.fits ι (tensor.extent axis) = true)) ∧
    (Stateful.Faults (tensor.argsort ι axis direction) backend ↔
      tensor.HasAxis axis ∧ (¬StridesFit (tensor.movedShape axis) ∨
        ¬ProductsFit (tensor.movedShape axis) ∧ IndexElement.fits ι (tensor.extent axis) = true)) ∧
    (Stateful.Faults (tensor.top ι count axis kind direction) backend ↔
      tensor.HasAxis axis ∧ (¬StridesFit (tensor.movedShape axis) ∨
        ¬ProductsFit (tensor.movedShape axis) ∧
          (kind = .values ∨ IndexElement.fits ι (tensor.extent axis) = true))) ∧
    (tensor.HasAxis axis → tensor.data.size ≠ 0 ∨ (axis % tensor.rank).toNat = tensor.rank - 1 →
      StridesFit (tensor.movedShape axis) ∧ ProductsFit (tensor.movedShape axis)) ∧
    (Stateful.Faults (sorted.searchLast ι needles right) backend ↔
      ¬Matching.Mismatch sorted.shape needles.shape ∧
        ∃ rowLen, sorted.shape.getLast? = some rowLen ∧ Size.limit ≤ rowLen + 1) := by
  obtain ⟨hmajor, hfit⟩ := htensor.rowMajor
  obtain ⟨hneedlesMajor, hneedlesFit⟩ := hneedles.rowMajor
  exact ⟨faults_sort_iff hmajor hrank hword direction backend,
    faults_sortIndexed_iff hmajor hrank hword direction backend,
    faults_argsort_iff hmajor hrank hword direction backend,
    faults_top_iff hmajor hrank hword count kind direction backend,
    fits_movedShape hmajor hfit,
    faults_searchLast_iff hsorted.rowMajor.1 hneedlesMajor hneedlesFit right backend⟩

/-- A tensor without elements between two large extents. Its elements can be counted, and it can be sorted along the last
axis, but not along the second, as the two large extents then come first. A row of the largest size cannot be searched. -/
theorem faults_large_extents :
    ∃ tensor sorted needles : Tensor UInt8, Tensor.ofShape #[] [8589934592, 0, 8589934592] = .ok tensor ∧
      Tensor.ofShape #[] [0, 18446744073709551615] = .ok sorted ∧ Tensor.ofShape #[] [0, 4] = .ok needles ∧
      Stateful.Faults (tensor.sort 1 .ascending) ({} : HostBackend) ∧
      Stateful.Faults (tensor.sortIndexed UInt64 1 .ascending) ({} : HostBackend) ∧
      Stateful.Faults (tensor.argsort UInt64 1 .ascending) ({} : HostBackend) ∧
      Stateful.Faults (tensor.top UInt64 3 1 .both .ascending) ({} : HostBackend) ∧
      Stateful.Faults (sorted.searchLast UInt64 needles false) ({} : HostBackend) ∧
      ¬Stateful.Faults (tensor.sort 2 .ascending) ({} : HostBackend) := by
  have htensor : Tensor.ofShape (#[] : Array UInt8) [8589934592, 0, 8589934592] =
      .ok ⟨#[], [0, 8589934592, 1], [8589934592, 0, 8589934592]⟩ := by decide
  have hsorted : Tensor.ofShape (#[] : Array UInt8) [0, 18446744073709551615] =
      .ok ⟨#[], [18446744073709551615, 1], [0, 18446744073709551615]⟩ := by decide
  have hneedles : Tensor.ofShape (#[] : Array UInt8) [0, 4] = .ok ⟨#[], [4, 1], [0, 4]⟩ := by decide
  obtain ⟨hsort, hsortIndexed, hargsort, htop, -, hsearch⟩ := faults_iff (ι := UInt64) (.ofShape htensor)
    (.ofShape hsorted) (.ofShape hneedles) (by decide) (by decide : (-9223372036854775808 : Int) ≤ 1) 3 .both .ascending
    false {}
  obtain ⟨hlast, -, -, -, hfits, -⟩ := faults_iff (ι := UInt64) (.ofShape htensor)
    (.ofShape hsorted) (.ofShape hneedles) (by decide) (by decide : (-9223372036854775808 : Int) ≤ 2) 3 .both .ascending
    false {}
  -- The two extents stand in front of the zero when the second axis has been moved to the end.
  have hproducts : ¬ProductsFit [8589934592, 8589934592, 0] := fun h => absurd (h 2) (by decide)
  have hmatch : ¬Matching.Mismatch [0, 18446744073709551615] [0, 4] := by simp [Matching.Mismatch]
  have haxis : HasAxis (⟨#[], [0, 8589934592, 1], [8589934592, 0, 8589934592]⟩ : Tensor UInt8) 1 :=
    ⟨by decide, by decide⟩
  refine ⟨_, _, _, htensor, hsorted, hneedles, hsort.mpr ⟨haxis, .inr hproducts⟩,
    hsortIndexed.mpr ⟨haxis, .inr ⟨hproducts, rfl⟩⟩, hargsort.mpr ⟨haxis, .inr ⟨hproducts, rfl⟩⟩,
    htop.mpr ⟨haxis, .inr ⟨hproducts, .inr rfl⟩⟩, hsearch.mpr ⟨hmatch, _, rfl, by decide⟩, ?_⟩
  rw [hlast]
  rintro ⟨hthere, hnot⟩
  obtain ⟨hstrides, hproducts⟩ := hfits hthere (.inr rfl)
  exact hnot.elim (· hstrides) (· hproducts)

end Tensor

end MergePathSort
