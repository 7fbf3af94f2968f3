import Mathlib
import MergePathSort.Backend.Host
import MergePathSort.Proofs.Tensor.Extents
import MergePathSort.Tensor.Sort

/-!
# Tensors with strides of their own

A tensor may be made with any strides, and then it has other elements at the coordinates of its shape than the row-major
tensor of the same buffer. An exchange of two different axes reads through the strides, so along every axis but the last
one a tensor is sorted as the row-major tensor with the same elements. The last axis stays where it is and a search moves
no axis at all: there the buffer is taken for rows as it is, whatever the strides are.

## Main definitions

* `Tensor.Strided`, `Tensor.SameElements` : strides that stay in the buffer, and tensors that agree at every coordinate.
* `MovedAxis.unstrided` : a moved axis without the strides.
* `Tensor.SortsAlike` : tensors that cannot be told apart by sorting along an axis.

## Main results

* `Tensor.Strided.exchangeAxes_congr` : exchanging two different axes.
* `MovedAxis.ofTensor_congr`, `MovedAxis.unstrided_ofTensor_last` : moving an axis to the end.
* `Tensor.strides_read_unless_last` : where strides are read, and where they are not.
-/

namespace MergePathSort

variable {κ : Type}

/-! ### Strides -/

namespace Tensor

/-- A tensor whose strides lead every coordinate of its shape into its buffer. -/
structure Strided (t : Tensor κ) : Prop where
  /-- The shape describes the elements. -/
  size_eq : t.data.size = t.shape.prod
  /-- The number of elements is a size. -/
  size_lt : t.data.size < Size.limit
  /-- Every axis has a stride. -/
  length_le : t.shape.length ≤ t.stride.length
  /-- A coordinate is stored in the buffer. -/
  storedAt_lt : ∀ coordinate, InShape coordinate t.shape → storedAt coordinate t.stride < t.data.size

/-- Tensors of one shape with the same elements, wherever they are stored. -/
structure SameElements (t u : Tensor κ) : Prop where
  /-- The shapes are the same. -/
  shape_eq : t.shape = u.shape
  /-- The elements are the same. -/
  elementAt_eq : ∀ coordinate, InShape coordinate t.shape → t.elementAt coordinate = u.elementAt coordinate

variable {t u : Tensor κ} {a b : Nat}

/-- A tensor that is made with strides that stay in its buffer. -/
theorem Strided.of_ofStrides {data : Array κ} {stride shape : List Nat} (h : ofStrides data stride shape = .ok t)
    (hlen : shape.length ≤ stride.length)
    (hinside : ∀ coordinate, InShape coordinate shape → storedAt coordinate stride < data.size) : t.Strided := by
  obtain ⟨total, htotal, h⟩ := Outcome.bind_eq_ok_iff.mp h
  obtain ⟨hprod, hlt⟩ := Size.product_eq_ok htotal
  by_cases heq : total = data.size
  · rw [if_pos heq] at h
    cases h
    exact ⟨heq ▸ hprod, heq ▸ hlt, hlen, hinside⟩
  · rw [if_neg heq] at h
    cases h

/-- A row-major tensor has a stride for every axis, and they stay in its buffer. -/
theorem RowMajor.strided (h : t.RowMajor) : t.Strided := by
  refine ⟨h.size_eq, h.size_lt, Nat.le_of_eq ?_, fun c hc => ?_⟩
  · rw [h.stride_eq, length_trailingProducts]
  · rw [h.stride_eq, h.size_eq]
    exact hc.storedAt_lt

/-- What is read where the strides are exchanged stands at the exchanged coordinate. -/
theorem Strided.read_exchanged (h : t.Strided) (ha : a < t.shape.length) (hb : b < t.shape.length) {c : List Nat}
    (hc : InShape c (exchanged t.shape a b)) :
    readAt t.data (exchanged t.stride a b) c = t.elementAt (exchanged c a b) := by
  have hlen := hc.length_eq
  rw [length_exchanged] at hlen
  have hplace := h.storedAt_lt _ (hc.of_exchanged ha hb)
  have hlimit := h.size_lt
  have hstrides := h.length_le
  rw [elementAt, readAt, readAt, offset_exchanged_left (by omega) (by omega) (by omega) (by omega)]

/-- Two different axes are exchanged alike where the elements are the same. -/
theorem Strided.exchangeAxes_congr (ht : t.Strided) (hu : u.Strided) (h : t.SameElements u) (hab : a ≠ b) :
    t.exchangeAxes a b = u.exchangeAxes a b := by
  have hrank : t.rank = u.rank := congrArg List.length h.shape_eq
  rw [exchangeAxes_eq_lookup ht.size_eq, exchangeAxes_eq_lookup hu.size_eq, exchangeByLookup, exchangeByLookup, hrank]
  by_cases houtside : u.rank ≤ a ∨ u.rank ≤ b
  · rw [if_pos houtside, if_pos houtside]
  obtain ⟨ha, hb⟩ : a < u.shape.length ∧ b < u.shape.length := by
    rw [rank] at houtside
    omega
  have hsize : t.data.size = u.data.size := by rw [ht.size_eq, hu.size_eq, h.shape_eq]
  have hdata : (List.range t.data.size).mapM (fun n =>
        readAt t.data (exchanged t.stride a b) (coordinate (exchanged u.shape a b) n)) =
      (List.range u.data.size).mapM (fun n =>
        readAt u.data (exchanged u.stride a b) (coordinate (exchanged u.shape a b) n)) := by
    rw [hsize]
    refine Outcome.mapM_congr fun n hn => ?_
    rw [List.mem_range, hu.size_eq, ← prod_exchanged ha hb] at hn
    obtain ⟨hin, -⟩ := storedAt_coordinate hn
    generalize coordinate (exchanged u.shape a b) n = c at hin
    have hback := hin.of_exchanged ha hb
    rw [← h.shape_eq] at hback
    rw [hu.read_exchanged ha hb hin, ← h.elementAt_eq _ hback]
    rw [← h.shape_eq] at ha hb hin
    exact ht.read_exchanged ha hb hin
  have hstrides := ht.length_le
  have hstrides' := hu.length_le
  rw [h.shape_eq] at hstrides
  have hsource : exchangeEntries t.stride a b = .ok (exchanged t.stride a b) :=
    exchangeEntries_eq_ok (by omega) (by omega)
  have hsource' : exchangeEntries u.stride a b = .ok (exchanged u.stride a b) :=
    exchangeEntries_eq_ok (by omega) (by omega)
  rw [if_neg houtside, if_neg houtside, if_neg hab, if_neg hab, h.shape_eq, exchangeEntries_eq_ok ha hb, hsource, hsource']
  simp only [Outcome.ok_bind, hdata]

/-- Two different axes cannot be exchanged if the second one has no stride. -/
theorem exchangeAxes_of_missing_stride (ha : a < t.rank) (hb : b < t.rank) (hab : a ≠ b)
    (hstride : t.stride.length ≤ b) : (t.exchangeAxes a b).Faults := by
  have hrank : ¬(t.rank ≤ a ∨ t.rank ≤ b) := by omega
  have hmissing : exchangeEntries t.stride a b = .fault .index := by
    rw [exchangeEntries, List.getElem?_eq_none hstride]
    cases t.stride[a]? <;> rfl
  rw [exchangeAxes, if_neg hrank, if_neg hab, exchangeEntries_eq_ok ha hb, Outcome.ok_bind, hmissing]
  by_cases hfit : StridesFit (exchanged t.shape a b)
  · rw [rowMajorStrides_of_fits hfit]
    exact Outcome.faults_fault _
  · rw [rowMajorStrides_of_not_fits hfit]
    exact Outcome.faults_fault _

end Tensor

/-! ### Moving the axis -/

theorem lt_of_resolveAxis {axis : Int} {rank position : Nat} (h : resolveAxis axis rank = .ok position) :
    position < rank := by
  rw [resolveAxis] at h
  split at h
  · split at h
    · cases h
      assumption
    · cases h
  · obtain ⟨resolved, -, h⟩ := Outcome.bind_eq_ok_iff.mp h
    split at h
    · rename_i hinside
      cases h
      exact hinside.2
    · cases h

namespace MovedAxis

variable {t u : Tensor κ} {axis : Int}

/-- A moved axis, without the strides of the tensor. -/
def unstrided (moved : MovedAxis κ) : MovedAxis κ := { moved with tensor := { moved.tensor with stride := [] } }

/-- An axis that is not the last one is moved alike where the elements are the same. -/
theorem ofTensor_congr (ht : t.Strided) (hu : u.Strided) (h : t.SameElements u)
    (haxis : resolveAxis axis t.rank ≠ .ok (t.rank - 1)) : ofTensor t axis = ofTensor u axis := by
  have hrank : t.rank = u.rank := congrArg List.length h.shape_eq
  rw [ofTensor, ofTensor, ← hrank]
  rcases hresolve : resolveAxis axis t.rank with failure | position
  · rfl
  · have hmoved : position ≠ t.rank - 1 := by
      rintro rfl
      exact haxis hresolve
    simp only [Outcome.ok_bind, ht.exchangeAxes_congr hu h hmoved]

/-- The last axis is where it is to be moved to, and the strides are not read. -/
theorem unstrided_ofTensor_last (haxis : resolveAxis axis t.rank = .ok (t.rank - 1)) (stride : List Nat) :
    unstrided <$> ofTensor t axis = unstrided <$> ofTensor ⟨t.data, stride, t.shape⟩ axis := by
  have hlast := lt_of_resolveAxis haxis
  have hsame : ∀ s : Tensor κ, s.shape = t.shape → ofTensor s axis =
      .ok ⟨t.rank - 1, t.rank - 1, s, t.shape[t.rank - 1]⟩ := by
    intro s hshape
    have hrank : s.rank = t.rank := congrArg List.length hshape
    have hunmoved : s.exchangeAxes (t.rank - 1) (t.rank - 1) = .ok s := by
      rw [Tensor.exchangeAxes, if_neg (by omega), if_pos rfl]
    have hextent : s.shape[t.rank - 1]? = some t.shape[t.rank - 1] := by
      rw [hshape]
      exact List.getElem?_eq_getElem hlast
    simp only [ofTensor, hrank, haxis, hunmoved, hextent, Outcome.ok_bind, Outcome.pure_eq_ok]
  rw [hsame t rfl, hsame ⟨t.data, stride, t.shape⟩ rfl]
  rfl

/-- An axis that is not the last one of a tensor cannot be moved if the last one has no stride. -/
theorem faults_ofTensor_of_missing_stride {position : Nat} (hresolve : resolveAxis axis t.rank = .ok position)
    (hposition : position ≠ t.rank - 1) (hstride : t.stride.length < t.rank) : (ofTensor t axis).Faults := by
  have hinside := lt_of_resolveAxis hresolve
  rw [ofTensor, hresolve, Outcome.ok_bind, Outcome.faults_bind_iff]
  exact .inl (Tensor.exchangeAxes_of_missing_stride hinside (by omega) hposition (by omega))

end MovedAxis

/-! ### Sorting -/

/-- A step that does not look at what a function leaves out goes on alike from results that agree in the rest. -/
theorem Stateful.ofOutcome_bind_congr {σ α β : Type} {x y : Outcome α} {rest : α → α} (h : rest <$> x = rest <$> y)
    {step : α → Stateful σ β} (hstep : ∀ a, step (rest a) = step a) : ofOutcome x >>= step = ofOutcome y >>= step := by
  rcases x with failure | a <;> rcases y with failure' | b
  · cases h
    rfl
  · cases h
  · cases h
  · have hsame : rest a = rest b := Except.ok.inj h
    change step a = step b
    rw [← hstep a, hsame, hstep b]

namespace Tensor

variable [Element κ]

/-- Tensors that cannot be told apart by sorting them along an axis, on any backend and for any index type. -/
structure SortsAlike (t u : Tensor κ) (axis : Int) : Prop where
  /-- Sorting. -/
  sort : ∀ {β : Type} [Backend β] (direction : Direction),
    (t.sort axis direction : Stateful β _) = u.sort axis direction
  /-- Sorting with indices. -/
  sortIndexed : ∀ {β : Type} [Backend β] (ι : Type) [IndexElement ι] (direction : Direction),
    (t.sortIndexed ι axis direction : Stateful β _) = u.sortIndexed ι axis direction
  /-- The indices alone. -/
  argsort : ∀ {β : Type} [Backend β] (ι : Type) [IndexElement ι] (direction : Direction),
    (t.argsort ι axis direction : Stateful β _) = u.argsort ι axis direction
  /-- The top entries. -/
  top : ∀ {β : Type} [Backend β] (ι : Type) [IndexElement ι] (count : Int) (kind : ReturnKind) (direction : Direction),
    (t.top ι count axis kind direction : Stateful β _) = u.top ι count axis kind direction

/-- Nothing is read of a tensor but the moved axis, and of that not the strides. -/
theorem SortsAlike.of_moved {t u : Tensor κ} {axis : Int}
    (h : MovedAxis.unstrided <$> MovedAxis.ofTensor t axis = MovedAxis.unstrided <$> MovedAxis.ofTensor u axis) :
    t.SortsAlike u axis := by
  have hindexed : ∀ {β : Type} [Backend β] (ι : Type) [IndexElement ι] (direction : Direction),
      (t.sortIndexed ι axis direction : Stateful β _) = u.sortIndexed ι axis direction :=
    fun ι _ direction => Stateful.ofOutcome_bind_congr h fun _ => rfl
  exact
    { sort := fun direction => Stateful.ofOutcome_bind_congr h fun _ => rfl
      sortIndexed := hindexed
      argsort := fun ι _ direction => by rw [Tensor.argsort, Tensor.argsort, hindexed]
      top := fun ι _ count kind direction => Stateful.ofOutcome_bind_congr h fun _ => rfl }

/-- Where strides are read and where they are not. A tensor whose strides stay in its buffer is sorted along any axis but
the last one as the row-major tensor with the same elements, and an axis that is refused is refused for both. Along the
last axis it is sorted as if it had any other strides, so its buffer is taken for rows, and so are the buffers of a search.
If there are fewer strides than axes, sorting along an axis that is not the last one faults. -/
theorem strides_read_unless_last {t m : Tensor κ} (hmade : ofStrides t.data t.stride t.shape = .ok t)
    (hinside : ∀ coordinate, InShape coordinate t.shape → storedAt coordinate t.stride < t.data.size)
    (hm : m.RowMajor) (hsame : t.SameElements m) (axis : Int) :
    (t.rank ≤ t.stride.length → resolveAxis axis t.rank ≠ .ok (t.rank - 1) → t.SortsAlike m axis) ∧
    (resolveAxis axis t.rank = .ok (t.rank - 1) → ∀ stride, t.SortsAlike ⟨t.data, stride, t.shape⟩ axis) ∧
    (t.stride.length < t.rank → ∀ position, resolveAxis axis t.rank = .ok position → position ≠ t.rank - 1 →
      (MovedAxis.ofTensor t axis).Faults) ∧
    ∀ {β : Type} [Backend β] (ι : Type) [IndexElement ι] (needles : Tensor κ) (right : Bool) (stride stride' : List Nat),
      (t.searchLast ι needles right : Stateful β _) =
        searchLast ι ⟨t.data, stride, t.shape⟩ ⟨needles.data, stride', needles.shape⟩ right := by
  refine ⟨fun hlen haxis => ?_, fun haxis stride => ?_, fun hlen position hresolve hposition => ?_, ?_⟩
  · have hmoved := MovedAxis.ofTensor_congr (.of_ofStrides hmade hlen hinside) hm.strided hsame haxis
    exact .of_moved (congrArg (MovedAxis.unstrided <$> ·) hmoved)
  · exact .of_moved (MovedAxis.unstrided_ofTensor_last haxis stride)
  · exact MovedAxis.faults_ofTensor_of_missing_stride hresolve hposition hlen
  · intro β _ ι _ needles right stride stride'
    rfl

/-- Two rows that stand in the buffer column by column. Sorting the columns reads through the strides; sorting the rows
takes the columns for rows, and does not return what the row-major tensor with the same elements gives. -/
theorem strides_read_unless_last_transposed :
    SortsAlike (⟨#[4, 1, 3, 2], [1, 2], [2, 2]⟩ : Tensor Int32) ⟨#[4, 3, 1, 2], [2, 1], [2, 2]⟩ 0 ∧
    SortsAlike (⟨#[4, 1, 3, 2], [1, 2], [2, 2]⟩ : Tensor Int32) ⟨#[4, 1, 3, 2], [2, 1], [2, 2]⟩ 1 ∧
    (((⟨#[4, 1, 3, 2], [1, 2], [2, 2]⟩ : Tensor Int32).sort 1 .ascending : Stateful HostBackend _).run {}).1 =
      .ok ⟨#[1, 4, 2, 3], [2, 1], [2, 2]⟩ ∧
    (((⟨#[4, 3, 1, 2], [2, 1], [2, 2]⟩ : Tensor Int32).sort 1 .ascending : Stateful HostBackend _).run {}).1 =
      .ok ⟨#[3, 4, 1, 2], [2, 1], [2, 2]⟩ := by
  have hcoordinates : ∀ c, InShape c [2, 2] → c = [0, 0] ∨ c = [0, 1] ∨ c = [1, 0] ∨ c = [1, 1] := by
    intro c hc
    obtain ⟨i, rest, rfl⟩ := List.exists_cons_of_length_eq_add_one hc.length_eq
    obtain ⟨hi, hrest⟩ := inShape_cons.mp hc
    obtain ⟨j, none, rfl⟩ := List.exists_cons_of_length_eq_add_one hrest.length_eq
    obtain ⟨hj, hnone⟩ := inShape_cons.mp hrest
    obtain rfl := List.length_eq_zero_iff.mp hnone.length_eq
    obtain rfl | rfl : i = 0 ∨ i = 1 := by omega
    all_goals obtain rfl | rfl : j = 0 ∨ j = 1 := by omega
    all_goals simp
  have hinside : ∀ c, InShape c [2, 2] → storedAt c [1, 2] < 4 := by
    intro c hc
    obtain rfl | rfl | rfl | rfl := hcoordinates c hc <;> decide
  have hsame : SameElements (⟨#[4, 1, 3, 2], [1, 2], [2, 2]⟩ : Tensor Int32) ⟨#[4, 3, 1, 2], [2, 1], [2, 2]⟩ := by
    refine ⟨rfl, fun c hc => ?_⟩
    obtain rfl | rfl | rfl | rfl := hcoordinates c hc <;> rfl
  have hmajor : (⟨#[4, 3, 1, 2], [2, 1], [2, 2]⟩ : Tensor Int32).RowMajor := ⟨rfl, rfl, by decide⟩
  have hfirst : resolveAxis 0 2 ≠ .ok 1 := fun h => absurd (Except.ok.inj h) (by decide)
  exact ⟨(strides_read_unless_last rfl hinside hmajor hsame 0).1 (by decide) hfirst,
    (strides_read_unless_last rfl hinside hmajor hsame 1).2.1 rfl [2, 1], by cbv, by cbv⟩

end Tensor

end MergePathSort
