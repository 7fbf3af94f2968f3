import MergePathSort.Proofs.Device.Refused
import MergePathSort.Proofs.Host.InPlace
import MergePathSort.Proofs.Tensor.Odometer
import MergePathSort.Tensor.Sort

/-!
# Calls on tensors that are refused

A call on a tensor is checked on both sides of the backend: the axis and the range of the index type before, and the shape
of what comes back after. A backend is refused before its first launch or not at all, and it returns as many elements as it
was handed. The axes were axes before they were moved. So what comes after the backend is refused only for the shape, and
only if the tensor did not have as many elements as its shape describes. The tensors that are made have; one that is put
together from its fields need not, and then its rows are sorted before the shape is looked at.

## Main definitions

* `Tensor.Filled`, `Tensor.Misfits` : tensors with as many elements as their shape describes, and the refusal of others.
* `Backend.RefusesFirst` : backends that are refused before they launch anything.
* `TensorCall` : the calls on tensors.

## Main results

* `MovedAxis.Restores.refusedOnly_putBack` : an axis is moved back, or the shape does not fit.
* `HostBackend.refusesFirst`, `DeviceEngine.refusesFirst` : the backends.
* `TensorCall.unlaunched_or_misfits_of_refused` : calls that are refused.
-/

namespace MergePathSort

variable {κ ι α : Type}

/-! ### Tensors that hold what their shape describes -/

theorem refusedOnly_rowMajorStrides {P : Refusal → Prop} (shape : List Nat) : (rowMajorStrides shape).RefusedOnly P := by
  induction shape with
  | nil => exact Outcome.refusedOnly_ok _
  | cons extent shape ih =>
    rw [rowMajorStrides]
    refine Outcome.refusedOnly_bind ih fun strides => ?_
    split
    · simp
    · exact Outcome.refusedOnly_ok _

@[simp]
theorem refusedOnly_offset {P : Refusal → Prop} (coordinate strides : List Nat) :
    (offset coordinate strides).RefusedOnly P :=
  Outcome.refusedOnly_foldlM (fun sum step => by simp) _ _

@[simp]
theorem refusedOnly_exchangeEntries {P : Refusal → Prop} (xs : List Nat) (a b : Nat) :
    (exchangeEntries xs a b).RefusedOnly P := by
  rw [exchangeEntries]
  split
  · exact Outcome.refusedOnly_ok _
  · exact Outcome.refusedOnly_fault _

namespace Tensor

/-- There are as many elements as the shape describes. -/
def Filled (t : Tensor κ) : Prop := t.data.size = t.shape.prod

variable {t t' : Tensor κ} {data : Array κ} {stride shape : List Nat}

/-- A tensor that is made with given strides. -/
theorem filled_of_ofStrides (h : ofStrides data stride shape = .ok t) : t.Filled := by
  obtain ⟨total, htotal, h⟩ := Outcome.bind_eq_ok_iff.mp h
  split at h
  · rename_i hsize
    cases h
    exact hsize.symm.trans (Size.product_eq_ok htotal).1
  · cases h

/-- A tensor that is made of a shape. -/
theorem filled_of_ofShape (h : ofShape data shape = .ok t) : t.Filled := by
  obtain ⟨strides, -, h⟩ := Outcome.bind_eq_ok_iff.mp h
  exact filled_of_ofStrides h

/-- A tensor of rank one. -/
theorem filled_vector (data : Array κ) : (vector data).Filled := (List.prod_singleton ..).symm

/-- The refusal of a tensor whose shape does not describe its elements, by this shape or one with the same extents. -/
def Misfits (t : Tensor κ) (error : Refusal) : Prop :=
  ¬t.Filled ∧ ∃ shape : List Nat, shape.Perm t.shape ∧ error = .shapeMismatch shape t.data.size

/-- A shape is refused only for elements that it does not describe. -/
theorem refusedOnly_ofShape (data : Array κ) (shape : List Nat) :
    (ofShape data shape).RefusedOnly fun error =>
      data.size ≠ shape.prod ∧ error = .shapeMismatch shape data.size := by
  refine Outcome.refusedOnly_bind (refusedOnly_rowMajorStrides shape) fun strides => ?_
  refine Outcome.refusedOnly_bind_iff.mpr ⟨Size.refusedOnly_product shape, fun total htotal => ?_⟩
  obtain ⟨rfl, -⟩ := Size.product_eq_ok htotal
  refine Outcome.refusedOnly_ite_iff.mpr ⟨fun _ => Outcome.refusedOnly_ok _, fun hsize => ?_⟩
  exact Outcome.refusedOnly_refuse_iff.mpr ⟨Ne.symm hsize, rfl⟩

/-- A tensor that is made of a shape has that shape. -/
theorem shape_of_ofShape (h : ofShape data shape = .ok t) : t.shape = shape := by
  obtain ⟨strides, -, h⟩ := Outcome.bind_eq_ok_iff.mp h
  obtain ⟨total, -, h⟩ := Outcome.bind_eq_ok_iff.mp h
  split at h <;> cases h
  rfl

@[simp]
theorem refusedOnly_countThrough {P : Refusal → Prop} (data : Array κ) (shape stride : List Nat) (count : Nat) :
    (countThrough data shape stride count).RefusedOnly P := by
  refine Outcome.refusedOnly_bind (Outcome.refusedOnly_foldlM (fun state _ => ?_) _ _) fun _ => Outcome.refusedOnly_ok _
  simp [readNext, readAt]

/-- Axes that are there are exchanged. -/
theorem refusedOnly_exchangeAxes {P : Refusal → Prop} {a b : Nat} (ha : a < t.rank) (hb : b < t.rank) :
    (t.exchangeAxes a b).RefusedOnly P := by
  have hrank : ¬(t.rank ≤ a ∨ t.rank ≤ b) := by omega
  rw [exchangeAxes, if_neg hrank]
  simp [refusedOnly_rowMajorStrides]

theorem refusedOnly_leading {P : Refusal → Prop} (data : Array κ) (count axisLen after kept : Nat) :
    (leading data count axisLen after kept).RefusedOnly P :=
  Outcome.refusedOnly_foldlM (fun out n => by simp) _ _

/-- An axis that is there is cut, and the rank is kept. -/
theorem ensures_takeAlong {axis : Nat} (haxis : axis < t.rank) (len : Nat) :
    (t.takeAlong axis len).Ensures fun kept => kept.rank = t.rank := by
  have hextent : t.shape[axis]? = some t.shape[axis] := List.getElem?_eq_getElem haxis
  rw [takeAlong, hextent]
  refine Outcome.ensures_bind_of_refusedOnly (Size.refusedOnly_product _) fun before _ => ?_
  refine Outcome.ensures_bind_of_refusedOnly (Size.refusedOnly_product _) fun after _ => ?_
  refine Outcome.ensures_bind_of_refusedOnly (Size.refusedOnly_mul _ _) fun kept _ => ?_
  refine Outcome.ensures_bind_of_refusedOnly (Size.refusedOnly_mul _ _) fun total _ => ?_
  refine Outcome.ensures_bind_of_refusedOnly (refusedOnly_leading _ _ _ _ _) fun data _ => ?_
  refine Outcome.ensures_bind_of_refusedOnly (refusedOnly_rowMajorStrides _) fun strides _ => ?_
  exact List.length_set

end Tensor

/-! ### Moving the axis back -/

/-- A tensor that has been moved keeps its extents and its elements, and the axis can be moved back. -/
structure MovedAxis.Restores (moved : MovedAxis κ) (tensor : Tensor κ) : Prop where
  /-- The extents are the same. -/
  shape_perm : moved.tensor.shape.Perm tensor.shape
  /-- There are as many elements. -/
  size_eq : moved.tensor.data.size = tensor.data.size
  /-- The axis is one of the moved tensor. -/
  axis_lt : moved.axis < moved.tensor.rank
  /-- So is the last one. -/
  last_lt : moved.last < moved.tensor.rank

namespace MovedAxis

variable {moved : MovedAxis κ} {tensor : Tensor κ}

/-- An axis that is moved to the end can be moved back, whether the shape describes the elements or not. -/
theorem restores_of_ofTensor {axis : Int} (hmoved : ofTensor tensor axis = .ok moved) : moved.Restores tensor := by
  obtain ⟨position, -, hmoved⟩ := Outcome.bind_eq_ok_iff.mp hmoved
  obtain ⟨exchanged, hexchange, hmoved⟩ := Outcome.bind_eq_ok_iff.mp hmoved
  obtain ⟨⟨hposition, hlast⟩, hshape, hsize⟩ := Tensor.size_of_exchangeAxes hexchange
  have hperm : exchanged.shape.Perm tensor.shape := hshape ▸ exchanged_perm hposition hlast
  have hrank : exchanged.rank = tensor.rank := hperm.length_eq
  split at hmoved
  · cases hmoved
    exact ⟨hperm, hsize, hrank ▸ hposition, hrank ▸ hlast⟩
  · cases hmoved

/-- Moving the axis of as many elements back is refused only if the shape did not describe the tensor's. -/
theorem Restores.refusedOnly_putBack (h : moved.Restores tensor) {data : Array α}
    (hdata : data.size = moved.tensor.data.size) (keep : Option Nat) :
    (moved.putBack data keep).RefusedOnly tensor.Misfits := by
  have hback : ∀ kept : Tensor α, kept.rank = moved.tensor.rank →
      (kept.exchangeAxes moved.axis moved.last).RefusedOnly tensor.Misfits := fun kept hkept =>
    Tensor.refusedOnly_exchangeAxes (hkept ▸ h.axis_lt) (hkept ▸ h.last_lt)
  refine Outcome.refusedOnly_bind_iff.mpr ⟨fun error herror => ?_, fun whole hwhole => ?_⟩
  · obtain ⟨hmisfit, rfl⟩ := Tensor.refusedOnly_ofShape data _ error herror
    rw [hdata, h.size_eq, h.shape_perm.prod_nat] at hmisfit
    exact ⟨hmisfit, _, h.shape_perm, by rw [hdata, h.size_eq]⟩
  · have hrank : whole.rank = moved.tensor.rank := congrArg List.length (Tensor.shape_of_ofShape hwhole)
    cases keep with
    | none => exact hback whole hrank
    | some len =>
      have hcut := Tensor.ensures_takeAlong (hrank ▸ h.last_lt) len
      refine Outcome.refusedOnly_bind_iff.mpr ⟨hcut.refusedOnly, fun kept hkept => hback kept ?_⟩
      exact ((Outcome.ensures_iff.mp hcut).2 kept hkept).trans hrank

end MovedAxis

/-! ### Backends -/

/-- A backend that is refused before it launches anything, or not at all, and that returns as many elements as it was
handed. Of what was launched the backend keeps a record. -/
structure Backend.RefusesFirst (β : Type) [Backend β] {τ : Type} (launched : β → τ) : Prop where
  /-- Sorting rows. -/
  sort {κ : Type} [Element κ] [LawfulElement κ] (data : Array κ) (axisLen : Nat) (direction : Direction) (backend : β) :
    Stateful.Meets (launched · = launched backend) (fun values _ => values.size = data.size)
      (Backend.sort data axisLen direction) backend
  /-- Sorting rows with indices. -/
  argsort {κ : Type} (ι : Type) [Element κ] [LawfulElement κ] [IndexElement ι] (data : Array κ) (axisLen : Nat)
    (direction : Direction) (backend : β) :
    Stateful.Meets (launched · = launched backend)
      (fun sorted _ => sorted.1.size = data.size ∧ sorted.2.size = data.size)
      (Backend.argsort ι data axisLen direction) backend
  /-- Placing needles. -/
  search {κ : Type} [Element κ] (sorted values : Array κ) (matching : Matching) (right : Bool) (backend : β) :
    Stateful.Meets (launched · = launched backend) (fun places _ => places.size = values.size)
      (Backend.search sorted values matching right) backend

/-- A search on the host finds a place for every needle. -/
theorem Matching.size_of_search [KeyOrder κ] {matching : Matching} {sorted values : Array κ} {right : Bool}
    {places : Array Nat} (h : matching.search sorted values right = .ok places) : places.size = values.size := by
  obtain ⟨places, hplaces, h⟩ := Outcome.bind_eq_ok_iff.mp h
  cases h
  rw [List.size_toArray, (Outcome.getElem_of_mapM_eq_ok hplaces).1, List.length_zipIdx, Array.length_toList]

/-- A step that does one thing for no elements and another for some. -/
theorem Stateful.meets_ite_isEmpty {σ γ : Type} {R : σ → Prop} {Q : γ → σ → Prop} {s : σ} {data : Array κ}
    {none some : Stateful σ γ} (hnone : data.size = 0 → Meets R Q none s) (hsome : data.size ≠ 0 → Meets R Q some s) :
    Meets R Q (if data.isEmpty then none else some) s := by
  by_cases hdata : data.size = 0
  · rw [if_pos (Array.isEmpty_iff_size_eq_zero.mpr hdata)]
    exact hnone hdata
  · rw [if_neg (by simpa using hdata)]
    exact hsome hdata

namespace HostBackend

variable [Element κ] [IndexElement ι]

/-- Sorting rows on the host is refused before the first launch or not at all. -/
theorem meets_runRows {data : Array κ} (hdata : data.size ≠ 0) (axisLen : Nat) (direction : Direction)
    {indices : Option (DoubleBuffer (Array ι))}
    (hindices : ∀ pair, indices = some pair → pair.front.size = data.size ∧ pair.back.size = data.size)
    (backend : HostBackend) :
    Stateful.Meets (·.report = backend.report)
      (fun buffers _ => buffers.keys.front.size = data.size ∧
        ((buffers.indices.map (·.front)).getD #[]).size = if indices.isSome then data.size else 0)
      (runRows data axisLen direction indices) backend := by
  refine Stateful.meets_get_bind (Stateful.meets_ofOutcome_bind rfl fun shape hshape => ?_)
  refine Stateful.meets_ofOutcome_bind rfl fun program hlower => Stateful.meets_ofOutcome_bind rfl fun ran hrun => ?_
  refine Stateful.meets_set_bind (Stateful.meets_pure ?_)
  obtain ⟨-, hlen, rfl⟩ := splitRows_eq_ok_iff.mp hshape
  obtain ⟨⟨buffers, report⟩, hexecute, hrun⟩ := Outcome.bind_eq_ok_iff.mp hrun
  cases hrun
  obtain ⟨result, report', hexecute', hkeys, hpositions⟩ := exists_execute_rows hlower hlen hdata hindices
  cases hexecute.symm.trans hexecute'
  have hrows : ∀ number < data.size / axisLen,
      (program.sortedRow (chunk axisLen data.toList number) : TaggedRow κ ι).front.length = axisLen :=
    fun _ => length_sortedRow hlower hlen
  refine ⟨?_, ?_⟩
  · rw [hkeys]
    exact (length_flatMap_rows _ hrows).trans hlen
  · rw [hpositions]
    split
    · exact (length_flatMap_rows _ hrows).trans hlen
    · rfl

omit [Element κ] [IndexElement ι] in
/-- The host backend is refused before it launches anything. -/
theorem refusesFirst : Backend.RefusesFirst HostBackend report where
  sort data axisLen direction backend := by
    refine Stateful.meets_ite_isEmpty (fun hdata => Stateful.meets_pure hdata.symm) fun hdata => ?_
    have hnone : ∀ pair : DoubleBuffer (Array UInt32), none = some pair →
        pair.front.size = data.size ∧ pair.back.size = data.size := by rintro _ ⟨⟩
    have hrows := meets_runRows hdata axisLen direction hnone backend
    exact Stateful.meets_bind hrows fun buffers _ hbuffers => Stateful.meets_pure hbuffers.1
  argsort ι _ _ _ data axisLen direction backend := by
    refine Stateful.meets_ite_isEmpty (fun hdata => Stateful.meets_pure ⟨hdata.symm, hdata.symm⟩) fun hdata => ?_
    have hzeros : ∀ pair, some (DoubleBuffer.zeros (κ := ι) data.size) = some pair →
        pair.front.size = data.size ∧ pair.back.size = data.size := by
      rintro _ ⟨⟩
      exact ⟨Array.size_replicate, Array.size_replicate⟩
    have hrows := meets_runRows hdata axisLen direction hzeros backend
    exact Stateful.meets_bind hrows fun buffers _ hbuffers => Stateful.meets_pure hbuffers
  search sorted values matching right backend :=
    Stateful.meets_ofOutcome rfl fun places hplaces => Matching.size_of_search hplaces

end HostBackend

/-- The device backend is refused before it launches anything. -/
theorem DeviceEngine.refusesFirst : Backend.RefusesFirst DeviceEngine log where
  sort data axisLen direction engine := by
    refine Stateful.meets_ite_isEmpty (fun hdata => Stateful.meets_pure hdata.symm) fun hdata => ?_
    refine Stateful.meets_bind (meets_runRows hdata axisLen direction false engine) fun result _ hresult => ?_
    exact Stateful.meets_pure (congrArg Prod.fst hresult)
  argsort ι _ _ _ data axisLen direction engine := by
    refine Stateful.meets_ite_isEmpty (fun hdata => Stateful.meets_pure ⟨hdata.symm, hdata.symm⟩) fun hdata => ?_
    refine Stateful.meets_bind (meets_runRows hdata axisLen direction true engine) ?_
    rintro ⟨values, _ | words⟩ _ hresult
    · -- A device that is asked for indices returns them.
      have hnone : none = some data.size := congrArg Prod.snd hresult
      cases hnone
    · refine Stateful.meets_pure ⟨congrArg Prod.fst hresult, ?_⟩
      exact Array.size_map.trans (Option.some.inj (congrArg Prod.snd hresult))
  search sorted values matching right engine :=
    Stateful.meets_bind (meets_search sorted values _ _ _ right engine) fun places _ hplaces =>
      Stateful.meets_pure (Array.size_map.trans hplaces)

/-! ### Calls -/

section Calls

variable {β τ : Type} [Backend β] {launched : β → τ} [Element κ] {tensor : Tensor κ}

namespace Tensor

/-- A call is refused before anything is launched, or because the shape of a tensor does not describe its elements. -/
def UnlaunchedOr (t : Tensor κ) (launched : β → τ) (backend : β) (error : Refusal) (left : β) : Prop :=
  launched left = launched backend ∨ t.Misfits error

section Sorting

variable [LawfulElement κ]

/-- Sorting a tensor is refused before anything is launched, or for its shape. -/
theorem refuses_sort (h : Backend.RefusesFirst β launched) (tensor : Tensor κ) (axis : Int) (direction : Direction)
    (backend : β) :
    Stateful.Refuses (tensor.UnlaunchedOr launched backend) (tensor.sort axis direction) backend := by
  refine Stateful.refuses_ofOutcome_bind (fun _ _ => .inl rfl) fun moved hmoved => ?_
  obtain ⟨hfirst, hvalues⟩ := Stateful.meets_iff.mp (h.sort moved.tensor.data moved.axisLen direction backend)
  refine Stateful.refuses_bind (fun error left hrun => .inl (hfirst error left hrun)) fun values left hrun => ?_
  have hback := (MovedAxis.restores_of_ofTensor hmoved).refusedOnly_putBack (hvalues values left hrun) none
  exact Stateful.refuses_ofOutcome fun error herror => .inr (hback error herror)

/-- Sorting a tensor with indices is refused before anything is launched, or for its shape. -/
theorem refuses_sortIndexed (h : Backend.RefusesFirst β launched) (tensor : Tensor κ) (ι : Type) [IndexElement ι]
    (axis : Int) (direction : Direction) (backend : β) :
    Stateful.Refuses (tensor.UnlaunchedOr launched backend) (tensor.sortIndexed ι axis direction) backend := by
  refine Stateful.refuses_ofOutcome_bind (fun _ _ => .inl rfl) fun moved hmoved => ?_
  refine Stateful.refuses_ofOutcome_bind (fun _ _ => .inl rfl) fun _ _ => ?_
  obtain ⟨hfirst, hsorted⟩ := Stateful.meets_iff.mp (h.argsort ι moved.tensor.data moved.axisLen direction backend)
  refine Stateful.refuses_bind (fun error left hrun => .inl (hfirst error left hrun)) fun sorted left hrun => ?_
  obtain ⟨hvalues, hindices⟩ := hsorted sorted left hrun
  have hrestores := MovedAxis.restores_of_ofTensor hmoved
  refine Stateful.refuses_ofOutcome_bind (fun error herror => .inr ?_) fun values _ => ?_
  · exact hrestores.refusedOnly_putBack hvalues none error herror
  refine Stateful.refuses_ofOutcome_bind (fun error herror => .inr ?_) fun indices _ => Stateful.refuses_pure _
  exact hrestores.refusedOnly_putBack hindices none error herror

/-- The top entries of a tensor are refused before anything is launched, or for its shape. -/
theorem refuses_top (h : Backend.RefusesFirst β launched) (tensor : Tensor κ) (ι : Type) [IndexElement ι]
    (count axis : Int) (kind : ReturnKind) (direction : Direction) (backend : β) :
    Stateful.Refuses (tensor.UnlaunchedOr launched backend) (tensor.top ι count axis kind direction) backend := by
  refine Stateful.refuses_ofOutcome_bind (fun _ _ => .inl rfl) fun moved hmoved => ?_
  have hrestores := MovedAxis.restores_of_ofTensor hmoved
  split
  · obtain ⟨hfirst, hvalues⟩ := Stateful.meets_iff.mp (h.sort moved.tensor.data moved.axisLen direction backend)
    refine Stateful.refuses_bind (fun error left hrun => .inl (hfirst error left hrun)) fun values left hrun => ?_
    refine Stateful.refuses_ofOutcome_bind (fun error herror => .inr ?_) fun _ _ => Stateful.refuses_pure _
    exact hrestores.refusedOnly_putBack (hvalues values left hrun) _ error herror
  · refine Stateful.refuses_ofOutcome_bind (fun _ _ => .inl rfl) fun _ _ => ?_
    obtain ⟨hfirst, hsorted⟩ := Stateful.meets_iff.mp (h.argsort ι moved.tensor.data moved.axisLen direction backend)
    refine Stateful.refuses_bind (fun error left hrun => .inl (hfirst error left hrun)) fun sorted left hrun => ?_
    obtain ⟨hvalues, hindices⟩ := hsorted sorted left hrun
    refine Stateful.refuses_ofOutcome_bind (fun error herror => .inr ?_) fun indices _ => ?_
    · exact hrestores.refusedOnly_putBack hindices _ error herror
    split
    · exact Stateful.refuses_pure _
    · refine Stateful.refuses_ofOutcome_bind (fun error herror => .inr ?_) fun _ _ => Stateful.refuses_pure _
      exact hrestores.refusedOnly_putBack hvalues _ error herror

end Sorting

/-- Searching is refused before anything is launched, or for the shape of the needles. -/
theorem refuses_searchLast (h : Backend.RefusesFirst β launched) (sorted needles : Tensor κ) (ι : Type)
    [IndexElement ι] (right : Bool) (backend : β) :
    Stateful.Refuses (needles.UnlaunchedOr launched backend) (sorted.searchLast ι needles right) backend := by
  refine Stateful.refuses_ofOutcome_bind (fun _ _ => .inl rfl) fun matching _ => ?_
  refine Stateful.refuses_ofOutcome_bind (fun _ _ => .inl rfl) fun places _ => ?_
  refine Stateful.refuses_ofOutcome_bind (fun _ _ => .inl rfl) fun _ _ => ?_
  obtain ⟨hfirst, hfound⟩ := Stateful.meets_iff.mp (h.search sorted.data needles.data matching right backend)
  refine Stateful.refuses_bind (fun error left hrun => .inl (hfirst error left hrun)) fun found left hrun => ?_
  refine Stateful.refuses_ofOutcome fun error herror => .inr ?_
  obtain ⟨hmisfit, rfl⟩ := refusedOnly_ofShape _ _ error herror
  rw [Array.size_map, hfound found left hrun] at hmisfit ⊢
  exact ⟨hmisfit, _, .refl _, rfl⟩

end Tensor

end Calls

/-- A call on tensors. -/
inductive TensorCall (κ : Type) where
  /-- Sorting along an axis. -/
  | sort (tensor : Tensor κ) (axis : Int) (direction : Direction)
  /-- Sorting along an axis, with the positions before. -/
  | sortIndexed (tensor : Tensor κ) (axis : Int) (direction : Direction)
  /-- The positions before sorting along an axis. -/
  | argsort (tensor : Tensor κ) (axis : Int) (direction : Direction)
  /-- The leading entries along an axis. -/
  | top (tensor : Tensor κ) (count axis : Int) (kind : ReturnKind) (direction : Direction)
  /-- Placing needles into the last axis. -/
  | search (sorted needles : Tensor κ) (right : Bool)

namespace TensorCall

/-- The tensor whose shape a call gives to what the backend returns. -/
def shaped : TensorCall κ → Tensor κ
  | sort tensor _ _ | sortIndexed tensor _ _ | argsort tensor _ _ | top tensor _ _ _ _ => tensor
  | search _ needles _ => needles

variable [Element κ] {β : Type} [Backend β]

/-- Makes a call on a backend, with positions of an index type. -/
def perform (ι : Type) [IndexElement ι] : TensorCall κ → Stateful β Unit
  | sort tensor axis direction => do let _ ← tensor.sort axis direction
  | sortIndexed tensor axis direction => do let _ ← tensor.sortIndexed ι axis direction
  | argsort tensor axis direction => do let _ ← tensor.argsort ι axis direction
  | top tensor count axis kind direction => do let _ ← tensor.top ι count axis kind direction
  | search sorted needles right => do let _ ← sorted.searchLast ι needles right

/-- A call is refused before anything is launched, or because the shape of a tensor does not describe its elements. -/
theorem refuses_perform [LawfulElement κ] [IndexElement ι] {τ : Type} {launched : β → τ}
    (h : Backend.RefusesFirst β launched) (call : TensorCall κ) (backend : β) :
    Stateful.Refuses (call.shaped.UnlaunchedOr launched backend) (call.perform ι) backend := by
  cases call with
  | sort tensor axis direction =>
    exact Stateful.refuses_bind (Tensor.refuses_sort h _ _ _ _) fun _ _ _ => Stateful.refuses_pure _
  | sortIndexed tensor axis direction =>
    exact Stateful.refuses_bind (Tensor.refuses_sortIndexed h _ _ _ _ _) fun _ _ _ => Stateful.refuses_pure _
  | argsort tensor axis direction =>
    refine Stateful.refuses_bind ?_ fun _ _ _ => Stateful.refuses_pure _
    exact Stateful.refuses_bind (Tensor.refuses_sortIndexed h _ _ _ _ _) fun _ _ _ => Stateful.refuses_pure _
  | top tensor count axis kind direction =>
    exact Stateful.refuses_bind (Tensor.refuses_top h _ _ _ _ _ _ _) fun _ _ _ => Stateful.refuses_pure _
  | search sorted needles right =>
    exact Stateful.refuses_bind (Tensor.refuses_searchLast h _ _ _ _ _) fun _ _ _ => Stateful.refuses_pure _

/-- A call on tensors that is refused has launched nothing, whatever the tensors hold, the axis is and is asked for: on the
host the report is as it was, and on a device the log. There is one exception. The shape of the tensor that is sorted, or
of the needles, may describe another number of elements than there are; then the rows may have been sorted, or the needles
placed, before the result is refused for its shape. Tensors that are made have as many elements as their shapes describe
(see `Tensor.filled_of_ofStrides`, `Tensor.filled_of_ofShape` and `Tensor.filled_vector`), but their fields are open. A run
of a program that is refused leaves the runner's report and both sides of the keys and of the indices as they were, where
the run changes them where they are (see `Workplace.run_eq_ok` for the runs that succeed). -/
theorem unlaunched_or_misfits_of_refused [LawfulElement κ] [IndexElement ι] (call : TensorCall κ) :
    (∀ (backend left : HostBackend) (error : Refusal), (call.perform ι).run backend = (Outcome.refuse error, left) →
      left.report = backend.report ∨ call.shaped.Misfits error) ∧
    (∀ (engine left : DeviceEngine) (error : Refusal), (call.perform ι).run engine = (Outcome.refuse error, left) →
      left.log = engine.log ∨ call.shaped.Misfits error) ∧
    ∀ (program : Program) (input : Array κ) (place left : Workplace κ ι) (error : Refusal),
      (Workplace.run program input).run place = (Outcome.refuse error, left) ↔
        place.runner.run program input place.buffers = .refuse error ∧ place = left :=
  ⟨fun backend left error hrun => refuses_perform HostBackend.refusesFirst call backend error left hrun,
    fun engine left error hrun => refuses_perform DeviceEngine.refusesFirst call engine error left hrun,
    fun _ _ _ _ _ => Workplace.run_eq_refuse_iff⟩

/-- Three keys on backends that have been at work before. The host refuses a tile that is no power of two, and the device
one that its scratch does not hold. A program for two keys is refused if there are none. -/
theorem unlaunched_three_keys :
    ∃ call : TensorCall Int32, call = sort (Tensor.vector #[3, 1, 2]) 0 .ascending ∧ call.shaped.Filled ∧
      (∃ left, (call.perform UInt32).run
          ({ config := { tuning := { tile := 3 } }, runner := ⟨⟨4, 8, 20⟩⟩ } : HostBackend) =
            (Outcome.refuse (ConfigProblem.tileNotPowerOfTwo 3).refusal, left) ∧ left.report = ⟨4, 8, 20⟩) ∧
      (∃ left, (call.perform UInt32).run
          ({ config := { limits := { sharedBytes := 4 } }, log := [default] } : DeviceEngine) =
            (Outcome.refuse (ConfigProblem.tileBeyondScratch 128 1024 4).refusal, left) ∧ left.log = [default]) ∧
      (Workplace.run ⟨⟨1, 2, 1⟩, .ascending, false, []⟩ #[]).run
          (⟨⟨⟨4, 8, 20⟩⟩, ⟨⟨#[1, 2], #[3, 4]⟩, none⟩⟩ : Workplace Int32 UInt32) =
        (Outcome.refuse (.bufferMismatch 2 0), ⟨⟨⟨4, 8, 20⟩⟩, ⟨⟨#[1, 2], #[3, 4]⟩, none⟩⟩) := by
  have hfilled : (sort (Tensor.vector #[3, 1, 2]) 0 .ascending : TensorCall Int32).shaped.Filled :=
    Tensor.filled_vector _
  obtain ⟨hhost, hdevice, hrun⟩ :=
    unlaunched_or_misfits_of_refused (ι := UInt32) (sort (Tensor.vector #[3, 1, 2]) 0 .ascending : TensorCall Int32)
  have hunreported := (hhost { config := { tuning := { tile := 3 } }, runner := ⟨⟨4, 8, 20⟩⟩ } _ _ rfl).resolve_right
    fun hmisfits => hmisfits.1 hfilled
  have hunlogged := (hdevice { config := { limits := { sharedBytes := 4 } }, log := [default] } _ _ rfl).resolve_right
    fun hmisfits => hmisfits.1 hfilled
  exact ⟨_, rfl, hfilled, ⟨_, rfl, hunreported⟩, ⟨_, rfl, hunlogged⟩, (hrun _ _ _ _ _).mpr ⟨rfl, rfl⟩⟩

/-- Four keys in a tensor whose shape describes a row of two. Both rows of two are sorted, in two launches on the host or
on a device, and then the shape is refused. -/
theorem launched_and_refused_four_keys :
    ∃ call : TensorCall Int32, call = sort ⟨#[4, 3, 2, 1], [2, 1], [1, 2]⟩ 1 .ascending ∧
      (∃ left, (call.perform UInt32).run ({} : HostBackend) = (Outcome.refuse (.shapeMismatch [1, 2] 4), left) ∧
        left.report ≠ ({} : HostBackend).report) ∧
      ∃ left, (call.perform UInt32).run (Device.engine {} {}) = (Outcome.refuse (.shapeMismatch [1, 2] 4), left) ∧
        left.log ≠ (Device.engine {} {}).log := by
  let call : TensorCall Int32 := sort ⟨#[4, 3, 2, 1], [2, 1], [1, 2]⟩ 1 .ascending
  have hhost : ((call.perform UInt32).run ({} : HostBackend)).1 = Outcome.refuse (.shapeMismatch [1, 2] 4) := by
    decide +kernel
  have hreport : ((call.perform UInt32).run ({} : HostBackend)).2.report = ⟨2, 4, 6⟩ := by decide +kernel
  have hdevice : ((call.perform UInt32).run (Device.engine {} {})).1 = Outcome.refuse (.shapeMismatch [1, 2] 4) := by
    decide +kernel
  have hlog : ((call.perform UInt32).run (Device.engine {} {})).2.log.length = 2 := by decide +kernel
  generalize hrunHost : (call.perform UInt32).run ({} : HostBackend) = host at hhost hreport
  generalize hrunDevice : (call.perform UInt32).run (Device.engine {} {}) = device at hdevice hlog
  refine ⟨call, rfl, ⟨host.2, hrunHost.trans (Prod.ext hhost rfl), ?_⟩, device.2,
    hrunDevice.trans (Prod.ext hdevice rfl), fun hsame => ?_⟩
  · rw [hreport]
    decide
  · rw [hsame] at hlog
    exact absurd hlog (by decide)

end TensorCall

end MergePathSort
