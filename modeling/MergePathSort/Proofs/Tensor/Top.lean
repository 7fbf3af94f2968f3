import MergePathSort.Proofs.Tensor.Faults
import MergePathSort.Proofs.Tensor.Refused

/-!
# Top entries

The top entries along an axis are cut off the sorted rows while the axis is the last one, and then the axis is moved
back. Cutting an axis keeps what stands at the leading positions along it, and an exchange of two axes carries this along
with the axis, so what is returned leads the sorted tensor along the axis that was asked for. Entries that are asked for
without their positions are sorted without indices, and need no index type that reaches all positions. Sorting only looks
at the keys, so they are the same entries, be the keys comparable or not.

## Main definitions

* `Tensor.Leads` : the leading entries of a tensor along an axis.
* `TopEntries.ofKind` : what is returned of entries and positions.
* `Refusal.OfRows` : refusals that are not about the range of an index type.

## Main results

* `Tensor.RowMajor.exists_takeAlong_leads`, `Tensor.Leads.exchangeAxes` : cutting an axis, and exchanging axes after it.
* `MovedAxis.Moves.exists_putBack_leads` : leading entries of rows that are put back.
* `Tensor.top_leads_sorted` : the top entries are the leading ones of the sorted tensor.
-/

namespace MergePathSort

variable {κ ι α : Type}

/-! ### Leading entries -/

/-- A tensor that consists of the first entries of another one along an axis. -/
structure Tensor.Leads (cut whole : Tensor α) (axis kept : Nat) : Prop where
  /-- The tensor is row-major. -/
  rowMajor : cut.RowMajor
  /-- The axis has that many entries. -/
  kept_le : ∀ extent ∈ whole.shape[axis]?, kept ≤ extent
  /-- The shape is the other one's, with a shorter axis. -/
  shape_eq : cut.shape = whole.shape.set axis kept
  /-- An entry is the other one's at the same coordinate. -/
  elementAt_eq : ∀ coordinate, InShape coordinate cut.shape → cut.elementAt coordinate = whole.elementAt coordinate

namespace Tensor

variable {t cut whole cut' whole' : Tensor α}

/-- Cutting an axis keeps its first entries. -/
theorem RowMajor.exists_takeAlong_leads (h : t.RowMajor) {front back : List Nat} {extent : Nat}
    (hshape : t.shape = front ++ extent :: back) (hfront : ProductsFit (front ++ [extent])) (hback : ProductsFit back)
    (len : Nat) : ∃ cut, t.takeAlong front.length len = .ok cut ∧ cut.Leads t front.length (min len extent) := by
  obtain ⟨cut, hcut, hmajor, hcutShape, hdata⟩ := h.exists_takeAlong hshape hfront hback len
  obtain ⟨kept, hmin⟩ : ∃ kept, kept = min len extent := ⟨_, rfl⟩
  have hkept : kept ≤ extent := hmin ▸ Nat.min_le_right len extent
  rw [← hmin] at hcutShape hdata ⊢
  have hset : cut.shape = t.shape.set front.length kept := by simp [hcutShape, hshape]
  have hextent : ∀ e ∈ t.shape[front.length]?, kept ≤ e := by
    intro e he
    rw [hshape, List.getElem?_append_right (Nat.le_refl _), Nat.sub_self, List.getElem?_cons_zero] at he
    cases he
    exact hkept
  refine ⟨cut, hcut, hmajor, hextent, hset, fun c hc => ?_⟩
  have hwhole : InShape c t.shape := (hset ▸ hc).of_set hextent
  rw [hmajor.elementAt_eq hc, h.elementAt_eq hwhole]
  -- The entries in front of the axis number a block, and the others lead to the same place in both blocks.
  obtain ⟨first, second, rfl, hfirst⟩ : ∃ first second, c = first ++ second ∧ first.length = front.length := by
    have hlen := hc.length_eq
    rw [hcutShape, List.length_append] at hlen
    exact ⟨_, _, (List.take_append_drop front.length c).symm, by rw [List.length_take]; omega⟩
  rw [hcutShape, inShape_append hfirst] at hc
  have hnumber := hc.1.storedAt_lt
  have hinner := hc.2.storedAt_lt
  rw [List.prod_cons] at hinner
  have hblock : kept * back.prod ≤ extent * back.prod := Nat.mul_le_mul_right _ hkept
  have hlength : ∀ n < front.prod,
      ((chunk (extent * back.prod) t.data.toList n).take (kept * back.prod)).length = kept * back.prod := by
    intro n hn
    have hsize : t.data.toList.length = front.prod * (extent * back.prod) := by
      rw [Array.length_toList, h.size_eq, hshape, List.prod_append, List.prod_cons]
    rw [List.length_take, length_chunk_of_length hsize hn, Nat.min_eq_left hblock]
  have hsame : cut.data[storedAt first (trailingProducts front) * (kept * back.prod) +
        storedAt second (trailingProducts (kept :: back))]? =
      t.data[storedAt first (trailingProducts front) * (extent * back.prod) +
        storedAt second (trailingProducts (extent :: back))]? := by
    rw [← Array.getElem?_toList, ← Array.getElem?_toList, hdata, ← getElem?_chunk hinner,
      chunk_flatMap_of_length hlength hnumber, List.getElem?_take_of_lt hinner,
      getElem?_chunk (Nat.lt_of_lt_of_le hinner hblock)]
    rfl
  rw [hcutShape, hshape, storedAt_append hfirst, storedAt_append hfirst, List.prod_cons, List.prod_cons, Buffer.read,
    Buffer.read, hsame]

/-- Leading entries along an axis lead along the axis that takes its place. -/
theorem Leads.exchangeAxes {a b kept : Nat} (h : cut.Leads whole b kept) (hwhole : whole.RowMajor)
    (hexchange : whole.exchangeAxes a b = .ok whole') (hcut : cut.exchangeAxes a b = .ok cut') :
    cut'.Leads whole' a kept := by
  obtain ⟨⟨ha, hb⟩, -, hshape, hget, -⟩ := hwhole.exchangeAxes hexchange
  obtain ⟨⟨ha', hb'⟩, hmajor, hcutShape, hcutGet, -⟩ := h.rowMajor.exchangeAxes hcut
  have hset : cut'.shape = whole'.shape.set a kept := by
    rw [hcutShape, h.shape_eq, hshape, exchanged_set_right ha hb]
  have hkept : ∀ extent ∈ whole'.shape[a]?, kept ≤ extent := by
    intro extent hextent
    rw [hshape, getElem?_exchanged ha hb, if_pos rfl] at hextent
    refine h.kept_le extent ?_
    by_cases hab : a = b
    · rwa [if_pos hab, hab] at hextent
    · rwa [if_neg hab] at hextent
  refine ⟨hmajor, hkept, hset, fun c hc => ?_⟩
  have hc' : InShape c whole'.shape := (hset ▸ hc).of_set hkept
  have hback : InShape (exchanged c a b) cut.shape := by
    rw [hcutShape] at hc
    exact hc.of_exchanged ha' hb'
  rw [hcutGet c hc, hget c hc', h.elementAt_eq _ hback]

end Tensor

namespace MovedAxis

variable {moved : MovedAxis κ} {tensor : Tensor κ} {position : Nat}

/-- The leading entries of rows that are put back lead what the whole rows become. -/
theorem Moves.exists_putBack_leads (h : moved.Moves tensor position) (hmajor : tensor.RowMajor) {data : Array α}
    {whole : Tensor α} (hput : moved.putBack data none = .ok whole) {len : Nat} (hlen : len ≤ moved.axisLen) :
    ∃ cut, moved.putBack data (some len) = .ok cut ∧ cut.Leads whole position len := by
  obtain ⟨rows, hrows, hput⟩ := Outcome.bind_eq_ok_iff.mp hput
  obtain ⟨_, hnone, hexchange⟩ := Outcome.bind_eq_ok_iff.mp hput
  cases hnone
  obtain ⟨hsplit, hfront, -⟩ := h.shape_eq hmajor
  obtain ⟨hrowsMajor, hfit⟩ := (Tensor.Made.ofShape hrows).rowMajor
  have hshape := (Tensor.RowMajor.of_ofShape hrows).2.2.trans hsplit
  rw [hshape] at hfit
  obtain ⟨kept, hkept, hleads⟩ := hrowsMajor.exists_takeAlong_leads hshape hfit (fun k => by simp [Size.limit]) len
  rw [hfront] at hkept hleads
  rw [Nat.min_eq_left hlen] at hleads
  have hkeptShape : kept.shape = moved.front ++ [len] := by
    rw [hleads.shape_eq, hshape, ← hfront, List.set_append_right _ _ (Nat.le_refl _), Nat.sub_self, List.set_cons_zero]
  obtain ⟨cut, hcut⟩ := h.exists_exchangeAxes hmajor hleads.rowMajor hlen hkeptShape
  refine ⟨cut, ?_, ?_⟩
  · simp only [MovedAxis.putBack, hrows, hkept, hcut, Outcome.ok_bind]
  · rw [h.axis_eq] at hcut hexchange
    exact hleads.exchangeAxes hrowsMajor hexchange hcut

end MovedAxis

/-! ### Top entries -/

/-- What is returned of entries and their positions. -/
def TopEntries.ofKind (kind : ReturnKind) (values : Tensor κ) (indices : Tensor ι) : TopEntries κ ι :=
  match kind with
  | .both => .both values indices
  | .values => .values values
  | .indices => .indices indices

section Top

variable [Element κ] [IndexElement ι] {tensor : Tensor κ} {axis : Int} {direction : Direction}

/-- The top entries, where the rows can be sorted with indices and what is kept of them can be put back. -/
theorem Tensor.exists_top {backend backend' other : HostBackend} {moved : MovedAxis κ} {sortedKeys : Array κ}
    {sortedIndices : Array ι} {count : Int} {values : Tensor κ} {indices : Tensor ι}
    (hmoved : MovedAxis.ofTensor tensor axis = .ok moved) (hfits : requirePositions ι moved.axisLen = .ok ())
    (hsorted : (Backend.argsort ι moved.tensor.data moved.axisLen direction : Stateful HostBackend _).run backend =
      (.ok (sortedKeys, sortedIndices), backend')) (hconfig : other.config = backend.config)
    (hvalues : moved.putBack sortedKeys (keptEntries count moved.axisLen) = .ok values)
    (hindices : moved.putBack sortedIndices (keptEntries count moved.axisLen) = .ok indices) (kind : ReturnKind) :
    ∃ other', (tensor.top ι count axis kind direction : Stateful HostBackend _).run other =
      (.ok (.ofKind kind values indices), other') := by
  obtain ⟨other', hkeys⟩ := HostBackend.exists_sort hsorted hconfig
  obtain ⟨other'', hboth⟩ := HostBackend.exists_argsort hsorted hconfig
  have hmove := Stateful.run_ofOutcome_of_eq_ok hmoved other
  have hreach := Stateful.run_ofOutcome_of_eq_ok hfits other
  cases kind with
  | values =>
    have hback := Stateful.run_ofOutcome_of_eq_ok hvalues other'
    refine ⟨other', ?_⟩
    simp only [top, Stateful.run_bind_of_eq_ok hmove, if_true, Stateful.run_bind_of_eq_ok hkeys,
      Stateful.run_bind_of_eq_ok hback]
    rfl
  | indices =>
    have hback := Stateful.run_ofOutcome_of_eq_ok hindices other''
    refine ⟨other'', ?_⟩
    simp only [top, Stateful.run_bind_of_eq_ok hmove, reduceCtorEq, if_false, Stateful.run_bind_of_eq_ok hreach,
      Stateful.run_bind_of_eq_ok hboth, if_true, Stateful.run_bind_of_eq_ok hback]
    rfl
  | both =>
    have hback := Stateful.run_ofOutcome_of_eq_ok hindices other''
    have hback' := Stateful.run_ofOutcome_of_eq_ok hvalues other''
    refine ⟨other'', ?_⟩
    simp only [top, Stateful.run_bind_of_eq_ok hmove, reduceCtorEq, if_false, Stateful.run_bind_of_eq_ok hreach,
      Stateful.run_bind_of_eq_ok hboth, Stateful.run_bind_of_eq_ok hback, Stateful.run_bind_of_eq_ok hback']
    rfl

end Top

/-! ### Refusals -/

/-- Refusals that are not about the range of an index type. -/
def Refusal.OfRows : Refusal → Prop
  | .indexRange .. => False
  | _ => True

/-- Refusals of planning are not about the range of an index type. -/
theorem Refusal.OfPlanning.ofRows {error : Refusal} (h : error.OfPlanning) : error.OfRows := by
  cases error with
  | indexRange axisLen typeName => exact h
  | _ => trivial

theorem refusedOnly_resolveAxis (axis : Int) (rank : Nat) : (resolveAxis axis rank).RefusedOnly Refusal.OfRows := by
  simp [resolveAxis, Size.fitSigned, Refusal.OfRows]

theorem refusedOnly_splitRows (len axisLen : Nat) : (splitRows len axisLen).RefusedOnly Refusal.OfRows := by
  simp [splitRows, Refusal.OfRows]

/-- Axes that are not there are not about an index type. -/
theorem Tensor.refusedOnly_exchangeAxes_ofRows (t : Tensor α) (a b : Nat) :
    (t.exchangeAxes a b).RefusedOnly Refusal.OfRows := by
  by_cases hrank : t.rank ≤ a ∨ t.rank ≤ b
  · rw [exchangeAxes, if_pos hrank]
    exact Outcome.refusedOnly_refuse_iff.mpr trivial
  · exact refusedOnly_exchangeAxes (by omega) (by omega)

namespace MovedAxis

theorem refusedOnly_ofTensor (tensor : Tensor κ) (axis : Int) :
    (MovedAxis.ofTensor tensor axis).RefusedOnly Refusal.OfRows := by
  refine Outcome.refusedOnly_bind (refusedOnly_resolveAxis axis _) fun position => ?_
  refine Outcome.refusedOnly_bind (tensor.refusedOnly_exchangeAxes_ofRows position _) fun moved => ?_
  split
  · exact Outcome.refusedOnly_ok _
  · exact Outcome.refusedOnly_fault _

theorem refusedOnly_putBack (moved : MovedAxis κ) (data : Array α) (keep : Option Nat) :
    (moved.putBack data keep).RefusedOnly Refusal.OfRows := by
  have hback : ∀ kept : Tensor α, (kept.exchangeAxes moved.axis moved.last).RefusedOnly Refusal.OfRows :=
    fun kept => kept.refusedOnly_exchangeAxes_ofRows _ _
  refine Outcome.refusedOnly_bind ?_ fun whole => ?_
  · simp [Tensor.ofShape, Tensor.ofStrides, refusedOnly_rowMajorStrides, Refusal.OfRows]
  cases keep with
  | none => exact hback whole
  | some len =>
    refine Outcome.refusedOnly_bind ?_ hback
    rcases Nat.lt_or_ge moved.last whole.rank with hlast | hlast
    · exact (Tensor.ensures_takeAlong hlast len).refusedOnly
    · rw [Tensor.takeAlong, List.getElem?_eq_none hlast]
      exact Outcome.refusedOnly_refuse_iff.mpr trivial

end MovedAxis

section Values

variable [Element κ]

/-- Rows that are sorted without indices are not refused for an index type. -/
theorem HostBackend.refusedOnly_sort (data : Array κ) (axisLen : Nat) (direction : Direction) (backend : HostBackend) :
    ((Backend.sort data axisLen direction : Stateful HostBackend _).run backend).1.RefusedOnly Refusal.OfRows := by
  by_cases hdata : data.size = 0
  · have hempty : data.isEmpty = true := by simpa using hdata
    simp only [Backend.sort, hempty, if_true]
    exact Outcome.refusedOnly_ok _
  · have hempty : data.isEmpty = false := by simpa using hdata
    simp only [Backend.sort, hempty, Bool.false_eq_true, if_false]
    refine Stateful.refusedOnly_bind ?_ fun buffers _ _ => Outcome.refusedOnly_ok _
    rcases hsplit : splitRows data.size axisLen with failure | shape
    · rw [HostBackend.run_runRows_of_error hsplit]
      exact (hsplit ▸ refusedOnly_splitRows data.size axisLen : Outcome.RefusedOnly _ (.error failure)).of_error
    · obtain ⟨hpos, hlen, -⟩ := splitRows_eq_ok_iff.mp hsplit
      have hnone : ∀ pair : DoubleBuffer (Array UInt32), none = some pair →
          pair.front.size = data.size ∧ pair.back.size = data.size := by rintro _ ⟨⟩
      exact fun error herror => (backend.refusedOnly_runRows hdata hpos hlen hnone error herror).ofRows

/-- Top entries without their positions are not refused for an index type. -/
theorem Tensor.refusedOnly_top_values (ι : Type) [IndexElement ι] (tensor : Tensor κ) (count axis : Int)
    (direction : Direction) (backend : HostBackend) :
    ((tensor.top ι count axis .values direction : Stateful HostBackend _).run backend).1.RefusedOnly Refusal.OfRows := by
  refine Stateful.refusedOnly_bind (MovedAxis.refusedOnly_ofTensor tensor axis) fun moved left _ => ?_
  refine Stateful.refusedOnly_bind (HostBackend.refusedOnly_sort _ _ _ left) fun values left' _ => ?_
  refine Stateful.refusedOnly_bind (moved.refusedOnly_putBack values _) fun entries _ _ => ?_
  exact Outcome.refusedOnly_ok _

end Values

/-! ### The leading entries of the sorted tensor -/

/-- The top entries of a row-major tensor on the host are the leading ones of the sorted tensor, whatever the keys are.
Where sorting with indices succeeds, a backend of the same configuration returns entries, positions or both, as asked for.
They are the sorted tensor and its indices if fewer than one entry is asked for, and otherwise the first entries of both
along the axis, as many as are asked for or all that there are. Entries without their positions are never refused for the
range of an index type. -/
theorem Tensor.top_leads_sorted [Element κ] [IndexElement ι] {tensor : Tensor κ} (hmajor : tensor.RowMajor)
    (count axis : Int) (direction : Direction) :
    (∀ (backend backend' other : HostBackend) (values : Tensor κ) (indices : Tensor ι),
      (tensor.sortIndexed ι axis direction : Stateful HostBackend _).run backend = (.ok (values, indices), backend') →
      other.config = backend.config →
      ∃ position extent topValues topIndices,
        resolveAxis axis tensor.rank = .ok position ∧ tensor.shape[position]? = some extent ∧
        (count < 1 → topValues = values ∧ topIndices = indices) ∧
        (1 ≤ count → topValues.Leads values position (min count.toNat extent) ∧
          topIndices.Leads indices position (min count.toNat extent)) ∧
        ∀ kind, ∃ other', (tensor.top ι count axis kind direction : Stateful HostBackend _).run other =
          (.ok (.ofKind kind topValues topIndices), other')) ∧
    ∀ (backend : HostBackend) len typeName,
      ((tensor.top ι count axis .values direction : Stateful HostBackend _).run backend).1 ≠
        .refuse (.indexRange len typeName) := by
  refine ⟨fun backend backend' other values indices hrun hconfig => ?_, fun backend len typeName hrefused => ?_⟩
  · obtain ⟨moved, sortedKeys, sortedIndices, hmoved, hfits, hsorted, hvalues, hindices⟩ := exists_of_sortIndexed hrun
    obtain ⟨position, hresolve, hmoves⟩ := MovedAxis.exists_moves hmajor hmoved
    by_cases hcount : count < 1
    · have hkept : keptEntries count moved.axisLen = none := if_neg (by omega)
      rw [← hkept] at hvalues hindices
      exact ⟨position, moved.axisLen, values, indices, hresolve, hmoves.extent_eq hmajor, fun _ => ⟨rfl, rfl⟩,
        fun hone => by omega, exists_top hmoved hfits hsorted hconfig hvalues hindices⟩
    · have hkept : keptEntries count moved.axisLen = some (min count.toNat moved.axisLen) := if_pos (by omega)
      have hle : min count.toNat moved.axisLen ≤ moved.axisLen := Nat.min_le_right _ _
      obtain ⟨topValues, htopValues, hvaluesLead⟩ := hmoves.exists_putBack_leads hmajor hvalues hle
      obtain ⟨topIndices, htopIndices, hindicesLead⟩ := hmoves.exists_putBack_leads hmajor hindices hle
      rw [← hkept] at htopValues htopIndices
      exact ⟨position, moved.axisLen, topValues, topIndices, hresolve, hmoves.extent_eq hmajor, fun hone => by omega,
        fun _ => ⟨hvaluesLead, hindicesLead⟩, exists_top hmoved hfits hsorted hconfig htopValues htopIndices⟩
  · exact refusedOnly_top_values ι tensor count axis direction backend _ hrefused

/-- Two columns of three keys, one of which cannot be compared. The two top entries of each column are those of the sorted
columns, and the backend that is asked for them has been at work before. -/
theorem Tensor.top_leads_sorted_columns :
    ∃ backend' other',
      ((⟨#[⟨2143289344⟩, ⟨0⟩, ⟨1065353216⟩, ⟨1073741824⟩, ⟨0⟩, ⟨1065353216⟩], [2, 1], [3, 2]⟩ :
        Tensor Binary32).sortIndexed UInt32 0 .ascending : Stateful HostBackend _).run
          { config := { limits := { maxLanes := 2 }, tuning := { tile := 2 } } } =
        (.ok (⟨#[⟨0⟩, ⟨0⟩, ⟨2143289344⟩, ⟨1065353216⟩, ⟨1065353216⟩, ⟨1073741824⟩], [2, 1], [3, 2]⟩,
          ⟨#[2, 0, 0, 2, 1, 1], [2, 1], [3, 2]⟩), backend') ∧
      ((⟨#[⟨2143289344⟩, ⟨0⟩, ⟨1065353216⟩, ⟨1073741824⟩, ⟨0⟩, ⟨1065353216⟩], [2, 1], [3, 2]⟩ :
        Tensor Binary32).top UInt32 2 0 .values .ascending : Stateful HostBackend _).run
          { config := { limits := { maxLanes := 2 }, tuning := { tile := 2 } }, runner := ⟨⟨4, 8, 20⟩⟩ } =
        (.ok (.values ⟨#[⟨0⟩, ⟨0⟩, ⟨2143289344⟩, ⟨1065353216⟩], [2, 1], [2, 2]⟩), other') ∧
      Leads (⟨#[⟨0⟩, ⟨0⟩, ⟨2143289344⟩, ⟨1065353216⟩], [2, 1], [2, 2]⟩ : Tensor Binary32)
        ⟨#[⟨0⟩, ⟨0⟩, ⟨2143289344⟩, ⟨1065353216⟩, ⟨1065353216⟩, ⟨1073741824⟩], [2, 1], [3, 2]⟩ 0 2 := by
  have hmajor : (⟨#[⟨2143289344⟩, ⟨0⟩, ⟨1065353216⟩, ⟨1073741824⟩, ⟨0⟩, ⟨1065353216⟩], [2, 1], [3, 2]⟩ :
      Tensor Binary32).RowMajor := ⟨rfl, rfl, by decide⟩
  have hfirst : (((⟨#[⟨2143289344⟩, ⟨0⟩, ⟨1065353216⟩, ⟨1073741824⟩, ⟨0⟩, ⟨1065353216⟩], [2, 1], [3, 2]⟩ :
      Tensor Binary32).sortIndexed UInt32 0 .ascending : Stateful HostBackend _).run
        { config := { limits := { maxLanes := 2 }, tuning := { tile := 2 } } }).1 =
      .ok (⟨#[⟨0⟩, ⟨0⟩, ⟨2143289344⟩, ⟨1065353216⟩, ⟨1065353216⟩, ⟨1073741824⟩], [2, 1], [3, 2]⟩,
        ⟨#[2, 0, 0, 2, 1, 1], [2, 1], [3, 2]⟩) := by cbv
  have hsecond : (((⟨#[⟨2143289344⟩, ⟨0⟩, ⟨1065353216⟩, ⟨1073741824⟩, ⟨0⟩, ⟨1065353216⟩], [2, 1], [3, 2]⟩ :
      Tensor Binary32).top UInt32 2 0 .values .ascending : Stateful HostBackend _).run
        { config := { limits := { maxLanes := 2 }, tuning := { tile := 2 } }, runner := ⟨⟨4, 8, 20⟩⟩ }).1 =
      .ok (.values ⟨#[⟨0⟩, ⟨0⟩, ⟨2143289344⟩, ⟨1065353216⟩], [2, 1], [2, 2]⟩) := by cbv
  obtain ⟨backend', hsorted⟩ := Stateful.exists_run_of_fst_eq hfirst
  obtain ⟨position, extent, topValues, topIndices, hposition, hextent, -, hleads, hkind⟩ :=
    (top_leads_sorted hmajor 2 0 .ascending).1 _ _
      { config := { limits := { maxLanes := 2 }, tuning := { tile := 2 } }, runner := ⟨⟨4, 8, 20⟩⟩ } _ _ hsorted rfl
  obtain ⟨other', htop⟩ := hkind .values
  obtain rfl : 0 = position := Except.ok.inj hposition
  obtain rfl : 3 = extent := Option.some.inj hextent
  have hsame : TopEntries.values topValues = .values _ :=
    Except.ok.inj ((congrArg Prod.fst htop).symm.trans hsecond)
  obtain rfl := TopEntries.values.inj hsame
  exact ⟨backend', other', hsorted, htop, (hleads (by decide)).1⟩

end MergePathSort
