import MergePathSort.Plan.Program
import MergePathSort.Proofs.Outcome

/-!
# Why a program is not lowered

A shape that is not lowered is refused for the configuration, for the axis or for an extent of a grid, and for nothing
else. So what a caller checks before it lowers a program keeps its own refusals apart.

## Main definitions

* `Outcome.RefusedOnly` : steps that are refused only for reasons of a kind.
* `Refusal.OfPlanning` : the reasons for which a program is not lowered.

## Main results

* `Outcome.refusedOnly_bind`, `Outcome.refusedOnly_foldlM`, `Outcome.refusedOnly_mapM` : sequences of steps.
* `Program.refusedOnly_launchesFor`, `Program.refusedOnly_lower` : launches and programs.
-/

namespace MergePathSort

/-! ### Steps that are refused -/

namespace Outcome

variable {α β : Type} {P : Refusal → Prop}

/-- A step is refused only for reasons with a property. -/
def RefusedOnly (P : Refusal → Prop) (x : Outcome α) : Prop := ∀ error, x = refuse error → P error

@[simp]
theorem refusedOnly_ok (a : α) : RefusedOnly P (.ok a : Outcome α) := by
  rintro error ⟨⟩

@[simp]
theorem refusedOnly_fault (fault : Fault) : RefusedOnly P (Outcome.fault fault : Outcome α) := by
  rintro error ⟨⟩

@[simp]
theorem refusedOnly_refuse_iff {error : Refusal} : RefusedOnly P (refuse error : Outcome α) ↔ P error := by
  constructor
  · exact fun h => h error rfl
  · rintro h _ ⟨⟩
    exact h

/-- A failure is refused for the same reasons, whatever the result would have been. -/
theorem RefusedOnly.of_error {failure : Failure} (h : RefusedOnly P (.error failure : Outcome α)) :
    RefusedOnly P (.error failure : Outcome β) := fun error herror =>
  h error (congrArg Except.error (Except.error.inj herror))

/-- A sequence of two steps is refused for the reasons of either. -/
theorem refusedOnly_bind {x : Outcome α} {f : α → Outcome β} (hx : RefusedOnly P x) (hf : ∀ a, RefusedOnly P (f a)) :
    RefusedOnly P (x >>= f) := by
  rcases x with (error | fault) | a
  · exact refusedOnly_refuse_iff.mpr (hx error rfl)
  · exact refusedOnly_fault fault
  · exact hf a

/-- What is made of a result is refused for the same reasons. -/
theorem refusedOnly_map {x : Outcome α} (hx : RefusedOnly P x) (f : α → β) : RefusedOnly P (f <$> x) := by
  rcases x with (error | fault) | a
  · exact refusedOnly_refuse_iff.mpr (hx error rfl)
  · exact refusedOnly_fault fault
  · exact refusedOnly_ok (f a)

/-- A loop is refused for the reasons of its steps. -/
theorem refusedOnly_foldlM {f : β → α → Outcome β} (hf : ∀ b a, RefusedOnly P (f b a)) (xs : List α) (b : β) :
    RefusedOnly P (xs.foldlM f b) := by
  induction xs generalizing b with
  | nil => exact refusedOnly_ok b
  | cons x xs ih =>
    rw [List.foldlM_cons]
    exact refusedOnly_bind (hf b x) ih

/-- A list of steps is refused for the reasons of its steps. -/
theorem refusedOnly_mapM {f : α → Outcome β} (hf : ∀ a, RefusedOnly P (f a)) (xs : List α) :
    RefusedOnly P (xs.mapM f) := by
  induction xs with
  | nil => exact refusedOnly_ok []
  | cons x xs ih =>
    rw [List.mapM_cons]
    exact refusedOnly_bind (hf x) fun y => refusedOnly_bind ih fun ys => refusedOnly_ok (y :: ys)

end Outcome

/-! ### Sizes -/

section Sizes

variable {P : Refusal → Prop} (a b : Nat)

/-- A product of sizes is never refused. -/
theorem Size.refusedOnly_mul : (Size.mul a b).RefusedOnly P := by
  rw [mul, fit]
  split
  · exact Outcome.refusedOnly_ok _
  · exact Outcome.refusedOnly_fault _

/-- A quotient of sizes is never refused. -/
theorem Size.refusedOnly_divCeil : (Size.divCeil a b).RefusedOnly P := by
  rw [divCeil]
  split
  · exact Outcome.refusedOnly_fault _
  · exact Outcome.refusedOnly_ok _

end Sizes

/-! ### Launches -/

section Launches

variable {P : Refusal → Prop} (hgrid : ∀ problem, P (.noGrid problem))
include hgrid

theorem refusedOnly_toWord (n : Nat) (problem : GridProblem) : (toWord n problem).RefusedOnly P := by
  rw [toWord]
  split
  · exact Outcome.refusedOnly_ok _
  · exact Outcome.refusedOnly_refuse_iff.mpr (hgrid problem)

theorem refusedOnly_requireExtents (size rows : Nat) : (requireExtents size rows).RefusedOnly P := by
  rw [requireExtents]
  split
  · exact Outcome.refusedOnly_refuse_iff.mpr (hgrid _)
  · split
    · exact Outcome.refusedOnly_refuse_iff.mpr (hgrid _)
    · exact Outcome.refusedOnly_ok _

theorem Grid.refusedOnly_perElement (size rows : Nat) (limits : Limits) :
    (Grid.perElement size rows limits).RefusedOnly P := by
  refine Outcome.refusedOnly_bind (refusedOnly_requireExtents hgrid _ _) fun _ => ?_
  refine Outcome.refusedOnly_bind (refusedOnly_toWord hgrid _ _) fun lanes => ?_
  refine Outcome.refusedOnly_bind (Size.refusedOnly_divCeil _ _) fun count => ?_
  refine Outcome.refusedOnly_bind (refusedOnly_toWord hgrid _ _) fun blocks => ?_
  exact Outcome.refusedOnly_bind (refusedOnly_toWord hgrid _ _) fun words => Outcome.refusedOnly_ok _

theorem Grid.refusedOnly_perTile (size rows : Nat) (tuning : Tuning) :
    (Grid.perTile size rows tuning).RefusedOnly P := by
  refine Outcome.refusedOnly_bind (refusedOnly_requireExtents hgrid _ _) fun _ => ?_
  refine Outcome.refusedOnly_bind (Size.refusedOnly_divCeil _ _) fun count => ?_
  refine Outcome.refusedOnly_bind (refusedOnly_toWord hgrid _ _) fun blocks => ?_
  exact Outcome.refusedOnly_bind (refusedOnly_toWord hgrid _ _) fun words => Outcome.refusedOnly_ok _

theorem Sharing.refusedOnly_ofBlocks (blocks width lanes stepCount : Nat) (tuning : Tuning) :
    (Sharing.ofBlocks blocks width lanes stepCount tuning).RefusedOnly P := by
  rw [ofBlocks]
  split
  · refine Outcome.refusedOnly_bind (Size.refusedOnly_divCeil _ _) fun step => ?_
    exact Outcome.refusedOnly_bind (refusedOnly_toWord hgrid _ _) fun word => Outcome.refusedOnly_ok _
  · exact Outcome.refusedOnly_bind (refusedOnly_toWord hgrid _ _) fun word => Outcome.refusedOnly_ok _

theorem MergeShape.refusedOnly_ofWidth (width size rows : Nat) (limits : Limits) (tuning : Tuning) :
    (MergeShape.ofWidth width size rows limits tuning).RefusedOnly P := by
  refine Outcome.refusedOnly_bind (refusedOnly_requireExtents hgrid _ _) fun _ => ?_
  by_cases hnarrow : width < 2
  · simp only [if_pos hnarrow]
    exact Outcome.refusedOnly_refuse_iff.mpr (hgrid _)
  simp only [if_neg hnarrow]
  refine Outcome.refusedOnly_bind (Size.refusedOnly_divCeil _ _) fun blocks => ?_
  refine Outcome.refusedOnly_bind (Size.refusedOnly_divCeil _ _) fun segments => ?_
  refine Outcome.refusedOnly_bind (Sharing.refusedOnly_ofBlocks hgrid _ _ _ _ _) fun sharing => ?_
  split
  · rw [Outcome.ok_bind]
    refine Outcome.refusedOnly_bind (refusedOnly_toWord hgrid _ _) fun lanesWord => ?_
    refine Outcome.refusedOnly_bind (refusedOnly_toWord hgrid _ _) fun blocksWord => ?_
    refine Outcome.refusedOnly_bind (refusedOnly_toWord hgrid _ _) fun rowsWord => ?_
    refine Outcome.refusedOnly_bind (refusedOnly_toWord hgrid _ _) fun widthWord => ?_
    exact Outcome.refusedOnly_bind (refusedOnly_toWord hgrid _ _) fun segmentsWord => Outcome.refusedOnly_ok _
  · exact Outcome.refusedOnly_refuse_iff.mpr (hgrid _)

/-- The launches of a sort are refused for an extent of a grid, and for nothing else. -/
theorem Program.refusedOnly_launchesFor (config : Config) (size rows : Nat) :
    (Program.launchesFor config size rows).RefusedOnly P := by
  refine Outcome.refusedOnly_bind (Grid.refusedOnly_perElement hgrid _ _ _) fun copy => ?_
  refine Outcome.refusedOnly_bind (Grid.refusedOnly_perTile hgrid _ _ _) fun tiles => ?_
  refine Outcome.refusedOnly_bind ?_ fun lower => ?_
  · rw [Tuning.tileLog2]
    split
    · exact Outcome.refusedOnly_fault _
    · exact Outcome.refusedOnly_ok _
  refine Outcome.refusedOnly_bind (Outcome.refusedOnly_mapM (fun pass => ?_) _) fun merges => Outcome.refusedOnly_ok _
  exact Outcome.refusedOnly_bind (MergeShape.refusedOnly_ofWidth hgrid _ _ _ _ _) fun shape => Outcome.refusedOnly_ok _

end Launches

/-! ### Programs -/

/-- The reasons for which a program is not lowered. -/
def Refusal.OfPlanning : Refusal → Prop
  | .invalidConfig _ | .invalidAxis .. | .noGrid _ => True
  | _ => False

theorem AxisView.refusedOnly_ofShape (shape : List Nat) (axis : Nat) :
    (AxisView.ofShape shape axis).RefusedOnly Refusal.OfPlanning := by
  rw [ofShape]
  split
  · exact Outcome.refusedOnly_refuse_iff.mpr trivial
  · refine Outcome.refusedOnly_bind (Outcome.refusedOnly_foldlM Size.refusedOnly_mul _ _) fun before => ?_
    exact Outcome.refusedOnly_bind (Outcome.refusedOnly_foldlM Size.refusedOnly_mul _ _) fun after =>
      Outcome.refusedOnly_ok _

/-- A program is not lowered for its configuration, its axis or an extent of a grid, and for nothing else. -/
theorem Program.refusedOnly_lower (shape : List Nat) (axis : Nat) (direction : Direction) (indexed : Bool)
    (config : Config) : (Program.lower shape axis direction indexed config).RefusedOnly Refusal.OfPlanning := by
  refine Outcome.refusedOnly_bind ?_ fun _ => ?_
  · rw [Config.validate]
    split
    · exact Outcome.refusedOnly_refuse_iff.mpr trivial
    · exact Outcome.refusedOnly_ok _
  refine Outcome.refusedOnly_bind (AxisView.refusedOnly_ofShape shape axis) fun view => ?_
  by_cases hpacked : view.isPacked = true
  · simp only [hpacked, Bool.not_true, Bool.false_eq_true, if_false]
    refine Outcome.refusedOnly_bind (Outcome.refusedOnly_bind (Size.refusedOnly_mul _ _) fun inner =>
      Size.refusedOnly_mul _ _) fun total => ?_
    split
    · exact Outcome.refusedOnly_ok _
    · refine Outcome.refusedOnly_bind (Size.refusedOnly_mul _ _) fun rows => ?_
      exact Outcome.refusedOnly_bind (Program.refusedOnly_launchesFor (fun _ => trivial) _ _ _) fun launches =>
        Outcome.refusedOnly_ok _
  · simp only [hpacked, Bool.not_false, if_true]
    exact Outcome.refusedOnly_refuse_iff.mpr trivial

end MergePathSort
