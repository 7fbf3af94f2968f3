import MergePathSort.Proofs.Host.Execution
import MergePathSort.Proofs.Plan.Lowering
import MergePathSort.Proofs.Tensor.Extents

/-!
# Lowering never faults

Every divisor that lowering meets has been found positive before: a row is not empty, and a configuration that is not
refused has lanes, outputs for them and a tile. Sums and products of extents are checked, and what does not fit is refused.
So a shape is lowered or refused as soon as its elements can be counted.

## Main results

* `MergeShape.not_faults_ofWidth`, `Program.not_faults_launchesFor` : the launches of a sort.
* `Program.not_faults_lower` : programs.
-/

namespace MergePathSort

/-! ### Words and extents -/

section Words

variable {β : Type}

/-- What comes after a check that a size is a word. -/
theorem not_faults_toWord_bind {n : Nat} {problem : GridProblem} {f : UInt32 → Outcome β}
    (h : ∀ word, ¬(f word).Faults) : ¬(toWord n problem >>= f).Faults := by
  refine Outcome.not_faults_bind ?_ fun word _ => h word
  rw [toWord]
  split
  · exact Outcome.not_faults_ok _
  · exact Outcome.not_faults_refuse _

/-- What comes after a check that there are elements and rows. -/
theorem not_faults_requireExtents_bind {size rows : Nat} {f : Unit → Outcome β} (h : 0 < size → ¬(f ()).Faults) :
    ¬(requireExtents size rows >>= f).Faults := by
  refine Outcome.not_faults_bind ?_ fun _ hextents => h (requireExtents_eq_ok hextents).1
  rw [requireExtents]
  split
  · exact Outcome.not_faults_refuse _
  · split
    · exact Outcome.not_faults_refuse _
    · exact Outcome.not_faults_ok _

/-- What comes after a quotient by something positive. -/
theorem not_faults_divCeil_bind {a b : Nat} (hpos : 0 < b) {f : Nat → Outcome β} (h : ∀ quotient, ¬(f quotient).Faults) :
    ¬(Size.divCeil a b >>= f).Faults := by
  refine Outcome.not_faults_bind ?_ fun quotient _ => h quotient
  rw [Size.divCeil, if_neg (Nat.ne_of_gt hpos)]
  exact Outcome.not_faults_ok _

end Words

/-- A valid configuration has lanes, outputs for them and a tile. -/
theorem Config.pos_of_valid {config : Config} (h : config.problem? = none) :
    0 < config.limits.maxLanes.toNat ∧ 0 < config.tuning.laneWork.toNat ∧ 0 < config.tuning.tile.toNat := by
  obtain ⟨⟨htile, -⟩, hwork, hlanes, -⟩ := problem?_eq_none_iff.mp h
  rw [UInt32.le_iff_toNat_le] at htile
  exact ⟨UInt32.pos_iff_ne_zero.mpr hlanes, UInt32.pos_iff_ne_zero.mpr hwork, Nat.lt_of_lt_of_le (by decide) htile⟩

/-! ### Launches -/

section Launches

variable {config : Config} (hvalid : config.problem? = none) (size rows : Nat)
include hvalid

theorem Grid.not_faults_perElement : ¬(Grid.perElement size rows config.limits).Faults := by
  have hlanes := (Config.pos_of_valid hvalid).1
  rw [perElement]
  refine not_faults_requireExtents_bind fun hsize => ?_
  refine not_faults_toWord_bind fun lanes => ?_
  refine not_faults_divCeil_bind (by omega) fun count => ?_
  refine not_faults_toWord_bind fun blocks => ?_
  exact not_faults_toWord_bind fun rows => Outcome.not_faults_ok _

theorem Grid.not_faults_perTile : ¬(Grid.perTile size rows config.tuning).Faults := by
  rw [perTile]
  refine not_faults_requireExtents_bind fun _ => ?_
  refine not_faults_divCeil_bind (Config.pos_of_valid hvalid).2.2 fun count => ?_
  refine not_faults_toWord_bind fun blocks => ?_
  exact not_faults_toWord_bind fun rows => Outcome.not_faults_ok _

/-- The shape of a pass of any width. -/
theorem MergeShape.not_faults_ofWidth (width : Nat) :
    ¬(MergeShape.ofWidth width size rows config.limits config.tuning).Faults := by
  obtain ⟨hlanes, hwork, -⟩ := Config.pos_of_valid hvalid
  unfold ofWidth
  refine not_faults_requireExtents_bind fun _ => ?_
  by_cases hnarrow : width < 2
  · simp only [if_pos hnarrow]
    exact Outcome.not_faults_refuse _
  simp only [if_neg hnarrow]
  refine not_faults_divCeil_bind (Nat.mul_pos hlanes hwork) fun blocks => ?_
  refine not_faults_divCeil_bind (by omega) fun segments => ?_
  refine Outcome.not_faults_bind ?_ fun sharing _ => ?_
  · rw [Sharing.ofBlocks]
    split
    · refine not_faults_divCeil_bind ?_ fun step => not_faults_toWord_bind fun word => Outcome.not_faults_ok _
      split <;> omega
    · exact not_faults_toWord_bind fun word => Outcome.not_faults_ok _
  split
  · refine not_faults_toWord_bind fun lanes => ?_
    refine not_faults_toWord_bind fun blocks => ?_
    refine not_faults_toWord_bind fun rows => ?_
    refine not_faults_toWord_bind fun width => ?_
    exact not_faults_toWord_bind fun segments => Outcome.not_faults_ok _
  · exact Outcome.not_faults_refuse _

/-- The launches of a sort of any extents. -/
theorem Program.not_faults_launchesFor : ¬(Program.launchesFor config size rows).Faults := by
  have htile : config.tuning.tile ≠ 0 := fun hzero => by
    have hpos := (Config.pos_of_valid hvalid).2.2
    rw [hzero] at hpos
    exact absurd hpos (Nat.lt_irrefl 0)
  rw [launchesFor]
  refine Outcome.not_faults_bind (Grid.not_faults_perElement hvalid size rows) fun _ _ => ?_
  refine Outcome.not_faults_bind (Grid.not_faults_perTile hvalid size rows) fun _ _ => ?_
  refine Outcome.not_faults_bind ?_ fun lower _ => ?_
  · rw [Tuning.tileLog2, if_neg htile]
    exact Outcome.not_faults_ok _
  refine Outcome.not_faults_bind (Outcome.not_faults_mapM fun pass _ => ?_) fun _ _ => Outcome.not_faults_ok _
  exact Outcome.not_faults_bind (MergeShape.not_faults_ofWidth hvalid size rows _) fun _ _ => Outcome.not_faults_ok _

end Launches

/-! ### Programs -/

/-- The view of a shape around one of its axes, if the extents up to the axis can be multiplied, and those behind it. -/
theorem AxisView.exists_ofShape {shape : List Nat} {axis axisLen : Nat} (hextent : shape[axis]? = some axisLen)
    (hbefore : ProductsFit (shape.take (axis + 1))) (hafter : ProductsFit (shape.drop (axis + 1))) :
    ∃ view, AxisView.ofShape shape axis = .ok view ∧ view.before < Size.limit ∧
      view.before * view.axisLen < Size.limit := by
  have hproduct := hbefore.take axis
  rw [List.take_take, Nat.min_eq_left (Nat.le_succ axis)] at hproduct
  have htotal := hbefore.prod_lt
  rw [List.take_add_one, hextent, Option.toList_some, List.prod_append, List.prod_singleton] at htotal
  refine ⟨⟨(shape.take axis).prod, axisLen, (shape.drop (axis + 1)).prod⟩, ?_, hproduct.prod_lt, htotal⟩
  rw [AxisView.ofShape, hextent]
  simp only [Size.product_of_fits hproduct, Size.product_of_fits hafter, Outcome.ok_bind, Outcome.pure_eq_ok]

/-- A shape is lowered or refused, whatever the configuration, if the extents up to the axis can be multiplied, and
those behind it. -/
theorem Program.not_faults_lower {shape : List Nat} {axis : Nat} (hbefore : ProductsFit (shape.take (axis + 1)))
    (hafter : ProductsFit (shape.drop (axis + 1))) (direction : Direction) (indexed : Bool) (config : Config) :
    ¬(Program.lower shape axis direction indexed config).Faults := by
  rw [lower, Config.validate]
  cases hvalid : config.problem? with
  | some problem => exact Outcome.not_faults_refuse _
  | none =>
    cases hextent : shape[axis]? with
    | none =>
      rw [AxisView.ofShape, hextent]
      exact Outcome.not_faults_refuse _
    | some axisLen =>
      obtain ⟨view, hview, hrows, htotal⟩ := AxisView.exists_ofShape hextent hbefore hafter
      rw [Outcome.ok_bind, hview, Outcome.ok_bind]
      cases hpacked : view.isPacked with
      | false => exact Outcome.not_faults_refuse _
      | true =>
        have hone : view.after = 1 := by simpa [AxisView.isPacked] using hpacked
        have hcount : view.rowCount = .ok view.before := by
          rw [AxisView.rowCount, hone]
          exact Size.mul_eq_ok_iff.mpr ⟨by omega, Nat.mul_one _⟩
        rw [AxisView.total_eq_ok hone htotal]
        change ¬Outcome.Faults (if view.before * view.axisLen = 0 then _ else _)
        split
        · exact Outcome.not_faults_ok _
        · rw [hcount, Outcome.ok_bind]
          exact Outcome.not_faults_bind (not_faults_launchesFor hvalid _ _) fun launches _ => Outcome.not_faults_ok _

end MergePathSort
