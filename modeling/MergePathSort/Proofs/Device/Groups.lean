import MergePathSort.Device.Engine
import MergePathSort.Proofs.Outcome

/-!
# The groups of a grid

A device runs the groups of a grid layer by layer, and the row of a group is computed in words of 32 bits. The sums do
not wrap, so that the groups are those of the rows from zero on, in order; the last layer can have more of them, whose
rows lie behind the last one. A launch is described by what holds before every group, and by kernels that mask the
groups that are too many.

## Main results

* `Workgroup.all_eq` : the groups of a grid, row by row.
* `Kernel.exists_launch` : a launch whose groups keep an invariant.
-/

namespace MergePathSort

/-! ### Enumeration -/

/-- Rows in layers are rows in order. -/
theorem flatMap_range_mul {α : Type} (f : Nat → List α) (layers rows : Nat) :
    ((List.range layers).flatMap fun z => (List.range rows).flatMap fun y => f (z * rows + y)) =
      (List.range (layers * rows)).flatMap f := by
  induction layers with
  | zero => simp
  | succ layers ih =>
    rw [List.range_succ, List.flatMap_append, ih, List.flatMap_singleton, Nat.succ_mul, List.range_add,
      List.flatMap_append, List.flatMap_map]

/-- The rows of all layers. -/
def Grid.layeredRows (grid : Grid) : Nat := grid.layers.2.toNat * grid.layers.1.toNat

/-- The layers of a grid have room for all of its rows, and their rows are words. -/
theorem Grid.layeredRows_spec (grid : Grid) :
    grid.rows.toNat ≤ grid.layeredRows ∧ grid.layeredRows ≤ 4294967296 := by
  have hword := grid.rows.toNat_lt
  have hlayer : layerRows.toNat = 65535 := rfl
  rw [layeredRows, layers]
  split
  · have hone : (1 : UInt32).toNat = 1 := rfl
    simp only [hone]
    omega
  · have hcount : (UInt32.ofNat ((grid.rows.toNat + layerRows.toNat - 1) / layerRows.toNat)).toNat =
        (grid.rows.toNat + layerRows.toNat - 1) / layerRows.toNat := by
      rw [hlayer]
      exact UInt32.toNat_ofNat_of_lt' (show _ < 4294967296 by omega)
    simp only [hcount]
    rw [hlayer]
    omega

/-- The groups of a grid, row by row. -/
theorem Workgroup.all_eq (grid : Grid) :
    Workgroup.all grid = (List.range grid.layeredRows).flatMap fun row =>
      (List.range grid.blocksPerRow.toNat).map fun x => ⟨UInt32.ofNat x, UInt32.ofNat row⟩ := by
  rw [Grid.layeredRows, ← flatMap_range_mul]
  have hrow : ∀ z y, Workgroup.foldRow grid.layers.1 (UInt32.ofNat y) (UInt32.ofNat z) =
      UInt32.ofNat (z * grid.layers.1.toNat + y) := by
    intro z y
    rw [Workgroup.foldRow, UInt32.ofNat_add, UInt32.ofNat_mul, UInt32.ofNat_toNat]
  simp only [Workgroup.all, hrow]

/-! ### Launches -/

/-- A loop over the numbers below `n` that keeps an invariant. -/
theorem Outcome.exists_foldlM_range {σ : Type} {f : σ → Nat → Outcome σ} {P : Nat → σ → Prop} {n : Nat} {state : σ}
    (hstart : P 0 state) (hstep : ∀ i < n, ∀ state, P i state → ∃ state', f state i = .ok state' ∧ P (i + 1) state') :
    ∃ state', (List.range n).foldlM f state = .ok state' ∧ P n state' := by
  induction n with
  | zero => exact ⟨state, rfl, hstart⟩
  | succ n ih =>
    obtain ⟨mid, hmid, hP⟩ := ih fun i hi => hstep i (by omega)
    obtain ⟨state', hstate', hP'⟩ := hstep n (by omega) mid hP
    refine ⟨state', ?_, hP'⟩
    rw [List.range_succ, List.foldlM_append, hmid, Outcome.ok_bind, List.foldlM_cons, hstate']
    rfl

/-- A loop over the lists of the numbers below `n`, list by list. -/
theorem Outcome.foldlM_flatMap_range {σ α : Type} (f : σ → α → Outcome σ) (list : Nat → List α) (n : Nat) (state : σ) :
    ((List.range n).flatMap list).foldlM f state =
      (List.range n).foldlM (fun state i => (list i).foldlM f state) state := by
  induction n with
  | zero => rfl
  | succ n ih =>
    rw [List.range_succ, List.flatMap_append, List.foldlM_append, ih, List.foldlM_append, List.flatMap_singleton]
    simp only [List.foldlM_cons, List.foldlM_nil, bind_pure]

section Launches

variable {κ : Type} {kernel : Kernel κ} {grid : Grid} {P : Nat → Nat → DeviceCells κ → Prop}

/-- What one group does to the sort buffers and to the barriers so far. -/
def Kernel.step (kernel : Kernel κ) (state : DeviceCells κ × Nat) (group : Workgroup) :
    Outcome (DeviceCells κ × Nat) := do
  let (cells, more) ← kernel state.1 group
  return (cells, state.2 + more)

theorem Kernel.step_eq_ok {cells cells' : DeviceCells κ} {group : Workgroup} {more : Nat}
    (h : kernel cells group = .ok (cells', more)) (before : Nat) :
    kernel.step (cells, before) group = .ok (cells', before + more) := by
  rw [step, h]
  rfl

/-- A launch whose groups keep an invariant: `P row x` holds before group `x` of a row, and behind the last group of a
row the invariant of the next row. Groups of other rows do nothing. -/
theorem Kernel.exists_launch (kernel : Kernel κ) {cells : DeviceCells κ} (hstart : P 0 0 cells)
    (hstep : ∀ row < grid.rows.toNat, ∀ x < grid.blocksPerRow.toNat, ∀ cells, P row x cells →
      ∃ cells' more, kernel cells ⟨UInt32.ofNat x, UInt32.ofNat row⟩ = .ok (cells', more) ∧ P row (x + 1) cells')
    (hnext : ∀ row < grid.rows.toNat, ∀ cells, P row grid.blocksPerRow.toNat cells → P (row + 1) 0 cells)
    (hmasked : ∀ group : Workgroup, grid.rows ≤ group.row → ∀ cells, ∃ more, kernel cells group = .ok (cells, more)) :
    ∃ cells' syncs, kernel.launch grid cells = .ok (cells', syncs) ∧ P grid.rows.toNat 0 cells' := by
  obtain ⟨henough, hword⟩ := grid.layeredRows_spec
  have hall : ∃ state', (List.range grid.layeredRows).foldlM (fun state row =>
      (List.range grid.blocksPerRow.toNat).foldlM
        (fun state x => kernel.step state ⟨UInt32.ofNat x, UInt32.ofNat row⟩) state) (cells, 0) = .ok state' ∧
      P (min grid.layeredRows grid.rows.toNat) 0 state'.1 := by
    refine Outcome.exists_foldlM_range
      (P := fun row (state : DeviceCells κ × Nat) => P (min row grid.rows.toNat) 0 state.1) ?_ ?_
    · rwa [Nat.zero_min]
    · intro row hrow state hP
      rcases Nat.lt_or_ge row grid.rows.toNat with hinside | hbehind
      · rw [Nat.min_eq_left (by omega)] at hP ⊢
        obtain ⟨state', hstate', hlast⟩ := Outcome.exists_foldlM_range
          (P := fun x (state : DeviceCells κ × Nat) => P row x state.1) hP fun x hx state hP => by
            obtain ⟨cells', more, hkernel, hP'⟩ := hstep row hinside x hx state.1 hP
            exact ⟨_, Kernel.step_eq_ok hkernel state.2, hP'⟩
        exact ⟨state', hstate', hnext row hinside _ hlast⟩
      · rw [Nat.min_eq_right hbehind] at hP
        rw [Nat.min_eq_right (by omega)]
        refine Outcome.exists_foldlM_range (P := fun _ (state : DeviceCells κ × Nat) => P grid.rows.toNat 0 state.1) hP
          fun x _ state hP => ?_
        have hmask : grid.rows ≤ UInt32.ofNat row := by
          rw [UInt32.le_iff_toNat_le, UInt32.toNat_ofNat_of_lt' (show row < 4294967296 by omega)]
          exact hbehind
        obtain ⟨more, hkernel⟩ := hmasked ⟨UInt32.ofNat x, UInt32.ofNat row⟩ hmask state.1
        exact ⟨_, Kernel.step_eq_ok hkernel state.2, hP⟩
  obtain ⟨⟨cells', syncs⟩, hfold, hP⟩ := hall
  rw [Nat.min_eq_right henough] at hP
  refine ⟨cells', syncs, ?_, hP⟩
  rw [launch, Workgroup.all_eq]
  change List.foldlM kernel.step (cells, 0) _ = _
  rw [Outcome.foldlM_flatMap_range]
  simp only [List.foldlM_map]
  exact hfold

end Launches

end MergePathSort
