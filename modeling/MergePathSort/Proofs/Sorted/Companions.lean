import Mathlib.Logic.Basic
import MergePathSort.Proofs.Sorted.Program
import MergePathSort.Proofs.Sorted.Stability

/-!
# What travels beside the keys

No launch looks at what stands beside a key. So two rows that hold the same keys, with companions of different kinds,
hold the same keys after every launch, be the keys comparable or not: wherever a lane takes a wrong turn for a key
without an order, it takes the same one on both rows. This is a simulation with a step for every launch, and the relation
that it keeps is a parameter: what is read off a cell of the one row is what is read off the cell of the other. Reading
nothing but the key gives the keys, and reading the index as an integer gives the positions.

## Main definitions

* `untagged`, `keyAndNumber` : what is read off a cell.

## Main results

* `Launch.map_onRow_eq`, `map_launchesOnRow_eq` : one launch, and launches in order.
* `Program.map_untagged_sortedRow`, `Program.map_keyAndNumber_sortedRow` : both sides of a row after a program.
-/

namespace MergePathSort

variable {α β κ ι τ : Type}

/-! ### The simulation -/

section Simulation

variable [KeyOrder κ] {direction : Direction} {keys : List κ} {f : κ × Tag ι → κ × β} {g : κ × Tag τ → κ × β}
  {row : TaggedRow κ ι} {row' : TaggedRow κ τ}

/-- Two rows that look alike still do after a launch. -/
theorem Launch.map_onRow_eq (hf : ∀ cell, (f cell).1 = cell.1) (hg : ∀ cell, (g cell).1 = cell.1)
    (hnumbered : (numbered keys).map f = (numbered keys).map g) (launch : Launch)
    (h : row.map (List.map f) = row'.map (List.map g)) :
    (launch.onRow direction keys row).map (List.map f) = (launch.onRow direction keys row').map (List.map g) := by
  have hside : ∀ side, (row.get side).map f = (row'.get side).map g := fun side => by
    simpa using congrArg (·.get side) h
  obtain ⟨stage, grid⟩ := launch
  cases stage with
  | copyIn => exact congrArg₂ DoubleBuffer.mk hnumbered (hside .back)
  | sortTiles tile =>
    refine congrArg DoubleBuffer.both (?_ : (sortTiles ..).map f = (sortTiles ..).map g)
    rw [map_sortTiles direction tile.toNat _ f hf, map_sortTiles direction tile.toNat _ g hg]
    exact congrArg (sortTiles direction tile.toNat · _) (hside .front)
  | mergeRuns pass src dst shape =>
    change (src.pair _ _).map _ = (src.pair _ _).map _
    rw [Side.map_pair, Side.map_pair, map_mergePass direction shape f hf, map_mergePass direction shape g hg, hside src]
  | copyBack => exact congrArg DoubleBuffer.both (hside .back)

/-- Two rows that look alike still do after launches in order. -/
theorem map_launchesOnRow_eq (hf : ∀ cell, (f cell).1 = cell.1) (hg : ∀ cell, (g cell).1 = cell.1)
    (hnumbered : (numbered keys).map f = (numbered keys).map g) (launches : List Launch)
    (h : row.map (List.map f) = row'.map (List.map g)) :
    (launchesOnRow direction keys launches row).map (List.map f) =
      (launchesOnRow direction keys launches row').map (List.map g) := by
  induction launches generalizing row row' with
  | nil => exact h
  | cons launch launches ih => exact ih (launch.map_onRow_eq hf hg hnumbered h)

end Simulation

/-! ### Keys -/

/-- A key with nothing beside it. -/
def untagged (cell : κ × α) : κ × Unit := (cell.1, ())

theorem map_fst_untagged (cells : List (κ × α)) : (cells.map untagged).map Prod.fst = cells.map Prod.fst := by
  rw [List.map_map]
  rfl

theorem map_untagged_numbered (keys : List κ) :
    (numbered keys : List (κ × Tag ι)).map untagged = keys.map fun key => (key, ()) := by
  refine List.ext_getElem (by simp) fun n _ _ => ?_
  simp [numbered, untagged]

/-- The keys of a row after a program, on both sides, whatever the index type. -/
theorem Program.map_untagged_sortedRow [KeyOrder κ] (program : Program) (keys : List κ) :
    (program.sortedRow keys : TaggedRow κ ι).map (List.map untagged) =
      (program.sortedRow keys : TaggedRow κ τ).map (List.map untagged) :=
  map_launchesOnRow_eq (f := untagged) (g := untagged) (fun _ => rfl) (fun _ => rfl)
    ((map_untagged_numbered keys).trans (map_untagged_numbered keys).symm) program.launches rfl

/-- The keys on a side of a row after a program, whatever the index type. -/
theorem Program.map_fst_sortedRow [KeyOrder κ] (program : Program) (keys : List κ) (side : Side) :
    ((program.sortedRow keys : TaggedRow κ ι).get side).map Prod.fst =
      ((program.sortedRow keys : TaggedRow κ τ).get side).map Prod.fst := by
  have hside := congrArg (·.get side) (program.map_untagged_sortedRow (ι := ι) (τ := τ) keys)
  simp only [DoubleBuffer.get_map] at hside
  rw [← map_fst_untagged, hside, map_fst_untagged]

/-! ### Positions -/

/-- A key, and its index as an integer. -/
def keyAndNumber [IndexElement ι] (cell : κ × Tag ι) : κ × Int := (cell.1, Element.toNumber cell.2.index)

/-- The positions of a row that is no longer than indices reach, as integers. -/
theorem map_keyAndNumber_numbered [IndexElement ι] [FaithfulIndex ι] {keys : List κ}
    (hkeys : keys.length ≤ 2147483648) :
    (numbered keys : List (κ × Tag ι)).map keyAndNumber = keys.mapIdx fun p key => (key, (p : Int)) := by
  refine List.ext_getElem (by simp) fun p hp _ => ?_
  rw [List.length_map, length_numbered] at hp
  have hmax := FaithfulIndex.le_maxPosition (ι := ι)
  simp only [numbered, keyAndNumber, Tag.index, List.getElem_map, List.getElem_mapIdx]
  rw [FaithfulIndex.toNumber_ofPosition p (by omega)]

/-- The keys of a row after a program and their indices as integers, on both sides, whatever the index type. -/
theorem Program.map_keyAndNumber_sortedRow [KeyOrder κ] [IndexElement ι] [FaithfulIndex ι] [IndexElement τ]
    [FaithfulIndex τ] (program : Program) {keys : List κ} (hkeys : keys.length ≤ 2147483648) :
    (program.sortedRow keys : TaggedRow κ ι).map (List.map keyAndNumber) =
      (program.sortedRow keys : TaggedRow κ τ).map (List.map keyAndNumber) :=
  map_launchesOnRow_eq (f := keyAndNumber) (g := keyAndNumber) (fun _ => rfl) (fun _ => rfl)
    ((map_keyAndNumber_numbered hkeys).trans (map_keyAndNumber_numbered hkeys).symm) program.launches rfl

/-- The indices on a side of a row after a program as integers, whatever the index type. -/
theorem Program.map_number_sortedRow [KeyOrder κ] [IndexElement ι] [FaithfulIndex ι] [IndexElement τ]
    [FaithfulIndex τ] (program : Program) {keys : List κ} (hkeys : keys.length ≤ 2147483648) (side : Side) :
    ((program.sortedRow keys : TaggedRow κ ι).get side).map (fun cell => Element.toNumber cell.2.index) =
      ((program.sortedRow keys : TaggedRow κ τ).get side).map fun cell => Element.toNumber cell.2.index := by
  have hside := congrArg (fun row => (row.get side).map Prod.snd)
    (program.map_keyAndNumber_sortedRow (ι := ι) (τ := τ) hkeys)
  simp only [DoubleBuffer.get_map, List.map_map] at hside
  exact hside

end MergePathSort
