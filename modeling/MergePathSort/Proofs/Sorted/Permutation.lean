import Mathlib.Data.List.Perm.Subperm
import MergePathSort.Proofs.Sorted.Program

/-!
# Which rows keep all their keys

Whatever the keys are, every key of a sorted row comes from its source row, and the tiles only rearrange. A merge pass
takes as many positions as the row has, but the lanes of a pass find their starts each by itself. If the keys are not
comparable the starts need not fit together, and one position is taken twice and another one not at all. What one pass
has lost no later one brings back, so a row keeps all its keys exactly if no pass takes a position twice.

## Main definitions

* `Launch.TakesOnce`, `launchesTakeOnce` : a launch, and launches after each other, take no position of a row twice.

## Main results

* `Program.Sorts.fromSource` : every key comes from its source row.
* `Program.Sorts.perm_range_iff` : a row keeps all its keys exactly if no pass takes a position twice.
-/

namespace MergePathSort

variable {α κ ι : Type}

/-! ### Gathering all positions -/

/-- As many positions as there are, none of them twice. -/
theorem perm_range_iff_nodup {order : List Nat} {n : Nat} (hlt : ∀ p ∈ order, p < n) (hlen : order.length = n) :
    order.Perm (List.range n) ↔ order.Nodup := by
  constructor
  · intro h
    exact h.nodup_iff.mpr List.nodup_range
  · intro h
    refine (List.subperm_of_subset h fun p hp => List.mem_range.mpr (hlt p hp)).perm_of_length_le ?_
    exact Nat.le_of_eq (by rw [List.length_range, hlen])

/-- Gathering at all positions rearranges. -/
theorem gather_perm {xs : List α} {sources : List Nat} (h : sources.Perm (List.range xs.length)) :
    (gather xs sources).Perm xs := by
  calc (gather xs sources).Perm (gather xs (List.range xs.length)) := h.filterMap _
    _ = xs := by rw [List.range_eq_range', gather_range', List.drop_zero, List.take_length]

/-- Gathering as many elements as there are gives no element twice exactly if there was none, and no position is taken
twice. -/
theorem nodup_gather_iff {xs : List α} {sources : List Nat} (h : ∀ source ∈ sources, source < xs.length)
    (hlen : sources.length = xs.length) : (gather xs sources).Nodup ↔ xs.Nodup ∧ sources.Nodup := by
  have hperm := perm_range_iff_nodup h hlen
  constructor
  · intro hnodup
    have hsources : sources.Nodup := by
      refine (List.pairwise_filterMap.mp hnodup).imp_of_mem fun {i j} hi hj hne heq => ?_
      subst heq
      exact hne _ (List.getElem?_eq_getElem (h i hi)) _ (List.getElem?_eq_getElem (h i hi)) rfl
    exact ⟨(gather_perm (hperm.mpr hsources)).nodup_iff.mp hnodup, hsources⟩
  · rintro ⟨hxs, hsources⟩
    exact (gather_perm (hperm.mpr hsources)).nodup_iff.mpr hxs

/-! ### Keys from a source row -/

section FromSource

variable {keys : List κ} {cells : List (κ × Tag ι)}

theorem FromSource.length_positions (h : FromSource keys cells) : (positions cells).length = cells.length := by
  rw [← List.length_map (Tag.position (ι := ι)), ← h.map_eq.2, List.length_map]

/-- Rearranged keys from a source row. -/
theorem FromSource.perm {cells' : List (κ × Tag ι)} (h : FromSource keys cells) (hperm : cells'.Perm cells) :
    FromSource keys cells' :=
  fun cell hcell => h cell (hperm.mem_iff.mp hcell)

/-- Keys gathered from keys from a source row. -/
theorem FromSource.gather (h : FromSource keys cells) (sources : List Nat) :
    FromSource keys (gather cells sources) := by
  intro cell hcell
  obtain ⟨source, -, hsource⟩ := List.mem_filterMap.mp hcell
  exact h cell (List.mem_of_getElem? hsource)

/-- The positions of gathered keys are gathered. -/
theorem FromSource.positions_gather (h : FromSource keys cells) (sources : List Nat) :
    positions (MergePathSort.gather cells sources) = MergePathSort.gather (positions cells) sources := by
  have htags := (h.gather sources).map_eq.2
  rw [map_gather, h.map_eq.2, ← map_gather] at htags
  exact (List.map_injective_iff.mpr (fun _ _ hpq => Tag.position.inj hpq) htags).symm

end FromSource

/-! ### Rows -/

section Rows

variable [KeyOrder κ] {keys : List κ} {direction : Direction} {tile tiles : Nat} {shapes : Nat → MergeShape}

/-- Sorted tiles are the row rearranged. -/
theorem sortTiles_perm {cells : List (κ × Tag ι)} (h : cells.length ≤ tiles * tile) :
    (sortTiles direction tile cells tiles).Perm cells := by
  calc (sortTiles direction tile cells tiles).Perm ((List.range tiles).flatMap (chunk tile cells)) :=
      List.Perm.flatMap_left _ fun _ _ => transpositions_perm _ _
    _ = cells := by rw [flatMap_chunk, List.take_of_length_le h]

/-- Sorted tiles of a numbered row. -/
theorem sortTiles_numbered_perm (direction : Direction) (htiles : keys.length ≤ tiles * tile) :
    (sortTiles direction tile (numbered keys : List (κ × Tag ι)) tiles).Perm (numbered keys) :=
  sortTiles_perm (by rwa [length_numbered])

/-- After its tiles and some passes a row is as long as it was, and every key comes from its source row. -/
theorem fromSource_cellsAfter (direction : Direction) (htiles : keys.length ≤ tiles * tile) {pass : Nat}
    (hcovers : ∀ earlier < pass, (shapes earlier).Covers keys.length) :
    FromSource keys (cellsAfter direction tile tiles shapes keys pass : List (κ × Tag ι)) ∧
      (cellsAfter direction tile tiles shapes keys pass : List (κ × Tag ι)).length = keys.length := by
  induction pass with
  | zero =>
    have hperm := sortTiles_numbered_perm (ι := ι) direction htiles
    exact ⟨(fromSource_numbered keys).perm hperm, hperm.length_eq.trans (length_numbered keys)⟩
  | succ pass ih =>
    obtain ⟨hsource, hlen⟩ := ih fun earlier hearlier => hcovers earlier (Nat.lt_succ_of_lt hearlier)
    have hshape := hcovers pass (Nat.lt_succ_self pass)
    rw [← hlen] at hshape
    exact ⟨hsource.gather _, (length_mergePass hshape).trans hlen⟩

/-- The positions are different after a pass exactly if they were before, and the pass takes none of them twice. -/
theorem nodup_positions_mergePass {shape : MergeShape} {cells : List (κ × Tag ι)} (hsource : FromSource keys cells)
    (hshape : shape.Covers cells.length) :
    (positions (mergePass direction shape cells)).Nodup ↔
      (positions cells).Nodup ∧ (passSources direction shape cells).Nodup := by
  have hmem : ∀ source ∈ passSources direction shape cells, source < (positions cells).length := by
    rw [hsource.length_positions]
    exact fun source hmem => MergeShape.mem_sources hshape hmem
  have hlen : (passSources direction shape cells).length = (positions cells).length := by
    rw [hsource.length_positions]
    exact MergeShape.length_sources _ hshape
  rw [mergePass, hsource.positions_gather]
  exact nodup_gather_iff hmem hlen

/-- The positions of a row after some passes are different exactly if no pass has taken one twice. -/
theorem nodup_positions_cellsAfter (htiles : keys.length ≤ tiles * tile) {pass : Nat}
    (hcovers : ∀ earlier < pass, (shapes earlier).Covers keys.length) :
    (positions (cellsAfter direction tile tiles shapes keys pass : List (κ × Tag ι))).Nodup ↔
      ∀ earlier < pass, (passSources direction (shapes earlier)
        (cellsAfter direction tile tiles shapes keys earlier : List (κ × Tag ι))).Nodup := by
  induction pass with
  | zero =>
    have hperm := sortTiles_numbered_perm (ι := ι) direction htiles
    have hrange : (positions (numbered keys : List (κ × Tag ι))).Nodup := by
      rw [positions_numbered]
      exact List.nodup_range
    exact ⟨fun _ earlier hearlier => absurd hearlier (Nat.not_lt_zero earlier),
      fun _ => (hperm.filterMap _).nodup_iff.mpr hrange⟩
  | succ pass ih =>
    have hbefore := fun earlier (h : earlier < pass) => hcovers earlier (Nat.lt_succ_of_lt h)
    obtain ⟨hsource, hlen⟩ := fromSource_cellsAfter (ι := ι) direction htiles hbefore
    have hshape := hcovers pass (Nat.lt_succ_self pass)
    rw [← hlen] at hshape
    rw [cellsAfter, nodup_positions_mergePass hsource hshape, ih hbefore, Nat.forall_lt_succ_right]

end Rows

/-! ### Programs -/

section Programs

variable [KeyOrder κ] {keys : List κ} {direction : Direction} {row : TaggedRow κ ι}

/-- A launch takes no position of a row twice. Only a merge pass might. -/
def Launch.TakesOnce (direction : Direction) (launch : Launch) (row : TaggedRow κ ι) : Prop :=
  match launch.stage with
  | .mergeRuns _ src _ shape => (passSources direction shape (row.get src)).Nodup
  | _ => True

/-- No launch takes a position of a row twice, when they follow each other. -/
def launchesTakeOnce (direction : Direction) (keys : List κ) : List Launch → TaggedRow κ ι → Prop
  | [], _ => True
  | launch :: launches, row =>
    launch.TakesOnce direction row ∧ launchesTakeOnce direction keys launches (launch.onRow direction keys row)

theorem launchesTakeOnce_append {first second : List Launch} :
    launchesTakeOnce direction keys (first ++ second) row ↔
      launchesTakeOnce direction keys first row ∧
        launchesTakeOnce direction keys second (launchesOnRow direction keys first row) := by
  induction first generalizing row with
  | nil => exact ⟨fun h => ⟨trivial, h⟩, And.right⟩
  | cons launch first ih => exact (and_congr_right fun _ => ih).trans and_assoc.symm

/-- The first launches of a sort take no position twice exactly if the passes among them do not. -/
theorem launchesTakeOnce_launchesUpTo {copy tiles : Grid} {tile : UInt32} {shapes : Nat → MergeShape} {passes : Nat} :
    launchesTakeOnce direction keys (launchesUpTo copy tiles tile shapes passes) row ↔
      ∀ pass < passes, (passSources direction (shapes pass)
        (cellsAfter direction tile.toNat tiles.blocksPerRow.toNat shapes keys pass : List (κ × Tag ι))).Nodup := by
  induction passes with
  | zero => exact ⟨fun _ pass hpass => absurd hpass (Nat.not_lt_zero pass), fun _ => ⟨trivial, trivial, trivial⟩⟩
  | succ passes ih =>
    rw [launchesUpTo_succ, launchesTakeOnce_append, ih, Nat.forall_lt_succ_right, ← get_launchesUpTo direction keys row]
    exact and_congr_right fun _ => and_iff_left trivial

variable {program : Program} {tile : UInt32} {copy tiles : Grid} {passes : Nat} {shapes : Nat → MergeShape}

/-- Whatever the keys are, those of a row after a program come from the source row. -/
theorem Program.Sorts.fromSource (h : program.Sorts tile copy tiles passes shapes)
    (hkeys : keys.length = program.view.axisLen) :
    FromSource keys (program.sortedRow keys : TaggedRow κ ι).front := by
  rw [h.front_sortedRow]
  exact (fromSource_cellsAfter _ (hkeys ▸ h.tiles_cover) fun _ hpass => hkeys ▸ h.shape_covers hpass).1

/-- A row keeps all its keys exactly if no launch takes a position twice. -/
theorem Program.Sorts.perm_range_iff (h : program.Sorts tile copy tiles passes shapes)
    (hkeys : keys.length = program.view.axisLen) :
    (positions (program.sortedRow keys : TaggedRow κ ι).front).Perm (List.range keys.length) ↔
      launchesTakeOnce program.direction keys program.launches (⟨[], []⟩ : TaggedRow κ ι) := by
  have hsource := h.fromSource (ι := ι) hkeys
  have hlen : (positions (program.sortedRow keys : TaggedRow κ ι).front).length = keys.length := by
    rw [hsource.length_positions, (h.hasLength_sortedRow hkeys).front, hkeys]
  have hback : ∀ row : TaggedRow κ ι, launchesTakeOnce program.direction keys
      (if passes % 2 = 1 then [⟨.copyBack, copy⟩] else []) row := by
    intro row
    split
    · exact ⟨trivial, trivial⟩
    · trivial
  rw [perm_range_iff_nodup (fun _ => hsource.lt_of_mem_positions) hlen, h.front_sortedRow,
    nodup_positions_cellsAfter (hkeys ▸ h.tiles_cover) fun _ hpass => hkeys ▸ h.shape_covers hpass, h.launches_eq,
    sortLaunches, launchesTakeOnce_append, launchesTakeOnce_launchesUpTo]
  exact (and_iff_left (hback _)).symm

/-- A row of comparable keys keeps all of them. -/
theorem Program.Sorts.launchesTakeOnce_of_comparable [RankedOrder κ] (h : program.Sorts tile copy tiles passes shapes)
    (hcomparable : KeyOrder.Comparable keys) (hkeys : keys.length = program.view.axisLen) :
    launchesTakeOnce program.direction keys program.launches (⟨[], []⟩ : TaggedRow κ ι) :=
  (h.perm_range_iff hkeys).mp (h.stableOrder hcomparable hkeys).2.perm

end Programs

end MergePathSort
