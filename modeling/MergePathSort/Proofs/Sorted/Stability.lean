import MergePathSort.Proofs.Key.Rank
import MergePathSort.Proofs.Launch.Effect
import MergePathSort.Proofs.Merge.Path

/-!
# Stable sorts and stable merges

What the two sorting stages do to a row is said without their rounds and diagonals: sorting a tile is the stable sort of
its keys, and merging two runs is the stable merge of both. Sort and merge are those of the library. Whatever stands
beside a key moves with it, be it an index or nothing at all.

A list has only one stable sort. So the rounds of a tile are compared with the library's sort on entries that carry
their places: on both sides the entries stand in order of their ranks, and entries of one rank in order of their places.

## Main results

* `map_fst_eq_mergeSort` : a rearrangement that keeps ties in order is the stable sort.
* `transpositions_eq_mergeSort`, `sortTile_eq_mergeSort` : as many rounds as elements are the stable sort.
* `map_sortTiles`, `map_mergePass` : both stages only look at the keys.
* `gather_mergeOrder_eq_merge` : the positions that a merge takes lead to the stable merge of both runs.
-/

namespace MergePathSort

variable {α β κ : Type}

/-! ### Stable sorts -/

section Sorts

variable {xs : List α} {rank : α → Int} {le misplaced : α → α → Bool}

/-- The first entry has the lesser rank, or the same one and the lesser place. -/
def RankThenPlace (rank : α → Int) (a b : α × Nat) : Prop :=
  rank a.1 ≤ rank b.1 ∧ (rank a.1 = rank b.1 → a.2 ≤ b.2)

/-- A sort by a comparison that is as good as a rank is the sort by the rank. -/
theorem mergeSort_eq_mergeSort_rank (hle : ∀ a ∈ xs, ∀ b ∈ xs, (le a b = true ↔ rank a ≤ rank b)) :
    xs.mergeSort le = xs.mergeSort fun a b => decide (rank a ≤ rank b) := by
  have hmap := List.map_mergeSort (r := le) (s := fun a b => decide (rank a ≤ rank b)) (f := id) (l := xs)
    fun a ha b hb => by rw [Bool.eq_iff_iff, decide_eq_true_iff]; exact hle a ha b hb
  rwa [List.map_id, List.map_id] at hmap

/-- The stable sort by a rank, with the places of the entries to break ties. -/
theorem pairwise_mergeSort_rank (rank : α → Int) (entries : List (α × Nat)) :
    (entries.mergeSort (List.zipIdxLE fun a b => decide (rank a ≤ rank b))).Pairwise (RankThenPlace rank) := by
  have htrans : ∀ a b c : α, decide (rank a ≤ rank b) = true → decide (rank b ≤ rank c) = true →
      decide (rank a ≤ rank c) = true := by
    intro a b c hab hbc
    exact decide_eq_true (Int.le_trans (of_decide_eq_true hab) (of_decide_eq_true hbc))
  have htotal : ∀ a b : α, (decide (rank a ≤ rank b) || decide (rank b ≤ rank a)) = true := by
    intro a b
    simpa only [Bool.or_eq_true, decide_eq_true_eq] using Int.le_total (rank a) (rank b)
  have hsorted := List.pairwise_mergeSort (List.zipIdxLE_trans htrans) (List.zipIdxLE_total htotal) entries
  refine hsorted.imp fun {a b} hab => ?_
  simp only [List.zipIdxLE, decide_eq_true_eq] at hab
  split at hab
  · next hle =>
    refine ⟨hle, fun heq => ?_⟩
    rw [if_pos (Int.le_of_eq heq.symm)] at hab
    exact of_decide_eq_true hab
  · exact absurd hab Bool.false_ne_true

/-- A rearrangement of a list in which ranks ascend and entries of one rank stand in order of their places is the
stable sort of the list. -/
theorem map_fst_eq_mergeSort (hle : ∀ a ∈ xs, ∀ b ∈ xs, (le a b = true ↔ rank a ≤ rank b)) {ys : List (α × Nat)}
    (hperm : ys.Perm xs.zipIdx) (hys : ys.Pairwise (RankThenPlace rank)) : ys.map Prod.fst = xs.mergeSort le := by
  rw [mergeSort_eq_mergeSort_rank hle, ← List.mergeSort_zipIdx]
  congr 1
  refine List.Perm.eq_of_pairwise (fun a b ha hb hab hba => ?_) hys (pairwise_mergeSort_rank rank xs.zipIdx)
    (hperm.trans (List.mergeSort_perm _ _).symm)
  -- Two entries that may stand either way round have one place, and so are one entry.
  have hplace : a.2 = b.2 := by
    have heq := Int.le_antisymm hab.1 hba.1
    exact Nat.le_antisymm (hab.2 heq) (hba.2 heq.symm)
  have ha' := List.mem_zipIdx_iff_getElem?.mp (hperm.mem_iff.mp ha)
  have hb' := List.mem_zipIdx_iff_getElem?.mp ((List.mergeSort_perm _ _).mem_iff.mp hb)
  rw [← hplace] at hb'
  exact Prod.ext (Option.some.inj (ha'.symm.trans hb')) hplace

/-! ### Rounds of exchanges -/

/-- The pairs of a round, when the comparison looks at what a function keeps. -/
theorem map_exchangePairs (misplaced : β → β → Bool) (f : α → β) (xs : List α) :
    (exchangePairs (fun a b => misplaced (f a) (f b)) xs).map f = exchangePairs misplaced (xs.map f) := by
  induction xs using exchangePairs.induct fun a b => misplaced (f a) (f b) with
  | case1 a b rest hab ih => simp [exchangePairs, hab, ih]
  | case2 a b rest hab ih => simp [exchangePairs, hab, ih]
  | case3 rest hrest =>
    rcases rest with _ | ⟨a, _ | ⟨b, rest⟩⟩
    · rfl
    · rfl
    · exact (hrest a b rest rfl).elim

/-- Rounds, when the comparison looks at what a function keeps. -/
theorem map_transpositions (misplaced : β → β → Bool) (f : α → β) (rounds : Nat) (xs : List α) :
    (transpositions (fun a b => misplaced (f a) (f b)) rounds xs).map f = transpositions misplaced rounds (xs.map f) := by
  induction rounds with
  | zero => rfl
  | succ rounds ih =>
    rw [transpositions_succ, transpositions_succ, transpose, transpose, List.map_append, map_exchangePairs,
      List.map_take, List.map_drop, ih]

variable (rank) in
/-- As many rounds as elements are the stable sort of the list. -/
theorem transpositions_eq_mergeSort (hmisplaced : ∀ a ∈ xs, ∀ b ∈ xs, (misplaced a b = true ↔ rank b < rank a))
    (hle : ∀ a ∈ xs, ∀ b ∈ xs, (le a b = true ↔ rank a ≤ rank b)) :
    transpositions misplaced xs.length xs = xs.mergeSort le := by
  let onEntries : α × Nat → α × Nat → Bool := fun a b => misplaced a.1 b.1
  have hmem : ∀ entry ∈ xs.zipIdx, entry.1 ∈ xs := fun entry hentry =>
    List.mem_of_getElem? (List.mem_zipIdx_iff_getElem?.mp hentry)
  have hentries : ∀ a ∈ xs.zipIdx, ∀ b ∈ xs.zipIdx, (onEntries a b = true ↔ rank b.1 < rank a.1) :=
    fun a ha b hb => hmisplaced a.1 (hmem a ha) b.1 (hmem b hb)
  have hranks : (transpositions onEntries xs.zipIdx.length xs.zipIdx).Pairwise fun a b => rank a.1 ≤ rank b.1 :=
    pairwise_rank_transpositions (fun entry : α × Nat => rank entry.1) hentries
  -- Entries that are exchanged have different ranks, so the places of one rank stay in order.
  have hplaces : (transpositions onEntries xs.zipIdx.length xs.zipIdx).Pairwise fun a b =>
      rank a.1 = rank b.1 → a.2 ≤ b.2 := by
    refine pairwise_transpositions _ (fun a ha b hb hab heq => ?_) ?_
    · have hlt := (hentries a ha b hb).mp hab
      omega
    · rw [List.pairwise_iff_getElem]
      intro i j hi hj hij _
      simpa using Nat.le_of_lt hij
  have hkeys : (transpositions onEntries xs.zipIdx.length xs.zipIdx).map Prod.fst =
      transpositions misplaced xs.length xs := by
    rw [map_transpositions misplaced Prod.fst, List.zipIdx_map_fst, List.length_zipIdx]
  rw [← hkeys]
  exact map_fst_eq_mergeSort hle (transpositions_perm xs.zipIdx.length xs.zipIdx) (hranks.and hplaces)

end Sorts

section Tiles

variable [KeyOrder κ] {direction : Direction}

/-- Sorting a tile only looks at the keys. -/
theorem map_sortTile (direction : Direction) (f : κ × α → κ × β) (hf : ∀ cell, (f cell).1 = cell.1)
    (cells : List (κ × α)) : (sortTile direction cells).map f = sortTile direction (cells.map f) := by
  have hkeys : (fun a b : κ × α => direction.misplaced a.1 b.1) = fun a b => direction.misplaced (f a).1 (f b).1 := by
    funext a b
    rw [hf, hf]
  rw [sortTile, sortTile, List.length_map, hkeys]
  exact map_transpositions (fun a b => direction.misplaced a.1 b.1) f cells.length cells

/-- Sorting the tiles of a row only looks at the keys. -/
theorem map_sortTiles (direction : Direction) (tile tiles : Nat) (f : κ × α → κ × β) (hf : ∀ cell, (f cell).1 = cell.1)
    (cells : List (κ × α)) :
    (sortTiles direction tile cells tiles).map f = sortTiles direction tile (cells.map f) tiles := by
  rw [sortTiles, sortTiles, List.map_flatMap]
  refine flatMap_range_congr fun number _ => ?_
  rw [map_sortTile direction f hf, map_chunk]

/-- A merge pass only looks at the keys. -/
theorem map_mergePass (direction : Direction) (shape : MergeShape) (f : κ × α → κ × β)
    (hf : ∀ cell, (f cell).1 = cell.1) (cells : List (κ × α)) :
    (mergePass direction shape cells).map f = mergePass direction shape (cells.map f) := by
  have hkeys : (cells.map f).map Prod.fst = cells.map Prod.fst := by
    rw [List.map_map]
    exact List.map_congr_left fun cell _ => hf cell
  have hprecedes : precedesIn direction (cells.map f) = precedesIn direction cells := by
    funext i j
    rw [precedesIn, hkeys]
    rfl
  rw [mergePass, mergePass, map_gather, passSources, passSources, hprecedes, List.length_map]

/-- Sorting a tile is the stable sort of its keys. -/
theorem sortTile_eq_mergeSort {cells : List (κ × α)} {rank : κ → Int}
    (hrank : direction.Ranks (cells.map Prod.fst) rank) :
    sortTile direction cells = cells.mergeSort fun a b => direction.mayPrecede a.1 b.1 := by
  refine transpositions_eq_mergeSort (fun cell => rank cell.1) (fun a ha b hb => ?_) fun a ha b hb => ?_
  · exact hrank.misplaced_iff a.1 (List.mem_map_of_mem ha) b.1 (List.mem_map_of_mem hb)
  · exact hrank.mayPrecede_iff a.1 (List.mem_map_of_mem ha) b.1 (List.mem_map_of_mem hb)

end Tiles

/-! ### Stable merges -/

section Merges

variable {xs : List α} {le : α → α → Bool} {precedes : Nat → Nat → Bool}

/-- The elements from a position up to a stop. -/
theorem drop_take_sub_eq_cons {i stop : Nat} (hi : i < stop) (hstop : stop ≤ xs.length) :
    (xs.drop i).take (stop - i) = xs[i] :: (xs.drop (i + 1)).take (stop - (i + 1)) := by
  have hcount : stop - i = stop - (i + 1) + 1 := by omega
  rw [List.drop_eq_getElem_cons (by omega), hcount, List.take_succ_cons]

/-- The positions that a merge takes lead to the merge of what is left of both runs. -/
theorem gather_mergeOrder_eq_merge {leftStop rightStop : Nat} (hleft : leftStop ≤ xs.length)
    (hright : rightStop ≤ xs.length)
    (hprecedes : ∀ i j (hi : i < xs.length) (hj : j < xs.length), precedes i j = le xs[i] xs[j]) {count i j : Nat}
    (hcount : count = (leftStop - i) + (rightStop - j)) :
    gather xs (mergeOrder precedes leftStop rightStop count i j) =
      List.merge ((xs.drop i).take (leftStop - i)) ((xs.drop j).take (rightStop - j)) le := by
  induction count generalizing i j with
  | zero =>
    have hi : leftStop - i = 0 := by omega
    have hj : rightStop - j = 0 := by omega
    rw [hi, hj, List.take_zero, List.take_zero, List.nil_merge]
    rfl
  | succ count ih =>
    rw [mergeOrder]
    cases htake : takesFromLeft precedes leftStop rightStop i j with
    | true =>
      have hi := lt_of_takesFromLeft htake
      simp only [if_true]
      rw [gather_cons (by omega), ih (by omega), drop_take_sub_eq_cons hi hleft]
      rcases Nat.lt_or_ge j rightStop with hj | hj
      · have hle : le xs[i] xs[j] = true := by
          rw [← hprecedes i j (by omega) (by omega)]
          simpa [takesFromLeft, hi, Nat.not_le.mpr hj] using htake
        rw [drop_take_sub_eq_cons hj hright, List.cons_merge_cons_pos le _ _ hle]
      · rw [Nat.sub_eq_zero_of_le hj, List.take_zero, List.merge_right, List.merge_right]
    | false =>
      have hj := lt_of_not_takesFromLeft htake (by omega)
      simp only [Bool.false_eq_true, if_false]
      rw [gather_cons (by omega), ih (by omega), drop_take_sub_eq_cons hj hright]
      rcases Nat.lt_or_ge i leftStop with hi | hi
      · have hle : ¬le xs[i] xs[j] = true := by
          rw [← hprecedes i j (by omega) (by omega)]
          simpa [takesFromLeft, hi, Nat.not_le.mpr hj] using htake
        rw [drop_take_sub_eq_cons hi hleft, List.cons_merge_cons_neg le _ _ hle]
      · rw [Nat.sub_eq_zero_of_le hi, List.take_zero, List.nil_merge, List.nil_merge]

end Merges

end MergePathSort
