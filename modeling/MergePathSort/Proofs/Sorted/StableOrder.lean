import MergePathSort.Proofs.Sorted.Runs

/-!
# Stable sorting permutations

The source positions of a sorted row, in the order in which their keys stand, are the stable sorting permutation of the
row: every position once, keys in the direction of the sort, and equal keys in the order of their positions, in both
directions. Comparable keys have only one such permutation.

## Main definitions

* `Direction.StableOrder` : a stable sorting permutation.
* `positions` : the source positions of tagged keys.

## Main results

* `Direction.StableOrder.unique` : there is only one for comparable keys.
* `SortedRuns.stableOrder` : the positions of a row that is one sorted run.
-/

namespace MergePathSort

variable {κ ι : Type}

/-- A list of positions is the stable sorting permutation of a row. -/
structure Direction.StableOrder [KeyOrder κ] (direction : Direction) (keys : List κ) (order : List Nat) : Prop where
  /-- Every position of the row occurs once. -/
  perm : order.Perm (List.range keys.length)
  /-- A key may stand before those behind it. -/
  ordered : order.Pairwise fun i j => ∀ a b, keys[i]? = some a → keys[j]? = some b → direction.mayPrecede a b = true
  /-- Equal keys stand in order of their positions. -/
  stable : order.Pairwise fun i j =>
    ∀ a b, keys[i]? = some a → keys[j]? = some b → KeyOrder.compare? a b = some .eq → i < j

section Unique

variable [KeyOrder κ] {direction : Direction} {keys : List κ} {order order' : List Nat}

theorem Direction.StableOrder.length_eq (h : direction.StableOrder keys order) : order.length = keys.length := by
  rw [h.perm.length_eq, List.length_range]

theorem Direction.StableOrder.lt_of_mem (h : direction.StableOrder keys order) {p : Nat} (hp : p ∈ order) :
    p < keys.length :=
  List.mem_range.mp (h.perm.mem_iff.mp hp)

/-- The keys at two positions stand in order of their ranks, and of their positions if the ranks are equal. -/
def KeysInOrder (rank : κ → Int) (keys : List κ) (i j : Nat) : Prop :=
  ∀ a b, keys[i]? = some a → keys[j]? = some b → rank a ≤ rank b ∧ (rank a = rank b → i < j)

theorem Direction.StableOrder.keysInOrder {rank : κ → Int} (hrank : direction.Ranks keys rank)
    (h : direction.StableOrder keys order) : order.Pairwise (KeysInOrder rank keys) := by
  refine (h.ordered.and h.stable).imp fun ⟨hordered, hstable⟩ a b ha hb => ?_
  have hamem := List.mem_of_getElem? ha
  have hbmem := List.mem_of_getElem? hb
  exact ⟨(hrank.mayPrecede_iff a hamem b hbmem).mp (hordered a b ha hb),
    fun heq => hstable a b ha hb ((hrank.equal_iff a hamem b hbmem).mpr heq)⟩

/-- Comparable keys have only one stable sorting permutation. -/
theorem Direction.StableOrder.unique [RankedOrder κ] (hcomparable : KeyOrder.Comparable keys)
    (h : direction.StableOrder keys order) (h' : direction.StableOrder keys order') : order = order' := by
  obtain ⟨rank, hrank⟩ := hcomparable.exists_ranks direction
  refine List.Perm.eq_of_pairwise (fun i j hi hj hij hji => ?_) (h.keysInOrder hrank) (h'.keysInOrder hrank)
    (h.perm.trans h'.perm.symm)
  have ha := List.getElem?_eq_getElem (h.lt_of_mem hi)
  have hb := List.getElem?_eq_getElem (h'.lt_of_mem hj)
  obtain ⟨hle, hlt⟩ := hij _ _ ha hb
  obtain ⟨hge, hgt⟩ := hji _ _ hb ha
  have heq := Int.le_antisymm hle hge
  have := hlt heq
  have := hgt heq.symm
  omega

end Unique

/-! ### The positions of a sorted row -/

/-- The source positions of tagged keys. -/
def positions (cells : List (κ × Tag ι)) : List Nat := cells.filterMap (·.2.position?)

/-- Every key stands at its position in the source row. -/
def FromSource (keys : List κ) (cells : List (κ × Tag ι)) : Prop :=
  ∀ cell ∈ cells, ∃ p, cell.2 = .position p ∧ keys[p]? = some cell.1

theorem positions_numbered (keys : List κ) :
    positions (numbered keys : List (κ × Tag ι)) = List.range keys.length := by
  rw [positions, numbered, List.mapIdx_eq_zipIdx_map, List.filterMap_map]
  change (keys.zipIdx.filterMap (some ∘ Prod.snd)) = _
  rw [List.filterMap_eq_map, List.zipIdx_map_snd, List.range_eq_range']

theorem fromSource_numbered (keys : List κ) : FromSource keys (numbered keys : List (κ × Tag ι)) := by
  intro cell hcell
  obtain ⟨p, hp, rfl⟩ := List.mem_iff_getElem.mp hcell
  rw [length_numbered] at hp
  exact ⟨p, by simp [numbered], by simp [numbered, hp]⟩

section FromSource

variable {keys : List κ} {cells : List (κ × Tag ι)}

/-- The positions of keys from a source row are what their tags say, and lead back to the keys. -/
theorem FromSource.map_eq (h : FromSource keys cells) :
    cells.map Prod.fst = gather keys (positions cells) ∧ cells.map Prod.snd = (positions cells).map .position := by
  induction cells with
  | nil => exact ⟨rfl, rfl⟩
  | cons cell cells ih =>
    obtain ⟨hkeys, htags⟩ := ih fun c hc => h c (by simp [hc])
    obtain ⟨p, hp, hkey⟩ := h cell (by simp)
    have hcons : positions (cell :: cells) = p :: positions cells := by
      rw [positions, List.filterMap_cons, hp]
      rfl
    obtain ⟨hlt, hget⟩ := List.getElem?_eq_some_iff.mp hkey
    rw [hcons, gather_cons hlt, hget, List.map_cons, List.map_cons, List.map_cons, hkeys, htags, hp]
    exact ⟨rfl, rfl⟩

/-- The positions of keys from a source row lie in the row. -/
theorem FromSource.lt_of_mem_positions (h : FromSource keys cells) {p : Nat} (hp : p ∈ positions cells) :
    p < keys.length := by
  obtain ⟨cell, hcell, hposition⟩ := List.mem_filterMap.mp hp
  obtain ⟨q, hq, hkey⟩ := h cell hcell
  rw [hq] at hposition
  cases hposition
  exact (List.getElem?_eq_some_iff.mp hkey).1

/-- The indices of keys from a source row are made from their positions. -/
theorem FromSource.map_tag_index [IndexElement ι] (h : FromSource keys cells) :
    cells.map (·.2.index) = (positions cells).map IndexElement.ofPosition :=
  calc cells.map (·.2.index) = (cells.map Prod.snd).map Tag.index := by rw [List.map_map]; rfl
    _ = (positions cells).map IndexElement.ofPosition := by rw [h.map_eq.2, List.map_map]; rfl

/-- The indices of keys from a source row, read as integers, are their positions. -/
theorem FromSource.map_index [IndexElement ι] [FaithfulIndex ι] (h : FromSource keys cells)
    (hlen : keys.length ≤ 2147483648) :
    (cells.map (·.2.index)).map Element.toNumber = (positions cells).map Nat.cast := by
  rw [h.map_tag_index, List.map_map]
  refine List.map_congr_left fun p hp => FaithfulIndex.toNumber_ofPosition p ?_
  have hlt := h.lt_of_mem_positions hp
  have hmax := FaithfulIndex.le_maxPosition (ι := ι)
  omega

/-- A relation between keys and their tags, as one between positions. -/
theorem FromSource.pairwise_positions {R : κ × Tag ι → κ × Tag ι → Prop} (h : FromSource keys cells)
    (hcells : cells.Pairwise R) :
    (positions cells).Pairwise fun i j =>
      ∀ a b, keys[i]? = some a → keys[j]? = some b → R (a, .position i) (b, .position j) := by
  rw [positions, List.pairwise_filterMap]
  refine hcells.imp_of_mem fun {c d} hc hd hcd i hi j hj a b ha hb => ?_
  obtain ⟨p, hp, hkey⟩ := h c hc
  obtain ⟨q, hq, hkey'⟩ := h d hd
  rw [hp] at hi
  rw [hq] at hj
  cases hi
  cases hj
  rw [hkey] at ha
  rw [hkey'] at hb
  cases ha
  cases hb
  rw [← hp, ← hq]
  exact hcd

end FromSource

section Whole

variable [KeyOrder κ] {direction : Direction} {rank : κ → Int} {keys : List κ} {width : Nat}
  {cells : List (κ × Tag ι)}

omit [KeyOrder κ] in
/-- A run that is as long as the row is the row. -/
theorem SortedRuns.perm_numbered (h : SortedRuns rank keys width cells) (hwidth : keys.length ≤ width) :
    cells.Perm (numbered keys) ∧ cells.Pairwise (StandsBefore rank) := by
  have hall : ∀ xs : List (κ × Tag ι), xs.length ≤ width → chunk width xs 0 = xs := by
    intro xs hxs
    rw [chunk, Nat.zero_mul, List.drop_zero, List.take_of_length_le hxs]
  have hcells := hall cells (by rw [h.length_eq]; exact hwidth)
  have hperm := h.perm 0
  have hordered := h.ordered 0
  rw [hcells] at hperm hordered
  rw [hall _ (by rw [length_numbered]; exact hwidth)] at hperm
  exact ⟨hperm, hordered⟩

/-- The positions of a row that is one sorted run are its stable sorting permutation. -/
theorem SortedRuns.stableOrder (hrank : direction.Ranks keys rank) (h : SortedRuns rank keys width cells)
    (hwidth : keys.length ≤ width) : FromSource keys cells ∧ direction.StableOrder keys (positions cells) := by
  obtain ⟨hperm, hordered⟩ := h.perm_numbered hwidth
  have hsource : FromSource keys cells := fun cell hcell =>
    fromSource_numbered keys cell (hperm.mem_iff.mp hcell)
  have hpositions := hsource.pairwise_positions hordered
  refine ⟨hsource, ?_, ?_, ?_⟩
  · rw [← positions_numbered (ι := ι) keys]
    exact hperm.filterMap _
  · refine hpositions.imp fun hij a b ha hb => ?_
    exact (hrank.mayPrecede_iff a (List.mem_of_getElem? ha) b (List.mem_of_getElem? hb)).mpr
      (hij a b ha hb).rank_le
  · refine hpositions.imp fun hij a b ha hb hequal => ?_
    have heq := (hrank.equal_iff a (List.mem_of_getElem? ha) b (List.mem_of_getElem? hb)).mp hequal
    rcases hij a b ha hb with hlt | ⟨-, hbefore⟩
    · exact absurd heq (Int.ne_of_lt hlt)
    · exact hbefore

end Whole

end MergePathSort
