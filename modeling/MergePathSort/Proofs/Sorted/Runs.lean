import MergePathSort.Proofs.Key.Rank
import MergePathSort.Proofs.Launch.Effect
import MergePathSort.Proofs.Merge.Path

/-!
# Sorted runs

A row is sorted in runs of a width if every chunk of that width holds the keys of the same chunk of the source row, in
order of their ranks, and keys of one rank in order of their source positions. Sorting the tiles makes runs as wide as a
tile, and a merge pass makes runs twice as wide out of them. When one run fills the row the row is sorted, and equal
keys stand as they stood.

## Main definitions

* `Tag.Before`, `StandsBefore` : the order of positions, and of keys with their positions.
* `SortedRuns` : a row that is sorted in runs.

## Main results

* `sortedRuns_sortTiles` : the tiles of a row.
* `SortedRuns.mergePass` : a merge pass.
-/

namespace MergePathSort

variable {κ ι : Type}

/-- The first tag is a position in front of that of the second. -/
def Tag.Before : Tag ι → Tag ι → Prop
  | .position p, .position q => p < q
  | _, _ => False

theorem Tag.Before.trans {a b c : Tag ι} (hab : a.Before b) (hbc : b.Before c) : a.Before c := by
  match a, b, c with
  | .position _, .position _, .position _ => exact Nat.lt_trans hab hbc
  | .position _, .given _, _ => exact hab.elim
  | .given _, _, _ => exact hab.elim
  | .position _, .position _, .given _ => exact hbc.elim

/-- The first key has the lesser rank, or the same one and stood in front of the second. -/
def StandsBefore (rank : κ → Int) (a b : κ × Tag ι) : Prop :=
  rank a.1 < rank b.1 ∨ rank a.1 = rank b.1 ∧ a.2.Before b.2

theorem StandsBefore.trans {rank : κ → Int} {a b c : κ × Tag ι} (hab : StandsBefore rank a b)
    (hbc : StandsBefore rank b c) : StandsBefore rank a c := by
  rcases hab with hab | ⟨hab, htag⟩
  · rcases hbc with hbc | ⟨hbc, -⟩
    · exact .inl (by omega)
    · exact .inl (by omega)
  · rcases hbc with hbc | ⟨hbc, htag'⟩
    · exact .inl (by omega)
    · exact .inr ⟨by omega, htag.trans htag'⟩

theorem StandsBefore.rank_le {rank : κ → Int} {a b : κ × Tag ι} (h : StandsBefore rank a b) :
    rank a.1 ≤ rank b.1 := by
  rcases h with h | ⟨h, -⟩ <;> omega

/-- A row is sorted in runs of a width: every run holds the keys of the same part of the source row, in order. -/
structure SortedRuns (rank : κ → Int) (keys : List κ) (width : Nat) (cells : List (κ × Tag ι)) : Prop where
  /-- A run is a rearrangement of its part of the source row. -/
  perm : ∀ number, (chunk width cells number).Perm (chunk width (numbered keys) number)
  /-- A run is in order. -/
  ordered : ∀ number, (chunk width cells number).Pairwise (StandsBefore rank)
  /-- The row is as long as the source row. -/
  length_eq : cells.length = keys.length
  /-- Runs are not empty. -/
  width_pos : 0 < width

section Source

variable {keys : List κ} {width number : Nat}

/-- An entry of a part of the source row. -/
theorem exists_of_mem_chunk_numbered {cell : κ × Tag ι} (h : cell ∈ chunk width (numbered keys) number) :
    ∃ p, cell.2 = .position p ∧ number * width ≤ p ∧ p < number * width + width ∧ keys[p]? = some cell.1 := by
  obtain ⟨t, ht, rfl⟩ := List.getElem_of_mem h
  have hlen := length_chunk width (numbered keys : List (κ × Tag ι)) number
  rw [length_numbered] at hlen
  refine ⟨number * width + t, ?_, by omega, by omega, ?_⟩
  · rw [getElem_chunk]
    simp [numbered]
  · rw [getElem_chunk, List.getElem?_eq_getElem (by omega)]
    simp [numbered]

/-- The tags of the source row are in order. -/
theorem pairwise_before_numbered (keys : List κ) :
    (numbered keys : List (κ × Tag ι)).Pairwise fun a b => a.2.Before b.2 := by
  rw [List.pairwise_iff_getElem]
  intro p q hp hq hpq
  simp only [numbered, List.getElem_mapIdx]
  exact hpq

end Source

/-! ### Runs -/

section Runs

variable {rank : κ → Int} {keys : List κ} {cells : List (κ × Tag ι)} {width : Nat}

/-- Two entries of one run stand in order. -/
theorem SortedRuns.standsBefore (h : SortedRuns rank keys width cells) {number i j : Nat} (hi : number * width ≤ i)
    (hij : i < j) (hj : j < number * width + width) (hlt : j < cells.length) :
    StandsBefore rank cells[i] cells[j] := by
  have hlen := length_chunk width cells number
  have hrun := List.pairwise_iff_getElem.mp (h.ordered number) (i - number * width) (j - number * width) (by omega)
    (by omega) (by omega)
  simp only [getElem_chunk] at hrun
  simpa [show number * width + (i - number * width) = i by omega,
    show number * width + (j - number * width) = j by omega] using hrun

/-- An entry of a run comes from the same part of the source row. -/
theorem SortedRuns.exists_position (h : SortedRuns rank keys width cells) {number i : Nat} (hi : number * width ≤ i)
    (hi' : i < number * width + width) (hlt : i < cells.length) :
    ∃ p, cells[i].2 = .position p ∧ number * width ≤ p ∧ p < number * width + width ∧ keys[p]? = some cells[i].1 := by
  have hlen := length_chunk width cells number
  have hmem : cells[i] ∈ chunk width cells number := by
    refine List.mem_iff_getElem.mpr ⟨i - number * width, by omega, ?_⟩
    simp only [getElem_chunk, show number * width + (i - number * width) = i by omega]
  exact exists_of_mem_chunk_numbered ((h.perm number).mem_iff.mp hmem)

/-- Chunks behind the end of a row are empty. -/
theorem chunk_eq_nil {α : Type} {width number : Nat} {xs : List α} (h : xs.length ≤ number * width) :
    chunk width xs number = [] := by
  rw [chunk, List.drop_of_length_le h, List.take_nil]

/-- A row that is put together from runs is sorted in runs. -/
theorem sortedRuns_flatMap {count : Nat} {run : Nat → List (κ × Tag ι)} (hwidth : 0 < width)
    (hcovers : keys.length ≤ count * width)
    (hperm : ∀ number < count, (run number).Perm (chunk width (numbered keys) number))
    (hordered : ∀ number < count, (run number).Pairwise (StandsBefore rank)) :
    SortedRuns rank keys width ((List.range count).flatMap run) := by
  have hlen : ∀ number < count, (run number).length = min width (keys.length - number * width) := by
    intro number hnumber
    rw [(hperm number hnumber).length_eq, length_chunk, length_numbered]
  have htotal := length_flatMap_parts hlen (Nat.le_refl count)
  rw [Nat.min_eq_right hcovers] at htotal
  have hbehind : ∀ number, ¬number < count → keys.length ≤ number * width := fun number hnumber =>
    Nat.le_trans hcovers (Nat.mul_le_mul_right width (by omega))
  refine ⟨fun number => ?_, fun number => ?_, htotal, hwidth⟩
  · by_cases hnumber : number < count
    · rw [chunk_flatMap hlen hnumber]
      exact hperm number hnumber
    · rw [chunk_eq_nil (by rw [htotal]; exact hbehind number hnumber),
        chunk_eq_nil (by rw [length_numbered]; exact hbehind number hnumber)]
  · by_cases hnumber : number < count
    · rw [chunk_flatMap hlen hnumber]
      exact hordered number hnumber
    · rw [chunk_eq_nil (by rw [htotal]; exact hbehind number hnumber)]
      exact List.Pairwise.nil

end Runs

variable [KeyOrder κ] {direction : Direction} {rank : κ → Int} {keys : List κ}

/-! ### Tiles -/

/-- A tile that is sorted. -/
theorem pairwise_sortTile (hrank : direction.Ranks keys rank) {cells : List (κ × Tag ι)}
    (hkeys : ∀ cell ∈ cells, cell.1 ∈ keys) (hbefore : cells.Pairwise fun a b => a.2.Before b.2) :
    (sortTile direction cells).Pairwise (StandsBefore rank) := by
  have hsorted : (sortTile direction cells).Pairwise fun a b => rank a.1 ≤ rank b.1 :=
    pairwise_rank_transpositions (fun cell : κ × Tag ι => rank cell.1)
      fun a ha b hb => hrank.misplaced_iff a.1 (hkeys a ha) b.1 (hkeys b hb)
  -- Keys that are exchanged have different ranks.
  have hstart : cells.Pairwise fun a b => rank a.1 = rank b.1 → a.2.Before b.2 :=
    List.Pairwise.imp (S := fun a b : κ × Tag ι => rank a.1 = rank b.1 → a.2.Before b.2) (fun h _ => h) hbefore
  have hstable : (sortTile direction cells).Pairwise fun a b => rank a.1 = rank b.1 → a.2.Before b.2 := by
    refine pairwise_transpositions _ (fun a ha b hb hmisplaced hequal => ?_) hstart
    have := (hrank.misplaced_iff a.1 (hkeys a ha) b.1 (hkeys b hb)).mp hmisplaced
    omega
  refine (hsorted.and hstable).imp fun ⟨hle, hequal⟩ => ?_
  rcases Int.lt_or_eq_of_le hle with hlt | heq
  · exact .inl hlt
  · exact .inr ⟨heq, hequal heq⟩

/-- The tiles of a row are sorted runs. -/
theorem sortedRuns_sortTiles (hrank : direction.Ranks keys rank) {tile tiles : Nat} (htile : 0 < tile)
    (hcovers : keys.length ≤ tiles * tile) :
    SortedRuns rank keys tile (sortTiles direction tile (numbered keys : List (κ × Tag ι)) tiles) := by
  refine sortedRuns_flatMap htile hcovers (fun number _ => transpositions_perm _ _) fun number _ => ?_
  refine pairwise_sortTile hrank (fun cell hcell => ?_) ?_
  · obtain ⟨p, -, -, -, hkey⟩ := exists_of_mem_chunk_numbered hcell
    exact List.mem_of_getElem? hkey
  · exact ((pairwise_before_numbered keys).drop).take

/-! ### Merge passes -/

/-- A chunk is two chunks of half the width. -/
theorem chunk_two_mul {α : Type} (width : Nat) (xs : List α) (number : Nat) :
    chunk (2 * width) xs number = chunk width xs (2 * number) ++ chunk width xs (2 * number + 1) := by
  have hstart : number * (2 * width) = 2 * number * width := by ac_rfl
  have hwidth : 2 * width = width + width := Nat.two_mul width
  rw [chunk, hstart, hwidth, List.take_add, List.drop_drop, chunk, chunk, Nat.succ_mul (2 * number)]

section Merge

variable {cells : List (κ × Tag ι)} {width : Nat} {shape : MergeShape} {number : Nat}

/-- The order of two positions of a row. -/
def PositionsInOrder (rank : κ → Int) (cells : List (κ × Tag ι)) (i j : Nat) : Prop :=
  ∃ a b, cells[i]? = some a ∧ cells[j]? = some b ∧ StandsBefore rank a b

omit [KeyOrder κ] in
theorem PositionsInOrder.trans {i j k : Nat} (hij : PositionsInOrder rank cells i j)
    (hjk : PositionsInOrder rank cells j k) : PositionsInOrder rank cells i k := by
  obtain ⟨a, b, ha, hb, hab⟩ := hij
  obtain ⟨b', c, hb', hc, hbc⟩ := hjk
  obtain rfl : b = b' := Option.some.inj (hb.symm.trans hb')
  exact ⟨a, c, ha, hc, hab.trans hbc⟩

omit [KeyOrder κ] in
/-- What is gathered from positions in order is in order. -/
theorem pairwise_gather {sources : List Nat} (h : sources.Pairwise (PositionsInOrder rank cells)) :
    (gather cells sources).Pairwise (StandsBefore rank) := by
  rw [gather, List.pairwise_filterMap]
  refine h.imp fun hinorder a' ha' b' hb' => ?_
  obtain ⟨a, b, ha, hb, hab⟩ := hinorder
  rw [ha] at ha'
  rw [hb] at hb'
  cases ha'
  cases hb'
  exact hab

/-- Whether a position of a sorted run may stand before one of another run. -/
theorem SortedRuns.precedesIn_iff (hrank : direction.Ranks keys rank) (h : SortedRuns rank keys width cells)
    {i j : Nat} (hi : i < cells.length) (hj : j < cells.length) :
    precedesIn direction cells i j = true ↔ rank cells[i].1 ≤ rank cells[j].1 := by
  have hmem : ∀ k (hk : k < cells.length), cells[k].1 ∈ keys := by
    intro k hk
    have hdiv := Nat.div_add_mod' k width
    have hmod := Nat.mod_lt k h.width_pos
    have hstart : k / width * width ≤ k := by omega
    obtain ⟨p, -, -, -, hkey⟩ := h.exists_position hstart (by omega) hk
    exact List.mem_of_getElem? hkey
  rw [precedesIn_eq hi hj]
  exact hrank.mayPrecede_iff _ (hmem i hi) _ (hmem j hj)

/-- The comparison is monotone on two neighbouring runs. -/
theorem SortedRuns.monotone (hrank : direction.Ranks keys rank) (h : SortedRuns rank keys width cells) :
    (segmentAt (2 * width) cells.length number).runs.Monotone (precedesIn direction cells) := by
  have hstart : 2 * number * width = 2 * width * number := by ac_rfl
  have hsecond : (2 * number + 1) * width = 2 * number * width + width := Nat.succ_mul _ _
  intro i i' j j' hi' hii' hi hj hjj' hj' hprecedes
  simp only [segmentAt, Segment.runs, Run.leftStop, Run.rightStop] at hi' hi hj hj'
  have hleftInside : i < cells.length ∧ i' < cells.length := by omega
  have hrightInside : j < cells.length ∧ j' < cells.length := by omega
  rw [h.precedesIn_iff hrank hleftInside.1 hrightInside.1] at hprecedes
  rw [h.precedesIn_iff hrank hleftInside.2 hrightInside.2]
  have hleft : rank (cells.get ⟨i', hleftInside.2⟩).1 ≤ rank (cells.get ⟨i, hleftInside.1⟩).1 := by
    rcases Nat.eq_or_lt_of_le hii' with rfl | hlt
    · exact Int.le_refl _
    · have hinside : 2 * number * width ≤ i' := by omega
      exact (h.standsBefore hinside hlt (by omega) (by omega)).rank_le
  have hright : rank (cells.get ⟨j, hrightInside.1⟩).1 ≤ rank (cells.get ⟨j', hrightInside.2⟩).1 := by
    rcases Nat.eq_or_lt_of_le hjj' with rfl | hlt
    · exact Int.le_refl _
    · have hinside : (2 * number + 1) * width ≤ j := by omega
      exact (h.standsBefore hinside hlt (by omega) (by omega)).rank_le
  simp only [List.get_eq_getElem] at hleft hright
  omega

/-- A segment of two sorted runs is gathered in order. -/
theorem SortedRuns.pairwise_segment (hrank : direction.Ranks keys rank) (h : SortedRuns rank keys width cells)
    (hnumber : 2 * width * number ≤ cells.length) :
    ((segmentAt (2 * width) cells.length number).runs.order (precedesIn direction cells)).Pairwise
      (PositionsInOrder rank cells) := by
  have hstart : 2 * number * width = 2 * width * number := by ac_rfl
  have hsecond : (2 * number + 1) * width = 2 * number * width + width := Nat.succ_mul _ _
  have hhalf : 2 * width / 2 = width := Nat.mul_div_cancel_left width (by decide)
  have hfits : (segmentAt (2 * width) cells.length number).Fits cells.length := segmentAt_fits hnumber
  have hinOrder : ∀ i j (hi : i < cells.length) (hj : j < cells.length), StandsBefore rank cells[i] cells[j] →
      PositionsInOrder rank cells i j := fun i j hi hj hbefore =>
    ⟨_, _, List.getElem?_eq_getElem hi, List.getElem?_eq_getElem hj, hbefore⟩
  refine pairwise_mergeOrder (S := PositionsInOrder rank cells) (fun _ _ _ hab hbc => hab.trans hbc) ?_
    (fun i j hi hij hj => ?_) (fun i j hi hij hj => ?_) (fun i j hi hi' hj hj' hprecedes => ?_)
    fun i j hi hi' hj hj' hprecedes => ?_
  all_goals simp only [segmentAt, Segment.runs, Run.leftStop, Run.rightStop, hhalf] at *
  · omega
  · have hinside : 2 * number * width ≤ i := by omega
    exact hinOrder i j (by omega) (by omega) (h.standsBefore hinside hij (by omega) (by omega))
  · have hinside : (2 * number + 1) * width ≤ i := by omega
    exact hinOrder i j (by omega) (by omega) (h.standsBefore hinside hij (by omega) (by omega))
  · refine hinOrder i j (by omega) (by omega) ?_
    rw [h.precedesIn_iff hrank (by omega) (by omega)] at hprecedes
    have hleft : 2 * number * width ≤ i := by omega
    have hright : (2 * number + 1) * width ≤ j := by omega
    obtain ⟨p, hp, -, hplt, -⟩ := h.exists_position hleft (by omega) (by omega)
    obtain ⟨q, hq, hqle, -, -⟩ := h.exists_position hright (by omega) (by omega)
    rcases Int.lt_or_eq_of_le hprecedes with hlt | heq
    · exact .inl hlt
    · refine .inr ⟨heq, ?_⟩
      rw [hp, hq]
      exact show p < q by omega
  · refine hinOrder j i (by omega) (by omega) (.inl ?_)
    rw [← Bool.not_eq_true, h.precedesIn_iff hrank (by omega) (by omega)] at hprecedes
    omega

omit [KeyOrder κ] in
/-- A segment is gathered from its own entries, each of them once. -/
theorem perm_gather_order {precedes : Nat → Nat → Bool} (hnumber : 2 * width * number ≤ cells.length) :
    (gather cells ((segmentAt (2 * width) cells.length number).runs.order precedes)).Perm
      (chunk (2 * width) cells number) := by
  have hperm := Segment.perm_order precedes (segmentAt_fits hnumber)
  generalize hsegment : segmentAt (2 * width) cells.length number = segment at *
  have hchunk : gather cells (List.range' segment.start (segment.stop - segment.start)) =
      chunk (2 * width) cells number := by
    rw [gather_range', chunk, Nat.mul_comm number, ← hsegment]
    simp only [segmentAt]
    rw [List.take_eq_take_iff, List.length_drop]
    omega
  exact hchunk ▸ hperm.filterMap _

/-- A merge pass makes sorted runs of twice the width. -/
theorem SortedRuns.mergePass (hrank : direction.Ranks keys rank) (h : SortedRuns rank keys width cells)
    (hwidth : shape.width.toNat = 2 * width) (hcovers : shape.Covers cells.length) :
    SortedRuns rank keys (2 * width) (mergePass direction shape cells) := by
  have hsources : ∀ number < shape.segments.toNat,
      shape.segmentSources (precedesIn direction cells) cells.length number =
        (segmentAt (2 * width) cells.length number).runs.order (precedesIn direction cells) := by
    intro number hnumber
    have hstart := hcovers.start_lt number hnumber
    have hshared := hcovers.shared
    rw [hwidth] at hstart hshared
    rw [MergeShape.segmentSources, hwidth]
    refine Segment.sources_eq_order (segmentAt_fits (by omega)) (h.monotone hrank) hshared ?_
    simp only [segmentAt]
    omega
  have hsize := hcovers.size_le
  rw [hwidth, Nat.mul_comm, h.length_eq] at hsize
  have hpos := h.width_pos
  rw [MergePathSort.mergePass, passSources, MergeShape.sources, gather_flatMap]
  refine sortedRuns_flatMap (by omega) hsize (fun number hnumber => ?_) fun number hnumber => ?_
  · have hstart := hcovers.start_lt number hnumber
    rw [hwidth] at hstart
    rw [hsources number hnumber, chunk_two_mul]
    calc (gather cells ((segmentAt (2 * width) cells.length number).runs.order (precedesIn direction cells))).Perm
          (chunk (2 * width) cells number) := perm_gather_order (by omega)
      _ = chunk width cells (2 * number) ++ chunk width cells (2 * number + 1) := chunk_two_mul _ _ _
      (chunk width cells (2 * number) ++ chunk width cells (2 * number + 1)).Perm _ := (h.perm _).append (h.perm _)
  · have hstart := hcovers.start_lt number hnumber
    rw [hwidth] at hstart
    rw [hsources number hnumber]
    exact pairwise_gather (h.pairwise_segment hrank (by omega))

end Merge

end MergePathSort
