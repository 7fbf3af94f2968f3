import MergePathSort.Proofs.Host.Copies

/-!
# Sorting tiles on the host

A block loads its tile into the scratch, exchanges neighbours in rounds, and stores the tile on both sides. The scratch
may be longer than the tile; what stands behind the tile stays there. Every phase is described by the lists that it
leaves, from the state after so many places or lanes.

## Main results

* `forLanes_loadTile`, `forLanes_exchangePair`, `forLanes_storeTile` : the three kinds of phases.
* `exists_runAll_tiles` : the blocks of the launch on a row.
-/

namespace MergePathSort

/-! ### Two places for every lane -/

/-- The lanes of a phase in which each acts on its two places: together they walk the tile. -/
theorem forLanes_onOwnPlaces {σ : Type} {count lanes : Nat} {act : Nat → σ → Outcome σ} {before behind : σ}
    (state : Nat → σ) (hbefore : state 0 = before) (hbehind : state (2 * lanes) = behind)
    (hact : ∀ t < count, act t (state t) = .ok (state (t + 1)))
    (hrest : ∀ t, count ≤ t → state (t + 1) = state t) :
    forLanes lanes (fun lane => onOwnPlaces count lane act) before = .ok behind := by
  subst hbefore hbehind
  have hstep : ∀ t, (if t < count then act t (state t) else .ok (state t)) = .ok (state (t + 1)) := by
    intro t
    split
    · exact hact t ‹_›
    · rw [hrest t (by omega)]
  refine forLanes_eq_ok (fun lane => state (2 * lane)) fun lane _ => ?_
  rw [onOwnPlaces, List.foldlM_cons, hstep, Outcome.ok_bind, List.foldlM_cons, hstep]
  rfl

variable {κ ι : Type} [IndexElement ι] {tracked : Bool} {row : TaggedRow κ ι} {xs : List (κ × Tag ι)} {lanes : Nat}

/-- The phase in which the lanes load a tile. -/
theorem forLanes_loadTile {start : Nat} {scratch : List (κ × Tag ι)}
    (htile : ∀ t (ht : t < xs.length), row.front[start + t]? = some xs[t])
    (hlanes : xs.length ≤ 2 * lanes) (hroom : xs.length ≤ scratch.length) :
    forLanes lanes (loadTile start xs.length) (row.cells tracked, Cells.ofTagged tracked scratch) =
      .ok (row.cells tracked, Cells.ofTagged tracked (overlay xs scratch)) := by
  refine forLanes_onOwnPlaces
    (fun t => (row.cells tracked, Cells.ofTagged tracked (overlay (xs.take t) scratch))) rfl ?_ (fun t ht => ?_)
    fun t ht => ?_
  · rw [List.take_of_length_le hlanes]
  · obtain ⟨hlt, hget⟩ := List.getElem?_eq_some_iff.mp (htile t ht)
    have hfetch : (row.cells tracked).front.fetch (start + t) = .ok (Cells.cellOf tracked xs[t]) := by
      rw [← hget]
      exact Cells.fetch_ofTagged hlt
    have hstore := store_next tracked [] scratch ht (by simpa using by omega)
    simp only [List.nil_append, List.length_nil, Nat.zero_add] at hstore
    simp only [hfetch, Outcome.ok_bind, hstore]
    rfl
  · rw [List.take_of_length_le (by omega), List.take_of_length_le ht]

/-- A lane that compares two neighbours in the scratch. -/
theorem exchangePair_eq_ok [KeyOrder κ] (tracked : Bool) (direction : Direction) {count round lane : Nat}
    (cells : RowCells κ ι) {done : List (κ × Tag ι)} (a b : κ × Tag ι) (rest : List (κ × Tag ι))
    (hdone : done.length = 2 * lane + round % 2) (hcount : 2 * lane + round % 2 + 1 < count) :
    exchangePair direction count round lane (cells, Cells.ofTagged tracked (done ++ a :: b :: rest)) =
      .ok (cells, Cells.ofTagged tracked
        (done ++ if direction.misplaced a.1 b.1 then b :: a :: rest else a :: b :: rest)) := by
  have hfirst : Buffer.read (Cells.ofTagged tracked (done ++ a :: b :: rest)).keys done.length = .ok a.1 := by
    rw [Cells.read_keys_ofTagged (by simp), List.getElem_append_right (Nat.le_refl _)]
    simp
  have hsecond : Buffer.read (Cells.ofTagged tracked (done ++ a :: b :: rest)).keys (done.length + 1) =
      .ok b.1 := by
    rw [Cells.read_keys_ofTagged (by simp), List.getElem_append_right (Nat.le_succ _)]
    simp
  rw [← hdone] at hcount
  simp only [exchangePair, ← hdone, if_pos hcount, hfirst, hsecond, Outcome.ok_bind, Cells.exchange_neighbours]
  split <;> rfl

/-- A round of exchanges. -/
theorem forLanes_exchangePair [KeyOrder κ] (direction : Direction) (round : Nat) (cells : RowCells κ ι)
    (junk : List (κ × Tag ι)) (hlanes : xs.length ≤ 2 * lanes) :
    forLanes lanes (exchangePair direction xs.length round) (cells, Cells.ofTagged tracked (xs ++ junk)) =
      .ok (cells, Cells.ofTagged tracked
        (transpose (fun a b => direction.misplaced a.1 b.1) round xs ++ junk)) := by
  have hstart : xs ++ junk = xs.take (round % 2) ++
      exchangedPairs (fun a b => direction.misplaced a.1 b.1) 0 (xs.drop (round % 2)) ++ junk := by
    rw [exchangedPairs_zero, List.take_append_drop]
  have hstop : transpose (fun a b => direction.misplaced a.1 b.1) round xs = xs.take (round % 2) ++
      exchangedPairs (fun a b => direction.misplaced a.1 b.1) lanes (xs.drop (round % 2)) := by
    rw [exchangedPairs_of_length_le (by rw [List.length_drop]; omega), transpose]
  rw [hstart, hstop]
  refine forLanes_eq_ok (fun lane => (cells, Cells.ofTagged tracked (xs.take (round % 2) ++
    exchangedPairs (fun a b => direction.misplaced a.1 b.1) lane (xs.drop (round % 2)) ++ junk)))
    fun lane _ => ?_
  by_cases hpair : 2 * lane + round % 2 + 1 < xs.length
  · have hinside : 2 * lane + 1 < (xs.drop (round % 2)).length := by
      rw [List.length_drop]
      omega
    obtain ⟨done, a, b, rest, hdone, hbefore, hbehind⟩ :=
      exists_exchangedPairs_succ (fun a b => direction.misplaced a.1 b.1) hinside
    rw [hbefore, hbehind]
    have hlen : (xs.take (round % 2) ++ done).length = 2 * lane + round % 2 := by
      rw [List.length_append, List.length_take, hdone]
      omega
    have hlane := exchangePair_eq_ok tracked direction cells a b (rest ++ junk) hlen hpair
    simp only [List.append_assoc, List.cons_append] at hlane ⊢
    rw [hlane]
    split <;> rfl
  · rw [exchangePair]
    simp only [if_neg hpair]
    rw [exchangedPairs_of_length_le (by rw [List.length_drop]; omega),
      exchangedPairs_of_length_le (by rw [List.length_drop]; omega)]

/-- The phase in which the lanes store a tile. -/
theorem forLanes_storeTile {start : Nat} {done junk : List (κ × Tag ι)} (hstart : done.length = start)
    (hfront : start + xs.length ≤ row.front.length) (hback : start + xs.length ≤ row.back.length)
    (hlanes : xs.length ≤ 2 * lanes) :
    forLanes lanes (storeTile start xs.length)
        (TaggedRow.cells tracked ⟨overlay done row.front, overlay done row.back⟩,
          Cells.ofTagged tracked (xs ++ junk)) =
      .ok (TaggedRow.cells tracked ⟨overlay (done ++ xs) row.front, overlay (done ++ xs) row.back⟩,
        Cells.ofTagged tracked (xs ++ junk)) := by
  subst hstart
  refine forLanes_onOwnPlaces (fun t => (TaggedRow.cells tracked
    ⟨overlay (done ++ xs.take t) row.front, overlay (done ++ xs.take t) row.back⟩,
      Cells.ofTagged tracked (xs ++ junk))) ?_ ?_ (fun t ht => ?_) fun t ht => ?_
  · rw [List.take_zero, List.append_nil]
  · rw [List.take_of_length_le hlanes]
  · have hfetch : (Cells.ofTagged tracked (xs ++ junk)).fetch t = .ok (Cells.cellOf tracked xs[t]) := by
      rw [Cells.fetch_ofTagged (by rw [List.length_append]; omega), List.getElem_append_left ht]
    have hfirst := store_next tracked done row.front ht (by omega)
    have hsecond := store_next tracked done row.back ht (by omega)
    simp only [hfetch, Outcome.ok_bind, TaggedRow.cells, DoubleBuffer.map]
    rw [DoubleBuffer.modify_front hfirst, Outcome.ok_bind, DoubleBuffer.modify_back hsecond]
    rfl
  · rw [List.take_of_length_le (by omega), List.take_of_length_le ht]

/-! ### Blocks -/

/-- All rounds of a tile. -/
theorem runPhases_rounds [KeyOrder κ] (direction : Direction) (cells : RowCells κ ι) (junk : List (κ × Tag ι))
    (hlanes : xs.length ≤ 2 * lanes) :
    Block.runPhases lanes ((List.range xs.length).map (exchangePair direction xs.length))
        (cells, Cells.ofTagged tracked (xs ++ junk)) =
      .ok (cells, Cells.ofTagged tracked (sortTile direction xs ++ junk)) := by
  refine Block.runPhases_map_range (fun round => (cells, Cells.ofTagged tracked
    (transpositions (fun a b => direction.misplaced a.1 b.1) round xs ++ junk))) fun round _ => ?_
  rw [transpositions_succ]
  have hlen : (transpositions (fun a b => direction.misplaced a.1 b.1) round xs).length = xs.length :=
    length_transpositions round xs
  rw [← hlen] at hlanes ⊢
  exact forLanes_exchangePair direction round cells junk hlanes

/-- The phases of a block: it sorts its tile. -/
theorem runPhases_tile [KeyOrder κ] (direction : Direction) (row : TaggedRow κ ι) (xs : List (κ × Tag ι))
    {start : Nat} {done scratch : List (κ × Tag ι)}
    (hstart : done.length = start) (htile : ∀ t (ht : t < xs.length), row.front[start + t]? = some xs[t])
    (hfront : start + xs.length ≤ row.front.length) (hback : start + xs.length ≤ row.back.length)
    (hlanes : xs.length ≤ 2 * lanes) (hroom : xs.length ≤ scratch.length) :
    Block.runPhases lanes (loadTile start xs.length :: (List.range xs.length).map (exchangePair direction xs.length)
        ++ [storeTile start xs.length])
        (TaggedRow.cells tracked ⟨overlay done row.front, overlay done row.back⟩, Cells.ofTagged tracked scratch) =
      .ok (TaggedRow.cells tracked
          ⟨overlay (done ++ sortTile direction xs) row.front, overlay (done ++ sortTile direction xs) row.back⟩,
        Cells.ofTagged tracked (sortTile direction xs ++ scratch.drop xs.length)) := by
  have htile' : ∀ t (ht : t < xs.length), (overlay done row.front)[start + t]? = some xs[t] := by
    intro t ht
    rw [getElem?_overlay_of_le (by omega)]
    exact htile t ht
  have hload : forLanes lanes (loadTile start xs.length)
      (TaggedRow.cells tracked ⟨overlay done row.front, overlay done row.back⟩, Cells.ofTagged tracked scratch) =
      .ok (TaggedRow.cells tracked ⟨overlay done row.front, overlay done row.back⟩,
        Cells.ofTagged tracked (xs ++ scratch.drop xs.length)) :=
    forLanes_loadTile htile' hlanes hroom
  have hlen := length_sortTile direction xs
  have hstore : forLanes lanes (storeTile start xs.length)
      (TaggedRow.cells tracked ⟨overlay done row.front, overlay done row.back⟩,
        Cells.ofTagged tracked (sortTile direction xs ++ scratch.drop xs.length)) = .ok (TaggedRow.cells tracked
          ⟨overlay (done ++ sortTile direction xs) row.front, overlay (done ++ sortTile direction xs) row.back⟩,
        Cells.ofTagged tracked (sortTile direction xs ++ scratch.drop xs.length)) := by
    rw [← hlen] at hfront hback hlanes ⊢
    exact forLanes_storeTile hstart hfront hback hlanes
  rw [List.cons_append, Block.runPhases_cons hload, Block.runPhases_append (runPhases_rounds direction _ _ hlanes),
    Block.runPhases_cons hstore]
  rfl

/-- The row when the first tiles of its front side are sorted and left on both sides. -/
def TaggedRow.withTiles [KeyOrder κ] (direction : Direction) (tile : Nat) (row : TaggedRow κ ι) (tiles : Nat) :
    TaggedRow κ ι :=
  ⟨overlay (sortTiles direction tile row.front tiles) row.front,
    overlay (sortTiles direction tile row.front tiles) row.back⟩

/-- The phases that a block plans for its tile. -/
theorem phases_tileBlock [Element κ] (direction : Direction) {tile size number : Nat} {grid : Grid} (tracked : Bool)
    (hnumber : number * tile < size) (row : RowCells κ ι) :
    (tileBlock direction tile size grid tracked number).phases row =
      .ok (loadTile (number * tile) (min tile (size - number * tile)) ::
        (List.range (min tile (size - number * tile))).map
          (exchangePair direction (min tile (size - number * tile))) ++
        [storeTile (number * tile) (min tile (size - number * tile))]) := by
  have hsub : Size.sub size (number * tile) = .ok (size - number * tile) :=
    Size.sub_of_le (Nat.le_of_lt hnumber)
  simp only [tileBlock, hsub, Outcome.ok_bind]
  rfl

/-- A block that sorts the next tile. -/
theorem exists_run_tileBlock [Element κ] (direction : Direction) {tile size number : Nat} {grid : Grid}
    (h : row.HasLength size) (hlanes : 2 * grid.lanes.toNat = tile) (hnumber : number * tile < size) :
    ∃ used, (tileBlock direction tile size grid tracked number).run
        ((row.withTiles direction tile number).cells tracked) =
      .ok ((row.withTiles direction tile (number + 1)).cells tracked, used) := by
  obtain ⟨hfront, hback⟩ := h
  have hchunk := length_chunk tile row.front number
  have hdone : (sortTiles direction tile row.front number).length = number * tile := by
    rw [length_sortTiles, hfront]
    exact Nat.min_eq_left (by omega)
  rw [hfront] at hchunk
  have hphases : Block.runPhases grid.lanes.toNat _ ((row.withTiles direction tile number).cells tracked,
      Cells.ofTagged tracked (List.replicate tile (Element.zero, .given Element.zero))) = .ok (_, _) :=
    runPhases_tile direction row (chunk tile row.front number) hdone
      (fun t ht => by rw [getElem_chunk, List.getElem?_eq_getElem]) (by omega) (by omega) (by omega)
      (by rw [List.length_replicate]; omega)
  rw [hchunk, ← Cells.blank_eq_ofTagged, ← sortTiles_succ] at hphases
  exact Block.exists_run_of_phases (phases_tileBlock direction tracked hnumber _) hphases

/-- The blocks that sort the tiles of a row. -/
theorem exists_runAll_tiles [Element κ] (direction : Direction) {tile size : Nat} {grid : Grid}
    (h : row.HasLength size) (hlanes : 2 * grid.lanes.toNat = tile) (hcovers : size ≤ grid.blocksPerRow.toNat * tile)
    (hinside : ∀ number < grid.blocksPerRow.toNat, number * tile < size) :
    ∃ used, Block.runAll ((List.range grid.blocksPerRow.toNat).map (tileBlock direction tile size grid tracked))
        (row.cells tracked) =
      .ok (TaggedRow.cells tracked (.both (sortTiles direction tile row.front grid.blocksPerRow.toNat)), used) := by
  have hstop : row.withTiles direction tile grid.blocksPerRow.toNat =
      .both (sortTiles direction tile row.front grid.blocksPerRow.toNat) := by
    have hlen := length_sortTiles direction tile row.front grid.blocksPerRow.toNat
    rw [h.front, Nat.min_eq_right hcovers] at hlen
    rw [TaggedRow.withTiles, overlay_of_length_eq (hlen.trans h.front.symm),
      overlay_of_length_eq (hlen.trans h.back.symm)]
    rfl
  rw [← hstop]
  exact Block.exists_runAll_map_range (fun tiles => (row.withTiles direction tile tiles).cells tracked)
    fun number hnumber => exists_run_tileBlock direction h hlanes (hinside number hnumber)

end MergePathSort
