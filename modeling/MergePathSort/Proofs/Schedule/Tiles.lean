import MergePathSort.Proofs.Host.Tiles
import MergePathSort.Proofs.Schedule.Work

/-!
# Sorting tiles in any order

A block that sorts a tile has many phases, and its lanes read what other lanes have written in the phase before. In the
middle of a phase the scratch is mixed: places of lanes that have acted are as after the phase, places of lanes that are
still waiting as before it. A lane that compares two neighbours finds both as they were before the phase, as no other lane
of the phase has them. The tile on the row stays until the last phase, where every lane stores its places on both sides; no
other block has places of the tile.

## Main definitions

* `Mixed` : a list in the middle of a phase.
* `tilePhases`, `scratchAt`, `placeLane` : the phases of a block, the scratch before each, and the lane of a place.
* `TileKnown` : what is known of a block while it is at work.

## Main results

* `keeps_tileKnown` : the blocks of a row keep up what is known of them.
* `leads_tiles` : the blocks of the launch on a row, in any order.
-/

namespace MergePathSort

/-! ### Lists in the middle of a phase -/

section Lists

variable {α : Type}

/-- Places where something is done are as in one list, the others as in another. -/
def Mixed (done : Nat → Prop) (before after now : List α) : Prop :=
  ∀ t : Nat, (done t → now[t]? = after[t]?) ∧ (¬done t → now[t]? = before[t]?)

/-- Nothing is done yet, where anything is to do. -/
theorem Mixed.start {done : Nat → Prop} {before after : List α} (h : ∀ t, done t → before[t]? = after[t]?) :
    Mixed done before after before := fun t => ⟨h t, fun _ => rfl⟩

/-- Everything is done. -/
theorem Mixed.eq_after {done : Nat → Prop} {before after now : List α} (h : Mixed done before after now)
    (hdone : ∀ t, done t) : now = after :=
  List.ext_getElem? fun t => (h t).1 (hdone t)

/-- A list is as long as it was. -/
theorem Mixed.length_eq {done : Nat → Prop} {before after now : List α} (h : Mixed done before after now)
    (hlen : after.length = before.length) : now.length = before.length := by
  have hnone : ∀ t : Nat, now[t]? = none ↔ before[t]? = none := by
    intro t
    by_cases hdone : done t
    · rw [(h t).1 hdone, List.getElem?_eq_none_iff, List.getElem?_eq_none_iff, hlen]
    · rw [(h t).2 hdone]
  simp only [List.getElem?_eq_none_iff] at hnone
  exact Nat.le_antisymm ((hnone _).mpr (Nat.le_refl _)) ((hnone _).mp (Nat.le_refl _))

/-- One more lane has acted, at its own places. -/
theorem Mixed.acted {lane : Nat → Nat} {waiting : List Nat} {n : Nat} {before after now now' : List α}
    (h : Mixed (fun t => lane t ∉ waiting) before after now)
    (hown : ∀ t, lane t = n → now'[t]? = after[t]?) (hothers : ∀ t, lane t ≠ n → now'[t]? = now[t]?) :
    Mixed (fun t => lane t ∉ waiting.filter (· ≠ n)) before after now' := by
  intro t
  by_cases ht : lane t = n
  · exact ⟨fun _ => hown t ht, fun hwaiting => absurd (fun hmem => by simp [ht] at hmem) hwaiting⟩
  · have hsame : lane t ∉ waiting.filter (· ≠ n) ↔ lane t ∉ waiting := by simp [List.mem_filter, ht]
    rw [hothers t ht]
    exact ⟨fun hwaiting => (h t).1 (hsame.mp hwaiting), fun hwaiting => (h t).2 fun hold => hwaiting (hsame.mpr hold)⟩

/-- A list with one entry of a part stored, where the part starts at a place. -/
def storePart (part : List α) (start t : Nat) (now : List α) : List α :=
  match part[t]? with
  | some x => now.set (start + t) x
  | none => now

@[simp]
theorem length_storePart (part : List α) (start t : Nat) (now : List α) :
    (storePart part start t now).length = now.length := by
  unfold storePart
  split <;> simp

theorem getElem?_storePart {part now : List α} {start : Nat} (hroom : start + part.length ≤ now.length) (t u : Nat) :
    (storePart part start t now)[u]? = if u = start + t ∧ t < part.length then part[t]? else now[u]? := by
  unfold storePart
  split
  · rename_i x hx
    obtain ⟨ht, -⟩ := List.getElem?_eq_some_iff.mp hx
    by_cases hu : u = start + t
    · subst hu
      rw [List.getElem?_set_self (by omega), if_pos ⟨rfl, ht⟩, hx]
    · rw [List.getElem?_set_ne (Ne.symm hu), if_neg fun h => hu h.1]
  · rename_i hnone
    rw [if_neg fun h => absurd (List.getElem?_eq_none_iff.mp hnone) (Nat.not_le.mpr h.2)]

/-- A list with both entries of a lane stored. -/
def storeOwn (part : List α) (start n : Nat) (now : List α) : List α :=
  storePart part start (2 * n + 1) (storePart part start (2 * n) now)

@[simp]
theorem length_storeOwn (part : List α) (start n : Nat) (now : List α) :
    (storeOwn part start n now).length = now.length := by
  simp [storeOwn]

/-- A place from the start of the part on. -/
theorem getElem?_storeOwn {part now : List α} {start : Nat} (hroom : start + part.length ≤ now.length) (n t : Nat) :
    (storeOwn part start n now)[start + t]? = if t / 2 = n ∧ t < part.length then part[t]? else now[start + t]? := by
  rw [storeOwn, getElem?_storePart (by simpa using hroom), getElem?_storePart hroom]
  by_cases hown : t / 2 = n ∧ t < part.length
  · obtain ⟨hn, ht⟩ := hown
    rcases Nat.mod_two_eq_zero_or_one t with hmod | hmod
    · obtain rfl : t = 2 * n := by omega
      rw [if_neg (by omega), if_pos ⟨rfl, ht⟩, if_pos ⟨hn, ht⟩]
    · obtain rfl : t = 2 * n + 1 := by omega
      rw [if_pos ⟨rfl, ht⟩, if_pos ⟨hn, ht⟩]
  · rw [if_neg (by omega), if_neg (by omega), if_neg hown]

/-- A place outside the part. -/
theorem getElem?_storeOwn_of_ne {part now : List α} {start : Nat} (hroom : start + part.length ≤ now.length) (n : Nat)
    {u : Nat} (hu : ∀ t < part.length, u ≠ start + t) : (storeOwn part start n now)[u]? = now[u]? := by
  rw [storeOwn, getElem?_storePart (by simpa using hroom), if_neg fun h => hu _ h.2 h.1, getElem?_storePart hroom,
    if_neg fun h => hu _ h.2 h.1]

end Lists

/-! ### The turns of a lane -/

section Lanes

variable {κ ι : Type} [IndexElement ι] {tracked : Bool} {xs now : List (κ × Tag ι)} {start : Nat}

omit [IndexElement ι] in
/-- A lane that acts on its two places, when the state is given by a list in which it stores entries of a part. -/
theorem onOwnPlaces_eq_ok {σ : Type} (state : List (κ × Tag ι) → σ) {act : Nat → σ → Outcome σ}
    (hact : ∀ t (ht : t < xs.length) (ys : List (κ × Tag ι)), ys.length = now.length →
      act t (state ys) = .ok (state (ys.set (start + t) xs[t]))) (n : Nat) :
    onOwnPlaces xs.length n act (state now) = .ok (state (storeOwn xs start n now)) := by
  have hstep : ∀ t ys, ys.length = now.length →
      (if t < xs.length then act t (state ys) else .ok (state ys)) = .ok (state (storePart xs start t ys)) := by
    intro t ys hys
    split
    · rename_i ht
      rw [hact t ht ys hys, storePart, List.getElem?_eq_getElem ht]
    · rename_i ht
      rw [storePart, List.getElem?_eq_none (Nat.le_of_not_lt ht)]
  rw [onOwnPlaces, List.foldlM_cons, hstep _ _ rfl, Outcome.ok_bind, List.foldlM_cons, hstep _ _ (by simp)]
  rfl

/-- A lane loads its places. -/
theorem loadTile_eq_ok (row : TaggedRow κ ι) (htile : ∀ t (ht : t < xs.length), row.front[start + t]? = some xs[t])
    (hroom : xs.length ≤ now.length) (n : Nat) :
    loadTile start xs.length n (row.cells tracked, Cells.ofTagged tracked now) =
      .ok (row.cells tracked, Cells.ofTagged tracked (storeOwn xs 0 n now)) := by
  refine onOwnPlaces_eq_ok (fun ys => (row.cells tracked, Cells.ofTagged tracked ys)) (fun t ht ys hys => ?_) n
  obtain ⟨hlt, hget⟩ := List.getElem?_eq_some_iff.mp (htile t ht)
  have hfetch : (row.cells tracked).front.fetch (start + t) = .ok (Cells.cellOf tracked xs[t]) := by
    rw [← hget]
    exact Cells.fetch_ofTagged hlt
  have hstore : (Cells.ofTagged tracked ys).store t (Cells.cellOf tracked xs[t]) = .ok _ :=
    Cells.store_ofTagged (by omega) xs[t]
  simp only [hfetch, Outcome.ok_bind, hstore, Nat.zero_add]
  rfl

/-- A lane exchanges its pair if it is misplaced. -/
theorem exchangePair_eq_exchangeAt [KeyOrder κ] (tracked : Bool) (direction : Direction) {count : Nat} (round n : Nat)
    (cells : RowCells κ ι) (hroom : count ≤ now.length) :
    exchangePair direction count round n (cells, Cells.ofTagged tracked now) = .ok (cells, Cells.ofTagged tracked
      (exchangeAt (fun a b => direction.misplaced a.1 b.1) count (2 * n + round % 2) now)) := by
  unfold exchangePair
  generalize 2 * n + round % 2 = i
  by_cases hpair : i + 1 < count
  · have hfirst : i < now.length := by omega
    have hsecond : i + 1 < now.length := by omega
    have hreadFirst : Buffer.read (Cells.ofTagged tracked now).keys i = .ok now[i].1 := Cells.read_keys_ofTagged hfirst
    have hreadSecond : Buffer.read (Cells.ofTagged tracked now).keys (i + 1) = .ok now[i + 1].1 :=
      Cells.read_keys_ofTagged hsecond
    have hexchange : (Cells.ofTagged tracked now).exchange i (i + 1) = .ok _ := Cells.exchange_ofTagged hfirst hsecond
    simp only [hreadFirst, hreadSecond, hexchange, Outcome.ok_bind, exchangeAt, List.getElem?_eq_getElem hfirst,
      List.getElem?_eq_getElem hsecond, hpair, true_and, if_true]
    by_cases hmisplaced : direction.misplaced now[i].1 now[i + 1].1 = true
    · simp only [if_pos hmisplaced]
      rfl
    · simp only [if_neg hmisplaced]
      rfl
  · simp only [if_neg hpair]
    rw [exchangeAt_of_le (Nat.le_of_not_lt hpair)]

/-- A lane stores its places on both sides. -/
theorem storeTile_eq_ok {front back : List (κ × Tag ι)} (hfront : start + xs.length ≤ front.length)
    (hback : start + xs.length ≤ back.length) (junk : List (κ × Tag ι)) (n : Nat) :
    storeTile start xs.length n (TaggedRow.cells tracked ⟨front, back⟩, Cells.ofTagged tracked (xs ++ junk)) =
      .ok (TaggedRow.cells tracked ⟨storeOwn xs start n front, storeOwn xs start n back⟩,
        Cells.ofTagged tracked (xs ++ junk)) := by
  have hstep : ∀ t (fs bs : List (κ × Tag ι)), fs.length = front.length → bs.length = back.length →
      (if t < xs.length then (do
          let cell ← (Cells.ofTagged tracked (xs ++ junk)).fetch t
          let cells ← (TaggedRow.cells tracked ⟨fs, bs⟩).modify .front (·.store (start + t) cell)
          let cells ← cells.modify .back (·.store (start + t) cell)
          return (cells, Cells.ofTagged tracked (xs ++ junk)))
        else .ok (TaggedRow.cells tracked ⟨fs, bs⟩, Cells.ofTagged tracked (xs ++ junk))) =
      (.ok (TaggedRow.cells tracked ⟨storePart xs start t fs, storePart xs start t bs⟩,
        Cells.ofTagged tracked (xs ++ junk)) : Outcome _) := by
    intro t fs bs hfs hbs
    split
    · rename_i ht
      have hfetch : (Cells.ofTagged tracked (xs ++ junk)).fetch t = .ok (Cells.cellOf tracked xs[t]) := by
        rw [Cells.fetch_ofTagged (by rw [List.length_append]; omega), List.getElem_append_left ht]
      have hfirst : (Cells.ofTagged tracked fs).store (start + t) (Cells.cellOf tracked xs[t]) = .ok _ :=
        Cells.store_ofTagged (by omega) xs[t]
      have hsecond : (Cells.ofTagged tracked bs).store (start + t) (Cells.cellOf tracked xs[t]) = .ok _ :=
        Cells.store_ofTagged (by omega) xs[t]
      simp only [hfetch, Outcome.ok_bind, TaggedRow.cells, DoubleBuffer.map, storePart, List.getElem?_eq_getElem ht]
      rw [DoubleBuffer.modify_front hfirst, Outcome.ok_bind, DoubleBuffer.modify_back hsecond]
      rfl
    · rename_i ht
      simp only [storePart, List.getElem?_eq_none (Nat.le_of_not_lt ht)]
  unfold storeTile onOwnPlaces
  rw [List.foldlM_cons, hstep _ _ _ rfl rfl, Outcome.ok_bind, List.foldlM_cons, hstep _ _ _ (by simp) (by simp)]
  rfl

end Lanes

/-! ### Phases -/

section Phases

variable {κ ι : Type} [KeyOrder κ]

/-- The phases of a block that sorts a tile. -/
def tilePhases (direction : Direction) (start count : Nat) : List (RowLane κ ι) :=
  loadTile start count :: (List.range count).map (exchangePair direction count) ++ [storeTile start count]

theorem length_tilePhases (direction : Direction) (start count : Nat) :
    (tilePhases direction start count : List (RowLane κ ι)).length = count + 2 := by
  simp [tilePhases]

theorem getElem?_tilePhases_round (direction : Direction) (start : Nat) {count round : Nat} (h : round + 1 ≤ count) :
    (tilePhases direction start count : List (RowLane κ ι))[round + 1]? = some (exchangePair direction count round) := by
  rw [tilePhases, List.cons_append, List.getElem?_cons_succ, List.getElem?_append_left (by simpa [Nat.succ_le_iff] using h),
    List.getElem?_map, List.getElem?_range h]
  rfl

theorem getElem?_tilePhases_last (direction : Direction) (start count : Nat) :
    (tilePhases direction start count : List (RowLane κ ι))[count + 1]? = some (storeTile start count) := by
  rw [tilePhases, List.cons_append, List.getElem?_cons_succ, List.getElem?_append_right (by simp)]
  simp

/-- The lane that has a place in a phase: in the first one its own places, in a round a pair. -/
def placeLane : Nat → Nat → Nat
  | 0, t => t / 2
  | round + 1, t => (t - round % 2) / 2

theorem placeLane_le (phase t : Nat) : placeLane phase t ≤ t / 2 := by
  cases phase with
  | zero => exact Nat.le_refl _
  | succ round => exact Nat.div_le_div_right (Nat.sub_le _ _)

variable (direction : Direction) (xs junk : List (κ × Tag ι))

/-- The scratch when a block enters a phase, until the tile is sorted. -/
def scratchAt : Nat → List (κ × Tag ι)
  | 0 => junk
  | round + 1 => transpositions (fun a b => direction.misplaced a.1 b.1) round xs ++ junk.drop xs.length

variable {junk}

theorem length_scratchAt (hroom : xs.length ≤ junk.length) (phase : Nat) :
    (scratchAt direction xs junk phase).length = junk.length := by
  cases phase with
  | zero => rfl
  | succ round =>
    have hlen : (transpositions (fun a b => direction.misplaced a.1 b.1) round xs).length = xs.length :=
      length_transpositions round xs
    rw [scratchAt, List.length_append, hlen, List.length_drop]
    omega

/-- Behind the tile nothing changes. -/
theorem getElem?_scratchAt_of_le (phase : Nat) {t : Nat} (ht : xs.length ≤ t) :
    (scratchAt direction xs junk phase)[t]? = junk[t]? := by
  cases phase with
  | zero => rfl
  | succ round =>
    have hlen : (transpositions (fun a b => direction.misplaced a.1 b.1) round xs).length = xs.length :=
      length_transpositions round xs
    rw [scratchAt, List.getElem?_append_right (by omega), List.getElem?_drop, hlen, Nat.add_sub_cancel' ht]

/-- A round is at every place of the scratch the exchange of the pair of the lane that has the place. -/
theorem getElem?_scratchAt_round (round t : Nat) :
    (scratchAt direction xs junk (round + 2))[t]? = (exchangeAt (fun a b => direction.misplaced a.1 b.1) xs.length
      (2 * placeLane (round + 1) t + round % 2) (scratchAt direction xs junk (round + 1)))[t]? := by
  have hlen : (transpositions (fun a b => direction.misplaced a.1 b.1) round xs).length = xs.length :=
    length_transpositions round xs
  generalize hpair : 2 * placeLane (round + 1) t + round % 2 = i
  rcases Nat.lt_or_ge t xs.length with ht | ht
  · have hleft : ∀ u < xs.length, (scratchAt direction xs junk (round + 1))[u]? =
        (transpositions (fun a b => direction.misplaced a.1 b.1) round xs)[u]? := by
      intro u hu
      rw [scratchAt, List.getElem?_append_left (by omega)]
    rw [scratchAt, List.getElem?_append_left (by rw [length_transpositions]; exact ht), transpositions_succ,
      getElem?_transpose, hlen, ← hpair]
    change (exchangeAt _ _ (2 * placeLane (round + 1) t + round % 2) _)[t]? = _
    rw [hpair]
    by_cases hi : i + 1 < xs.length
    · exact getElem?_exchangeAt_congr (hleft i (by omega)).symm (hleft (i + 1) hi).symm (hleft t ht).symm
    · rw [exchangeAt_of_le (Nat.le_of_not_lt hi), exchangeAt_of_le (Nat.le_of_not_lt hi)]
      exact (hleft t ht).symm
  · rw [getElem?_scratchAt_of_le direction xs _ ht]
    by_cases hi : i + 1 < xs.length
    · rw [getElem?_exchangeAt_of_ne (by omega) (by omega), getElem?_scratchAt_of_le direction xs _ ht]
    · rw [exchangeAt_of_le (Nat.le_of_not_lt hi), getElem?_scratchAt_of_le direction xs _ ht]

end Phases

/-! ### What is known of a block -/

section Known

variable {κ ι : Type} [IndexElement ι] [Element κ]

/-- The scratch of a block before it has loaded its tile. -/
def tileScratch (κ ι : Type) [IndexElement ι] [Element κ] (tile : Nat) : List (κ × Tag ι) :=
  List.replicate tile (Element.zero, .given Element.zero)

/-- What is known of a block that sorts a tile: until the last phase the tile is on the row as it was, and the scratch is
mixed; from then on the lanes that have acted have stored their places of the sorted tile on both sides. -/
inductive TileKnown (direction : Direction) (tracked : Bool) (tile start : Nat) (xs : List (κ × Tag ι)) :
    Option (Progress (RowCells κ ι) (Cells κ ι)) → TaggedRow κ ι → Prop where
  /-- The block has not started. -/
  | idle {row : TaggedRow κ ι} : (∀ t < xs.length, row.front[start + t]? = xs[t]?) →
      TileKnown direction tracked tile start xs none row
  /-- The block loads its tile, or sorts it. -/
  | sorting {row : TaggedRow κ ι} {phase : Nat} {waiting : List Nat} {now : List (κ × Tag ι)} : phase ≤ xs.length →
      (∀ t < xs.length, row.front[start + t]? = xs[t]?) →
      Mixed (fun t => placeLane phase t ∉ waiting) (scratchAt direction xs (tileScratch κ ι tile) phase)
        (scratchAt direction xs (tileScratch κ ι tile) (phase + 1)) now →
      TileKnown direction tracked tile start xs
        (some ⟨tilePhases direction start xs.length, phase, waiting, Cells.ofTagged tracked now⟩) row
  /-- The block stores the sorted tile. -/
  | storing {row : TaggedRow κ ι} {waiting : List Nat} :
      (∀ t < xs.length, t / 2 ∉ waiting → row.front[start + t]? = (sortTile direction xs)[t]? ∧
        row.back[start + t]? = (sortTile direction xs)[t]?) →
      TileKnown direction tracked tile start xs
        (some ⟨tilePhases direction start xs.length, xs.length + 1, waiting,
          Cells.ofTagged tracked (sortTile direction xs ++ (tileScratch κ ι tile).drop xs.length)⟩) row
  /-- The block has ended. -/
  | ended {row : TaggedRow κ ι} {waiting : List Nat} {scratch : Cells κ ι} :
      (∀ t < xs.length, row.front[start + t]? = (sortTile direction xs)[t]? ∧
        row.back[start + t]? = (sortTile direction xs)[t]?) →
      TileKnown direction tracked tile start xs
        (some ⟨tilePhases direction start xs.length, xs.length + 2, waiting, scratch⟩) row

variable {direction : Direction} {tracked : Bool} {tile start : Nat} {xs : List (κ × Tag ι)}
  {row row' : TaggedRow κ ι}

/-- What is known of a block depends on its tile of the row only. -/
theorem TileKnown.congr {state : Option (Progress (RowCells κ ι) (Cells κ ι))}
    (h : TileKnown direction tracked tile start xs state row)
    (hfront : ∀ t < xs.length, row'.front[start + t]? = row.front[start + t]?)
    (hback : ∀ t < xs.length, row'.back[start + t]? = row.back[start + t]?) :
    TileKnown direction tracked tile start xs state row' := by
  cases h with
  | idle htile => exact .idle fun t ht => (hfront t ht).trans (htile t ht)
  | sorting hphase htile hmixed => exact .sorting hphase (fun t ht => (hfront t ht).trans (htile t ht)) hmixed
  | storing hstored =>
    refine .storing fun t ht hwaiting => ?_
    rw [hfront t ht, hback t ht]
    exact hstored t ht hwaiting
  | ended hstored =>
    refine .ended fun t ht => ?_
    rw [hfront t ht, hback t ht]
    exact hstored t ht

/-- A block enters the phase in which it loads its tile, or a round. -/
theorem TileKnown.enter {lanes phase : Nat} (hlanes : 2 * lanes = tile) (hroom : xs.length ≤ tile)
    (hphase : phase ≤ xs.length) (htile : ∀ t < xs.length, row.front[start + t]? = xs[t]?) :
    TileKnown direction tracked tile start xs (some ⟨tilePhases direction start xs.length, phase, List.range lanes,
      Cells.ofTagged tracked (scratchAt direction xs (tileScratch κ ι tile) phase)⟩) row := by
  refine .sorting hphase htile (.start fun t hdone => ?_)
  have hlane := placeLane_le phase t
  rw [List.mem_range] at hdone
  rw [getElem?_scratchAt_of_le direction xs _ (by omega),
    getElem?_scratchAt_of_le direction xs _ (by omega)]

/-- A block starts, with a blank scratch. -/
theorem TileKnown.begin {lanes : Nat} (h : TileKnown direction tracked tile start xs none row) (hlanes : 2 * lanes = tile)
    (hroom : xs.length ≤ tile) :
    TileKnown direction tracked tile start xs (some ⟨tilePhases direction start xs.length, 0, List.range lanes,
      .blank tile Element.zero (if tracked then some Element.zero else none)⟩) row := by
  cases h with
  | idle htile =>
    rw [Cells.blank_eq_ofTagged]
    exact .enter hlanes hroom (Nat.zero_le _) htile

/-- A phase of a block ends. -/
theorem TileKnown.close {lanes : Nat} {progress : Progress (RowCells κ ι) (Cells κ ι)} (hlanes : 2 * lanes = tile)
    (hroom : xs.length ≤ tile) (h : TileKnown direction tracked tile start xs (some progress) row)
    (hphase : progress.phase < progress.phases.length) (hwaiting : progress.waiting = []) :
    TileKnown direction tracked tile start xs
      (some ⟨progress.phases, progress.phase + 1, List.range lanes, progress.scratch⟩) row := by
  cases h with
  | @sorting _ phase waiting now hle htile hmixed =>
    obtain rfl : waiting = [] := hwaiting
    obtain rfl := hmixed.eq_after fun _ => List.not_mem_nil
    rcases Nat.lt_or_ge phase xs.length with hlt | hge
    · exact .enter hlanes hroom hlt htile
    · obtain rfl : phase = xs.length := Nat.le_antisymm hle hge
      refine .storing fun t ht hdone => absurd (List.mem_range.mpr ?_) hdone
      omega
  | @storing _ waiting hstored =>
    obtain rfl : waiting = [] := hwaiting
    exact .ended fun t ht => hstored t ht List.not_mem_nil
  | ended =>
    rw [length_tilePhases] at hphase
    exact absurd hphase (Nat.lt_irrefl _)

/-- A block that has ended has stored its tile. -/
theorem TileKnown.stored {progress : Progress (RowCells κ ι) (Cells κ ι)}
    (h : TileKnown direction tracked tile start xs (some progress) row)
    (hphase : progress.phases.length ≤ progress.phase) :
    ∀ t < xs.length, row.front[start + t]? = (sortTile direction xs)[t]? ∧
      row.back[start + t]? = (sortTile direction xs)[t]? := by
  cases h with
  | @sorting _ phase _ _ hle =>
    rw [length_tilePhases] at hphase
    change xs.length + 2 ≤ phase at hphase
    omega
  | storing =>
    rw [length_tilePhases] at hphase
    exact absurd hphase (Nat.not_succ_le_self _)
  | ended hstored => exact hstored

section Lanes

variable {n : Nat} {waiting : List Nat} {now : List (κ × Tag ι)}

/-- A lane of the phase in which a tile is loaded. -/
theorem exists_load (hroom : xs.length ≤ tile) (htile : ∀ t < xs.length, row.front[start + t]? = xs[t]?)
    (hmixed : Mixed (fun t => placeLane 0 t ∉ waiting) (scratchAt direction xs (tileScratch κ ι tile) 0)
      (scratchAt direction xs (tileScratch κ ι tile) 1) now) (hlen : now.length = tile) (hn : n ∈ waiting) :
    ∃ now', loadTile start xs.length n (row.cells tracked, Cells.ofTagged tracked now) =
        .ok (row.cells tracked, Cells.ofTagged tracked now') ∧
      Mixed (fun t => placeLane 0 t ∉ waiting.filter (· ≠ n)) (scratchAt direction xs (tileScratch κ ι tile) 0)
        (scratchAt direction xs (tileScratch κ ι tile) 1) now' := by
  have hinside : 0 + xs.length ≤ now.length := by omega
  have hown := getElem?_storeOwn hinside n
  simp only [Nat.zero_add] at hown
  refine ⟨_, loadTile_eq_ok row (fun t ht => ?_) (by omega) n, hmixed.acted (fun t ht => ?_) fun t ht => ?_⟩
  · rw [htile t ht, List.getElem?_eq_getElem ht]
  · rw [placeLane] at ht
    rw [hown]
    by_cases hlt : t < xs.length
    · rw [if_pos ⟨ht, hlt⟩]
      exact (List.getElem?_append_left hlt).symm
    · have hbefore := (hmixed t).2 (not_not_intro (by rwa [placeLane, ht]))
      rw [if_neg fun h => hlt h.2, hbefore, getElem?_scratchAt_of_le direction xs _ (Nat.le_of_not_lt hlt),
        getElem?_scratchAt_of_le direction xs _ (Nat.le_of_not_lt hlt)]
  · rw [placeLane] at ht
    rw [hown, if_neg fun h => ht h.1]

/-- A lane of a round. -/
theorem exists_exchange {round : Nat} (cells : RowCells κ ι) (hroom : xs.length ≤ tile)
    (hmixed : Mixed (fun t => placeLane (round + 1) t ∉ waiting)
      (scratchAt direction xs (tileScratch κ ι tile) (round + 1))
      (scratchAt direction xs (tileScratch κ ι tile) (round + 2)) now) (hlen : now.length = tile) (hn : n ∈ waiting) :
    ∃ now', exchangePair direction xs.length round n (cells, Cells.ofTagged tracked now) =
        .ok (cells, Cells.ofTagged tracked now') ∧
      Mixed (fun t => placeLane (round + 1) t ∉ waiting.filter (· ≠ n))
        (scratchAt direction xs (tileScratch κ ι tile) (round + 1))
        (scratchAt direction xs (tileScratch κ ι tile) (round + 2)) now' := by
  have hbefore : ∀ t, placeLane (round + 1) t = n →
      now[t]? = (scratchAt direction xs (tileScratch κ ι tile) (round + 1))[t]? :=
    fun t ht => (hmixed t).2 (not_not_intro (by rwa [ht]))
  have hfirst : placeLane (round + 1) (2 * n + round % 2) = n := by
    rw [placeLane]
    omega
  have hsecond : placeLane (round + 1) (2 * n + round % 2 + 1) = n := by
    rw [placeLane]
    omega
  refine ⟨_, exchangePair_eq_exchangeAt tracked direction round n cells (by omega),
    hmixed.acted (fun t ht => ?_) fun t ht => ?_⟩
  · rw [getElem?_scratchAt_round, ht]
    exact getElem?_exchangeAt_congr (hbefore _ hfirst) (hbefore _ hsecond) (hbefore t ht)
  · refine getElem?_exchangeAt_of_ne ?_ ?_
    · rintro rfl
      exact ht hfirst
    · rintro rfl
      exact ht hsecond

/-- A lane of a phase in which a tile is loaded or sorted. -/
theorem exists_sort {phase : Nat} {action : RowLane κ ι} (hroom : xs.length ≤ tile) (hphase : phase ≤ xs.length)
    (htile : ∀ t < xs.length, row.front[start + t]? = xs[t]?)
    (hmixed : Mixed (fun t => placeLane phase t ∉ waiting) (scratchAt direction xs (tileScratch κ ι tile) phase)
      (scratchAt direction xs (tileScratch κ ι tile) (phase + 1)) now)
    (haction : (tilePhases direction start xs.length)[phase]? = some action) (hn : n ∈ waiting) :
    ∃ now', action n (row.cells tracked, Cells.ofTagged tracked now) =
        .ok (row.cells tracked, Cells.ofTagged tracked now') ∧
      Mixed (fun t => placeLane phase t ∉ waiting.filter (· ≠ n)) (scratchAt direction xs (tileScratch κ ι tile) phase)
        (scratchAt direction xs (tileScratch κ ι tile) (phase + 1)) now' := by
  have hscratch : (tileScratch κ ι tile).length = tile := List.length_replicate
  have hphases : ∀ phase, (scratchAt direction xs (tileScratch κ ι tile) phase).length = tile := fun phase => by
    rw [length_scratchAt direction xs (by omega), hscratch]
  have hlen : now.length = tile := by rw [hmixed.length_eq (by rw [hphases, hphases]), hphases]
  cases phase with
  | zero =>
    cases haction
    exact exists_load hroom htile hmixed hlen hn
  | succ round =>
    rw [getElem?_tilePhases_round direction start hphase] at haction
    cases haction
    exact exists_exchange _ hroom hmixed hlen hn

/-- A lane of the phase in which the sorted tile is stored. -/
theorem TileKnown.store {action : RowLane κ ι} (hfront : start + xs.length ≤ row.front.length)
    (hback : start + xs.length ≤ row.back.length)
    (hstored : ∀ t < xs.length, t / 2 ∉ waiting → row.front[start + t]? = (sortTile direction xs)[t]? ∧
      row.back[start + t]? = (sortTile direction xs)[t]?)
    (haction : (tilePhases direction start xs.length)[xs.length + 1]? = some action) :
    action n (row.cells tracked,
        Cells.ofTagged tracked (sortTile direction xs ++ (tileScratch κ ι tile).drop xs.length)) =
      .ok (TaggedRow.cells tracked ⟨storeOwn (sortTile direction xs) start n row.front,
          storeOwn (sortTile direction xs) start n row.back⟩,
        Cells.ofTagged tracked (sortTile direction xs ++ (tileScratch κ ι tile).drop xs.length)) ∧
    TileKnown direction tracked tile start xs (some ⟨tilePhases direction start xs.length, xs.length + 1,
        waiting.filter (· ≠ n), Cells.ofTagged tracked (sortTile direction xs ++ (tileScratch κ ι tile).drop xs.length)⟩)
      ⟨storeOwn (sortTile direction xs) start n row.front, storeOwn (sortTile direction xs) start n row.back⟩ := by
  have hlen := length_sortTile direction xs
  rw [getElem?_tilePhases_last] at haction
  cases haction
  rw [← hlen] at hfront hback
  constructor
  · have hstore : storeTile start (sortTile direction xs).length n (TaggedRow.cells tracked ⟨row.front, row.back⟩, _) =
        .ok _ := storeTile_eq_ok hfront hback ((tileScratch κ ι tile).drop xs.length) n
    rwa [hlen] at hstore
  · refine .storing fun t ht hwaiting => ?_
    rw [getElem?_storeOwn hfront, getElem?_storeOwn hback]
    by_cases hn : t / 2 = n
    · rw [if_pos ⟨hn, by omega⟩, if_pos ⟨hn, by omega⟩]
      exact ⟨rfl, rfl⟩
    · rw [if_neg fun h => hn h.1, if_neg fun h => hn h.1]
      exact hstored t ht fun hmem => hwaiting (List.mem_filter.mpr ⟨hmem, by simpa using hn⟩)

/-- A lane of a block, in any phase: it leaves the row outside the tile as it was. -/
theorem TileKnown.act {progress : Progress (RowCells κ ι) (Cells κ ι)} {action : RowLane κ ι}
    (h : TileKnown direction tracked tile start xs (some progress) row) (hroom : xs.length ≤ tile)
    (hfront : start + xs.length ≤ row.front.length) (hback : start + xs.length ≤ row.back.length)
    (haction : progress.phases[progress.phase]? = some action) (hn : n ∈ progress.waiting) :
    ∃ row' scratch, action n (row.cells tracked, progress.scratch) = .ok (TaggedRow.cells tracked row', scratch) ∧
      row'.front.length = row.front.length ∧ row'.back.length = row.back.length ∧
      TileKnown direction tracked tile start xs (some (progress.acted n scratch)) row' ∧
      ∀ p, (∀ t < xs.length, p ≠ start + t) → row'.front[p]? = row.front[p]? ∧ row'.back[p]? = row.back[p]? := by
  cases h with
  | sorting hphase htile hmixed =>
    obtain ⟨now', hact, hmixed'⟩ := exists_sort hroom hphase htile hmixed haction hn
    exact ⟨row, _, hact, rfl, rfl, .sorting hphase htile hmixed', fun _ _ => ⟨rfl, rfl⟩⟩
  | storing hstored =>
    obtain ⟨hact, hnew⟩ := TileKnown.store (n := n) hfront hback hstored haction
    have hlen := length_sortTile direction xs
    rw [← hlen] at hfront hback
    refine ⟨_, _, hact, length_storeOwn _ _ _ _, length_storeOwn _ _ _ _, hnew, fun p hp => ?_⟩
    rw [← hlen] at hp
    exact ⟨getElem?_storeOwn_of_ne hfront n hp, getElem?_storeOwn_of_ne hback n hp⟩
  | ended =>
    rw [List.getElem?_eq_none (Nat.le_of_eq (length_tilePhases _ _ _))] at haction
    cases haction

end Lanes

end Known

/-! ### Blocks -/

section Blocks

variable {κ ι : Type} [IndexElement ι] [Element κ] {tracked : Bool} {tile size : Nat} {grid : Grid} {row : TaggedRow κ ι}

omit [IndexElement ι] [Element κ] in
theorem length_chunk_le (tile number : Nat) (xs : List (κ × Tag ι)) : (chunk tile xs number).length ≤ tile := by
  rw [length_chunk]
  exact Nat.min_le_left _ _

/-- The blocks that sort the tiles of a row keep up what is known of them. -/
theorem keeps_tileKnown (direction : Direction) (h : row.HasLength size) (hlanes : 2 * grid.lanes.toNat = tile)
    (hinside : ∀ number < grid.blocksPerRow.toNat, number * tile < size) :
    Keeps ((List.range grid.blocksPerRow.toNat).map (tileBlock direction tile size grid tracked))
      (TaggedRow.cells tracked) (·.HasLength size)
      fun number => TileKnown direction tracked tile (number * tile) (chunk tile row.front number) := by
  have hroom : ∀ number, (chunk tile row.front number).length ≤ tile := fun number => length_chunk_le tile number _
  have hcount : ∀ number, (chunk tile row.front number).length = min tile (size - number * tile) := by
    intro number
    rw [length_chunk, h.front]
  constructor
  case start =>
    intro g number block _ hblock hknown
    obtain ⟨hnumber, rfl⟩ := getElem?_map_range_eq_some.mp hblock
    have hphases : (tileBlock direction tile size grid tracked number).phases (g.cells tracked) = _ :=
      phases_tileBlock direction tracked (hinside number hnumber) (g.cells tracked)
    rw [← hcount number] at hphases
    exact ⟨_, hphases, hknown.begin hlanes (hroom number)⟩
  case lane =>
    intro g number block progress action n hwhole hblock hknown haction hn _
    obtain ⟨hnumber, rfl⟩ := getElem?_map_range_eq_some.mp hblock
    have hend : number * tile + (chunk tile row.front number).length ≤ size := by
      have hstart := hinside number hnumber
      rw [hcount]
      omega
    obtain ⟨g', scratch, hact, hfront, hback, hnew, hothers⟩ :=
      hknown.act (hroom number) (hwhole.front ▸ hend) (hwhole.back ▸ hend) haction hn
    refine ⟨g', scratch, hact, ⟨hfront.trans hwhole.front, hback.trans hwhole.back⟩, hnew,
      fun other hother state hstate => ?_⟩
    have hplaces : ∀ t < (chunk tile row.front other).length, ∀ u < (chunk tile row.front number).length,
        other * tile + t ≠ number * tile + u := fun t ht u hu heq =>
      hother (place_inj (Nat.lt_of_lt_of_le ht (hroom other)) (Nat.lt_of_lt_of_le hu (hroom number)) heq).1
    exact hstate.congr (fun t ht => (hothers _ (hplaces t ht)).1) fun t ht => (hothers _ (hplaces t ht)).2
  case close =>
    intro g number block progress _ hblock hknown hphase hwaiting
    obtain ⟨-, rfl⟩ := getElem?_map_range_eq_some.mp hblock
    exact hknown.close hlanes (hroom number) hphase hwaiting

omit [IndexElement ι] in
/-- A place of sorted tiles. -/
theorem getElem?_sortTiles (direction : Direction) (xs : List (κ × Tag ι)) {tiles number t : Nat} (hnumber : number < tiles)
    (ht : t < tile) :
    (sortTiles direction tile xs tiles)[number * tile + t]? = (sortTile direction (chunk tile xs number))[t]? := by
  have hparts : ∀ k < tiles, (sortTile direction (chunk tile xs k)).length = min tile (xs.length - k * tile) := by
    intro k _
    rw [length_sortTile, length_chunk]
  rw [← getElem?_chunk ht, sortTiles, chunk_flatMap hparts hnumber]

/-- The blocks that sort the tiles of a row, in any order. -/
theorem leads_tiles (direction : Direction) (h : row.HasLength size) (hlanes : 2 * grid.lanes.toNat = tile)
    (hcovers : size ≤ grid.blocksPerRow.toNat * tile)
    (hinside : ∀ number < grid.blocksPerRow.toNat, number * tile < size) :
    (RowWork.ofBlocks ((List.range grid.blocksPerRow.toNat).map (tileBlock direction tile size grid tracked))
      (row.cells tracked)).Leads
        (TaggedRow.cells tracked (.both (sortTiles direction tile row.front grid.blocksPerRow.toNat))) := by
  refine (keeps_tileKnown direction h hlanes hinside).leads h (fun number block _ => .idle fun t ht => ?_)
    fun g hwhole hended => ?_
  · rw [getElem?_chunk (Nat.lt_of_lt_of_le ht (length_chunk_le tile number _))]
  · have hsorted : ∀ p : Nat, g.front[p]? = (sortTiles direction tile row.front grid.blocksPerRow.toNat)[p]? ∧
        g.back[p]? = (sortTiles direction tile row.front grid.blocksPerRow.toNat)[p]? := by
      intro p
      rcases Nat.lt_or_ge p size with hp | hp
      · have htile : 0 < tile := Nat.pos_of_ne_zero fun hzero => by
          rw [hzero, Nat.mul_zero] at hcovers
          omega
        have hnumber : p / tile < grid.blocksPerRow.toNat := Nat.div_lt_of_lt_mul (by rw [Nat.mul_comm]; omega)
        have hmod : p % tile < tile := Nat.mod_lt p htile
        obtain ⟨progress, hphase, hknown⟩ :=
          hended (p / tile) (tileBlock direction tile size grid tracked (p / tile)) (by simp [hnumber])
        rw [← Nat.div_add_mod' p tile] at hp ⊢
        generalize p / tile = number at hp hnumber hknown ⊢
        generalize p % tile = t at hp hmod ⊢
        have ht : t < (chunk tile row.front number).length := by
          rw [length_chunk, h.front]
          omega
        rw [getElem?_sortTiles direction row.front hnumber hmod]
        exact hknown.stored hphase t ht
      · have hlen : (sortTiles direction tile row.front grid.blocksPerRow.toNat).length = size := by
          rw [length_sortTiles, h.front]
          exact Nat.min_eq_right hcovers
        rw [List.getElem?_eq_none (hwhole.front ▸ hp), List.getElem?_eq_none (hlen ▸ hp),
          List.getElem?_eq_none (hwhole.back ▸ hp)]
        exact ⟨rfl, rfl⟩
    obtain ⟨front, back⟩ := g
    obtain rfl : front = _ := List.ext_getElem? fun p => (hsorted p).1
    obtain rfl : back = _ := List.ext_getElem? fun p => (hsorted p).2
    rfl

end Blocks

end MergePathSort
