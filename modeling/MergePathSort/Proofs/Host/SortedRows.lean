import Mathlib
import MergePathSort.Proofs.Host.Merges
import MergePathSort.Proofs.Host.Tiles
import MergePathSort.Proofs.Merge.Sequential
import MergePathSort.Proofs.Sorted.Runs
import MergePathSort.Proofs.Sorted.Stability

/-!
# What the two sorting stages leave in a row

The blocks that sort the tiles of a row leave every tile as its stable sort, on both sides of the row. The blocks of a
merge pass leave every segment as the stable merge of its two runs on the other side, and the side that they read as it
was. Both are said of the buffers of a row as they are, whatever they held before: a buffer is read as the list of its
cells, so that an index which moves with its key is part of what is sorted.

Every tile and every segment is looked at by itself. The keys of one need not be comparable to those of another, and one
whose keys cannot be ordered does not disturb its neighbours.

## Main definitions

* `Cells.entries`, `Cells.HasLength`, `RowCells.HasLength` : the cells of a buffer, and how many there are.
* `Direction.Sorted` : keys in order, whatever stands beside them.

## Main results

* `chunk_sortTiles`, `chunk_mergePass` : a tile and a segment of a row, as the two stages leave them.
* `exists_runAll_tiles_mergeSort` : the blocks that sort the tiles of a row.
* `exists_runAll_merges_merge` : the blocks of a merge pass on a row.
-/

namespace MergePathSort

variable {α κ ι : Type}

/-! ### The cells of a row -/

namespace Cells

/-- The cells of a buffer in order, every key with its index if there are indices. -/
def entries (cells : Cells κ ι) : List (Cell κ ι) :=
  match cells.indices with
  | none => cells.keys.toList.map fun key => (key, none)
  | some indices => cells.keys.toList.zip (indices.toList.map some)

/-- A buffer holds a number of keys, and as many indices if they are tracked. -/
structure HasLength (cells : Cells κ ι) (tracked : Bool) (size : Nat) : Prop where
  /-- The keys. -/
  keys : cells.keys.size = size
  /-- The indices. -/
  indices : cells.indices.map Array.size = if tracked then some size else none

variable {cells : Cells κ ι} {tracked : Bool} {size : Nat}

/-- A buffer of some length is a list of tagged keys. -/
theorem HasLength.exists_ofTagged [IndexElement ι] (h : cells.HasLength tracked size) :
    ∃ xs : List (κ × Tag ι), xs.length = size ∧ cells = ofTagged tracked xs := by
  obtain ⟨keys, indices⟩ := cells
  obtain ⟨hkeys, hindices⟩ := h
  cases tracked with
  | false =>
    obtain rfl : indices = none := Option.map_eq_none_iff.mp hindices
    refine ⟨keys.toList.map fun key => (key, .position 0), by simpa using hkeys, ?_⟩
    simp [ofTagged, Function.comp_def]
  | true =>
    obtain ⟨indices, rfl, hsize⟩ := Option.map_eq_some_iff.mp hindices
    simp only at hkeys
    have hlen : keys.toList.length = (indices.toList.map (Tag.given (ι := ι))).length := by
      simp [hkeys, hsize]
    have htags : (keys.toList.zip (indices.toList.map Tag.given)).map (·.2.index) = indices.toList := by
      have := congrArg (List.map Tag.index) (List.map_snd_zip (Nat.le_of_eq hlen.symm))
      simpa [Function.comp_def, Tag.index] using this
    refine ⟨keys.toList.zip (indices.toList.map .given), by simp [hkeys, hsize], ?_⟩
    simp [ofTagged, htags, List.map_fst_zip (Nat.le_of_eq hlen)]

variable [IndexElement ι] {xs : List (κ × Tag ι)}

theorem hasLength_ofTagged : (ofTagged tracked xs).HasLength tracked xs.length := by
  refine ⟨size_keys_ofTagged, ?_⟩
  cases tracked <;> simp [ofTagged]

/-- The cells of a buffer are those of its tagged keys. -/
theorem entries_ofTagged : (ofTagged tracked xs).entries = xs.map (cellOf tracked) := by
  cases tracked with
  | false => simp [ofTagged, entries, cellOf, Function.comp_def]
  | true => simp [ofTagged, entries, cellOf, List.zip_map', Function.comp_def]

end Cells

/-- Both sides of a row hold as many cells as the row is long. -/
structure RowCells.HasLength (row : RowCells κ ι) (tracked : Bool) (size : Nat) : Prop where
  /-- The front side. -/
  front : row.front.HasLength tracked size
  /-- The back side. -/
  back : row.back.HasLength tracked size

/-- A row is a pair of lists of tagged keys. -/
theorem RowCells.HasLength.exists_cells [IndexElement ι] {row : RowCells κ ι} {tracked : Bool} {size : Nat}
    (h : row.HasLength tracked size) :
    ∃ tagged : TaggedRow κ ι, tagged.HasLength size ∧ row = tagged.cells tracked := by
  obtain ⟨front, hfront, heq⟩ := h.front.exists_ofTagged
  obtain ⟨back, hback, heq'⟩ := h.back.exists_ofTagged
  refine ⟨⟨front, back⟩, ⟨hfront, hback⟩, ?_⟩
  rw [TaggedRow.cells, DoubleBuffer.map, ← heq, ← heq']

/-! ### Tiles -/

/-- A tile of a row whose tiles are sorted. -/
theorem chunk_sortTiles [KeyOrder κ] (direction : Direction) {tile tiles : Nat} {cells : List (κ × α)}
    (hcovers : cells.length ≤ tiles * tile) (number : Nat) :
    chunk tile (sortTiles direction tile cells tiles) number = sortTile direction (chunk tile cells number) := by
  have hlen : ∀ k < tiles, (sortTile direction (chunk tile cells k)).length = min tile (cells.length - k * tile) := by
    intro k _
    rw [length_sortTile, length_chunk]
  rcases Nat.lt_or_ge number tiles with hnumber | hnumber
  · exact chunk_flatMap hlen hnumber
  · have hbehind : cells.length ≤ number * tile := Nat.le_trans hcovers (Nat.mul_le_mul_right tile hnumber)
    have hall := length_sortTiles direction tile cells tiles
    rw [chunk_eq_nil (by omega), chunk_eq_nil hbehind]
    rfl

/-- Keys that a direction can order are comparable. -/
theorem Direction.TotalPreorder.comparable [KeyOrder κ] [RankedOrder κ] {direction : Direction} {keys : List κ}
    (h : direction.TotalPreorder keys) : KeyOrder.Comparable keys := by
  obtain ⟨rank?, hrank⟩ := RankedOrder.exists_rank (κ := κ)
  -- A key that may stand before itself has a rank.
  have hsome : ∀ a ∈ keys, (rank? a).isSome := by
    intro a ha
    have hself : direction.mayPrecede a a = true := (h.total a ha a ha).elim id id
    rcases hx : rank? a with _ | x
    · cases direction <;> simp [Direction.mayPrecede, KeyOrder.le, hrank, hx] at hself
    · rfl
  intro a ha b hb
  obtain ⟨x, hx⟩ := Option.isSome_iff_exists.mp (hsome a ha)
  obtain ⟨y, hy⟩ := Option.isSome_iff_exists.mp (hsome b hb)
  rw [hrank, hx, hy]
  rfl

section Usage

variable {ρ τ : Type}

/-- A block uses one barrier less than it has phases. -/
theorem Block.used_of_run {block : Block ρ τ} {row row' : ρ} {used : Usage} {count : Nat}
    (hphases : ∀ phases, block.phases row = .ok phases → phases.length - 1 = count)
    (h : block.run row = .ok (row', used)) : used = ⟨1, count⟩ := by
  rw [run] at h
  obtain ⟨phases, hplan, h⟩ := Outcome.bind_eq_ok_iff.mp h
  obtain ⟨_, -, h⟩ := Outcome.bind_eq_ok_iff.mp h
  cases h
  rw [hphases phases hplan]

/-- Blocks one after the other use the barriers of all of them. -/
theorem Block.used_of_runAll {numbers : List α} {block : α → Block ρ τ} (barriers : α → Nat)
    (hused : ∀ n ∈ numbers, ∀ row row' used, (block n).run row = .ok (row', used) → used = ⟨1, barriers n⟩)
    {row row' : ρ} {used : Usage} (h : runAll (numbers.map block) row = .ok (row', used)) :
    used = ⟨numbers.length, (numbers.map barriers).sum⟩ := by
  induction numbers using List.reverseRecOn generalizing row' used with
  | nil =>
    cases h
    rfl
  | append_singleton numbers n ih =>
    rw [runAll_eq_foldlM_step, List.map_append, List.foldlM_append] at h
    obtain ⟨⟨mid, before⟩, hbefore, h⟩ := Outcome.bind_eq_ok_iff.mp h
    obtain rfl := ih (fun m hm => hused m (List.mem_append_left _ hm)) hbefore
    rw [List.map_singleton, List.foldlM_cons] at h
    obtain ⟨⟨last, _⟩, hlast, h⟩ := Outcome.bind_eq_ok_iff.mp h
    cases h
    obtain ⟨⟨_, more⟩, hrun, hmore⟩ := Outcome.bind_eq_ok_iff.mp hlast
    cases hmore
    obtain rfl := hused n (List.mem_append_right _ List.mem_cons_self) _ _ _ hrun
    rw [List.map_append, List.map_singleton, List.sum_append, List.sum_singleton, List.length_append]
    rfl

end Usage

/-- The phases of a block that sorts a tile: it loads and stores the tile, and goes through as many rounds in between
as the tile has elements. -/
theorem length_phases_tileBlock [Element κ] [IndexElement ι] {direction : Direction} {tile size number : Nat}
    {grid : Grid} {tracked : Bool} {row : RowCells κ ι} {phases : List (RowLane κ ι)}
    (h : (tileBlock direction tile size grid tracked number).phases row = .ok phases) :
    phases.length = min tile (size - number * tile) + 1 + 1 := by
  obtain ⟨left, hleft, h⟩ := Outcome.bind_eq_ok_iff.mp h
  obtain ⟨-, rfl⟩ := Size.sub_eq_ok_iff.mp hleft
  cases h
  simp

/-- A block that sorts a tile passes a barrier behind the loading of the tile and behind each round. -/
theorem used_of_run_tileBlock [Element κ] [IndexElement ι] {direction : Direction} {tile size number : Nat}
    {grid : Grid} {tracked : Bool} {row row' : RowCells κ ι} {used : Usage}
    (h : (tileBlock direction tile size grid tracked number).run row = .ok (row', used)) :
    used = ⟨1, min tile (size - number * tile) + 1⟩ := by
  refine Block.used_of_run (fun phases hphases => ?_) h
  rw [length_phases_tileBlock hphases, Nat.add_sub_cancel]

/-- All rounds of all tiles of a row, and one barrier behind the loading of each. -/
theorem sum_tile_barriers {tile size tiles : Nat} (hcovers : size ≤ tiles * tile) :
    ((List.range tiles).map fun number => min tile (size - number * tile) + 1).sum = size + tiles := by
  have hsum : ∀ count, ((List.range count).map fun number => min tile (size - number * tile) + 1).sum =
      min (count * tile) size + count := by
    intro count
    induction count with
    | zero => simp
    | succ count ih =>
      rw [List.range_succ, List.map_append, List.sum_append, ih, List.map_singleton, List.sum_singleton, Nat.succ_mul]
      omega
  rw [hsum, Nat.min_eq_right hcovers]

/-- The blocks that sort the tiles of a row, for every tile of an even length, be it a power of two or not, and for rows
of any length: they leave the same cells on both sides, and every tile whose keys can be ordered holds the stable sort of
what it held on the front side, every index with its key. Each tile takes one round for each of its elements, a last one
that is cut off as well, and there is a barrier behind the loading of a tile and behind each round. -/
theorem exists_runAll_tiles_mergeSort [Element κ] [RankedOrder κ] [IndexElement ι] (direction : Direction)
    {tuning : Tuning} {size rows : Nat} {grid : Grid} (heven : tuning.tile.toNat % 2 = 0)
    (hgrid : Grid.perTile size rows tuning = .ok grid) {tracked : Bool} {row : RowCells κ ι}
    (hrow : row.HasLength tracked size) :
    ∃ sorted : Cells κ ι, Block.runAll ((List.range grid.blocksPerRow.toNat).map
        (tileBlock direction tuning.tile.toNat size grid tracked)) row =
          .ok (.both sorted, ⟨grid.blocksPerRow.toNat, size + grid.blocksPerRow.toNat⟩) ∧
      sorted.HasLength tracked size ∧
      ∀ number, direction.TotalPreorder ((chunk tuning.tile.toNat row.front.entries number).map Prod.fst) →
        chunk tuning.tile.toNat sorted.entries number =
          (chunk tuning.tile.toNat row.front.entries number).mergeSort fun a b => direction.mayPrecede a.1 b.1 := by
  obtain ⟨hlanes, hblocks, -⟩ := Grid.perTile_eq_ok hgrid
  obtain ⟨htile, hcovers, hinside⟩ := Size.divCeil_eq_ok hblocks
  have hdouble : 2 * grid.lanes.toNat = tuning.tile.toNat := by
    rw [hlanes, Tuning.lanesPerTile, UInt32.toNat_div]
    exact Nat.mul_div_cancel' (Nat.dvd_of_mod_eq_zero heven)
  obtain ⟨tagged, htagged, rfl⟩ := hrow.exists_cells
  obtain ⟨used, hrun⟩ : ∃ used, Block.runAll _ (tagged.cells tracked) = .ok (_, used) :=
    exists_runAll_tiles direction htagged hdouble hcovers hinside
  have hused := Block.used_of_runAll _ (fun number _ row row' used => used_of_run_tileBlock) hrun
  rw [sum_tile_barriers hcovers, List.length_range] at hused
  subst hused
  have hlen := length_sortTiles direction tuning.tile.toNat tagged.front grid.blocksPerRow.toNat
  rw [htagged.front, Nat.min_eq_right hcovers] at hlen
  refine ⟨Cells.ofTagged tracked (sortTiles direction tuning.tile.toNat tagged.front grid.blocksPerRow.toNat), hrun,
    hlen ▸ Cells.hasLength_ofTagged, fun number hordered => ?_⟩
  have hentries : (tagged.cells tracked).front.entries = tagged.front.map (Cells.cellOf tracked) :=
    Cells.entries_ofTagged
  rw [hentries] at hordered ⊢
  obtain ⟨rank, hrank⟩ := hordered.comparable.exists_ranks direction
  rw [Cells.entries_ofTagged, ← map_chunk, chunk_sortTiles direction (by rw [htagged.front]; exact hcovers),
    ← sortTile_eq_mergeSort hrank, ← map_chunk]
  exact map_sortTile direction (Cells.cellOf tracked) (fun _ => rfl) (chunk tuning.tile.toNat tagged.front number)

/-- Two tiles, the second cut off behind three elements with a tie in it, and with indices. -/
theorem exists_runAll_tiles_cut_off :
    ∃ sorted : Cells Int32 UInt32, Block.runAll ((List.range 2).map (tileBlock .descending 4 7 ⟨2, 2, 1⟩ true))
        ⟨⟨#[3, 1, 3, 2, 5, 7, 5], some #[10, 11, 12, 13, 14, 15, 16]⟩, .blank 7 0 (some 0)⟩ =
          .ok (.both sorted, ⟨2, 9⟩) ∧
      chunk 4 sorted.entries 1 = [(7, some 15), (5, some 14), (5, some 16)] ∧
      ([(5, some 14), (7, some 15), (5, some 16)] : List (Cell Int32 UInt32)).mergeSort
        (fun a b => Direction.descending.mayPrecede a.1 b.1) = [(7, some 15), (5, some 14), (5, some 16)] := by
  have hgrid : Grid.perTile 7 1 { tile := 4 } = .ok ⟨2, 2, 1⟩ := rfl
  have hrow : RowCells.HasLength (⟨⟨#[3, 1, 3, 2, 5, 7, 5], some #[10, 11, 12, 13, 14, 15, 16]⟩,
      .blank 7 0 (some 0)⟩ : RowCells Int32 UInt32) true 7 := ⟨⟨rfl, rfl⟩, ⟨rfl, rfl⟩⟩
  obtain ⟨sorted, hrun, -, hsorted⟩ := exists_runAll_tiles_mergeSort .descending (by decide) hgrid hrow
  have hblocks : Block.runAll ((List.range 2).map (tileBlock .descending 4 7 ⟨2, 2, 1⟩ true))
      (⟨⟨#[3, 1, 3, 2, 5, 7, 5], some #[10, 11, 12, 13, 14, 15, 16]⟩, .blank 7 0 (some 0)⟩ : RowCells Int32 UInt32) =
        .ok (.both ⟨#[3, 3, 2, 1, 7, 5, 5], some #[10, 12, 13, 11, 15, 14, 16]⟩, ⟨2, 9⟩) := by rfl
  obtain rfl : ⟨#[3, 3, 2, 1, 7, 5, 5], some #[10, 12, 13, 11, 15, 14, 16]⟩ = sorted :=
    congrArg (fun done : RowCells Int32 UInt32 × Usage => done.1.front) (Except.ok.inj (hblocks.symm.trans hrun))
  exact ⟨_, hblocks, rfl, (hsorted 1 (by decide)).symm⟩

/-! ### Merge passes -/

/-- Keys stand in order, whatever stands beside them. -/
def Direction.Sorted [KeyOrder κ] (direction : Direction) (cells : List (κ × α)) : Prop :=
  cells.Pairwise fun a b => direction.mayPrecede a.1 b.1 = true

instance [KeyOrder κ] (direction : Direction) (cells : List (κ × α)) : Decidable (direction.Sorted cells) :=
  inferInstanceAs (Decidable (List.Pairwise _ _))

/-- A chunk, from its start to its stop. -/
theorem drop_take_eq_chunk {width number start stop : Nat} {xs : List α} (hstart : start = min (number * width) xs.length)
    (hstop : stop = min (number * width + width) xs.length) :
    (xs.drop start).take (stop - start) = chunk width xs number := by
  rcases Nat.lt_or_ge (number * width) xs.length with hinside | hbehind
  · rw [chunk, hstart, Nat.min_eq_left (Nat.le_of_lt hinside), List.take_eq_take_iff, List.length_drop]
    omega
  · rw [chunk_eq_nil hbehind, List.drop_of_length_le (by omega), List.take_nil]

section Segments

variable {cells : List (κ × α)} {width number : Nat}

/-- Both runs of a segment, and the segment. -/
theorem drop_take_segmentAt (heven : width % 2 = 0) (hnumber : width * number < cells.length) :
    (cells.drop (segmentAt width cells.length number).start).take
        ((segmentAt width cells.length number).middle - (segmentAt width cells.length number).start) =
          chunk (width / 2) cells (2 * number) ∧
      (cells.drop (segmentAt width cells.length number).middle).take
        ((segmentAt width cells.length number).stop - (segmentAt width cells.length number).middle) =
          chunk (width / 2) cells (2 * number + 1) ∧
      (cells.drop (segmentAt width cells.length number).start).take
        ((segmentAt width cells.length number).stop - (segmentAt width cells.length number).start) =
          chunk width cells number := by
  obtain ⟨half, rfl⟩ : ∃ half, width = 2 * half := ⟨width / 2, by omega⟩
  have hhalf : 2 * half / 2 = half := Nat.mul_div_cancel_left half (by decide)
  have hstart : 2 * number * half = 2 * half * number := by ac_rfl
  have hsecond : (2 * number + 1) * half = 2 * half * number + half := by rw [Nat.succ_mul, hstart]
  have hthird : number * (2 * half) = 2 * half * number := Nat.mul_comm _ _
  rw [hhalf]
  refine ⟨drop_take_eq_chunk ?_ ?_, drop_take_eq_chunk ?_ ?_, drop_take_eq_chunk ?_ ?_⟩ <;>
    simp only [segmentAt, hhalf] <;> omega

variable [KeyOrder κ] {direction : Direction}

/-- The runs of a segment are in order if the chunks that they are of the row are. -/
theorem runsSorted_segmentAt (heven : width % 2 = 0) (hnumber : width * number < cells.length)
    (hordered : direction.TotalPreorder ((chunk width cells number).map Prod.fst))
    (hleft : direction.Sorted (chunk (width / 2) cells (2 * number)))
    (hright : direction.Sorted (chunk (width / 2) cells (2 * number + 1))) :
    (segmentAt width cells.length number).RunsSorted direction (cells.map Prod.fst).toArray := by
  obtain ⟨hfirst, hsecond, hwhole⟩ := drop_take_segmentAt heven hnumber
  have hextract : ∀ start stop, (((cells.map Prod.fst).toArray.extract start stop).toList) =
      ((cells.drop start).take (stop - start)).map Prod.fst := by
    intro start stop
    rw [Array.toList_extract, List.extract_eq_take_drop, List.map_take, List.map_drop]
  refine ⟨?_, ?_, ?_⟩
  · rwa [hextract, hwhole]
  · rw [Direction.SortedBetween, hextract, hfirst, List.pairwise_map]
    exact hleft
  · rw [Direction.SortedBetween, hextract, hsecond, List.pairwise_map]
    exact hright

/-- The entries at the positions of one merge of a segment are the stable merge of its two runs, and in order. -/
theorem gather_order_eq_merge (heven : width % 2 = 0) (hnumber : width * number < cells.length)
    (hsorted : (segmentAt width cells.length number).RunsSorted direction (cells.map Prod.fst).toArray) :
    gather cells ((segmentAt width cells.length number).runs.order (precedesIn direction cells)) =
        List.merge (chunk (width / 2) cells (2 * number)) (chunk (width / 2) cells (2 * number + 1))
          (fun a b => direction.mayPrecede a.1 b.1) ∧
      direction.Sorted (gather cells ((segmentAt width cells.length number).runs.order (precedesIn direction cells))) := by
  obtain ⟨hfirst, hsecond, -⟩ := drop_take_segmentAt heven hnumber
  have hfits : (segmentAt width cells.length number).Fits cells.length := segmentAt_fits (Nat.le_of_lt hnumber)
  have hsize : (cells.map Prod.fst).toArray.size = cells.length := by simp
  constructor
  · obtain ⟨hstart, hmiddle, hstop⟩ := hfits
    rw [← hfirst, ← hsecond, Run.order]
    have hleft : (segmentAt width cells.length number).runs.leftStop = (segmentAt width cells.length number).middle :=
      Nat.add_sub_cancel' hstart
    have hright : (segmentAt width cells.length number).runs.rightStop = (segmentAt width cells.length number).stop :=
      Nat.add_sub_cancel' hmiddle
    rw [hleft, hright]
    exact gather_mergeOrder_eq_merge (Nat.le_trans hmiddle hstop) hstop (fun i j hi hj => precedesIn_eq hi hj) rfl
  · rw [Direction.Sorted, gather, List.pairwise_filterMap]
    refine (hsorted.pairwise_order (hsize.symm ▸ hfits)).imp fun {i j} hij a ha b hb => ?_
    obtain ⟨hi, rfl⟩ := List.getElem?_eq_some_iff.mp ha
    obtain ⟨hj, rfl⟩ := List.getElem?_eq_some_iff.mp hb
    rw [← precedesIn_eq hi hj]
    exact hij.2.1

/-- A segment of a row after a merge pass holds what the segment takes. -/
theorem chunk_mergePass_eq_gather {shape : MergeShape} (hcovers : shape.Covers cells.length)
    (hnumber : number < shape.segments.toNat) : chunk shape.width.toNat (mergePass direction shape cells) number =
      gather cells (shape.segmentSources (precedesIn direction cells) cells.length number) := by
  have hlen : ∀ k < shape.segments.toNat,
      (gather cells (shape.segmentSources (precedesIn direction cells) cells.length k)).length =
        min shape.width.toNat (cells.length - k * shape.width.toNat) := by
    intro k hk
    have hstart := hcovers.start_lt k hk
    have hinside : ∀ source ∈ shape.segmentSources (precedesIn direction cells) cells.length k,
        source < cells.length := fun source hsource =>
      MergeShape.mem_sources hcovers (List.mem_flatMap.mpr ⟨k, List.mem_range.mpr hk, hsource⟩)
    rw [length_gather hinside, MergeShape.length_segmentSources hcovers hk, Nat.mul_comm k]
    omega
  rw [mergePass, passSources, MergeShape.sources, gather_flatMap]
  exact chunk_flatMap hlen hnumber

/-- A segment of a row after a merge pass is the stable merge of its two runs, and in order. -/
theorem chunk_mergePass {shape : MergeShape} (hcovers : shape.Covers cells.length)
    (hordered : direction.TotalPreorder ((chunk shape.width.toNat cells number).map Prod.fst))
    (hleft : direction.Sorted (chunk (shape.width.toNat / 2) cells (2 * number)))
    (hright : direction.Sorted (chunk (shape.width.toNat / 2) cells (2 * number + 1))) :
    chunk shape.width.toNat (mergePass direction shape cells) number =
        List.merge (chunk (shape.width.toNat / 2) cells (2 * number))
          (chunk (shape.width.toNat / 2) cells (2 * number + 1)) (fun a b => direction.mayPrecede a.1 b.1) ∧
      direction.Sorted (chunk shape.width.toNat (mergePass direction shape cells) number) := by
  have heven := hcovers.even
  rcases Nat.lt_or_ge number shape.segments.toNat with hnumber | hnumber
  · have hstart := hcovers.start_lt number hnumber
    have hsorted := runsSorted_segmentAt heven hstart hordered hleft hright
    have hsize : (cells.map Prod.fst).toArray.size = cells.length := by simp
    have hfits : (segmentAt shape.width.toNat cells.length number).Fits cells.length :=
      segmentAt_fits (Nat.le_of_lt hstart)
    have hsources : shape.segmentSources (precedesIn direction cells) cells.length number =
        (segmentAt shape.width.toNat cells.length number).runs.order (precedesIn direction cells) := by
      refine Segment.sources_eq_order hfits (hsorted.monotone (hsize.symm ▸ hfits)) hcovers.shared ?_
      simp only [segmentAt]
      omega
    rw [chunk_mergePass_eq_gather hcovers hnumber, hsources]
    exact gather_order_eq_merge heven hstart hsorted
  · have hbehind : cells.length ≤ number * shape.width.toNat := by
      have hsize := hcovers.size_le
      rw [Nat.mul_comm] at hsize
      exact Nat.le_trans hsize (Nat.mul_le_mul_right _ hnumber)
    have hhalf : 2 * number * (shape.width.toNat / 2) = number * shape.width.toNat := by
      rw [Nat.mul_comm 2, Nat.mul_assoc, Nat.mul_div_cancel' (Nat.dvd_of_mod_eq_zero heven)]
    rw [chunk_eq_nil (by rw [length_mergePass hcovers]; exact hbehind), chunk_eq_nil (by omega),
      chunk_eq_nil (by rw [Nat.succ_mul]; omega)]
    exact ⟨(List.nil_merge []).symm, List.Pairwise.nil⟩

end Segments

/-- The blocks of a merge pass on a row, for every shape that is made for an even width and for rows of any length that
fit into memory, whichever side the pass reads. They leave that side as it was. On the other side they leave, for every
segment whose keys can be ordered and whose two runs are in order, the stable merge of both, every index with its key: the
segments fill the row, and the last ones may lack a part of a run or all of their second one. -/
theorem exists_runAll_merges_merge [KeyOrder κ] [IndexElement ι] (direction : Direction) (src : Side) {config : Config}
    {width size rows : Nat} {shape : MergeShape}
    (hshape : MergeShape.ofWidth width size rows config.limits config.tuning = .ok shape) (heven : width % 2 = 0)
    (hsize : size < Buffer.byteLimit) {tracked : Bool} {row : RowCells κ ι} (hrow : row.HasLength tracked size) :
    ∃ (merged : Cells κ ι) (used : Usage), Block.runAll ((List.range shape.segments.toNat).flatMap fun segment =>
        (List.range shape.blocksPerSegment.toNat).map (mergeBlock direction src shape size segment)) row =
          .ok (src.pair (row.get src) merged, used) ∧
      merged.HasLength tracked size ∧
      ∀ number, direction.TotalPreorder ((chunk width (row.get src).entries number).map Prod.fst) →
        direction.Sorted (chunk (width / 2) (row.get src).entries (2 * number)) →
        direction.Sorted (chunk (width / 2) (row.get src).entries (2 * number + 1)) →
        chunk width merged.entries number =
            List.merge (chunk (width / 2) (row.get src).entries (2 * number))
              (chunk (width / 2) (row.get src).entries (2 * number + 1)) (fun a b => direction.mayPrecede a.1 b.1) ∧
          direction.Sorted (chunk width merged.entries number) := by
  have hmade := MergeShape.made_of_ofWidth hshape
  have hcovers := hmade.covers heven
  obtain ⟨tagged, htagged, rfl⟩ := hrow.exists_cells
  obtain ⟨used, hrun⟩ : ∃ used, Block.runAll _ (tagged.cells tracked) = .ok (_, used) :=
    exists_runAll_merges direction src htagged hsize hcovers
  obtain rfl : (tagged.get src).length = size := htagged.get src
  have hentries : ((tagged.cells tracked).get src).entries = (tagged.get src).map (Cells.cellOf tracked) := by
    rw [TaggedRow.cells, DoubleBuffer.get_map, Cells.entries_ofTagged]
  have hmerged : (Cells.ofTagged tracked (mergePass direction shape (tagged.get src))).entries =
      mergePass direction shape ((tagged.cells tracked).get src).entries := by
    rw [Cells.entries_ofTagged, hentries, map_mergePass direction shape (Cells.cellOf tracked) fun _ => rfl]
  have hlen : (mergePass direction shape (tagged.get src)).length = (tagged.get src).length := length_mergePass hcovers
  refine ⟨Cells.ofTagged tracked (mergePass direction shape (tagged.get src)), used, ?_,
    hlen ▸ Cells.hasLength_ofTagged, ?_⟩
  · rw [hrun, TaggedRow.cells, TaggedRow.cells, Side.map_pair, DoubleBuffer.get_map]
  · intro number hordered hleft hright
    rw [hmerged]
    rw [← hmade.width_eq] at hordered hleft hright ⊢
    refine chunk_mergePass ?_ hordered hleft hright
    rwa [hentries, List.length_map]

/-- Two segments of two blocks each, the second without half of its second run and with a key that occurs in both
runs. -/
theorem exists_runAll_merges_cut_off :
    ∃ (config : Config) (shape : MergeShape) (merged : Cells Int32 UInt32) (used : Usage),
      MergeShape.ofWidth 4 7 1 config.limits config.tuning = .ok shape ∧
      Block.runAll ((List.range shape.segments.toNat).flatMap fun segment =>
          (List.range shape.blocksPerSegment.toNat).map (mergeBlock .ascending .back shape 7 segment))
        ⟨.blank 7 0 (some 0), ⟨#[8, 9, 0, 9, 3, 5, 3], some #[0, 1, 2, 3, 4, 5, 6]⟩⟩ =
          .ok (⟨merged, ⟨#[8, 9, 0, 9, 3, 5, 3], some #[0, 1, 2, 3, 4, 5, 6]⟩⟩, used) ∧
      chunk 4 merged.entries 0 = List.merge [(8, some 0), (9, some 1)] [(0, some 2), (9, some 3)]
        (fun a b => Direction.ascending.mayPrecede a.1 b.1) ∧
      chunk 4 merged.entries 1 = [(3, some 4), (3, some 6), (5, some 5)] := by
  have hshape : MergeShape.ofWidth 4 7 1
      ({ limits := { maxLanes := 1 }, tuning := { tile := 2, laneWork := 2 } } : Config).limits
      ({ limits := { maxLanes := 1 }, tuning := { tile := 2, laneWork := 2 } } : Config).tuning =
        .ok ⟨⟨1, 2, 2⟩, 4, 2, .manyBlocks 2 2⟩ := rfl
  have hrow : RowCells.HasLength (⟨.blank 7 0 (some 0),
      ⟨#[8, 9, 0, 9, 3, 5, 3], some #[0, 1, 2, 3, 4, 5, 6]⟩⟩ : RowCells Int32 UInt32) true 7 :=
    ⟨⟨rfl, rfl⟩, ⟨rfl, rfl⟩⟩
  obtain ⟨merged, used, hrun, -, hmerged⟩ := exists_runAll_merges_merge .ascending .back hshape rfl (by decide) hrow
  obtain ⟨hfirst, -⟩ := hmerged 0 (by decide) (by decide) (by decide)
  obtain ⟨hsecond, -⟩ := hmerged 1 (by decide) (by decide) (by decide)
  refine ⟨_, _, merged, used, hshape, hrun, hfirst, hsecond.trans ?_⟩
  change List.merge [(3, some 4), (5, some 5)] [(3, some 6)] _ = _
  rw [List.cons_merge_cons_pos _ _ _ (by decide), List.cons_merge_cons_neg _ _ _ (by decide), List.merge_right]

end MergePathSort
