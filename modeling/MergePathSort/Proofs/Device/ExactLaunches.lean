import MergePathSort.Proofs.Device.WrappedMerges
import MergePathSort.Proofs.Plan.Words

/-!
# Exact places of launches

A device counts places in words of 32 bits. As long as all rows of a program together have a word's number of elements,
every place that a thread of a launch computes is exact, and elements have places of their own. The extents of a program
are each checked to be words, but not the number of all elements. If there are as many of them as words, merges compute
wrong places at the end of the last row. If there are more, places of all launches wrap around, and elements of different
rows share one.

## Main definitions

* `Launch.PlacesExact` : all threads of a launch compute their places exactly.

## Main results

* `Launch.placesExact`, `Launch.exists_not_placesExact` : launches that compute their places exactly, and merges that do
  not.
* `Program.places_exact` : what is exact about the places of a program, and what is not.
-/

namespace MergePathSort

open PlaceNumber (ofWord)

namespace Places

/-! ### Copies and tiles -/

section Copies

variable {extents : DeviceExtents} {total : Nat} {threads tile x row thread : UInt32}

/-- An element of a row has an exact place. -/
theorem flatPlace_exact (htotal : extents.rows.toNat * extents.axisLen.toNat = total) (hword : total ≤ 4294967296)
    {pos : UInt32} (hrow : row < extents.rows) (hpos : pos < extents.axisLen) :
    integer row * integer extents.axisLen + integer pos = integer (row * extents.axisLen + pos) ∧
      (row * extents.axisLen + pos).toNat = row.toNat * extents.axisLen.toNat + pos.toNat ∧
      (row * extents.axisLen + pos).toNat < total := by
  have hplace := place_lt (UInt32.lt_iff_toNat_lt.mp hrow) (UInt32.lt_iff_toNat_lt.mp hpos)
  have hproduct := toNat_mul_word (a := row) (b := extents.axisLen) (by omega)
  have hsum := toNat_add_word (a := row * extents.axisLen) (b := pos) (by omega)
  refine ⟨?_, by omega, by omega⟩
  rw [integer_mul (by omega), integer_add (by omega)]

/-- At most one place. -/
theorem exact_singleton {p p' : Prop} [Decidable p] [Decidable p'] (hiff : p' ↔ p) {place : UInt32} {place' : Int}
    (h : p → place' = integer place ∧ place.toNat < total) :
    Exact total (.ok (if p then [place] else [])) (.ok (if p' then [place'] else [])) := by
  by_cases hp : p
  · obtain ⟨rfl, hlt⟩ := h hp
    rw [if_pos hp, if_pos (hiff.mpr hp)]
    exact ⟨[place], rfl, rfl, by simpa using hlt⟩
  · rw [if_neg hp, if_neg (fun hp' => hp (hiff.mp hp'))]
    exact ⟨[], rfl, rfl, by simp⟩

/-- The place of a thread of the last kernel is exact. -/
theorem copyBack_exact (htotal : extents.rows.toNat * extents.axisLen.toNat = total) (hword : total ≤ 4294967296)
    (hposition : x.toNat * threads.toNat + thread.toNat < 4294967296) :
    Exact total (.ok (copyBack extents threads x row thread))
      (.ok (copyBack extents threads (integer x) (integer row) (integer thread))) := by
  have hproduct := toNat_mul_word (a := x) (b := threads) (by omega)
  have hpos : integer x * integer threads + integer thread = integer (x * threads + thread) := by
    rw [integer_mul (by omega), integer_add (by omega)]
  refine exact_singleton ?_ fun ⟨hinside, hrow⟩ => ?_
  · exact and_congr (hpos ▸ integer_lt) integer_lt
  · obtain ⟨hplace, -, hlt⟩ := flatPlace_exact htotal hword hrow hinside
    exact ⟨(congrArg (integer row * integer extents.axisLen + ·) hpos).trans hplace, hlt⟩

/-- In packed rows the first kernel copies from where the last one copies to. -/
theorem copyIn_eq_copyBack (hafter : extents.after = 1) :
    (∀ x row thread : UInt32, copyIn extents threads x row thread = copyBack extents threads x row thread) ∧
      ∀ x row thread : Int, copyIn extents threads x row thread = copyBack extents threads x row thread := by
  constructor
  · intro x row thread
    refine ite_congr rfl (fun _ => congrArg (fun place => [place]) ?_) fun _ => rfl
    rw [hafter]
    exact copyAddress_one extents.axisLen row _
  · intro x row thread
    refine ite_congr rfl (fun _ => congrArg (fun place => [place]) ?_) fun _ => rfl
    rw [hafter]
    change (row / 1 * integer extents.axisLen + _) * 1 + row % 1 = _
    rw [Int.ediv_one, Int.emod_one, Int.mul_one, Int.add_zero]
    rfl

/-- What a thread owns of a tile is the same with words and with integers. -/
theorem ownOffsets_exact {count : UInt32} (hthread : 2 * thread.toNat + 1 < 4294967296) :
    ownOffsets (integer count) (integer thread) = (ownOffsets count thread).map integer := by
  have hproduct : thread.toNat * (2 : UInt32).toNat < 4294967295 := by
    change thread.toNat * 2 < 4294967295
    omega
  have hfirst : integer thread * ofWord 2 = integer (thread * 2) := integer_mul (b := 2) (by omega)
  have hsecond : integer (thread * 2) + ofWord 1 = integer (thread * 2 + 1) := integer_add (b := 1) (by
    rw [toNat_mul_word (by omega)]
    exact Nat.succ_lt_succ hproduct)
  have hfilter : (fun place : UInt32 => decide (integer place < integer count)) = fun place => decide (place < count) :=
    funext fun place => decide_eq_decide.mpr integer_lt
  rw [ownOffsets, hfirst, hsecond]
  refine (List.filter_map (p := fun place => decide (place < integer count)) (f := integer)
    (l := [thread * 2, thread * 2 + 1])).trans ?_
  exact congrArg (fun test => ([thread * 2, thread * 2 + 1].filter test).map integer) hfilter

/-- The tile of a group lies below the bound, and it is the same with words and with integers. -/
theorem tile_exact (htotal : extents.rows.toNat * extents.axisLen.toNat = total) (hword : total ≤ 4294967296)
    (hstart : x.toNat * tile.toNat < extents.axisLen.toNat) (hrow : row < extents.rows) :
    integer row * integer extents.axisLen + integer x * integer tile = integer (row * extents.axisLen + x * tile) ∧
      tileCount (integer extents.axisLen) (integer x * integer tile) (integer tile) =
        integer (tileCount extents.axisLen (x * tile) tile) ∧
      (row * extents.axisLen + x * tile).toNat + (tileCount extents.axisLen (x * tile) tile).toNat ≤ total := by
  have haxisLen := extents.axisLen.toNat_lt
  have hend := place_lt (UInt32.lt_iff_toNat_lt.mp hrow) hstart
  have hrowEnd := Nat.mul_le_mul_right extents.axisLen.toNat (Nat.succ_le_of_lt (UInt32.lt_iff_toNat_lt.mp hrow))
  rw [Nat.succ_mul] at hrowEnd
  have hstartWord := toNat_mul_word (a := x) (b := tile) (by omega)
  have hrowWord := toNat_mul_word (a := row) (b := extents.axisLen) (by omega)
  have hbase := toNat_add_word (a := row * extents.axisLen) (b := x * tile) (by omega)
  have hrest := toNat_sub_word (a := extents.axisLen) (b := x * tile) (by omega)
  have hcount : (tileCount extents.axisLen (x * tile) tile).toNat ≤ _ :=
    toNat_lesser_le (extents.axisLen - x * tile) tile
  refine ⟨?_, ?_, by omega⟩
  · rw [integer_mul (by omega), integer_mul (by omega), integer_add (by omega)]
  · have hlen := integer_sub (a := extents.axisLen) (b := x * tile) (by omega)
    have hlesser := integer_lesser (extents.axisLen - x * tile) tile
    rw [← hlen] at hlesser
    rw [integer_mul (by omega)]
    exact hlesser

/-- The places of a thread in the tile of its group are exact. -/
theorem sortTiles_exact (htotal : extents.rows.toNat * extents.axisLen.toNat = total) (hword : total ≤ 4294967296)
    (hstart : x.toNat * tile.toNat < extents.axisLen.toNat) (hthread : 2 * thread.toNat + 1 < 4294967296) :
    Exact total (.ok (sortTiles extents tile x row thread))
      (.ok (sortTiles extents tile (integer x) (integer row) (integer thread))) := by
  by_cases hrow : row < extents.rows
  · obtain ⟨hbase, hcount, hend⟩ := tile_exact htotal hword hstart hrow
    have hinside : ∀ t ∈ ownOffsets (tileCount extents.axisLen (x * tile) tile) thread,
        (row * extents.axisLen + x * tile).toNat + t.toNat < total := by
      intro t ht
      have hlt := UInt32.lt_iff_toNat_lt.mp (of_decide_eq_true (List.mem_filter.mp ht).2)
      omega
    have hwords : sortTiles extents tile x row thread = _ := if_pos hrow
    have hintegers : sortTiles extents tile (integer x) (integer row) (integer thread) = _ :=
      if_pos (integer_lt.mpr hrow)
    rw [hwords, hintegers]
    refine ⟨_, rfl, congrArg _ ?_, fun place hplace => ?_⟩
    · change (ownOffsets (tileCount (integer extents.axisLen) (integer x * integer tile) (integer tile))
        (integer thread)).map (integer row * integer extents.axisLen + integer x * integer tile + ·) = _
      rw [hcount, ownOffsets_exact hthread, hbase, List.map_map, List.map_map]
      exact List.map_congr_left fun t ht => integer_add (Nat.lt_of_lt_of_le (hinside t ht) hword)
    · obtain ⟨t, ht, rfl⟩ := List.mem_map.mp hplace
      have hlt := hinside t ht
      rw [← toNat_add_word (Nat.lt_of_lt_of_le hlt hword)] at hlt
      exact hlt
  · have hwords : sortTiles extents tile x row thread = [] := if_neg hrow
    have hintegers : sortTiles extents tile (integer x) (integer row) (integer thread) = [] :=
      if_neg fun h => hrow (integer_lt.mp h)
    rw [hwords, hintegers]
    exact ⟨[], rfl, rfl, by simp⟩

end Copies

end Places

/-! ### Launches -/

open Places (integer rowOf Exact)

/-- All threads of a launch compute the places that they read and write exactly. -/
def Launch.PlacesExact (launch : Launch) (program : Program) (extents : DeviceExtents) (oracle : Places.Oracle)
    (total : Nat) : Prop :=
  ∀ x < launch.grid.blocksPerRow.toNat, ∀ y < launch.grid.layers.1.toNat, ∀ z < launch.grid.layers.2.toNat,
    ∀ n < launch.grid.lanes.toNat,
      Exact total
        (launch.places program extents oracle (UInt32.ofNat x)
          (rowOf launch.grid.layers.1 (UInt32.ofNat y) (UInt32.ofNat z)) (UInt32.ofNat n))
        (launch.places program extents oracle (x : Int) (rowOf (integer launch.grid.layers.1) (y : Int) (z : Int))
          (n : Int))

/-- The extents of packed rows as words. -/
theorem DeviceExtents.of_ofView {view : AxisView} {extents : DeviceExtents} (hafter : view.after = 1)
    (h : DeviceExtents.ofView view = .ok extents) :
    extents.axisLen.toNat = view.axisLen ∧ extents.after = 1 ∧ extents.rows.toNat = view.before := by
  rw [ofView] at h
  obtain ⟨axisLen, haxisLen, h⟩ := Outcome.bind_eq_ok_iff.mp h
  obtain ⟨after, hafterWord, h⟩ := Outcome.bind_eq_ok_iff.mp h
  obtain ⟨count, hcount, h⟩ := Outcome.bind_eq_ok_iff.mp h
  obtain ⟨rows, hrows, h⟩ := Outcome.bind_eq_ok_iff.mp h
  cases h
  rw [AxisView.rowCount, hafter, Size.mul_eq_ok_iff, Nat.mul_one] at hcount
  refine ⟨toWord_eq_ok haxisLen, ?_, by rw [toWord_eq_ok hrows, hcount.2]⟩
  rw [← UInt32.toNat_inj, toWord_eq_ok hafterWord, hafter]
  rfl

/-- The row of a group, computed with words and with integers. -/
theorem rowOf_eq (ys : UInt32) (y z : Nat) :
    rowOf ys (UInt32.ofNat y) (UInt32.ofNat z) = UInt32.ofNat (z * ys.toNat + y) ∧
      rowOf (integer ys) (y : Int) (z : Int) = ((z * ys.toNat + y : Nat) : Int) := by
  constructor
  · rw [UInt32.ofNat_add, UInt32.ofNat_mul, UInt32.ofNat_toNat]
    rfl
  · rw [Int.natCast_add, Int.natCast_mul]
    rfl

/-- The row of a group does not wrap around. -/
theorem Grid.rowOf_exact (grid : Grid) {y z : Nat} (hy : y < grid.layers.1.toNat) (hz : z < grid.layers.2.toNat) :
    rowOf (integer grid.layers.1) (y : Int) (z : Int) =
      integer (rowOf grid.layers.1 (UInt32.ofNat y) (UInt32.ofNat z)) := by
  obtain ⟨hwords, hintegers⟩ := rowOf_eq grid.layers.1 y z
  rw [hwords, hintegers, integer, toNat_ofNat_word (Nat.lt_of_lt_of_le (place_lt hz hy) grid.layeredRows_spec.2)]

/-- A row of a grid has a place along its second and third axis. -/
theorem Grid.exists_rowOf (grid : Grid) {row : Nat} (hrow : row < grid.rows.toNat) :
    ∃ y < grid.layers.1.toNat, ∃ z < grid.layers.2.toNat,
      rowOf grid.layers.1 (UInt32.ofNat y) (UInt32.ofNat z) = UInt32.ofNat row ∧
        rowOf (integer grid.layers.1) (y : Int) (z : Int) = row := by
  obtain ⟨z, hz, y, hy, rfl⟩ := exists_place (Nat.lt_of_lt_of_le hrow grid.layeredRows_spec.1)
  exact ⟨y, hy, z, hz, rowOf_eq _ y z⟩

/-- A stage that merges. -/
theorem Stage.exists_of_isMerge {stage : Stage} (h : stage.isMerge = true) :
    ∃ pass src dst shape, stage = .mergeRuns pass src dst shape := by
  cases stage with
  | mergeRuns pass src dst shape => exact ⟨pass, src, dst, shape, rfl⟩
  | copyIn | sortTiles _ | copyBack => cases h

/-- The settings of a pass keep the outputs before a group and before a thread within words. -/
theorem Sharing.NoWrap.countsFit {sharing : Sharing} {blocks lanes : Nat} (h : sharing.NoWrap blocks lanes)
    (flag : UInt32) (indexed : Bool) {x thread : UInt32} (hx : x.toNat < blocks) (hthread : thread.toNat < lanes) :
    Places.CountsFit (.ofSharing sharing flag indexed) x thread := by
  cases sharing with
  | oneBlock step => exact ⟨fun hseveral => absurd hseveral Bool.false_ne_true, fun _ => h.2 _ hthread⟩
  | manyBlocks stepCount laneWork =>
    exact ⟨fun _ => ⟨h.1 _ hx, h.2 _ hthread⟩, fun hone => absurd hone.symm Bool.false_ne_true⟩

section Launches

variable {program : Program} {extents : DeviceExtents}

/-- If all rows together have no more elements than there are words, the threads of a launch compute their places exactly,
unless it is a merge of as many elements as there are words. -/
theorem Launch.placesExact (h : program.Fits) (hlen : program.view.axisLen ≤ 2147483648)
    (hextents : DeviceExtents.ofView program.view = .ok extents)
    (htotal : program.view.before * program.view.axisLen ≤ 4294967296) {launch : Launch}
    (hmerge : launch.stage.isMerge = true → program.view.before * program.view.axisLen < 4294967296)
    (hlaunch : launch ∈ program.launches) (hwords : launch.FitsWords program.view.before) {oracle : Places.Oracle}
    (horacle : oracle.Answers (program.view.before * program.view.axisLen)) :
    launch.PlacesExact program extents oracle (program.view.before * program.view.axisLen) := by
  intro x hx y hy z hz n hn
  obtain ⟨haxisLen, hafter, hrows⟩ := DeviceExtents.of_ofView h.after_eq hextents
  have hcovers := h.covers launch hlaunch
  have hxWord : (UInt32.ofNat x).toNat = x := toNat_ofNat_word (Nat.lt_trans hx (UInt32.toNat_lt _))
  have hnWord : (UInt32.ofNat n).toNat = n := toNat_ofNat_word (Nat.lt_trans hn (UInt32.toNat_lt _))
  have hxInteger : (x : Int) = integer (UInt32.ofNat x) := by rw [integer, hxWord]
  have hnInteger : (n : Int) = integer (UInt32.ofNat n) := by rw [integer, hnWord]
  rw [launch.grid.rowOf_exact hy hz, hxInteger, hnInteger]
  generalize rowOf launch.grid.layers.1 (UInt32.ofNat y) (UInt32.ofNat z) = row
  generalize UInt32.ofNat x = xWord at hxWord
  generalize UInt32.ofNat n = nWord at hnWord
  have htotalWords : extents.rows.toNat * extents.axisLen.toNat = program.view.before * program.view.axisLen := by
    rw [hrows, haxisLen]
  obtain ⟨stage, grid⟩ := launch
  cases stage with
  | copyIn =>
    obtain ⟨-, hlanes⟩ := hwords
    have hposition := Nat.lt_of_lt_of_le (place_lt hx hn) hlanes
    rw [Launch.places, Launch.places, (Places.copyIn_eq_copyBack hafter).1, (Places.copyIn_eq_copyBack hafter).2]
    exact Places.copyBack_exact htotalWords htotal (by rw [hxWord, hnWord]; exact hposition)
  | sortTiles tile =>
    obtain ⟨hlanes, -, hinside⟩ := hcovers
    have htile := tile.toNat_lt
    exact Places.sortTiles_exact htotalWords htotal (by rw [hxWord, haxisLen]; exact hinside x hx)
      (by rw [hnWord]; simp only at hlanes hn; omega)
  | mergeRuns pass src dst shape =>
    obtain ⟨-, rfl, hshape⟩ := hcovers
    obtain ⟨hgrid, hwidth, hwrap⟩ := hwords
    have hgroups : extents.rows.toNat * shape.segments.toNat < 4294967296 := by
      rw [hrows, ← hgrid]
      exact shape.grid.rows.toNat_lt
    exact Places.mergeRuns_exact (hmerge rfl) horacle
      ⟨Nat.le_of_eq htotalWords, hgroups, by rwa [haxisLen], hwidth, by rw [haxisLen]; exact hshape.start_lt⟩
      (hwrap.countsFit _ _ (hxWord ▸ hx) (hnWord ▸ hn))
  | copyBack =>
    obtain ⟨-, hlanes⟩ := hwords
    have hposition := Nat.lt_of_lt_of_le (place_lt hx hn) hlanes
    exact Places.copyBack_exact htotalWords htotal (by rw [hxWord, hnWord]; exact hposition)

/-- Every key of a buffer can be compared with every other. -/
theorem Places.Oracle.answers_ofKeys {κ : Type} [KeyOrder κ] (direction : Direction) {keys : Array κ} {total : Nat}
    (h : keys.size = total) : (Oracle.ofKeys direction.flag keys).Answers total := by
  subst h
  intro p hp q hq
  simp only [Oracle.ofKeys, inOrder_flag]
  exact ⟨_, compare_eq_ok hp hq⟩

/-- A copy of more elements than there are words does not compute its places exactly. -/
theorem Launch.not_placesExact_copyIn {grid : Grid} (hafter : extents.after = 1)
    (htotal : 4294967296 < extents.rows.toNat * extents.axisLen.toNat) (hrows : grid.rows = extents.rows)
    (hcovers : extents.axisLen.toNat ≤ grid.blocksPerRow.toNat * grid.lanes.toNat) (oracle : Places.Oracle)
    (total : Nat) : ¬(⟨.copyIn, grid⟩ : Launch).PlacesExact program extents oracle total := by
  intro hexact
  -- The element whose place is the first number that is no word.
  obtain ⟨row, hrow, pos, hpos, hplace⟩ := exists_place htotal
  obtain ⟨x, hx, n, hn, rfl⟩ := exists_place (Nat.lt_of_lt_of_le hpos hcovers)
  obtain ⟨y, hy, z, hz, -, hrowOf⟩ := grid.exists_rowOf (hrows ▸ hrow)
  obtain ⟨places, -, hintegers, -⟩ := hexact x hx y hy z hz n hn
  have hcopied : Places.copyBack extents grid.lanes (x : Int) (row : Int) (n : Int) = [(4294967296 : Int)] := by
    have hposition : (x : Int) * (grid.lanes.toNat : Nat) + n = ((x * grid.lanes.toNat + n : Nat) : Int) := by
      rw [Int.natCast_add, Int.natCast_mul]
    refine (if_pos ?_).trans (congrArg (fun place => [place]) ?_)
    · exact ⟨(congrArg (· < (extents.axisLen.toNat : Int)) hposition).mpr (Int.ofNat_lt.mpr hpos), Int.ofNat_lt.mpr hrow⟩
    · refine (congrArg ((row : Int) * (extents.axisLen.toNat : Int) + ·) hposition).trans ?_
      rw [← Int.natCast_mul, ← Int.natCast_add, ← hplace]
      rfl
  rw [Launch.places, hrowOf, (Places.copyIn_eq_copyBack hafter).2, hcopied] at hintegers
  obtain ⟨place, -, hplaceInteger⟩ := List.mem_map.mp (Except.ok.inj hintegers ▸ List.mem_singleton.mpr rfl)
  have hword := place.toNat_lt
  rw [integer] at hplaceInteger
  omega

/-- A merge of as many elements as there are words does not compute its places exactly for all keys: not for keys that
fall in its last segment. -/
theorem Launch.exists_not_placesExact (h : program.Fits) (hlen : program.view.axisLen ≤ 2147483648)
    (hextents : DeviceExtents.ofView program.view = .ok extents)
    (htotal : program.view.before * program.view.axisLen = 4294967296) {launch : Launch}
    (hmerge : launch.stage.isMerge = true) (hlaunch : launch ∈ program.launches)
    (hwords : launch.FitsWords program.view.before) (direction : Direction) :
    ∃ keys : Array UInt8, keys.size = 4294967296 ∧
      ¬launch.PlacesExact program extents (.ofKeys direction.flag keys) 4294967296 := by
  obtain ⟨stage, grid⟩ := launch
  obtain ⟨pass, src, dst, shape, rfl⟩ := Stage.exists_of_isMerge hmerge
  obtain ⟨haxisLen, -, hrows⟩ := DeviceExtents.of_ofView h.after_eq hextents
  obtain ⟨-, rfl, hshape⟩ := h.covers _ hlaunch
  obtain ⟨hgrid, hwidth, -⟩ := hwords
  have hrowsTotal : extents.rows.toNat * extents.axisLen.toNat = 4294967296 := by rw [hrows, haxisLen, htotal]
  have hgroups : extents.rows.toNat * shape.segments.toNat = shape.grid.rows.toNat := by rw [hrows, ← hgrid]
  have hsize := hshape.size_le
  have haxisLenPos : 0 < program.view.axisLen := Nat.pos_of_mul_pos_left (by rw [htotal]; decide)
  have hwidthPos : 0 < shape.width.toNat := Nat.pos_of_mul_pos_right (Nat.lt_of_lt_of_le haxisLenPos hsize)
  have heven := hshape.even
  have hfits : Places.ExtentsFit ⟨extents.axisLen, shape.width, extents.rows, shape.segments⟩ 4294967296 :=
    ⟨Nat.le_of_eq hrowsTotal, by rw [hgroups]; exact shape.grid.rows.toNat_lt, by rwa [haxisLen], hwidth,
      by rw [haxisLen]; exact hshape.start_lt⟩
  obtain ⟨row, place, hrow, hwrong⟩ := hfits.exists_not_exact hrowsTotal (show 2 ≤ shape.width.toNat by omega)
    (by rw [haxisLen]; exact hsize) hshape.shared (Nat.le_of_lt shape.blocksPerSegment.toNat_lt) program.direction.flag
    program.indexed
  have hkeys := Places.size_fallingKeys direction place 4294967296
  obtain ⟨x, hx, hnot⟩ := hwrong _ (Places.Oracle.answers_ofKeys direction hkeys)
    (Places.Oracle.falls_ofKeys direction place 4294967296)
  obtain ⟨y, hy, z, hz, hrowOf, hrowOf'⟩ := shape.grid.exists_rowOf (show row.toNat < _ from hgroups ▸ hrow)
  refine ⟨_, hkeys, fun hexact => hnot ?_⟩
  have hthread := hexact x.toNat hx y hy z hz 0 (hshape.shared.lanes_pos hwidthPos)
  rw [hrowOf, hrowOf', UInt32.ofNat_toNat, UInt32.ofNat_toNat] at hthread
  exact hthread

/-- Elements of a program have places of their own, as far as there are words for them. -/
theorem DeviceExtents.flatAddress_inj {view : AxisView} (hafter : view.after = 1)
    (hextents : DeviceExtents.ofView view = .ok extents) (htotal : view.before * view.axisLen ≤ 4294967296) :
    ∀ row < view.before, ∀ row' < view.before, ∀ pos < view.axisLen, ∀ pos' < view.axisLen,
      flatAddress extents.axisLen (UInt32.ofNat row) (UInt32.ofNat pos) =
        flatAddress extents.axisLen (UInt32.ofNat row') (UInt32.ofNat pos') → row = row' ∧ pos = pos' := by
  obtain ⟨haxisLen, -, hrows⟩ := of_ofView hafter hextents
  rw [← hrows, ← haxisLen] at htotal ⊢
  intro row hrow row' hrow' pos hpos pos' hpos' h
  have hplace := place_lt hrow hpos
  have hplace' := place_lt hrow' hpos'
  rw [flatAddress_eq, flatAddress_eq, ← UInt32.toNat_inj, toNat_ofNat_word (by omega), toNat_ofNat_word (by omega)] at h
  exact place_inj hpos hpos' h

/-- What is exact about the places of a program that a device accepts. If all rows together have a word's number of
elements, then whatever keys a launch reads, its threads compute all of their places exactly, and no two elements share
one. If there are exactly as many elements as words, then still no two elements share a place, but of the launches only
those that do not merge compute their places exactly for all keys. If there are more elements than words, places wrap
around, and the element at the first place that is no word shares the place of the first element of all. -/
theorem Program.places_exact {shape : List Nat} {axis : Nat} {direction : Direction} {indexed : Bool} {config : Config}
    (hlower : Program.lower shape axis direction indexed config = .ok program)
    (hextents : DeviceExtents.ofView program.view = .ok extents) :
    (program.view.before * program.view.axisLen < 4294967296 →
      (∀ launch ∈ program.launches, ∀ {κ : Type} [KeyOrder κ] (keys : Array κ),
        keys.size = program.view.before * program.view.axisLen →
          launch.PlacesExact program extents (.ofKeys direction.flag keys) (program.view.before * program.view.axisLen)) ∧
      ∀ row < program.view.before, ∀ row' < program.view.before, ∀ pos < program.view.axisLen,
        ∀ pos' < program.view.axisLen, flatAddress extents.axisLen (UInt32.ofNat row) (UInt32.ofNat pos) =
          flatAddress extents.axisLen (UInt32.ofNat row') (UInt32.ofNat pos') → row = row' ∧ pos = pos') ∧
    (program.view.before * program.view.axisLen = 4294967296 →
      (∀ launch ∈ program.launches,
        (∀ {κ : Type} [KeyOrder κ] (keys : Array κ), keys.size = 4294967296 →
          launch.PlacesExact program extents (.ofKeys direction.flag keys) 4294967296) ↔
            launch.stage.isMerge = false) ∧
      ∀ row < program.view.before, ∀ row' < program.view.before, ∀ pos < program.view.axisLen,
        ∀ pos' < program.view.axisLen, flatAddress extents.axisLen (UInt32.ofNat row) (UInt32.ofNat pos) =
          flatAddress extents.axisLen (UInt32.ofNat row') (UInt32.ofNat pos') → row = row' ∧ pos = pos') ∧
    (4294967296 < program.view.before * program.view.axisLen →
      (∃ launch ∈ program.launches, ∀ oracle total, ¬launch.PlacesExact program extents oracle total) ∧
      ∃ row < program.view.before, ∃ pos < program.view.axisLen, row * program.view.axisLen + pos = 4294967296 ∧
        flatAddress extents.axisLen (UInt32.ofNat row) (UInt32.ofNat pos) = flatAddress extents.axisLen 0 0) := by
  obtain ⟨hvalid, -, hafter, -, -, -, hlaunches⟩ := Program.lower_spec hlower
  obtain ⟨haxisLen, hafterWord, hrows⟩ := DeviceExtents.of_ofView hafter hextents
  rcases hlaunches with ⟨hzero, hnone⟩ | ⟨hpos, hlaunches⟩
  · rw [hnone, hzero]
    refine ⟨fun hless => ⟨by simp, DeviceExtents.flatAddress_inj hafter hextents (by omega)⟩, by simp, by simp⟩
  obtain ⟨copy, tiles, passes, shapes, hsorts⟩ := Program.exists_sorts_of_lower hlower hpos
  have hwords := Program.fitsWords_of_launchesFor hvalid hlaunches
  refine ⟨fun htotal => ⟨fun launch hlaunch κ _ keys hkeys => ?_, ?_⟩, fun htotal => ⟨fun launch hlaunch => ?_, ?_⟩,
    fun htotal => ⟨?_, ?_⟩⟩
  · exact Launch.placesExact hsorts.toFits hsorts.axisLen_le_word hextents (Nat.le_of_lt htotal)
      (fun _ => htotal) hlaunch (hwords launch hlaunch) (Places.Oracle.answers_ofKeys direction hkeys)
  · exact DeviceExtents.flatAddress_inj hafter hextents (Nat.le_of_lt htotal)
  · refine ⟨fun hexact => Bool.eq_false_iff.mpr fun hmerge => ?_, fun hmerge κ _ keys hkeys => ?_⟩
    · obtain ⟨keys, hkeys, hnot⟩ := Launch.exists_not_placesExact hsorts.toFits hsorts.axisLen_le_word hextents htotal
        hmerge hlaunch (hwords launch hlaunch) direction
      exact hnot (hexact keys hkeys)
    · rw [← htotal] at hkeys ⊢
      exact Launch.placesExact hsorts.toFits hsorts.axisLen_le_word hextents (Nat.le_of_eq htotal)
        (fun hmerges => absurd (hmerge.symm.trans hmerges) Bool.false_ne_true) hlaunch (hwords launch hlaunch)
        (Places.Oracle.answers_ofKeys direction hkeys)
  · exact DeviceExtents.flatAddress_inj hafter hextents (Nat.le_of_eq htotal)
  · have hmem : (⟨.copyIn, copy⟩ : Launch) ∈ program.launches := by
      rw [hsorts.launches_eq]
      exact List.mem_append_left _ (by simp [launchesUpTo])
    have hgrid := (hwords _ hmem).1
    refine ⟨_, hmem, fun oracle total => Launch.not_placesExact_copyIn hafterWord ?_ ?_ ?_ oracle total⟩
    · rwa [hrows, haxisLen]
    · exact UInt32.toNat_inj.mp (hgrid.trans hrows.symm)
    · rw [haxisLen]
      exact hsorts.covers _ hmem
  · obtain ⟨row, hrow, pos, hpos, hplace⟩ := exists_place htotal
    refine ⟨row, hrow, pos, hpos, hplace.symm, ?_⟩
    rw [flatAddress_eq, haxisLen, ← hplace]
    change (0 : UInt32) = 0 * extents.axisLen + 0
    rw [UInt32.zero_mul, UInt32.add_zero]

end Launches

/-- Two rows of three keys have exact places. Sixty-five thousand rows of as many keys have as many elements as there are
words, and the first of their merges does not compute its places exactly for all keys. Twice as many rows have extents
that are words as well, so a device accepts their program, but rows share places: row 65536 starts where the first row
does. -/
theorem Program.places_exact_three_programs :
    (∃ program extents, Program.lower [2, 3] 1 .ascending true
        { limits := { maxLanes := 2 }, tuning := { tile := 2 } } = .ok program ∧
      DeviceExtents.ofView program.view = .ok extents ∧
      ∀ launch ∈ program.launches, launch.PlacesExact program extents
        (.ofKeys Direction.ascending.flag (#[2, 1, 0, 2, 1, 0] : Array Int32)) 6) ∧
    (∃ program extents launch, Program.lower [65536, 65536] 1 .ascending true {} = .ok program ∧
      DeviceExtents.ofView program.view = .ok extents ∧ launch ∈ program.launches ∧ launch.stage.isMerge = true ∧
      ¬∀ {κ : Type} [KeyOrder κ] (keys : Array κ), keys.size = 4294967296 →
        launch.PlacesExact program extents (.ofKeys Direction.ascending.flag keys) 4294967296) ∧
    ∃ program extents, Program.lower [131072, 65536] 1 .ascending true {} = .ok program ∧
      program.view.total = .ok 8589934592 ∧ DeviceExtents.ofView program.view = .ok extents ∧
      (∃ launch ∈ program.launches, ∀ oracle total, ¬launch.PlacesExact program extents oracle total) ∧
      ∃ row < 131072, ∃ pos < 65536, row * 65536 + pos = 4294967296 ∧
        flatAddress extents.axisLen (UInt32.ofNat row) (UInt32.ofNat pos) = flatAddress extents.axisLen 0 0 := by
  refine ⟨?_, ?_, ?_⟩
  · have hview : (Program.lower [2, 3] 1 .ascending true { limits := { maxLanes := 2 }, tuning := { tile := 2 } } >>=
        fun program => pure program.view) = .ok ⟨2, 3, 1⟩ := by cbv
    obtain ⟨program, hlower, hview⟩ := Outcome.bind_eq_ok_iff.mp hview
    have hview := Except.ok.inj hview
    have hextents : DeviceExtents.ofView program.view = .ok ⟨3, 1, 2⟩ := by rw [hview]; cbv
    obtain ⟨hexact, -⟩ := (places_exact hlower hextents).1 (by rw [hview]; decide)
    refine ⟨program, _, hlower, hextents, fun launch hlaunch => ?_⟩
    have hlaunch := hexact launch hlaunch (#[2, 1, 0, 2, 1, 0] : Array Int32) (by rw [hview]; rfl)
    rwa [hview] at hlaunch
  · obtain ⟨program, launch, hlower, hview, hlaunch, hmerge⟩ : ∃ program launch,
        Program.lower [65536, 65536] 1 .ascending true {} = .ok program ∧ program.view = ⟨65536, 65536, 1⟩ ∧
          launch ∈ program.launches ∧ launch.stage.isMerge = true :=
      ⟨_, _, rfl, rfl, .tail _ (.tail _ (.head _)), rfl⟩
    have hextents : DeviceExtents.ofView program.view = .ok ⟨65536, 1, 65536⟩ := by rw [hview]; cbv
    obtain ⟨hiff, -⟩ := (places_exact hlower hextents).2.1 (by rw [hview]; rfl)
    refine ⟨program, _, launch, hlower, hextents, hlaunch, hmerge, fun hexact => ?_⟩
    exact Bool.false_ne_true (((hiff launch hlaunch).mp hexact).symm.trans hmerge)
  · have hview : (Program.lower [131072, 65536] 1 .ascending true {} >>= fun program => pure program.view) =
        .ok ⟨131072, 65536, 1⟩ := rfl
    obtain ⟨program, hlower, hview⟩ := Outcome.bind_eq_ok_iff.mp hview
    have hview := Except.ok.inj hview
    have hextents : DeviceExtents.ofView program.view = .ok ⟨65536, 1, 131072⟩ := by rw [hview]; cbv
    obtain ⟨hwraps, hshared⟩ := (places_exact hlower hextents).2.2 (by rw [hview]; decide)
    rw [hview] at hshared
    exact ⟨program, _, hlower, by rw [hview]; cbv, hextents, hwraps, hshared⟩

end MergePathSort
