import Mathlib.Data.Nat.Basic
import MergePathSort.Proofs.Device.Launches

/-!
# Rows at places of a grid

A device has room for 65535 rows along the second axis of a grid, and what is beyond lies along the third. A group knows
its place along both, and computes from it the number of its row. No number of rows makes that sum wrap around, every row
of the grid is computed at one place, and what the other places compute lies behind the last row, where the kernels do
nothing.

The rows of a merge are pairs: every row of the tensor has as many segments as it takes. The merge kernel takes the
number of its row apart again (`MergeExtents.pair?`). As many pairs as there are fit a word, so every pair is found at one
place.

## Main definitions

* `Grid.HasPlace`, `Grid.foldedRow` : the places of a grid, and what its groups compute from them.
* `Grid.FoldsOnce` : every row of a grid is at one place.
* `Grid.DealsOnce` : every pair of a row and a segment is at one place.
* `Launch.WorksOnce` : surplus places do nothing, and a merge deals out its pairs.

## Main results

* `Grid.rows_once` : every grid has its rows at one place each, and so have the merges of a program their pairs.
-/

namespace MergePathSort

/-! ### Places -/

/-- There are groups at this place along the second and the third axis of a grid. -/
def Grid.HasPlace (grid : Grid) (place : UInt32 × UInt32) : Prop :=
  place.1 < grid.layers.1 ∧ place.2 < grid.layers.2

/-- The row that the groups at a place compute. -/
def Grid.foldedRow (grid : Grid) (place : UInt32 × UInt32) : UInt32 :=
  Workgroup.foldRow grid.layers.1 place.1 place.2

/-- Every row of a grid is at one place, and the groups at other places compute rows behind the last one. -/
structure Grid.FoldsOnce (grid : Grid) : Prop where
  /-- The groups of the grid are those along the rows that are computed at its places. -/
  mem_all : ∀ group, group ∈ Workgroup.all grid ↔
    group.x < grid.blocksPerRow ∧ ∃ place, grid.HasPlace place ∧ grid.foldedRow place = group.row
  /-- The row of a place does not wrap around. -/
  exact : ∀ place, grid.HasPlace place →
    (grid.foldedRow place).toNat = place.2.toNat * grid.layers.1.toNat + place.1.toNat
  /-- A row is computed at one place. -/
  once : ∀ row < grid.rows, ∃! place, grid.HasPlace place ∧ grid.foldedRow place = row

variable {grid : Grid} {place : UInt32 × UInt32}

/-- The row of a place is one of those that the layers have room for. -/
theorem Grid.HasPlace.lt_layeredRows (h : grid.HasPlace place) :
    place.2.toNat * grid.layers.1.toNat + place.1.toNat < grid.layeredRows :=
  place_lt (UInt32.lt_iff_toNat_lt.mp h.2) (UInt32.lt_iff_toNat_lt.mp h.1)

/-- The row of a place does not wrap around, because the layers have room for no more rows than there are words. -/
theorem Grid.HasPlace.toNat_foldedRow (h : grid.HasPlace place) :
    (grid.foldedRow place).toNat = place.2.toNat * grid.layers.1.toNat + place.1.toNat := by
  have hinside := h.lt_layeredRows
  have hword := grid.layeredRows_spec.2
  rw [foldedRow, Workgroup.foldRow, UInt32.toNat_add, UInt32.toNat_mul, Nat.mod_add_mod]
  exact Nat.mod_eq_of_lt (by omega)

/-- The place of a row that the layers have room for. -/
theorem Grid.exists_place (grid : Grid) {row : UInt32} (h : row.toNat < grid.layeredRows) :
    ∃ place, grid.HasPlace place ∧ grid.foldedRow place = row := by
  have hlayer : 0 < grid.layers.1.toNat := Nat.pos_of_mul_pos_left (Nat.zero_lt_of_lt h)
  have hplace : grid.HasPlace (row % grid.layers.1, row / grid.layers.1) := by
    refine ⟨UInt32.lt_iff_toNat_lt.mpr ?_, UInt32.lt_iff_toNat_lt.mpr ?_⟩
    · rw [UInt32.toNat_mod]
      exact Nat.mod_lt _ hlayer
    · rw [UInt32.toNat_div]
      exact Nat.div_lt_of_lt_mul (by rwa [Nat.mul_comm])
  refine ⟨_, hplace, UInt32.toNat_inj.mp ?_⟩
  rw [hplace.toNat_foldedRow, UInt32.toNat_mod, UInt32.toNat_div, Nat.mul_comm]
  exact Nat.div_add_mod _ _

/-- Places with the same row are the same. -/
theorem Grid.HasPlace.eq_of_foldedRow {place' : UInt32 × UInt32} (h : grid.HasPlace place) (h' : grid.HasPlace place')
    (heq : grid.foldedRow place = grid.foldedRow place') : place = place' := by
  have hlt := UInt32.lt_iff_toNat_lt.mp h.1
  have hlt' := UInt32.lt_iff_toNat_lt.mp h'.1
  have hsum := congrArg UInt32.toNat heq
  rw [h.toNat_foldedRow, h'.toNat_foldedRow] at hsum
  obtain ⟨hlayer, hrow⟩ := place_inj hlt hlt' hsum
  exact Prod.ext (UInt32.toNat_inj.mp hrow) (UInt32.toNat_inj.mp hlayer)

/-- Every row of a grid is at one place, however many rows there are. -/
theorem Grid.foldsOnce (grid : Grid) : grid.FoldsOnce where
  mem_all := by
    intro group
    have hword := grid.layeredRows_spec.2
    rw [Workgroup.all_eq]
    simp only [List.mem_flatMap, List.mem_map, List.mem_range]
    constructor
    · rintro ⟨row, hrow, x, hx, rfl⟩
      have hrowWord : (UInt32.ofNat row).toNat = row := toNat_ofNat_word (by omega)
      exact ⟨(ofNat_lt_word (Nat.lt_trans hx (UInt32.toNat_lt _))).mpr hx,
        grid.exists_place (by rwa [hrowWord])⟩
    · rintro ⟨hx, place, hplace, hrow⟩
      refine ⟨group.row.toNat, ?_, group.x.toNat, UInt32.lt_iff_toNat_lt.mp hx, ?_⟩
      · rw [← hrow, hplace.toNat_foldedRow]
        exact hplace.lt_layeredRows
      · rw [UInt32.ofNat_toNat, UInt32.ofNat_toNat]
  exact := fun _ hplace => hplace.toNat_foldedRow
  once := by
    intro row hrow
    obtain ⟨place, hplace, heq⟩ := grid.exists_place
      (Nat.lt_of_lt_of_le (UInt32.lt_iff_toNat_lt.mp hrow) grid.layeredRows_spec.1)
    refine ⟨place, ⟨hplace, heq⟩, ?_⟩
    rintro place' ⟨hplace', heq'⟩
    exact hplace'.eq_of_foldedRow hplace (heq'.trans heq.symm)

/-! ### Rows and segments -/

/-- The merge kernel finds every pair of a row and a segment at one place of a grid, and no pair at places that are too
many. -/
structure Grid.DealsOnce (grid : Grid) (extents : MergeExtents) : Prop where
  /-- The number of pairs that the kernel computes does not wrap around. -/
  exact : (extents.rows * extents.segments).toNat = extents.rows.toNat * extents.segments.toNat
  /-- The grid has a row for every pair. -/
  guard : extents.rows * extents.segments = grid.rows
  /-- What the kernel finds for a row of the grid is a pair. -/
  inside : ∀ value < grid.rows, ∃ row < extents.rows, ∃ segment < extents.segments,
    extents.pair? value = some (row, segment)
  /-- The kernel finds none behind the last row of the grid. -/
  outside : ∀ value, grid.rows ≤ value → extents.pair? value = none
  /-- A pair is found at one place. -/
  once : ∀ row < extents.rows, ∀ segment < extents.segments, ∃! place, grid.HasPlace place ∧
    extents.pair? (grid.foldedRow place) = some (row, segment)

/-- A word is known from its quotient and its remainder. -/
theorem UInt32.eq_of_mod_eq_of_div_eq {a b c : UInt32} (hmod : a % c = b % c) (hdiv : a / c = b / c) : a = b := by
  have hmod' := congrArg UInt32.toNat hmod
  have hdiv' := congrArg UInt32.toNat hdiv
  rw [UInt32.toNat_mod, UInt32.toNat_mod] at hmod'
  rw [UInt32.toNat_div, UInt32.toNat_div] at hdiv'
  rw [← UInt32.toNat_inj, ← Nat.div_add_mod a.toNat c.toNat, hmod', hdiv', Nat.div_add_mod]

/-- The pair that the kernel finds is known from its row and its segment. -/
theorem MergeExtents.pair?_eq_some_iff {extents : MergeExtents} {value row segment : UInt32} :
    extents.pair? value = some (row, segment) ↔
      value < extents.rows * extents.segments ∧ value % extents.rows = row ∧ value / extents.rows = segment := by
  rw [pair?]
  split <;> simp [*]

/-- A grid with a row for every pair has every pair at one place. -/
theorem Grid.dealsOnce {extents : MergeExtents}
    (h : grid.rows.toNat = extents.rows.toNat * extents.segments.toNat) : grid.DealsOnce extents := by
  have hword := grid.rows.toNat_lt
  have hexact : (extents.rows * extents.segments).toNat = extents.rows.toNat * extents.segments.toNat := by
    rw [UInt32.toNat_mul]
    exact Nat.mod_eq_of_lt (by omega)
  have hguard : extents.rows * extents.segments = grid.rows := UInt32.toNat_inj.mp (hexact.trans h.symm)
  refine ⟨hexact, hguard, fun value hvalue => ?_, fun value hvalue => ?_, fun row hrow segment hsegment => ?_⟩
  · have hinside := UInt32.lt_iff_toNat_lt.mp hvalue
    rw [h] at hinside
    have hrows : 0 < extents.rows.toNat := Nat.pos_of_mul_pos_right (Nat.zero_lt_of_lt hinside)
    refine ⟨value % extents.rows, UInt32.lt_iff_toNat_lt.mpr ?_, value / extents.rows, UInt32.lt_iff_toNat_lt.mpr ?_,
      MergeExtents.pair?_eq_some_iff.mpr ⟨hguard ▸ hvalue, rfl, rfl⟩⟩
    · rw [UInt32.toNat_mod]
      exact Nat.mod_lt _ hrows
    · rw [UInt32.toNat_div]
      exact Nat.div_lt_of_lt_mul hinside
  · exact if_neg (UInt32.not_lt.mpr (hguard ▸ hvalue))
  · -- The only value for a pair is `segment * rows + row`, and that value is at one place.
    obtain ⟨hfront, hmod, hdiv⟩ := group_row_eq (UInt32.lt_iff_toNat_lt.mp hrow) (UInt32.lt_iff_toNat_lt.mp hsegment)
      (by omega : extents.rows.toNat * extents.segments.toNat < 4294967296)
    simp only [UInt32.ofNat_toNat] at hfront hmod hdiv
    obtain ⟨place, ⟨hplace, heq⟩, honly⟩ := grid.foldsOnce.once _ (hguard ▸ hfront)
    refine ⟨place, ⟨hplace, heq ▸ MergeExtents.pair?_eq_some_iff.mpr ⟨hfront, hmod, hdiv⟩⟩, ?_⟩
    rintro place' ⟨hplace', hpair⟩
    obtain ⟨-, hmod', hdiv'⟩ := MergeExtents.pair?_eq_some_iff.mp hpair
    exact honly place' ⟨hplace', UInt32.eq_of_mod_eq_of_div_eq (hmod'.trans hmod.symm) (hdiv'.trans hdiv.symm)⟩

/-! ### Launches -/

/-- The places of a launch that are too many do nothing, and a merge deals out its pairs of a row and a segment once. -/
structure Launch.WorksOnce (κ : Type) [Element κ] (launch : Launch) (program : Program) (extents : DeviceExtents) :
    Prop where
  /-- A group behind the last row of the grid leaves the buffers as they are. -/
  masked : ∀ (memory : GroupMemory) (data : Array κ) (cells : DeviceCells κ) (group : Workgroup),
    launch.grid.rows ≤ group.row →
      ∃ barriers, (launch.kernel program extents memory data).1 cells group = .ok (cells, barriers)
  /-- A merge has every segment of every row at one place. -/
  deals : ∀ pass src dst shape, launch.stage = .mergeRuns pass src dst shape →
    launch.grid.DealsOnce ⟨extents.axisLen, shape.width, extents.rows, shape.segments⟩

section Launches

variable {κ : Type} [Element κ] {program : Program} {extents : DeviceExtents} {launch : Launch} {size : Nat}

/-- A launch whose extents fit words works once at every place that it needs. -/
theorem Launch.worksOnce (hcovers : launch.Covers size) (hwords : launch.FitsWords extents.rows.toNat) :
    launch.WorksOnce κ program extents := by
  obtain ⟨stage, grid⟩ := launch
  obtain ⟨axisLen, after, rows⟩ := extents
  cases stage with
  | copyIn =>
    obtain ⟨hrows, -⟩ := hwords
    obtain rfl : grid.rows = rows := UInt32.toNat_inj.mp hrows
    refine ⟨fun _ _ cells group hgroup => Kernel.ofBlock_eq_ok (GroupBlock.masked_once fun _ => if_neg ?_), nofun⟩
    exact fun hinside => UInt32.not_lt.mpr hgroup hinside.2
  | sortTiles tile =>
    obtain rfl : grid.rows = rows := UInt32.toNat_inj.mp hwords
    exact ⟨fun _ _ cells _ hgroup => Kernel.ofBlock_eq_ok (tileGroup_masked hgroup cells), nofun⟩
  | mergeRuns pass src dst shape =>
    obtain ⟨rfl, rfl, -⟩ := hcovers
    obtain ⟨hrows, -, -⟩ := hwords
    have hdeals : shape.grid.DealsOnce ⟨axisLen, shape.width, rows, shape.segments⟩ := Grid.dealsOnce hrows
    refine ⟨fun _ data cells group hgroup => ?_, fun _ _ _ _ hstage => by cases hstage; exact hdeals⟩
    exact ⟨0, mergeKernel_eq_ok (mergeGroup_masked (show rows * shape.segments ≤ group.row from hdeals.guard ▸ hgroup)
      cells)⟩
  | copyBack =>
    obtain ⟨hrows, -⟩ := hwords
    obtain rfl : grid.rows = rows := UInt32.toNat_inj.mp hrows
    refine ⟨fun _ _ cells group hgroup => Kernel.ofBlock_eq_ok (GroupBlock.masked_once fun _ => if_neg ?_), nofun⟩
    exact fun hinside => UInt32.not_lt.mpr hgroup hinside.2

end Launches

/-- The launches of a program have extents that are words, and work once at every place that they need. -/
theorem Program.exists_worksOnce_of_lower (κ : Type) [Element κ] {shape : List Nat} {axis : Nat} {direction : Direction}
    {indexed : Bool} {config : Config} {program : Program}
    (h : Program.lower shape axis direction indexed config = .ok program) {launch : Launch}
    (hlaunch : launch ∈ program.launches) :
    ∃ extents, DeviceExtents.ofView program.view = .ok extents ∧ extents.rows.toNat = program.view.before ∧
      launch.WorksOnce κ program extents := by
  obtain ⟨hvalid, -, hafter, -, -, -, ⟨-, hnone⟩ | ⟨hne, hlaunches⟩⟩ := Program.lower_spec h
  · rw [hnone] at hlaunch
    cases hlaunch
  obtain ⟨copy, tiles, passes, shapes, hsorts⟩ := Program.exists_sorts_of_lower h hne
  have hwords := Program.fitsWords_of_launchesFor hvalid hlaunches
  -- The grid of the copy has all rows, so their number is a word.
  obtain ⟨hrows, -⟩ := hwords ⟨.copyIn, copy⟩ (by rw [hsorts.launches_eq]; simp [sortLaunches, launchesUpTo])
  have hbefore : program.view.before < 4294967296 := hrows ▸ copy.rows.toNat_lt
  have hrowsWord : program.view.words.rows.toNat = program.view.before := toNat_ofNat_word hbefore
  have hlen := hsorts.axisLen_le_word
  exact ⟨_, DeviceExtents.ofView_eq_ok hafter (by omega) hbefore, hrowsWord,
    Launch.worksOnce (hsorts.covers launch hlaunch) (hrowsWord.symm ▸ hwords launch hlaunch)⟩

/-- Every grid has its rows at one place each. The launches of a program do nothing at surplus places, and its merges
have every segment of every row at one place. -/
theorem Grid.rows_once (κ : Type) [Element κ] :
    (∀ grid : Grid, grid.FoldsOnce) ∧
      ∀ {shape axis direction indexed config} {program : Program},
        Program.lower shape axis direction indexed config = .ok program → ∀ launch ∈ program.launches,
          ∃ extents, DeviceExtents.ofView program.view = .ok extents ∧ extents.rows.toNat = program.view.before ∧
            launch.WorksOnce κ program extents :=
  ⟨Grid.foldsOnce, fun h _ hlaunch => Program.exists_worksOnce_of_lower κ h hlaunch⟩

/-- The first merge of forty thousand rows of sixteen keys in tiles of four has two segments for every row, more pairs
than a layer has room for. The second layer has places to spare. -/
theorem Grid.rows_once_two_layers :
    ∃ program launch, Program.lower [40000, 16] 1 .ascending true { tuning := { tile := 4 } } = .ok program ∧
      launch ∈ program.launches ∧ launch.stage.isMerge = true ∧ launch.grid.rows = 80000 ∧
      launch.grid.layers = (65535, 2) ∧ launch.grid.FoldsOnce ∧
      ∃ extents, DeviceExtents.ofView program.view = .ok extents ∧ extents.rows.toNat = program.view.before ∧
        launch.WorksOnce UInt32 program extents := by
  obtain ⟨program, launch, hlower, hlaunch, hmerge, hrows, hlayers⟩ : ∃ program launch,
      Program.lower [40000, 16] 1 .ascending true { tuning := { tile := 4 } } = .ok program ∧
      launch ∈ program.launches ∧ launch.stage.isMerge = true ∧ launch.grid.rows = 80000 ∧
      launch.grid.layers = (65535, 2) :=
    ⟨_, _, rfl, .tail _ (.tail _ (.head _)), rfl, rfl, rfl⟩
  obtain ⟨hfolds, hworks⟩ := Grid.rows_once UInt32
  exact ⟨program, launch, hlower, hlaunch, hmerge, hrows, hlayers, hfolds launch.grid, hworks hlower launch hlaunch⟩

end MergePathSort
