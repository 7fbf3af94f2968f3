import MergePathSort.Proofs.Plan.Outline
import MergePathSort.Proofs.Plan.Refusals
import MergePathSort.Proofs.Plan.Safety

/-!
# Which shapes are lowered

About ten extents of a program have to fit words, and a width of segments for every pass. All these conditions are one:
a row is no longer than the largest power of two that is a word, the rows can be counted in a word, and so can the
segments of the first pass, if there is one. The last pass decides on the length of a row, as its width is the first power
of two that reaches it, and the first pass decides on the segments, as later ones have fewer.

## Main definitions

* `AxisFits` : the products that are taken of a shape around an axis are sizes.
* `Config.Accepts` : the rows that can be sorted.
* `Program.Verdict`, `Program.Exact` : what becomes of such rows, and the program for them.

## Main results

* `MergeShape.exists_ofWidth_iff` : the passes that have a shape.
* `Program.exists_launchesFor_iff` : the rows that have launches.
* `Program.pow_lt_limit_of_reached` : the width of a pass that is reached is a size.
* `Program.lower_verdict` : the shapes that are lowered.
-/

namespace MergePathSort

/-! ### Quotients and words -/

/-- The quotient by something positive. -/
theorem Size.divCeil_of_pos {a b : Nat} (hpos : 0 < b) : Size.divCeil a b = .ok ((a + b - 1) / b) :=
  if_neg (Nat.ne_of_gt hpos)

/-- The quotient rounded up is no larger than what is divided. -/
theorem Size.divCeil_le {a b q : Nat} (h : Size.divCeil a b = .ok q) : q ≤ a := by
  obtain ⟨hpos, -, hinside⟩ := Size.divCeil_eq_ok h
  rcases Nat.lt_or_ge a q with hlt | hge
  · exact absurd (hinside a hlt) (Nat.not_lt.mpr (Nat.le_mul_of_pos_right a hpos))
  · exact hge

/-- Wider parts are no more. -/
theorem Size.divCeil_anti {a b b' q q' : Nat} (h : Size.divCeil a b = .ok q) (h' : Size.divCeil a b' = .ok q')
    (hle : b ≤ b') : q' ≤ q := by
  refine (Size.isLeast_of_divCeil h').2 ?_
  calc a ≤ q * b := (Size.isLeast_of_divCeil h).1
    _ ≤ q * b' := Nat.mul_le_mul_left q hle

/-- The words are the sizes below their limit. -/
theorem exists_toWord_iff {n : Nat} (problem : GridProblem) : (∃ word, toWord n problem = .ok word) ↔ n < 4294967296 := by
  constructor
  · rintro ⟨word, hword⟩
    rw [← toWord_eq_ok hword]
    exact word.toNat_lt
  · exact fun h => ⟨UInt32.ofNat n, if_pos h⟩

/-- There are elements and rows. -/
theorem requireExtents_of_pos {size rows : Nat} (hsize : 0 < size) (hrows : 0 < rows) :
    requireExtents size rows = .ok () := by
  rw [requireExtents, if_neg (Nat.ne_of_gt hsize), if_neg (Nat.ne_of_gt hrows)]

/-! ### Grids and shapes -/

/-- A segment whose width is a word can be shared out: the outputs of a lane are no more than the segment's, and those
of a block neither, unless one block merges it alone. -/
theorem Sharing.exists_ofBlocks {config : Config} (hvalid : config.problem? = none) {width blocks : Nat}
    (hwidth : 2 ≤ width) (hword : width < 4294967296)
    (hblocks : Size.divCeil width (config.limits.maxLanes.toNat * config.tuning.laneWork.toNat) = .ok blocks) :
    ∃ sharing, Sharing.ofBlocks blocks width (config.limits.lanesFor width)
      (config.limits.maxLanes.toNat * config.tuning.laneWork.toNat) config.tuning = .ok sharing := by
  obtain ⟨hlanes, -, -⟩ := Config.pos_of_valid hvalid
  rw [ofBlocks]
  split
  · have hpos : 0 < config.limits.lanesFor width := by
      rw [Limits.lanesFor]
      split <;> omega
    have hquotient := Size.divCeil_of_pos (a := width) hpos
    obtain ⟨step, hstep⟩ := (exists_toWord_iff .step).mpr
      (Nat.lt_of_le_of_lt (Size.divCeil_le hquotient) hword)
    refine ⟨.oneBlock step, ?_⟩
    rw [hquotient, Outcome.ok_bind, hstep, Outcome.ok_bind, Outcome.pure_eq_ok]
  · rename_i hmany
    obtain ⟨-, hreach, hinside⟩ := Size.divCeil_eq_ok hblocks
    have hbeyond : 1 < blocks := by
      rcases Nat.eq_zero_or_pos blocks with hzero | hpos
      · rw [hzero] at hreach
        omega
      · omega
    have hcount := hinside 1 hbeyond
    obtain ⟨stepCount, hstepCount⟩ := (exists_toWord_iff .stepCount).mpr
      (show config.limits.maxLanes.toNat * config.tuning.laneWork.toNat < 4294967296 by omega)
    refine ⟨.manyBlocks stepCount config.tuning.laneWork, ?_⟩
    rw [hstepCount, Outcome.ok_bind, Outcome.pure_eq_ok]

section Launches

variable {config : Config} (hvalid : config.problem? = none) {size rows : Nat} (hsize : 0 < size) (hrows : 0 < rows)
include hvalid hsize hrows

theorem Grid.exists_perElement (hsizeWord : size < 4294967296) (hrowsWord : rows < 4294967296) :
    ∃ grid, Grid.perElement size rows config.limits = .ok grid := by
  have hmax := (Config.pos_of_valid hvalid).1
  have hquotient := Size.divCeil_of_pos (a := size) (show 0 < min config.limits.maxLanes.toNat size by omega)
  obtain ⟨lanes, hlanes⟩ := (exists_toWord_iff .lanes).mpr
    (show min config.limits.maxLanes.toNat size < 4294967296 by omega)
  obtain ⟨blocks, hblocks⟩ := (exists_toWord_iff .blocksPerRow).mpr
    (Nat.lt_of_le_of_lt (Size.divCeil_le hquotient) hsizeWord)
  obtain ⟨count, hcount⟩ := (exists_toWord_iff .rows).mpr hrowsWord
  refine ⟨⟨lanes, blocks, count⟩, ?_⟩
  simp only [perElement, requireExtents_of_pos hsize hrows, hlanes, hquotient, hblocks, hcount, Outcome.ok_bind,
    Outcome.pure_eq_ok]

theorem Grid.exists_perTile (hsizeWord : size < 4294967296) (hrowsWord : rows < 4294967296) :
    ∃ grid, Grid.perTile size rows config.tuning = .ok grid := by
  have hquotient := Size.divCeil_of_pos (a := size) (Config.pos_of_valid hvalid).2.2
  obtain ⟨blocks, hblocks⟩ := (exists_toWord_iff .blocksPerRow).mpr
    (Nat.lt_of_le_of_lt (Size.divCeil_le hquotient) hsizeWord)
  obtain ⟨count, hcount⟩ := (exists_toWord_iff .rows).mpr hrowsWord
  refine ⟨⟨config.tuning.lanesPerTile, blocks, count⟩, ?_⟩
  simp only [perTile, requireExtents_of_pos hsize hrows, hquotient, hblocks, hcount, Outcome.ok_bind,
    Outcome.pure_eq_ok]

/-- A pass has a shape exactly if its width and the segments of all rows are words. -/
theorem MergeShape.exists_ofWidth_iff {width segments : Nat} (hwidth : 2 ≤ width)
    (hsegments : Size.divCeil size width = .ok segments) :
    (∃ shape, MergeShape.ofWidth width size rows config.limits config.tuning = .ok shape) ↔
      width < 4294967296 ∧ rows * segments < 4294967296 := by
  constructor
  · rintro ⟨shape, hshape⟩
    have hmade := made_of_ofWidth hshape
    have hcount : segments = shape.segments.toNat := Except.ok.inj (hsegments.symm.trans hmade.segments_eq)
    rw [hcount, ← hmade.rows_eq, ← hmade.width_eq]
    exact ⟨shape.width.toNat_lt, shape.grid.rows.toNat_lt⟩
  · rintro ⟨hword, hall⟩
    obtain ⟨hlanesPos, hworkPos, -⟩ := Config.pos_of_valid hvalid
    obtain ⟨blocks, hblocks⟩ : ∃ blocks,
        Size.divCeil width (config.limits.maxLanes.toNat * config.tuning.laneWork.toNat) = .ok blocks :=
      ⟨_, Size.divCeil_of_pos (Nat.mul_pos hlanesPos hworkPos)⟩
    obtain ⟨sharing, hsharing⟩ := Sharing.exists_ofBlocks hvalid hwidth hword hblocks
    have hlanesLt : config.limits.lanesFor width < 4294967296 := by
      have hmax := config.limits.maxLanes.toNat_lt
      rw [Limits.lanesFor]
      split <;> omega
    have hsegmentsLt : segments < 4294967296 := Nat.lt_of_le_of_lt (Nat.le_mul_of_pos_left segments hrows) hall
    obtain ⟨lanesWord, hlanes⟩ := (exists_toWord_iff .lanes).mpr hlanesLt
    obtain ⟨blocksWord, hblocksWord⟩ := (exists_toWord_iff .blocksPerRow).mpr
      (Nat.lt_of_le_of_lt (Size.divCeil_le hblocks) hword)
    obtain ⟨rowsWord, hrowsWord⟩ := (exists_toWord_iff .rows).mpr hall
    obtain ⟨widthWord, hwidthWord⟩ := (exists_toWord_iff .width).mpr hword
    obtain ⟨segmentsWord, hsegmentsWord⟩ := (exists_toWord_iff .segments).mpr hsegmentsLt
    have hlimit : rows * segments < Size.limit := Nat.lt_trans hall (by decide)
    refine ⟨⟨⟨lanesWord, blocksWord, rowsWord⟩, widthWord, segmentsWord, sharing⟩, ?_⟩
    rw [Limits.lanesFor] at hsharing hlanes
    simp only [ofWidth, requireExtents_of_pos hsize hrows, if_neg (Nat.not_lt.mpr hwidth), hblocks, hsegments,
      hsharing, if_pos hlimit, hlanes, hblocksWord, hrowsWord, hwidthWord, hsegmentsWord, Outcome.ok_bind,
      Outcome.pure_eq_ok]

end Launches

/-! ### Passes -/

section Passes

variable {config : Config} (hvalid : config.problem? = none)
include hvalid

/-- The width of a pass is a size, if all passes before it have launches: the one before it is half as wide, and its
width is a word. -/
theorem Program.pow_lt_limit_of_reached {size rows pass : Nat} (hreached : ∀ earlier < pass, ∃ launch,
      Program.mergeLaunch config size rows config.tuning.tile.toNat.log2 earlier = .ok launch) :
    Nat.pow 2 (pass + config.tuning.tile.toNat.log2 + 1) < Size.limit := by
  have hlimit : 4294967296 < Size.limit := by decide
  rw [Config.pow_eq_width hvalid]
  cases pass with
  | zero =>
    have htile := Config.tile_le hvalid
    change config.tuning.tile.toNat * 2 < Size.limit
    omega
  | succ pass =>
    obtain ⟨launch, hlaunch⟩ := hreached pass (Nat.lt_succ_self pass)
    obtain ⟨shape, -, hmade⟩ := Program.mergeLaunch_spec hvalid hlaunch
    have hhalf := hmade.width_le hvalid
    calc config.tuning.tile.toNat * Nat.pow 2 (pass + 1 + 1)
        = config.tuning.tile.toNat * Nat.pow 2 (pass + 1) * 2 := by rw [Nat.mul_assoc]; rfl
      _ < Size.limit := by omega

/-- A pass has a launch if its width and the segments of all rows are words. -/
theorem Program.exists_mergeLaunch {size rows pass segments : Nat} (hsize : 0 < size) (hrows : 0 < rows)
    (hword : config.tuning.tile.toNat * Nat.pow 2 (pass + 1) < 4294967296)
    (hsegments : Size.divCeil size (config.tuning.tile.toNat * Nat.pow 2 (pass + 1)) = .ok segments)
    (hall : rows * segments < 4294967296) :
    ∃ launch, Program.mergeLaunch config size rows config.tuning.tile.toNat.log2 pass = .ok launch := by
  have hlimit : config.tuning.tile.toNat * Nat.pow 2 (pass + 1) < Size.limit := Nat.lt_trans hword (by decide)
  have htwo : 2 ≤ config.tuning.tile.toNat * Nat.pow 2 (pass + 1) :=
    Nat.le_trans (Config.tile_of_valid hvalid).2 (Nat.le_mul_of_pos_right _ (Nat.two_pow_pos _))
  obtain ⟨shape, hshape⟩ :=
    (MergeShape.exists_ofWidth_iff hvalid hsize hrows htwo hsegments).mpr ⟨hword, hall⟩
  refine ⟨⟨.mergeRuns pass (Side.ofPass pass) (Side.ofPass pass).other shape, shape.grid⟩, ?_⟩
  simp only [mergeLaunch, Config.pow_eq_width hvalid, Nat.mod_eq_of_lt hlimit, hshape, Outcome.ok_bind,
    Outcome.pure_eq_ok]

end Passes

/-! ### Launches -/

/-- The rows that can be sorted: they are no longer than the largest power of two that is a word, their number is a word,
and so is the number of segments of the first pass, if there is one. -/
def Config.Accepts (config : Config) (size rows : Nat) : Prop :=
  size ≤ 2147483648 ∧ rows < 4294967296 ∧
    (size ≤ config.tuning.tile.toNat ∨
      rows * ((size + 2 * config.tuning.tile.toNat - 1) / (2 * config.tuning.tile.toNat)) < 4294967296)

instance (config : Config) (size rows : Nat) : Decidable (config.Accepts size rows) :=
  inferInstanceAs (Decidable (_ ∧ _))

section Launches

variable {config : Config} (hvalid : config.problem? = none) {size rows : Nat}
include hvalid

/-- The segments of the first pass. -/
theorem Config.divCeil_first (size : Nat) : Size.divCeil size (config.tuning.tile.toNat * Nat.pow 2 (0 + 1)) =
    .ok ((size + 2 * config.tuning.tile.toNat - 1) / (2 * config.tuning.tile.toNat)) := by
  have htile := (Config.pos_of_valid hvalid).2.2
  have hdouble : config.tuning.tile.toNat * Nat.pow 2 (0 + 1) = 2 * config.tuning.tile.toNat := Nat.mul_comm _ 2
  rw [hdouble]
  exact Size.divCeil_of_pos (by omega)

/-- Rows that can be sorted have launches. -/
theorem Program.exists_launchesFor (hsize : 0 < size) (hrows : 0 < rows) (h : config.Accepts size rows) :
    ∃ launches, Program.launchesFor config size rows = .ok launches := by
  obtain ⟨hlength, hrowsWord, hsegments⟩ := h
  have htile := (Config.pos_of_valid hvalid).2.2
  obtain ⟨copy, hcopy⟩ := Grid.exists_perElement hvalid hsize hrows (by omega) hrowsWord
  obtain ⟨tiles, htiles⟩ := Grid.exists_perTile hvalid hsize hrows (by omega) hrowsWord
  have hlower : config.tuning.tileLog2 = .ok config.tuning.tile.toNat.log2 := by
    rw [Tuning.tileLog2, if_neg (UInt32.pos_iff_ne_zero.mp htile)]
  have hmerges : ∀ pass ∈ List.range (doublings size - config.tuning.tile.toNat.log2), ∃ launch,
      Program.mergeLaunch config size rows config.tuning.tile.toNat.log2 pass = .ok launch := by
    intro pass hpass
    rw [List.mem_range] at hpass
    -- So few passes do not reach the row: the runs that this pass merges are shorter than the row.
    have hshort : config.tuning.tile.toNat * Nat.pow 2 pass < size := by
      refine Nat.lt_of_not_le fun hreach => ?_
      exact absurd ((Config.isLeast_passes hvalid size).2 hreach) (Nat.not_le.mpr hpass)
    have hwidth : config.tuning.tile.toNat * Nat.pow 2 (pass + 1) =
        config.tuning.tile.toNat * Nat.pow 2 pass * 2 := by rw [Nat.mul_assoc]; rfl
    have hwide : config.tuning.tile.toNat ≤ config.tuning.tile.toNat * Nat.pow 2 pass :=
      Nat.le_mul_of_pos_right _ (Nat.two_pow_pos _)
    have hfew := hsegments.resolve_left (by omega)
    have hquotient := Size.divCeil_of_pos (a := size)
      (show 0 < config.tuning.tile.toNat * Nat.pow 2 (pass + 1) by omega)
    refine exists_mergeLaunch hvalid hsize hrows (by omega) hquotient (Nat.lt_of_le_of_lt ?_ hfew)
    refine Nat.mul_le_mul_left rows (Size.divCeil_anti (Config.divCeil_first hvalid size) hquotient ?_)
    exact Nat.mul_le_mul_left _ (Nat.pow_le_pow_right (by decide) (by omega))
  obtain ⟨merges, hmerges⟩ := Outcome.exists_mapM hmerges
  simp only [launchesFor, hcopy, htiles, hlower, hmerges, Outcome.ok_bind, Outcome.pure_eq_ok]
  exact ⟨_, rfl⟩

/-- A sort starts with a copy. -/
theorem Program.ne_nil_of_launchesFor {launches : List Launch}
    (h : Program.launchesFor config size rows = .ok launches) : launches ≠ [] := by
  obtain ⟨copy, tiles, shapes, -, -, rfl, -⟩ := launchesFor_eq_ok hvalid h
  exact List.cons_ne_nil _ _

/-- Rows that have launches can be sorted. -/
theorem Config.accepts_of_launchesFor {launches : List Launch}
    (h : Program.launchesFor config size rows = .ok launches) : config.Accepts size rows := by
  obtain ⟨-, -, -, -, -, -, -, -, -, hlength⟩ := Program.launchesFor_spec hvalid h
  obtain ⟨copy, tiles, shapes, hcopy, -, -, hmade⟩ := Program.launchesFor_eq_ok hvalid h
  obtain ⟨-, -, -, hcopyRows⟩ := Grid.perElement_eq_ok hcopy
  refine ⟨hlength, hcopyRows ▸ copy.rows.toNat_lt, ?_⟩
  rcases Nat.eq_zero_or_pos (doublings size - config.tuning.tile.toNat.log2) with hzero | hpos
  · have hreach := (isLeast_passes hvalid size).1
    rw [hzero] at hreach
    exact .inl (Nat.le_trans hreach (Nat.le_of_eq (Nat.mul_one _)))
  · have hfirst := hmade 0 hpos
    have hcount := Except.ok.inj ((divCeil_first hvalid size).symm.trans hfirst.segments_eq)
    rw [hcount, ← hfirst.rows_eq]
    exact .inr (shapes 0).grid.rows.toNat_lt

/-- Rows have launches exactly if they can be sorted. -/
theorem Program.exists_launchesFor_iff (hsize : 0 < size) (hrows : 0 < rows) :
    (∃ launches, Program.launchesFor config size rows = .ok launches) ↔ config.Accepts size rows :=
  ⟨fun ⟨_, h⟩ => Config.accepts_of_launchesFor hvalid h, exists_launchesFor hvalid hsize hrows⟩

/-- Rows that cannot be sorted are refused for an extent of a grid. -/
theorem Program.exists_noGrid_of_not_accepts (h : ¬config.Accepts size rows) :
    ∃ problem, Program.launchesFor config size rows = .refuse (.noGrid problem) := by
  have hfaults := not_faults_launchesFor hvalid size rows
  have hrefused := refusedOnly_launchesFor (P := fun error => ∃ problem, error = .noGrid problem)
    (fun problem => ⟨problem, rfl⟩) config size rows
  cases hresult : Program.launchesFor config size rows with
  | ok launches => exact absurd (Config.accepts_of_launchesFor hvalid hresult) h
  | error failure =>
    cases failure with
    | refused error =>
      obtain ⟨problem, rfl⟩ := hrefused error hresult
      exact ⟨problem, rfl⟩
    | faulted fault => exact absurd ⟨fault, hresult⟩ hfaults

end Launches

/-! ### Programs -/

/-- The products that the view of a shape around an axis takes from left to right are sizes: those of the extents before
the axis, of those behind it, and of the three extents of the view. -/
def AxisFits (shape : List Nat) (axis : Nat) : Prop :=
  ∀ size ∈ shape[axis]?, ProductsFit (shape.take axis) ∧ ProductsFit (shape.drop (axis + 1)) ∧
    ProductsFit [(shape.take axis).prod, size, (shape.drop (axis + 1)).prod]

/-- The extents up to the axis can be multiplied. -/
theorem AxisFits.take_succ {shape : List Nat} {axis size : Nat} (h : AxisFits shape axis)
    (hextent : shape[axis]? = some size) : ProductsFit (shape.take (axis + 1)) := by
  obtain ⟨hbefore, -, hview⟩ := h size hextent
  intro k
  rcases Nat.lt_or_ge axis k with hlt | hge
  · have htwo := hview 2
    rw [List.take_of_length_le (by rw [List.length_take]; omega), List.take_add_one, hextent, Option.toList_some,
      List.prod_append, List.prod_singleton]
    simpa using htwo
  · have hfirst := hbefore k
    rw [List.take_take, Nat.min_eq_left hge] at hfirst
    rwa [List.take_take, Nat.min_eq_left (Nat.le_succ_of_le hge)]

/-- The products of a shape that describes elements fit around every axis, if the elements can be counted. -/
theorem axisFits_of_prod_ne_zero {shape : List Nat} (hne : shape.prod ≠ 0) (hlt : shape.prod < Size.limit)
    (axis : Nat) : AxisFits shape axis := by
  intro size hextent
  have hsplit : (shape.take axis).prod * (size * (shape.drop (axis + 1)).prod) = shape.prod := by
    obtain ⟨hinside, rfl⟩ := List.getElem?_eq_some_iff.mp hextent
    rw [← List.prod_cons, ← List.drop_eq_getElem_cons hinside, ← List.prod_append, List.take_append_drop]
  have hview : [(shape.take axis).prod, size, (shape.drop (axis + 1)).prod].prod = shape.prod := by
    rw [← hsplit, List.prod_cons, List.prod_cons, List.prod_singleton]
  obtain ⟨-, hbehind⟩ := mul_ne_zero_iff.mp (mul_ne_zero_iff.mp (hsplit ▸ hne)).2
  exact ⟨(fits_of_prod_ne_zero hne hlt).2.take axis,
    (fits_of_prod_ne_zero hbehind (Nat.lt_of_le_of_lt (prod_drop_le hne _) hlt)).2,
    (fits_of_prod_ne_zero (hview ▸ hne) (hview ▸ hlt)).2⟩

/-- A grid whose blocks of `lanes` lanes take `share` elements of a row each. -/
structure Grid.Parts (grid : Grid) (lanes share size rows : Nat) : Prop where
  /-- The lanes of a block. -/
  lanes_eq : grid.lanes.toNat = lanes
  /-- The blocks of a row. -/
  blocks_eq : Size.divCeil size share = .ok grid.blocksPerRow.toNat
  /-- The rows. -/
  rows_eq : grid.rows.toNat = rows

/-- A program for `rows` rows of `size` whose words hold the extents that they stand for. -/
structure Program.Exact (program : Program) (config : Config) (size rows : Nat) : Prop where
  /-- The rows lie one after the other. -/
  view_eq : program.view = ⟨rows, size, 1⟩
  /-- The grids of the copies and of the tiles, and the shapes of the passes. -/
  launches_eq : program.launches ≠ [] → ∃ copy tiles shapes,
    program.launches =
      sortLaunches copy tiles config.tuning.tile (doublings size - config.tuning.tile.toNat.log2) shapes ∧
    copy.Parts (min config.limits.maxLanes.toNat size) (min config.limits.maxLanes.toNat size) size rows ∧
    tiles.Parts (config.tuning.tile.toNat / 2) config.tuning.tile.toNat size rows ∧
    ∀ pass < doublings size - config.tuning.tile.toNat.log2,
      (shapes pass).Made (config.tuning.tile.toNat * Nat.pow 2 (pass + 1)) size rows config.limits config.tuning

/-- What becomes of `rows` rows of `size` that lie one after the other. -/
structure Program.Verdict (result : Outcome Program) (config : Config) (size rows : Nat) : Prop where
  /-- Without elements there is nothing to launch. -/
  empty_iff : (∃ program, result = .ok program ∧ program.launches = []) ↔ rows * size = 0
  /-- Rows with elements have a program if they can be sorted. -/
  launches_iff : (∃ program, result = .ok program ∧ program.launches ≠ []) ↔ rows * size ≠ 0 ∧ config.Accepts size rows
  /-- The others are refused for an extent of a grid. -/
  noGrid_iff : (∃ problem, result = .refuse (.noGrid problem)) ↔ rows * size ≠ 0 ∧ ¬config.Accepts size rows
  /-- No word of a program has lost a part of its extent. -/
  exact_of_ok : ∀ program, result = .ok program → program.Exact config size rows
  /-- The outputs of a block are a size. -/
  stepCount_lt : config.limits.maxLanes.toNat * config.tuning.laneWork.toNat < Size.limit
  /-- No pass is reached whose width is cut to a size. -/
  width_lt : ∀ pass, (∀ earlier < pass, ∃ launch,
      Program.mergeLaunch config size rows config.tuning.tile.toNat.log2 earlier = .ok launch) →
    Nat.pow 2 (pass + config.tuning.tile.toNat.log2 + 1) < Size.limit

theorem Program.Exact.of_empty {config : Config} {size rows : Nat} {direction : Direction} {indexed : Bool}
    {program : Program} (h : .ok ⟨⟨rows, size, 1⟩, direction, indexed, []⟩ = (.ok program : Outcome Program)) :
    program.Exact config size rows := by
  cases h
  exact ⟨rfl, fun hne => absurd rfl hne⟩

/-- The launches of a sort have the extents of the rows. -/
theorem Program.Exact.of_launchesFor {config : Config} (hvalid : config.problem? = none) {size rows : Nat}
    {direction : Direction} {indexed : Bool} {launches : List Launch}
    (hlaunches : Program.launchesFor config size rows = .ok launches) {program : Program}
    (h : .ok ⟨⟨rows, size, 1⟩, direction, indexed, launches⟩ = (.ok program : Outcome Program)) :
    program.Exact config size rows := by
  cases h
  obtain ⟨copy, tiles, shapes, hcopy, htiles, heq, hmade⟩ := launchesFor_eq_ok hvalid hlaunches
  obtain ⟨-, hcopyLanes, hcopyBlocks, hcopyRows⟩ := Grid.perElement_eq_ok hcopy
  obtain ⟨htileLanes, htileBlocks, htileRows⟩ := Grid.perTile_eq_ok htiles
  have hlanes : tiles.lanes.toNat = config.tuning.tile.toNat / 2 := by
    rw [htileLanes, Tuning.lanesPerTile, UInt32.toNat_div]
    rfl
  exact ⟨rfl, fun _ => ⟨copy, tiles, shapes, heq, ⟨hcopyLanes, hcopyLanes ▸ hcopyBlocks, hcopyRows⟩,
    ⟨hlanes, htileBlocks, htileRows⟩, hmade⟩⟩

section Programs

variable {shape : List Nat} {axis : Nat} {config : Config} (hvalid : config.validate = .ok ())
include hvalid

/-- An axis is refused if the shape has none of that number, or more than one element behind it. -/
theorem Program.lower_eq_invalidAxis (hfit : AxisFits shape axis)
    (haxis : shape.length ≤ axis ∨ (shape.drop (axis + 1)).prod ≠ 1) (direction : Direction) (indexed : Bool) :
    Program.lower shape axis direction indexed config = .refuse (.invalidAxis (Size.toSigned axis) shape.length) := by
  rw [lower, hvalid, Outcome.ok_bind]
  cases hextent : shape[axis]? with
  | none =>
    rw [AxisView.ofShape, hextent]
    rfl
  | some size =>
    obtain ⟨hinside, -⟩ := List.getElem?_eq_some_iff.mp hextent
    have hbehind := haxis.resolve_left (Nat.not_le.mpr hinside)
    obtain ⟨view, hview, -⟩ := AxisView.exists_ofShape hextent (hfit.take_succ hextent) (hfit size hextent).2.1
    have hafter := (AxisView.ofShape_eq_ok hview).2.2
    have hpacked : view.isPacked = false := by simp [AxisView.isPacked, hafter, hbehind]
    rw [hview, Outcome.ok_bind]
    simp only [hpacked, Bool.not_false, if_true]
    rfl

/-- Along the last axis, the launches are those of the rows. -/
theorem Program.lower_eq_launchesFor (hfit : AxisFits shape axis) {size : Nat} (hextent : shape[axis]? = some size)
    (hone : (shape.drop (axis + 1)).prod = 1) (direction : Direction) (indexed : Bool) :
    Program.lower shape axis direction indexed config =
      if (shape.take axis).prod * size = 0 then .ok ⟨⟨(shape.take axis).prod, size, 1⟩, direction, indexed, []⟩
      else (⟨⟨(shape.take axis).prod, size, 1⟩, direction, indexed, ·⟩) <$>
        launchesFor config size (shape.take axis).prod := by
  obtain ⟨⟨before, axisLen, after⟩, hview, hrows, htotal⟩ :=
    AxisView.exists_ofShape hextent (hfit.take_succ hextent) (hfit size hextent).2.1
  obtain ⟨hlength, rfl, rfl⟩ := AxisView.ofShape_eq_ok hview
  obtain rfl : axisLen = size := Option.some.inj (hlength.symm.trans hextent)
  rw [hone] at hview
  have hcount : AxisView.rowCount ⟨(shape.take axis).prod, axisLen, 1⟩ = .ok (shape.take axis).prod :=
    Size.mul_eq_ok_iff.mpr ⟨by simpa using hrows, Nat.mul_one _⟩
  have hpacked : AxisView.isPacked ⟨(shape.take axis).prod, axisLen, 1⟩ = true := rfl
  have hsum : AxisView.total ⟨(shape.take axis).prod, axisLen, 1⟩ = .ok ((shape.take axis).prod * axisLen) :=
    AxisView.total_eq_ok rfl htotal
  rw [lower, hvalid, Outcome.ok_bind, hview, Outcome.ok_bind]
  simp only [hpacked, Bool.not_true, Bool.false_eq_true, if_false, hsum, hcount, Outcome.ok_bind, Outcome.pure_eq_ok]
  split
  · rfl
  · cases launchesFor config axisLen (shape.take axis).prod <;> rfl

/-- Along the last axis, rows without elements have an empty program, rows that can be sorted have one with launches, and
the others have none. -/
theorem Program.lower_cases (hfit : AxisFits shape axis) {size rows : Nat} (hextent : shape[axis]? = some size)
    (hbefore : (shape.take axis).prod = rows) (hone : (shape.drop (axis + 1)).prod = 1) (direction : Direction)
    (indexed : Bool) :
    (rows * size = 0 ∧
      Program.lower shape axis direction indexed config = .ok ⟨⟨rows, size, 1⟩, direction, indexed, []⟩) ∨
    ((rows * size ≠ 0 ∧ config.Accepts size rows) ∧ ∃ launches, launchesFor config size rows = .ok launches ∧
      Program.lower shape axis direction indexed config = .ok ⟨⟨rows, size, 1⟩, direction, indexed, launches⟩) ∨
    ((rows * size ≠ 0 ∧ ¬config.Accepts size rows) ∧ ∃ problem,
      Program.lower shape axis direction indexed config = .refuse (.noGrid problem)) := by
  have hproblem := Config.problem?_of_validate hvalid
  rw [lower_eq_launchesFor hvalid hfit hextent hone direction indexed, hbefore]
  by_cases hzero : rows * size = 0
  · rw [if_pos hzero]
    exact .inl ⟨hzero, rfl⟩
  rw [if_neg hzero]
  by_cases haccepts : config.Accepts size rows
  · have hrows : 0 < rows := Nat.pos_of_ne_zero fun h => hzero (by rw [h, Nat.zero_mul])
    have hsize : 0 < size := Nat.pos_of_ne_zero fun h => hzero (by rw [h, Nat.mul_zero])
    obtain ⟨launches, hlaunches⟩ := (exists_launchesFor_iff hproblem hsize hrows).mpr haccepts
    rw [hlaunches]
    exact .inr (.inl ⟨⟨hzero, haccepts⟩, launches, rfl, rfl⟩)
  · obtain ⟨problem, hlaunches⟩ := exists_noGrid_of_not_accepts hproblem haccepts
    rw [hlaunches]
    exact .inr (.inr ⟨⟨hzero, haccepts⟩, problem, rfl⟩)

/-- What becomes of the rows of a shape along its last axis. -/
theorem Program.verdict_of_lower (hfit : AxisFits shape axis) {size rows : Nat} (hextent : shape[axis]? = some size)
    (hbefore : (shape.take axis).prod = rows) (hone : (shape.drop (axis + 1)).prod = 1) (direction : Direction)
    (indexed : Bool) : Verdict (Program.lower shape axis direction indexed config) config size rows := by
  have hproblem := Config.problem?_of_validate hvalid
  have hcount : config.limits.maxLanes.toNat * config.tuning.laneWork.toNat < Size.limit :=
    word_mul_lt_limit (Nat.le_of_lt config.limits.maxLanes.toNat_lt) config.tuning.laneWork.toNat_lt
  rcases lower_cases hvalid hfit hextent hbefore hone direction indexed with
    ⟨hzero, hlower⟩ | ⟨hsorted, launches, hlaunches, hlower⟩ | ⟨hrefused, problem, hlower⟩
  · rw [hlower]
    exact ⟨by simp [hzero], by simp [hzero], by simp [hzero, Outcome.refuse], fun _ => Exact.of_empty, hcount,
      fun _ => pow_lt_limit_of_reached hproblem⟩
  · have hne := ne_nil_of_launchesFor hproblem hlaunches
    rw [hlower]
    exact ⟨by simp [hsorted, hne], by simp [hsorted, hne], by simp [hsorted, Outcome.refuse],
      fun _ => Exact.of_launchesFor hproblem hlaunches, hcount, fun _ => pow_lt_limit_of_reached hproblem⟩
  · rw [hlower]
    exact ⟨by simp [hrefused, Outcome.refuse], by simp [hrefused, Outcome.refuse], by simp [hrefused, Outcome.refuse],
      fun _ h => absurd h (Outcome.refuse_ne_ok _ _), hcount, fun _ => pow_lt_limit_of_reached hproblem⟩

end Programs

/-- **Which shapes are lowered.** An axis is refused exactly if the shape has none of that number or more than one element
behind it. Of the others, those without elements have an empty program, those whose rows can be sorted have launches, and
all that remain are refused for an extent of a grid. No step faults, and no extent is cut to a word. -/
theorem Program.lower_verdict {shape : List Nat} {axis : Nat} {config : Config} (hvalid : config.validate = .ok ())
    (hfit : AxisFits shape axis) (direction : Direction) (indexed : Bool) :
    (∀ given rank, Program.lower shape axis direction indexed config = .refuse (.invalidAxis given rank) ↔
      (given = Size.toSigned axis ∧ rank = shape.length) ∧
        (shape.length ≤ axis ∨ (shape.drop (axis + 1)).prod ≠ 1)) ∧
    (∀ size, shape[axis]? = some size → (shape.drop (axis + 1)).prod = 1 →
      Verdict (Program.lower shape axis direction indexed config) config size (shape.take axis).prod) ∧
    ¬(Program.lower shape axis direction indexed config).Faults := by
  by_cases haxis : shape.length ≤ axis ∨ (shape.drop (axis + 1)).prod ≠ 1
  · have hrefused := lower_eq_invalidAxis hvalid hfit haxis direction indexed
    refine ⟨fun given rank => ?_, fun size hextent hone => ?_, by rw [hrefused]; exact Outcome.not_faults_refuse _⟩
    · rw [hrefused]
      simp only [Outcome.refuse, Except.error.injEq, Failure.refused.injEq, Refusal.invalidAxis.injEq, haxis, and_true]
      rw [eq_comm, @eq_comm _ shape.length]
    · obtain ⟨hinside, -⟩ := List.getElem?_eq_some_iff.mp hextent
      exact absurd haxis (not_or.mpr ⟨Nat.not_le.mpr hinside, not_not.mpr hone⟩)
  · obtain ⟨hinside, hone⟩ := not_or.mp haxis
    have hextent := List.getElem?_eq_getElem (Nat.lt_of_not_le hinside)
    have hfaults : ¬(Program.lower shape axis direction indexed config).Faults :=
      not_faults_lower (hfit.take_succ hextent) (hfit _ hextent).2.1 direction indexed config
    refine ⟨fun given rank => ?_, fun size hextent hone =>
      verdict_of_lower hvalid hfit hextent rfl hone direction indexed, hfaults⟩
    simp only [haxis, and_false, iff_false]
    intro hrefused
    rcases lower_cases hvalid hfit hextent rfl (not_not.mp hone) direction indexed with
      ⟨-, hlower⟩ | ⟨-, launches, -, hlower⟩ | ⟨-, problem, hlower⟩ <;>
      · rw [hlower] at hrefused
        cases hrefused

/-- Rows of 65536 keys take 256 segments each in the first pass, so one row less than 16777216 of them is the most. -/
theorem Program.lower_verdict_most_rows :
    Config.validate {} = .ok () ∧
      (AxisFits [16777215, 65536] 1 ∧ ∃ program, Program.lower [16777215, 65536] 1 .ascending true {} = .ok program ∧
        program.launches ≠ []) ∧
      AxisFits [16777216, 65536] 1 ∧ ∃ problem,
        Program.lower [16777216, 65536] 1 .ascending true {} = .refuse (.noGrid problem) := by
  have hvalid : Config.validate {} = .ok () := rfl
  have hmost : AxisFits [16777215, 65536] 1 := axisFits_of_prod_ne_zero (by decide) (by decide) 1
  have hmore : AxisFits [16777216, 65536] 1 := axisFits_of_prod_ne_zero (by decide) (by decide) 1
  refine ⟨hvalid, ⟨hmost, ?_⟩, hmore, ?_⟩
  · exact ((Program.lower_verdict hvalid hmost .ascending true).2.1 65536 rfl rfl).launches_iff.mpr
      ⟨by decide, by decide⟩
  · exact ((Program.lower_verdict hvalid hmore .ascending true).2.1 65536 rfl rfl).noGrid_iff.mpr
      ⟨by decide, by decide⟩

end MergePathSort
