import MergePathSort.Proofs.Launch.Effect
import MergePathSort.Proofs.Outcome

/-!
# What lowering guarantees

A program that is lowered without a refusal has launches whose grids reach all of a row: the quotients are rounded up,
and every extent has passed a check that it fits a word. The tile of a valid configuration is a power of two, so the
segments of a pass are twice as wide as those of the pass before, and after the last pass one run is as long as a row.

## Main definitions

* `MergeShape.Made` : the extents of a pass.
* `sortLaunches` : the launches of a sort, as a function of grids and shapes.
* `Program.Sorts` : a program that sorts rows by tiles and passes.

## Main results

* `MergeShape.Made.covers` : the shape of a pass covers the row.
* `Program.launchesFor_spec` : the launches of a sort.
* `Program.lower_spec` : the program of a shape.
-/

namespace MergePathSort

/-! ### Quotients and words -/

/-- The quotient rounded up. -/
theorem Size.divCeil_eq_ok {a b q : Nat} (h : Size.divCeil a b = .ok q) :
    0 < b ∧ a ≤ q * b ∧ ∀ k < q, k * b < a := by
  unfold divCeil at h
  split at h
  · simp at h
  · rename_i hb
    cases h
    have hmod := Nat.div_add_mod' (a + b - 1) b
    have hlt := Nat.mod_lt (a + b - 1) (Nat.pos_of_ne_zero hb)
    refine ⟨Nat.pos_of_ne_zero hb, by omega, fun k hk => ?_⟩
    have hle := Nat.mul_le_mul_right b (Nat.succ_le_of_lt hk)
    rw [Nat.succ_mul] at hle
    omega

/-- A size as a word. -/
theorem toWord_eq_ok {n : Nat} {problem : GridProblem} {word : UInt32} (h : toWord n problem = .ok word) :
    word.toNat = n := by
  unfold toWord at h
  split at h
  · rename_i hn
    cases h
    exact UInt32.toNat_ofNat_of_lt' hn
  · simp at h

/-- A row is not empty. -/
theorem requireExtents_eq_ok {size rows : Nat} (h : requireExtents size rows = .ok ()) : 0 < size ∧ 0 < rows := by
  unfold requireExtents at h
  split at h
  · simp at h
  · split at h
    · simp at h
    · omega

/-! ### Grids -/

/-- The grid with a lane for every element. -/
theorem Grid.perElement_eq_ok {size rows : Nat} {limits : Limits} {grid : Grid}
    (h : Grid.perElement size rows limits = .ok grid) :
    0 < size ∧ grid.lanes.toNat = min limits.maxLanes.toNat size ∧
      Size.divCeil size grid.lanes.toNat = .ok grid.blocksPerRow.toNat ∧ grid.rows.toNat = rows := by
  rw [perElement] at h
  obtain ⟨_, hextents, h⟩ := Outcome.bind_eq_ok_iff.mp h
  obtain ⟨lanes, hlanes, h⟩ := Outcome.bind_eq_ok_iff.mp h
  obtain ⟨count, hcount, h⟩ := Outcome.bind_eq_ok_iff.mp h
  obtain ⟨blocks, hblocks, h⟩ := Outcome.bind_eq_ok_iff.mp h
  obtain ⟨words, hwords, h⟩ := Outcome.bind_eq_ok_iff.mp h
  cases h
  exact ⟨(requireExtents_eq_ok hextents).1, toWord_eq_ok hlanes,
    by rw [toWord_eq_ok hlanes, toWord_eq_ok hblocks]; exact hcount, toWord_eq_ok hwords⟩

/-- The grid with a block for every tile. -/
theorem Grid.perTile_eq_ok {size rows : Nat} {tuning : Tuning} {grid : Grid}
    (h : Grid.perTile size rows tuning = .ok grid) :
    grid.lanes = tuning.lanesPerTile ∧ Size.divCeil size tuning.tile.toNat = .ok grid.blocksPerRow.toNat ∧
      grid.rows.toNat = rows := by
  rw [perTile] at h
  obtain ⟨_, hextents, h⟩ := Outcome.bind_eq_ok_iff.mp h
  obtain ⟨count, hcount, h⟩ := Outcome.bind_eq_ok_iff.mp h
  obtain ⟨blocks, hblocks, h⟩ := Outcome.bind_eq_ok_iff.mp h
  obtain ⟨words, hwords, h⟩ := Outcome.bind_eq_ok_iff.mp h
  cases h
  exact ⟨rfl, by rw [toWord_eq_ok hblocks]; exact hcount, toWord_eq_ok hwords⟩

/-! ### Shapes -/

/-- How a segment is shared out covers it. -/
theorem Sharing.covers_of_ofBlocks {blocks width lanes stepCount : Nat} {tuning : Tuning} {sharing : Sharing}
    (h : Sharing.ofBlocks blocks width lanes stepCount tuning = .ok sharing)
    (hwidth : width ≤ blocks * stepCount)
    (hmany : blocks ≠ 1 → lanes * tuning.laneWork.toNat = stepCount) : sharing.Covers width blocks lanes := by
  unfold ofBlocks at h
  split at h
  · obtain ⟨step, hstep, h⟩ := Outcome.bind_eq_ok_iff.mp h
    obtain ⟨word, hword, h⟩ := Outcome.bind_eq_ok_iff.mp h
    cases h
    refine ⟨‹_›, ?_⟩
    rw [toWord_eq_ok hword, Nat.mul_comm]
    exact (Size.divCeil_eq_ok hstep).2.1
  · obtain ⟨word, hword, h⟩ := Outcome.bind_eq_ok_iff.mp h
    cases h
    refine ⟨?_, ?_⟩
    · rw [toWord_eq_ok hword]
      exact hmany ‹_›
    · rwa [toWord_eq_ok hword]

/-- The lanes of a block of a pass over segments of `width`. -/
def Limits.lanesFor (limits : Limits) (width : Nat) : Nat :=
  if limits.fixedLanes then limits.maxLanes.toNat else min limits.maxLanes.toNat width

/-- The shape of a pass: what its extents are. -/
structure MergeShape.Made (shape : MergeShape) (width size rows : Nat) (limits : Limits) (tuning : Tuning) :
    Prop where
  /-- A segment has two runs. -/
  two_le : 2 ≤ width
  /-- The width of a segment. -/
  width_eq : shape.width.toNat = width
  /-- The lanes of a block. -/
  lanes_eq : shape.grid.lanes.toNat = limits.lanesFor width
  /-- The blocks of a segment. -/
  blocks_eq : Size.divCeil width (limits.maxLanes.toNat * tuning.laneWork.toNat) =
    .ok shape.blocksPerSegment.toNat
  /-- The segments of a row. -/
  segments_eq : Size.divCeil size width = .ok shape.segments.toNat
  /-- How a segment is shared out. -/
  sharing_eq : Sharing.ofBlocks shape.blocksPerSegment.toNat width (limits.lanesFor width)
    (limits.maxLanes.toNat * tuning.laneWork.toNat) tuning = .ok shape.sharing
  /-- The grid has a row for every segment of every row. -/
  rows_eq : shape.grid.rows.toNat = rows * shape.segments.toNat

/-- A shape that is made has the extents of a pass. -/
theorem MergeShape.made_of_ofWidth {width size rows : Nat} {limits : Limits} {tuning : Tuning} {shape : MergeShape}
    (h : MergeShape.ofWidth width size rows limits tuning = .ok shape) : shape.Made width size rows limits tuning := by
  unfold ofWidth at h
  obtain ⟨_, hextents, h⟩ := Outcome.bind_eq_ok_iff.mp h
  by_cases hnarrow : width < 2
  · simp only [if_pos hnarrow] at h
    obtain ⟨_, hrefused, -⟩ := Outcome.bind_eq_ok_iff.mp h
    exact absurd hrefused (Outcome.refuse_ne_ok _ _)
  simp only [if_neg hnarrow] at h
  obtain ⟨count, hcount, h⟩ := Outcome.bind_eq_ok_iff.mp h
  obtain ⟨segments, hsegments, h⟩ := Outcome.bind_eq_ok_iff.mp h
  obtain ⟨sharing, hsharing, h⟩ := Outcome.bind_eq_ok_iff.mp h
  by_cases hoverflow : Size.limit ≤ rows * segments
  · simp only [if_neg (Nat.not_lt.mpr hoverflow)] at h
    obtain ⟨_, hrefused, -⟩ := Outcome.bind_eq_ok_iff.mp h
    exact absurd hrefused (Outcome.refuse_ne_ok _ _)
  simp only [if_pos (Nat.not_le.mp hoverflow), Outcome.ok_bind] at h
  obtain ⟨lanes, hlanes, h⟩ := Outcome.bind_eq_ok_iff.mp h
  obtain ⟨blocks, hblocks, h⟩ := Outcome.bind_eq_ok_iff.mp h
  obtain ⟨words, hwords, h⟩ := Outcome.bind_eq_ok_iff.mp h
  obtain ⟨widthWord, hwidthWord, h⟩ := Outcome.bind_eq_ok_iff.mp h
  obtain ⟨segmentsWord, hsegmentsWord, h⟩ := Outcome.bind_eq_ok_iff.mp h
  cases h
  rw [← toWord_eq_ok hblocks] at hcount hsharing
  rw [← toWord_eq_ok hsegmentsWord] at hsegments hwords
  exact ⟨Nat.not_lt.mp hnarrow, toWord_eq_ok hwidthWord, toWord_eq_ok hlanes, hcount, hsegments, hsharing,
    toWord_eq_ok hwords⟩

/-- A segment is shared out as a whole, whatever its width. -/
theorem MergeShape.Made.shared {width size rows : Nat} {limits : Limits} {tuning : Tuning} {shape : MergeShape}
    (h : shape.Made width size rows limits tuning) :
    shape.sharing.Covers width shape.blocksPerSegment.toNat shape.grid.lanes.toNat := by
  obtain ⟨hstep, hcover, hinside⟩ := Size.divCeil_eq_ok h.blocks_eq
  rw [h.lanes_eq]
  refine Sharing.covers_of_ofBlocks h.sharing_eq hcover fun hmany => ?_
  -- Several blocks: the segment is wider than the outputs of one, so the lanes are as many as allowed.
  have hwide := h.two_le
  have hwork : 0 < tuning.laneWork.toNat := Nat.pos_of_mul_pos_left hstep
  have hbeyond : 1 < shape.blocksPerSegment.toNat := by
    rcases Nat.lt_or_ge 1 shape.blocksPerSegment.toNat with hlt | hge
    · exact hlt
    · have hnone : shape.blocksPerSegment.toNat = 0 := by omega
      rw [hnone] at hcover
      omega
  have hone := hinside 1 hbeyond
  have hlanesLe : limits.maxLanes.toNat ≤ limits.maxLanes.toNat * tuning.laneWork.toNat :=
    Nat.le_mul_of_pos_right _ hwork
  have hall : limits.lanesFor width = limits.maxLanes.toNat := by
    rw [Limits.lanesFor]
    split
    · rfl
    · omega
  rw [hall]

/-- A segment of a pass starts in the row. -/
theorem MergeShape.Made.start_lt {width size rows : Nat} {limits : Limits} {tuning : Tuning} {shape : MergeShape}
    (h : shape.Made width size rows limits tuning) {number : Nat} (hnumber : number < shape.segments.toNat) :
    width * number < size := by
  obtain ⟨-, -, hstart⟩ := Size.divCeil_eq_ok h.segments_eq
  rw [Nat.mul_comm]
  exact hstart number hnumber

/-- The shape of a pass over segments of an even width covers the row. -/
theorem MergeShape.Made.covers {width size rows : Nat} {limits : Limits} {tuning : Tuning} {shape : MergeShape}
    (h : shape.Made width size rows limits tuning) (heven : width % 2 = 0) : shape.Covers size := by
  obtain ⟨-, hfill, -⟩ := Size.divCeil_eq_ok h.segments_eq
  have hstart : ∀ number < shape.segments.toNat, width * number < size := fun _ => h.start_lt
  have hshared := h.shared
  rw [← h.width_eq] at heven hfill hstart hshared
  exact ⟨heven, hstart, by rwa [Nat.mul_comm], hshared⟩

/-! ### Passes -/

/-- As many doublings of one as are counted reach a size. -/
theorem le_pow_doublings (n : Nat) : n ≤ Nat.pow 2 (doublings n) := by
  unfold doublings
  split
  · simpa
  · have hlt : n - 1 < Nat.pow 2 ((n - 1).log2 + 1) := Nat.lt_log2_self
    omega

/-- A power of two that is taken as a size is zero if it is too large. -/
theorem pow_mod_limit {k : Nat} (hpos : 0 < Nat.pow 2 k % Size.limit) :
    Nat.pow 2 k % Size.limit = Nat.pow 2 k := by
  rcases Nat.lt_or_ge k 64 with hk | hk
  · have hle : Nat.pow 2 k ≤ Nat.pow 2 63 := Nat.pow_le_pow_right (by decide) (by omega)
    exact Nat.mod_eq_of_lt (Nat.lt_of_le_of_lt hle (by decide))
  · have hsplit : Nat.pow 2 k = Size.limit * Nat.pow 2 (k - 64) := by
      calc Nat.pow 2 k = Nat.pow 2 (64 + (k - 64)) := by rw [Nat.add_sub_cancel' hk]
        _ = Nat.pow 2 64 * Nat.pow 2 (k - 64) := Nat.pow_add 2 64 (k - 64)
        _ = Size.limit * Nat.pow 2 (k - 64) := rfl
    rw [hsplit, Nat.mul_mod_right] at hpos
    omega

/-- A configuration is valid if it breaks none of the rules. -/
theorem Config.problem?_eq_none_iff {config : Config} : config.problem? = none ↔
    (2 ≤ config.tuning.tile ∧ Nat.pow 2 config.tuning.tile.toNat.log2 = config.tuning.tile.toNat) ∧
      config.tuning.laneWork ≠ 0 ∧ config.limits.maxLanes ≠ 0 ∧
      config.tuning.lanesPerTile ≤ config.limits.maxLanes := by
  have hrule : ∀ (broken : Prop) [Decidable broken] (problem : ConfigProblem) (rest : Option ConfigProblem),
      (if broken then some problem else rest) = none ↔ ¬broken ∧ rest = none := by
    intro broken _ problem rest
    by_cases h : broken <;> simp [h]
  simp only [problem?, hrule, not_or, UInt32.not_lt, Decidable.not_not, and_true, ne_eq]

theorem Config.problem?_of_validate {config : Config} (h : config.validate = .ok ()) : config.problem? = none := by
  rw [validate] at h
  split at h
  · exact absurd h (Outcome.refuse_ne_ok _ _)
  · assumption

/-- A valid configuration has a tile that is a power of two and even. -/
theorem Config.tile_of_valid {config : Config} (h : config.problem? = none) :
    Nat.pow 2 config.tuning.tile.toNat.log2 = config.tuning.tile.toNat ∧ 2 ≤ config.tuning.tile.toNat := by
  obtain ⟨⟨htile, hpow⟩, -⟩ := problem?_eq_none_iff.mp h
  exact ⟨hpow, UInt32.le_iff_toNat_le.mp htile⟩

/-- The tile of a valid configuration is even. -/
theorem Config.tile_even {config : Config} (h : config.problem? = none) : config.tuning.tile.toNat % 2 = 0 := by
  obtain ⟨hpow, htile⟩ := tile_of_valid h
  cases hlog : config.tuning.tile.toNat.log2 with
  | zero =>
    rw [hlog] at hpow
    simp at hpow
    omega
  | succ k =>
    rw [hlog] at hpow
    rw [← hpow]
    exact Nat.mul_mod_left (Nat.pow 2 k) 2

/-- A power of two that is a word is at most the largest one. -/
theorem pow_le_of_lt {k : Nat} (h : Nat.pow 2 k < 4294967296) : Nat.pow 2 k ≤ 2147483648 := by
  rcases Nat.lt_or_ge k 32 with hk | hk
  · exact Nat.pow_le_pow_right (by decide) (Nat.le_of_lt_succ hk)
  · have hle : Nat.pow 2 32 ≤ Nat.pow 2 k := Nat.pow_le_pow_right (by decide) hk
    exact absurd h (Nat.not_lt.mpr hle)

/-- The tile of a valid configuration is at most the largest power of two that is a word. -/
theorem Config.tile_le {config : Config} (h : config.problem? = none) : config.tuning.tile.toNat ≤ 2147483648 := by
  have hlt := config.tuning.tile.toNat_lt
  rw [← (tile_of_valid h).1] at hlt ⊢
  exact pow_le_of_lt hlt

/-- A multiple of the tile by a power of two is a power of two. -/
theorem Config.tile_mul_pow {config : Config} (hvalid : config.problem? = none) (k : Nat) :
    config.tuning.tile.toNat * Nat.pow 2 k = Nat.pow 2 (config.tuning.tile.toNat.log2 + k) :=
  calc config.tuning.tile.toNat * Nat.pow 2 k
      = Nat.pow 2 config.tuning.tile.toNat.log2 * Nat.pow 2 k := by rw [(tile_of_valid hvalid).1]
    _ = Nat.pow 2 (config.tuning.tile.toNat.log2 + k) := (Nat.pow_add 2 _ _).symm

/-- The launch of a pass, from one side to the other. -/
def passLaunch (shapes : Nat → MergeShape) (pass : Nat) : Launch :=
  ⟨.mergeRuns pass (Side.ofPass pass) (Side.ofPass pass).other (shapes pass), (shapes pass).grid⟩

/-- The first launches of a sort: the copy, the tiles, and some passes. -/
def launchesUpTo (copy tiles : Grid) (tile : UInt32) (shapes : Nat → MergeShape) (pass : Nat) : List Launch :=
  [⟨.copyIn, copy⟩, ⟨.sortTiles tile, tiles⟩] ++ (List.range pass).map (passLaunch shapes)

theorem launchesUpTo_succ (copy tiles : Grid) (tile : UInt32) (shapes : Nat → MergeShape) (pass : Nat) :
    launchesUpTo copy tiles tile shapes (pass + 1) =
      launchesUpTo copy tiles tile shapes pass ++ [passLaunch shapes pass] := by
  rw [launchesUpTo, List.range_succ, List.map_append, ← List.append_assoc]
  rfl

/-- The launches of a sort. An odd number of passes leaves the result on the back side. -/
def sortLaunches (copy tiles : Grid) (tile : UInt32) (passes : Nat) (shapes : Nat → MergeShape) : List Launch :=
  launchesUpTo copy tiles tile shapes passes ++ if passes % 2 = 1 then [⟨.copyBack, copy⟩] else []

/-- The width of a pass is at most the largest power of two that is a word. -/
theorem MergeShape.Made.width_le {config : Config} (hvalid : config.problem? = none) {k size rows : Nat}
    {limits : Limits} {tuning : Tuning} {shape : MergeShape}
    (h : shape.Made (config.tuning.tile.toNat * Nat.pow 2 k) size rows limits tuning) :
    config.tuning.tile.toNat * Nat.pow 2 k ≤ 2147483648 := by
  have hword := shape.width.toNat_lt
  rw [h.width_eq, Config.tile_mul_pow hvalid] at hword
  rw [Config.tile_mul_pow hvalid]
  exact pow_le_of_lt hword

/-- The width of a pass, as a power of two and as a multiple of the tile. -/
theorem Config.pow_eq_width {config : Config} (hvalid : config.problem? = none) (pass : Nat) :
    Nat.pow 2 (pass + config.tuning.tile.toNat.log2 + 1) = config.tuning.tile.toNat * Nat.pow 2 (pass + 1) := by
  rw [tile_mul_pow hvalid]
  congr 1
  omega

/-- The launch of a pass: its segments are twice as wide as the runs that the passes before have left. -/
theorem Program.mergeLaunch_spec {config : Config} (hvalid : config.problem? = none) {size rows pass : Nat}
    {launch : Launch}
    (h : Program.mergeLaunch config size rows config.tuning.tile.toNat.log2 pass = .ok launch) :
    ∃ shape : MergeShape, launch = ⟨.mergeRuns pass (Side.ofPass pass) (Side.ofPass pass).other shape, shape.grid⟩ ∧
      shape.Made (config.tuning.tile.toNat * Nat.pow 2 (pass + 1)) size rows config.limits config.tuning := by
  rw [mergeLaunch] at h
  obtain ⟨shape, hshape, h⟩ := Outcome.bind_eq_ok_iff.mp h
  cases h
  have hmade := MergeShape.made_of_ofWidth hshape
  have hexact := pow_mod_limit (Nat.lt_of_lt_of_le (by decide : 0 < 2) hmade.two_le)
  rw [hexact, Config.pow_eq_width hvalid] at hmade
  exact ⟨shape, rfl, hmade⟩

/-- The launches of a sort are those of two grids and of a shape for every pass. -/
theorem Program.launchesFor_eq_ok {config : Config} (hvalid : config.problem? = none) {size rows : Nat}
    {launches : List Launch} (h : Program.launchesFor config size rows = .ok launches) :
    ∃ copy tiles shapes, Grid.perElement size rows config.limits = .ok copy ∧
      Grid.perTile size rows config.tuning = .ok tiles ∧
      launches = sortLaunches copy tiles config.tuning.tile (doublings size - config.tuning.tile.toNat.log2) shapes ∧
      ∀ pass < doublings size - config.tuning.tile.toNat.log2,
        (shapes pass).Made (config.tuning.tile.toNat * Nat.pow 2 (pass + 1)) size rows config.limits config.tuning := by
  obtain ⟨hpow, htile⟩ := Config.tile_of_valid hvalid
  rw [launchesFor] at h
  obtain ⟨copy, hcopy, h⟩ := Outcome.bind_eq_ok_iff.mp h
  obtain ⟨tiles, htiles, h⟩ := Outcome.bind_eq_ok_iff.mp h
  obtain ⟨lower, hlower, h⟩ := Outcome.bind_eq_ok_iff.mp h
  obtain ⟨merges, hmerges, h⟩ := Outcome.bind_eq_ok_iff.mp h
  cases h
  have hlog : config.tuning.tile.toNat.log2 = lower := by
    rw [Tuning.tileLog2, if_neg (fun hzero => by simp [hzero] at htile)] at hlower
    cases hlower
    rfl
  subst hlog
  generalize doublings size - config.tuning.tile.toNat.log2 = passes at hmerges ⊢
  obtain ⟨hlen, hget⟩ := Outcome.getElem_of_mapM_eq_ok hmerges
  rw [List.length_range] at hlen
  have hshape : ∀ pass, ∃ shape : MergeShape, ∀ hpass : pass < passes,
      merges[pass] = ⟨.mergeRuns pass (Side.ofPass pass) (Side.ofPass pass).other shape, shape.grid⟩ ∧
        shape.Made (config.tuning.tile.toNat * Nat.pow 2 (pass + 1)) size rows config.limits config.tuning := by
    intro pass
    by_cases hpass : pass < passes
    · have hlaunch := hget pass (by rwa [List.length_range]) (by omega)
      rw [List.getElem_range] at hlaunch
      obtain ⟨shape, hspec⟩ := mergeLaunch_spec hvalid hlaunch
      exact ⟨shape, fun _ => hspec⟩
    · exact ⟨default, fun hpass' => absurd hpass' hpass⟩
  obtain ⟨shapes, hshapes⟩ := Classical.axiomOfChoice hshape
  have hmerge : merges = (List.range passes).map (passLaunch shapes) := by
    refine List.ext_getElem (by simp [hlen]) fun pass hpass _ => ?_
    rw [List.getElem_map, List.getElem_range]
    exact (hshapes pass (by omega)).1
  exact ⟨copy, tiles, shapes, hcopy, htiles, by rw [hmerge]; rfl, fun pass hpass => (hshapes pass hpass).2⟩

/-- What holds of both copies, the tiles and every pass holds of every launch of a sort. -/
theorem forall_mem_sortLaunches {motive : Launch → Prop} {copy tiles : Grid} {tile : UInt32} {passes : Nat}
    {shapes : Nat → MergeShape} (hcopyIn : motive ⟨.copyIn, copy⟩) (htiles : motive ⟨.sortTiles tile, tiles⟩)
    (hpass : ∀ pass < passes, motive (passLaunch shapes pass)) (hcopyBack : motive ⟨.copyBack, copy⟩) :
    ∀ launch ∈ sortLaunches copy tiles tile passes shapes, motive launch := by
  intro launch hlaunch
  rcases List.mem_append.mp hlaunch with hlaunch | hback
  · rcases List.mem_append.mp hlaunch with hfirst | hmerge
    · rcases List.mem_cons.mp hfirst with rfl | hsecond
      · exact hcopyIn
      · rw [List.mem_singleton.mp hsecond]
        exact htiles
    · obtain ⟨pass, hmem, rfl⟩ := List.mem_map.mp hmerge
      exact hpass pass (List.mem_range.mp hmem)
  · split at hback
    · rw [List.mem_singleton.mp hback]
      exact hcopyBack
    · simp at hback

/-- The launches of a sort: their grids reach all of a row, every pass doubles the width of the runs, and after the last
pass one run fills the row. -/
theorem Program.launchesFor_spec {config : Config} (hvalid : config.problem? = none) {size rows : Nat}
    {launches : List Launch} (h : Program.launchesFor config size rows = .ok launches) :
    ∃ copy tiles passes shapes, launches = sortLaunches copy tiles config.tuning.tile passes shapes ∧
      (∀ launch ∈ launches, launch.Covers size) ∧
      (∀ pass < passes, (shapes pass).width.toNat = config.tuning.tile.toNat * Nat.pow 2 (pass + 1)) ∧
      size ≤ config.tuning.tile.toNat * Nat.pow 2 passes ∧ 0 < size ∧ size ≤ 2147483648 := by
  have heven := Config.tile_even hvalid
  obtain ⟨copy, tiles, shapes, hcopy, htiles, rfl, hmade⟩ := launchesFor_eq_ok hvalid h
  obtain ⟨hsize, -, hblocks, -⟩ := Grid.perElement_eq_ok hcopy
  obtain ⟨hlanes, htileBlocks, -⟩ := Grid.perTile_eq_ok htiles
  have hfull : size ≤ config.tuning.tile.toNat * Nat.pow 2 (doublings size - config.tuning.tile.toNat.log2) :=
    calc size ≤ Nat.pow 2 (doublings size) := le_pow_doublings size
      _ ≤ Nat.pow 2 (config.tuning.tile.toNat.log2 + (doublings size - config.tuning.tile.toNat.log2)) :=
        Nat.pow_le_pow_right (by decide) (by omega)
      _ = config.tuning.tile.toNat * Nat.pow 2 (doublings size - config.tuning.tile.toNat.log2) :=
        (Config.tile_mul_pow hvalid _).symm
  generalize doublings size - config.tuning.tile.toNat.log2 = passes at hmade hfull ⊢
  refine ⟨copy, tiles, passes, shapes, rfl, ?_, fun pass hpass => (hmade pass hpass).width_eq, hfull, hsize,
    Nat.le_trans hfull ?_⟩
  · have hcovers := (Size.divCeil_eq_ok hblocks).2.1
    refine forall_mem_sortLaunches hcovers ⟨?_, (Size.divCeil_eq_ok htileBlocks).2⟩ (fun pass hpass => ?_) hcovers
    · rw [hlanes, Tuning.lanesPerTile, UInt32.toNat_div]
      exact Nat.mul_div_cancel' (Nat.dvd_of_mod_eq_zero heven)
    · refine ⟨rfl, rfl, (hmade pass hpass).covers ?_⟩
      rw [Nat.mul_mod, heven, Nat.zero_mul, Nat.zero_mod]
  · cases passes with
    | zero => exact Nat.le_trans (Nat.le_of_eq (Nat.mul_one _)) (Config.tile_le hvalid)
    | succ pass => exact (hmade pass (Nat.lt_succ_self pass)).width_le hvalid

/-- The program of a shape and an axis: packed rows, and the launches that sort them. -/
theorem Program.lower_spec {shape : List Nat} {axis : Nat} {direction : Direction} {indexed : Bool} {config : Config}
    {program : Program} (h : Program.lower shape axis direction indexed config = .ok program) :
    config.problem? = none ∧ AxisView.ofShape shape axis = .ok program.view ∧ program.view.after = 1 ∧
      program.direction = direction ∧ program.indexed = indexed ∧
      program.view.before * program.view.axisLen < Size.limit ∧
      (program.view.before * program.view.axisLen = 0 ∧ program.launches = [] ∨
        program.view.before * program.view.axisLen ≠ 0 ∧
        Program.launchesFor config program.view.axisLen program.view.before = .ok program.launches) := by
  rw [lower] at h
  obtain ⟨_, hvalid, h⟩ := Outcome.bind_eq_ok_iff.mp h
  obtain ⟨view, hview, h⟩ := Outcome.bind_eq_ok_iff.mp h
  have hproblem := Config.problem?_of_validate hvalid
  cases hpacked : view.isPacked with
  | false =>
    simp only [hpacked, Bool.not_false, if_true] at h
    obtain ⟨_, hrefused, -⟩ := Outcome.bind_eq_ok_iff.mp h
    exact absurd hrefused (Outcome.refuse_ne_ok _ _)
  | true =>
    have hafter : view.after = 1 := by simpa [AxisView.isPacked] using hpacked
    simp only [hpacked, Bool.not_true, Bool.false_eq_true, if_false] at h
    obtain ⟨total, htotal, h⟩ := Outcome.bind_eq_ok_iff.mp h
    have hsize : view.before * view.axisLen < Size.limit ∧ view.before * view.axisLen = total := by
      rw [AxisView.total] at htotal
      obtain ⟨inner, hinner, houter⟩ := Outcome.bind_eq_ok_iff.mp htotal
      obtain ⟨hlt, rfl⟩ := Size.mul_eq_ok_iff.mp hinner
      rw [hafter, Size.mul_eq_ok_iff, Nat.mul_one] at houter
      exact ⟨hlt, houter.2⟩
    obtain ⟨hlt, rfl⟩ := hsize
    split at h
    · rename_i hzero
      cases h
      exact ⟨hproblem, hview, hafter, rfl, rfl, hlt, .inl ⟨hzero, rfl⟩⟩
    · rename_i hzero
      obtain ⟨count, hcount, h⟩ := Outcome.bind_eq_ok_iff.mp h
      obtain ⟨launches, hlaunches, h⟩ := Outcome.bind_eq_ok_iff.mp h
      cases h
      rw [AxisView.rowCount, hafter, Size.mul_eq_ok_iff, Nat.mul_one] at hcount
      obtain ⟨-, rfl⟩ := hcount
      exact ⟨hproblem, hview, hafter, rfl, rfl, hlt, .inr ⟨hzero, hlaunches⟩⟩

/-- A program that sorts rows of a size by tiles and passes. -/
structure Program.Sorts (program : Program) (tile : UInt32) (copy tiles : Grid) (passes : Nat)
    (shapes : Nat → MergeShape) : Prop extends program.Fits where
  /-- Its launches are those of a sort. -/
  launches_eq : program.launches = sortLaunches copy tiles tile passes shapes
  /-- A tile has elements. -/
  tile_pos : 0 < tile.toNat
  /-- The runs that a pass merges are as wide as those that the passes before leave. -/
  width_eq : ∀ pass < passes, (shapes pass).width.toNat = tile.toNat * Nat.pow 2 (pass + 1)
  /-- After the last pass one run fills a row. -/
  axisLen_le : program.view.axisLen ≤ tile.toNat * Nat.pow 2 passes
  /-- Positions along a row fit every index type. -/
  axisLen_le_word : program.view.axisLen ≤ 2147483648

/-- A program that is lowered for rows that are not empty sorts them. -/
theorem Program.exists_sorts_of_lower {shape : List Nat} {axis : Nat} {direction : Direction} {indexed : Bool}
    {config : Config} {program : Program} (h : Program.lower shape axis direction indexed config = .ok program)
    (hrows : program.view.before * program.view.axisLen ≠ 0) :
    ∃ copy tiles passes shapes, program.Sorts config.tuning.tile copy tiles passes shapes := by
  obtain ⟨hvalid, -, hafter, -, -, htotal, hlaunches⟩ := lower_spec h
  rcases hlaunches with ⟨hzero, -⟩ | ⟨-, hlaunches⟩
  · exact absurd hzero hrows
  · obtain ⟨copy, tiles, passes, shapes, heq, hcovers, hwidth, hfull, hpos, hword⟩ := launchesFor_spec hvalid hlaunches
    have hlimit : 2147483648 < Buffer.byteLimit := by decide
    exact ⟨copy, tiles, passes, shapes, ⟨hafter, hpos, by omega, htotal, hcovers⟩, heq,
      by have := (Config.tile_of_valid hvalid).2; omega, hwidth, hfull, hword⟩

end MergePathSort
