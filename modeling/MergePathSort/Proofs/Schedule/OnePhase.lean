import Mathlib.Data.List.ProdSigma
import MergePathSort.Proofs.Host.Merges
import MergePathSort.Proofs.Schedule.Work

/-!
# Launches of one phase in any order

The blocks that copy a row, and those that merge its segments, have one phase. Every lane reads what no lane of the launch
writes, and stores entries of the row that the launch leaves; so whatever lane comes next, it only improves the side that is
written, and what other lanes have stored is still right. When all lanes have acted everything is right, as every place of
the row is that of some lane.

## Main definitions

* `Delivers` : a phase whose lanes store entries of a target.

## Main results

* `leads_of_delivers` : blocks of one phase, in any order of their lanes.
* `leads_copyIn`, `leads_copyBack`, `leads_merges` : the blocks of the three launches on a row.
-/

namespace MergePathSort

/-! ### Blocks of one phase -/

section Blocks

variable {ρ τ α δ : Type}

/-- Phases that deliver entries of a target: there is one at most, and each of its lanes stores what is right at the lane's
places, whatever has been stored before. -/
structure Delivers (target : List α) (row : List α → ρ) (lanes : Nat) (Places : Nat → Nat → Prop)
    (phases : List (LaneAction ρ τ)) : Prop where
  /-- There is one phase at most. -/
  length_le : phases.length ≤ 1
  /-- If any lane has a place there is a phase. -/
  ne_nil : ∀ {n p : Nat}, Places n p → phases ≠ []
  /-- A lane stores what is right at its places. -/
  lane : ∀ action ∈ phases, ∀ n < lanes, ∀ ys scratch, ys.length = target.length →
    ∃ ys', action n (row ys, scratch) = .ok (row ys', scratch) ∧ Improves target ys ys' ∧
      ∀ p, Places n p → ys'[p]? = target[p]?

variable {parts : List δ} {block : δ → Block ρ τ} {row : List α → ρ} {target : List α} {Places : δ → Nat → Nat → Prop}

/-- What is known of a block that delivers: the lanes that have acted have stored what is right. -/
def Delivered (parts : List δ) (block : δ → Block ρ τ) (row : List α → ρ) (target : List α)
    (Places : δ → Nat → Nat → Prop) (number : Nat) (state : Option (Progress ρ τ)) (ys : List α) : Prop :=
  ∀ progress, state = some progress → ∀ part, parts[number]? = some part →
    Delivers target row (block part).lanes (Places part) progress.phases ∧
      ∀ n < (block part).lanes, 0 < progress.phase ∨ n ∉ progress.waiting → ∀ p, Places part n p → ys[p]? = target[p]?

/-- What is known of a block that delivers stays known when others store what is right. -/
theorem Delivered.of_improves {number : Nat} {state : Option (Progress ρ τ)} {ys ys' : List α}
    (h : Delivered parts block row target Places number state ys) (himproves : Improves target ys ys') :
    Delivered parts block row target Places number state ys' := by
  intro progress hstate part hpart
  obtain ⟨hdelivers, hstored⟩ := h progress hstate part hpart
  exact ⟨hdelivers, fun n hn hacted p hp => himproves.keeps p (hstored n hn hacted p hp)⟩

/-- Blocks that deliver keep up what is known of them. -/
theorem keeps_delivered
    (hplan : ∀ part ∈ parts, ∀ ys, ys.length = target.length → ∃ phases, (block part).phases (row ys) = .ok phases ∧
      Delivers target row (block part).lanes (Places part) phases) :
    Keeps (parts.map block) row (·.length = target.length) (Delivered parts block row target Places) := by
  constructor
  case start =>
    intro ys number started hlen hnumber _
    rw [List.getElem?_map] at hnumber
    obtain ⟨part, hpart, rfl⟩ := Option.map_eq_some_iff.mp hnumber
    obtain ⟨phases, hphases, hdelivers⟩ := hplan part (List.mem_of_getElem? hpart) ys hlen
    refine ⟨phases, hphases, ?_⟩
    rintro progress ⟨⟩ part' hpart'
    cases hpart.symm.trans hpart'
    refine ⟨hdelivers, fun n hn hacted => ?_⟩
    rcases hacted with hphase | hwaiting
    · exact absurd hphase (Nat.lt_irrefl 0)
    · exact absurd (List.mem_range.mpr hn) hwaiting
  case lane =>
    intro ys number started progress action n hlen hnumber hknown haction hn hlane
    rw [List.getElem?_map] at hnumber
    obtain ⟨part, hpart, rfl⟩ := Option.map_eq_some_iff.mp hnumber
    obtain ⟨hdelivers, hstored⟩ := hknown progress rfl part hpart
    obtain ⟨ys', hact, himproves, hplaces⟩ :=
      hdelivers.lane action (List.mem_of_getElem? haction) n hlane ys progress.scratch hlen
    refine ⟨ys', progress.scratch, hact, himproves.length_eq.trans hlen, ?_,
      fun other _ state hother => hother.of_improves himproves⟩
    rintro _ ⟨⟩ part' hpart'
    cases hpart.symm.trans hpart'
    refine ⟨hdelivers, fun m hm hacted p hp => ?_⟩
    by_cases hmn : m = n
    · subst hmn
      exact hplaces p hp
    · refine himproves.keeps p (hstored m hm (hacted.imp_right fun hwaiting hmem => hwaiting ?_) p hp)
      exact List.mem_filter.mpr ⟨hmem, by simpa using hmn⟩
  case close =>
    intro ys number started progress hlen hnumber hknown hphase hwaiting
    rintro _ ⟨⟩ part hpart
    obtain ⟨hdelivers, hstored⟩ := hknown progress rfl part hpart
    refine ⟨hdelivers, fun n hn _ => hstored n hn (.inr ?_)⟩
    rw [hwaiting]
    exact List.not_mem_nil

variable (row Places) in
/-- Blocks that deliver all of a target, in any order of their lanes. -/
theorem leads_of_delivers
    (hplan : ∀ part ∈ parts, ∀ ys, ys.length = target.length → ∃ phases, (block part).phases (row ys) = .ok phases ∧
      Delivers target row (block part).lanes (Places part) phases)
    (hcovers : ∀ p < target.length, ∃ part ∈ parts, ∃ n < (block part).lanes, Places part n p) {ys : List α}
    (hlen : ys.length = target.length) : (RowWork.ofBlocks (parts.map block) (row ys)).Leads (row target) := by
  refine (keeps_delivered hplan).leads hlen (fun _ _ _ => by rintro _ ⟨⟩) fun last hlast hended => congrArg row ?_
  refine List.ext_getElem? fun p => ?_
  rcases Nat.lt_or_ge p target.length with hp | hp
  · obtain ⟨part, hmem, n, hn, hplace⟩ := hcovers p hp
    obtain ⟨number, hpart⟩ := List.getElem?_of_mem hmem
    obtain ⟨progress, hphase, hknown⟩ := hended number (block part) (by rw [List.getElem?_map, hpart]; rfl)
    obtain ⟨hdelivers, hstored⟩ := hknown progress rfl part hpart
    have hsome := List.length_pos_iff.mpr (hdelivers.ne_nil hplace)
    exact hstored n hn (.inl (Nat.lt_of_lt_of_le hsome hphase)) p hplace
  · rw [List.getElem?_eq_none hp, List.getElem?_eq_none (by omega)]

end Blocks

/-! ### Copies -/

variable {κ ι : Type} [IndexElement ι] {tracked : Bool} {row : TaggedRow κ ι}

/-- The buffers of a row whose sides are given by what is read and by what is written. -/
def sidedCells (tracked : Bool) (src : Side) (xs ys : List (κ × Tag ι)) : RowCells κ ι :=
  TaggedRow.cells tracked (src.pair xs ys)

theorem get_sidedCells (src : Side) (xs ys : List (κ × Tag ι)) :
    (sidedCells tracked src xs ys).get src = Cells.ofTagged tracked xs := by
  rw [sidedCells, TaggedRow.cells, DoubleBuffer.get_map, Side.get_pair]

/-- A cell stored on the side that is written. -/
theorem modify_sidedCells (src : Side) (xs : List (κ × Tag ι)) {ys ys' : List (κ × Tag ι)}
    {store : Cells κ ι → Outcome (Cells κ ι)} (hstore : store (Cells.ofTagged tracked ys) = .ok (Cells.ofTagged tracked ys')) :
    (sidedCells tracked src xs ys).modify src.other store = .ok (sidedCells tracked src xs ys') := by
  rw [sidedCells, TaggedRow.cells, Side.map_pair, Side.modify_other_pair src hstore, ← Side.map_pair]
  rfl

section Copies

variable {grid : Grid} {xs target : List (κ × Tag ι)}

/-- Blocks whose lanes copy one entry each, in any order. -/
theorem leads_copies (act : Nat → RowCells κ ι → Outcome (RowCells κ ι))
    (hcovers : target.length ≤ grid.blocksPerRow.toNat * grid.lanes.toNat)
    (hact : ∀ pos (hpos : pos < target.length), ∀ ys, ys.length = target.length →
      act pos (sidedCells tracked .back xs ys) = .ok (sidedCells tracked .back xs (ys.set pos target[pos])))
    {ys : List (κ × Tag ι)} (hlen : ys.length = target.length) :
    (RowWork.ofBlocks ((List.range grid.blocksPerRow.toNat).map fun number =>
        (Block.once grid.lanes.toNat noScratch fun lane cells =>
          if number * grid.lanes.toNat + lane < target.length then act (number * grid.lanes.toNat + lane) cells
          else .ok cells : RowBlock κ ι)) (sidedCells tracked .back xs ys)).Leads
      (sidedCells tracked .back xs target) := by
  refine leads_of_delivers (sidedCells tracked .back xs) (fun number n p => p = number * grid.lanes.toNat + n)
    (fun number _ ys _ => ⟨[_], rfl, Nat.le_refl 1, fun _ => List.cons_ne_nil _ _, ?_⟩) (fun p hp => ?_) hlen
  · intro action haction n _ ys scratch hys
    obtain rfl := List.mem_singleton.mp haction
    by_cases hpos : number * grid.lanes.toNat + n < target.length
    · have hright := List.getElem?_eq_getElem hpos
      refine ⟨_, ?_, .set hright ys, ?_⟩
      · simp only [if_pos hpos, hact _ hpos ys hys, Outcome.ok_bind]
        rfl
      · rintro p rfl
        exact getElem?_set_target hright hys
    · refine ⟨ys, ?_, .refl _ _, ?_⟩
      · simp only [if_neg hpos, Outcome.ok_bind]
        rfl
      · rintro p rfl
        rw [List.getElem?_eq_none (Nat.le_of_not_lt hpos), List.getElem?_eq_none (by omega)]
  · have hlanes : 0 < grid.lanes.toNat := Nat.pos_of_ne_zero fun hzero => by
      rw [hzero, Nat.mul_zero] at hcovers
      omega
    refine ⟨p / grid.lanes.toNat, List.mem_range.mpr ?_, p % grid.lanes.toNat, Nat.mod_lt _ hlanes,
      (Nat.div_add_mod' _ _).symm⟩
    exact Nat.div_lt_of_lt_mul (by rw [Nat.mul_comm]; omega)

/-- The blocks of the first launch on a row, in any order. -/
theorem leads_copyIn {view : AxisView} {input : Array κ} {number : Nat} {keys : List κ}
    (hlen : row.front.length = view.axisLen) (hkeys : keys.length = view.axisLen)
    (hcovers : view.axisLen ≤ grid.blocksPerRow.toNat * grid.lanes.toNat)
    (hread : ∀ pos (hpos : pos < keys.length),
      (do Buffer.read input (← view.index number pos) : Outcome κ) = .ok keys[pos]) :
    (RowWork.ofBlocks ((List.range grid.blocksPerRow.toNat).map (copyInBlock view grid input number))
      (row.cells tracked)).Leads (TaggedRow.cells tracked ⟨numbered keys, row.back⟩) := by
  have hnumbered : (numbered keys : List (κ × Tag ι)).length = view.axisLen := by rw [length_numbered, hkeys]
  rw [← hnumbered] at hcovers hlen
  unfold copyInBlock
  simp only [← hnumbered]
  refine leads_copies (fun pos cells => do
    let key ← Buffer.read input (← view.index number pos)
    cells.modify .front (·.store pos (key, some (IndexElement.ofPosition pos)))) hcovers (fun pos hpos ys hys => ?_) hlen
  have hkey := hread pos (by simpa using hpos)
  obtain ⟨place, hplace, hkey⟩ := Outcome.bind_eq_ok_iff.mp hkey
  simp only [hplace, Outcome.ok_bind, hkey]
  have hstore : (Cells.ofTagged tracked ys).store pos _ = .ok _ :=
    Cells.store_some_ofTagged (by omega) (numbered keys : List (κ × Tag ι))[pos]
  refine modify_sidedCells .back row.back ?_
  simpa [numbered, Tag.index] using hstore

/-- The blocks of the last launch on a row, in any order. -/
theorem leads_copyBack {axisLen : Nat} (h : row.HasLength axisLen)
    (hcovers : axisLen ≤ grid.blocksPerRow.toNat * grid.lanes.toNat) :
    (RowWork.ofBlocks ((List.range grid.blocksPerRow.toNat).map (copyBackBlock axisLen grid))
      (row.cells tracked)).Leads (TaggedRow.cells tracked (.both row.back)) := by
  obtain ⟨hfront, hback⟩ := h
  subst hback
  refine leads_copies (fun pos cells => do
    let cell ← cells.back.fetch pos
    cells.modify .front (·.store pos cell)) hcovers (fun pos hpos ys hys => ?_) hfront
  have hfetch : (sidedCells tracked .back row.back ys).back.fetch pos = .ok (Cells.cellOf tracked row.back[pos]) :=
    Cells.fetch_ofTagged hpos
  simp only [hfetch, Outcome.ok_bind]
  exact modify_sidedCells .back row.back (Cells.store_ofTagged (by omega) _)

end Copies

/-! ### Merges -/

section Merges

variable [KeyOrder κ] {direction : Direction} {src : Side} {size : Nat} {xs ys target : List (κ × Tag ι)}

omit [KeyOrder κ] in
/-- The moves of a lane that carry entries of a target to their places. -/
theorem exists_foldlM_carry (tracked : Bool) (src : Side) {sources : List Nat} {out : Nat}
    (hsources : ∀ source ∈ sources, source < xs.length)
    (hright : ∀ t < sources.length, target[out + t]? = sources[t]?.bind (xs[·]?)) (hlen : ys.length = target.length) :
    ∃ ys', (Move.listFrom sources out).foldlM (carry src) (sidedCells tracked src xs ys) =
        .ok (sidedCells tracked src xs ys') ∧ Improves target ys ys' ∧
      ∀ t < sources.length, ys'[out + t]? = target[out + t]? := by
  induction sources generalizing out ys with
  | nil => exact ⟨ys, rfl, .refl _ _, fun t ht => absurd ht (Nat.not_lt_zero t)⟩
  | cons source sources ih =>
    have hsource : source < xs.length := hsources source (by simp)
    have hfirst : target[out]? = some xs[source] := by
      simpa [hsource] using hright 0 (Nat.zero_lt_succ _)
    obtain ⟨hout, -⟩ := List.getElem?_eq_some_iff.mp hfirst
    have hset := Improves.set hfirst ys
    have hfetch : (Cells.ofTagged tracked xs).fetch source = .ok (Cells.cellOf tracked xs[source]) :=
      Cells.fetch_ofTagged hsource
    have hstore : (Cells.ofTagged tracked ys).store out (Cells.cellOf tracked xs[source]) =
        .ok (Cells.ofTagged tracked (ys.set out xs[source])) := Cells.store_ofTagged (by omega) _
    have hcarry : carry src (sidedCells tracked src xs ys) ⟨source, out⟩ =
        .ok (sidedCells tracked src xs (ys.set out xs[source])) := by
      simp only [carry, get_sidedCells, hfetch, Outcome.ok_bind]
      exact modify_sidedCells src xs hstore
    have hrest : ∀ t < sources.length, target[out + 1 + t]? = sources[t]?.bind (xs[·]?) := by
      intro t ht
      simpa [Nat.add_assoc, Nat.add_comm 1] using hright (t + 1) (Nat.succ_lt_succ ht)
    obtain ⟨ys', hfold, himproves, hstored⟩ :=
      ih (fun s hs => hsources s (by simp [hs])) hrest (hset.length_eq.trans hlen)
    refine ⟨ys', ?_, hset.trans himproves, fun t ht => ?_⟩
    · rw [Move.listFrom_cons, List.foldlM_cons, hcarry, Outcome.ok_bind]
      exact hfold
    · cases t with
      | zero => exact himproves.keeps out (getElem?_set_target hfirst hlen)
      | succ t => simpa [Nat.add_assoc, Nat.add_comm 1] using hstored t (Nat.lt_of_succ_lt_succ ht)

/-- The places of a lane of a merge pass: those of its outputs. -/
def MergeShape.Places (precedes : Nat → Nat → Bool) (shape : MergeShape) (size : Nat) (part : Nat × Nat) (n p : Nat) :
    Prop :=
  ∃ share, (segmentAt shape.width.toNat size part.1).shareOf precedes shape.sharing part.2 = some share ∧
    ∃ t < (share.laneSources precedes n).length, p = share.outStart + n * share.laneOutputs + t

/-- A lane of a merge pass stores its outputs. -/
theorem exists_mergeLane (hxs : xs.length < Buffer.byteLimit) {shape : MergeShape} (hcovers : shape.Covers xs.length)
    {segment number : Nat} (hsegment : segment < shape.segments.toNat) (hnumber : number < shape.blocksPerSegment.toNat)
    {share : BlockShare} (hshare : (segmentAt shape.width.toNat xs.length segment).shareOf (precedesIn direction xs)
      shape.sharing number = some share) {n : Nat} (hn : n < shape.grid.lanes.toNat)
    (hlen : ys.length = (mergePass direction shape xs).length) (scratch : Cells κ ι) :
    ∃ ys', mergeLane direction src share n (sidedCells tracked src xs ys, scratch) =
        .ok (sidedCells tracked src xs ys', scratch) ∧ Improves (mergePass direction shape xs) ys ys' ∧
      ∀ p, shape.Places (precedesIn direction xs) xs.length (segment, number) n p →
        ys'[p]? = (mergePass direction shape xs)[p]? := by
  obtain ⟨hrun, hend, houtputs, -⟩ := hcovers.shareOf hsegment hshare
  have hmoves := laneMoves_ofTagged tracked direction hxs hrun hend houtputs (Nat.lt_trans hn shape.grid.lanes.toNat_lt)
  have hsources : ∀ source ∈ share.laneSources (precedesIn direction xs) n, source < xs.length :=
    fun source hsource => mem_laneSources hrun hsource
  have hright : ∀ t < (share.laneSources (precedesIn direction xs) n).length,
      (mergePass direction shape xs)[share.outStart + n * share.laneOutputs + t]? =
        (share.laneSources (precedesIn direction xs) n)[t]?.bind (xs[·]?) := by
    intro t ht
    rw [mergePass, passSources, getElem?_gather fun source hsource => MergeShape.mem_sources hcovers hsource,
      MergeShape.getElem?_sources hcovers hsegment hnumber hn hshare ht]
  obtain ⟨ys', hfold, himproves, hstored⟩ := exists_foldlM_carry tracked src hsources hright hlen
  refine ⟨ys', ?_, himproves, ?_⟩
  · simp only [mergeLane, get_sidedCells, hmoves, Outcome.ok_bind, hfold]
    rfl
  · rintro p ⟨share', hshare', t, ht, rfl⟩
    cases hshare.symm.trans hshare'
    exact hstored t ht

/-- A block of a merge pass delivers its outputs. -/
theorem exists_phases_mergeBlock (hxs : xs.length < Buffer.byteLimit) {shape : MergeShape}
    (hcovers : shape.Covers xs.length) {segment number : Nat} (hsegment : segment < shape.segments.toNat)
    (hnumber : number < shape.blocksPerSegment.toNat) (ys : List (κ × Tag ι)) :
    ∃ phases, (mergeBlock direction src shape xs.length segment number).phases (sidedCells tracked src xs ys) =
        .ok phases ∧
      Delivers (mergePass direction shape xs) (sidedCells tracked src xs) shape.grid.lanes.toNat
        (shape.Places (precedesIn direction xs) xs.length (segment, number)) phases := by
  refine ⟨_, phases_mergeBlock hxs hcovers hsegment hnumber (get_sidedCells src xs ys), ?_⟩
  rcases hpart : (segmentAt shape.width.toNat xs.length segment).shareOf (precedesIn direction xs) shape.sharing
    number with _ | share
  · refine ⟨Nat.zero_le 1, ?_, fun _ haction => absurd haction List.not_mem_nil⟩
    rintro n p ⟨share, hsome, -⟩
    cases hpart.symm.trans hsome
  · refine ⟨Nat.le_refl 1, fun _ => List.cons_ne_nil _ _, ?_⟩
    intro action haction n hn zs scratch hzs
    obtain rfl := List.mem_singleton.mp haction
    exact exists_mergeLane hxs hcovers hsegment hnumber hpart hn hzs scratch

/-- The blocks of a merge pass on a row, in any order. -/
theorem leads_merges (direction : Direction) (src : Side) (h : row.HasLength size) (hsize : size < Buffer.byteLimit)
    {shape : MergeShape} (hcovers : shape.Covers size) :
    (RowWork.ofBlocks ((List.range shape.segments.toNat).flatMap fun segment =>
        (List.range shape.blocksPerSegment.toNat).map (mergeBlock direction src shape size segment))
      (row.cells tracked)).Leads
        (TaggedRow.cells tracked (src.pair (row.get src) (mergePass direction shape (row.get src)))) := by
  obtain ⟨xs, ys, rfl⟩ : ∃ xs ys, row = src.pair xs ys := ⟨_, _, (src.pair_get row).symm⟩
  have hxs : xs.length = size := by simpa using h.get src
  have hys : ys.length = size := by simpa using h.get src.other
  subst hxs
  have hblocks : ((List.range shape.segments.toNat).flatMap fun segment =>
      (List.range shape.blocksPerSegment.toNat).map (mergeBlock direction src shape xs.length segment)) =
        (List.product (List.range shape.segments.toNat) (List.range shape.blocksPerSegment.toNat)).map
          fun part => (mergeBlock direction src shape xs.length part.1 part.2 : RowBlock κ ι) := by
    simp [List.product, List.map_flatMap, Function.comp_def]
  have hlen : (mergePass direction shape xs).length = xs.length := length_mergePass hcovers
  rw [hblocks, Side.get_pair]
  refine leads_of_delivers (sidedCells tracked src xs) (shape.Places (precedesIn direction xs) xs.length)
    (fun part hpart zs _ => ?_) (fun p hp => ?_) (hys.trans hlen.symm)
  · obtain ⟨hsegment, hnumber⟩ := List.mem_product.mp hpart
    exact exists_phases_mergeBlock hsize hcovers (List.mem_range.mp hsegment) (List.mem_range.mp hnumber) zs
  · obtain ⟨segment, hsegment, number, hnumber, share, n, hshare, hn, t, ht, hp⟩ :=
      MergeShape.exists_lane_of_lt (precedesIn direction xs) hcovers (hlen ▸ hp)
    exact ⟨(segment, number), List.mem_product.mpr ⟨List.mem_range.mpr hsegment, List.mem_range.mpr hnumber⟩, n, hn,
      share, hshare, t, ht, hp⟩

end Merges

end MergePathSort
