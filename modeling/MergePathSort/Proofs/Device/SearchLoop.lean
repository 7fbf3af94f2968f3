import Mathlib.Logic.Relation
import MergePathSort.Proofs.Device.Needles

/-!
# When a search on a device ends

The search loop of a thread adds the two ends of its window in words. As long as a row has at most half as many keys as
there are words, the sum is exact: the middle lies in the window, every turn leaves a shorter one, and the loop ends
whatever it reads. In a longer row the sum can wrap around. The middle then lies in the lower half of the words, in front
of the window, and a thread whose needle stands behind its row goes back instead of forward and never comes to the end.
Nothing refuses such a row.

The rows of a batch follow each other. A thread computes where its row starts in words as well, and finds it exactly if
the row ends in front of the last word.

## Main definitions

* `Window.Turn`, `Window.Visits` : the turns of the loop, and the windows that it comes to.
* `DeviceEngine.rowTest` : what a thread reads in a turn.
* `DeviceEngine.LoopEnds`, `DeviceEngine.LoopNeverEnds` : the two ways that a loop can go.

## Main results

* `Window.Visits.within`, `Window.shrink_ends` : what holds of every turn, and the loop.
* `Window.shrink_eq_divergence` : a loop that never ends.
* `DeviceEngine.searchRow_ends_unless_long` : when the loop of a thread ends.
-/

namespace MergePathSort

/-! ### The loop -/

namespace Window

/-- How many words a window holds. -/
def length (window : Window) : Nat := window.hi.toNat - window.lo.toNat

/-- One turn of the search loop: a window that is not empty is cut, on the side that the test at its middle asks for. -/
inductive Turn (goesRight : UInt32 → Outcome Bool) : Window → Window → Prop where
  /-- A cut. -/
  | cut {window : Window} {side : Bool} (hopen : window.lo < window.hi) (hside : goesRight window.middle = .ok side) :
    Turn goesRight window (window.cut side)

/-- The windows that a search comes to. -/
def Visits (goesRight : UInt32 → Outcome Bool) (start window : Window) : Prop :=
  Relation.ReflTransGen (Turn goesRight) start window

/-- A window in a range of words. -/
structure Within (range : UInt32) (window : Window) : Prop where
  /-- It does not end before it starts. -/
  lo_le_hi : window.lo ≤ window.hi
  /-- It ends in the range. -/
  hi_le : window.hi ≤ range

variable {window : Window} {range : UInt32} {goesRight : UInt32 → Outcome Bool}

/-- The middle of a window is in the lower half of the words, wherever the window is. -/
theorem toNat_middle_lt (window : Window) : window.middle.toNat < 2147483648 := by
  have hword := (window.lo + window.hi).toNat_lt
  rw [middle, UInt32.toNat_div]
  change _ / 2 < _
  omega

section Halves

variable (h : window.Within range) (hrange : range ≤ 2147483648)
include h hrange

/-- In a range of at most half of the words the sum of the ends does not wrap. -/
theorem Within.toNat_middle (hopen : window.lo < window.hi) :
    window.middle.toNat = (window.lo.toNat + window.hi.toNat) / 2 := by
  obtain ⟨-, hhi⟩ := h
  rw [UInt32.le_iff_toNat_le] at hhi hrange
  rw [UInt32.lt_iff_toNat_lt] at hopen
  have hbound : (2147483648 : UInt32).toNat = 2147483648 := rfl
  rw [middle, UInt32.toNat_div, UInt32.toNat_add, Nat.mod_eq_of_lt (by omega)]
  rfl

/-- The middle of a window that is not empty lies in it. -/
theorem Within.middle_inside (hopen : window.lo < window.hi) :
    window.lo ≤ window.middle ∧ window.middle < window.hi := by
  have hmiddle := h.toNat_middle hrange hopen
  rw [UInt32.le_iff_toNat_le, UInt32.lt_iff_toNat_lt]
  rw [UInt32.lt_iff_toNat_lt] at hopen
  omega

/-- A cut leaves a shorter window in the range. -/
theorem Within.cut (hopen : window.lo < window.hi) (side : Bool) :
    (window.cut side).Within range ∧ (window.cut side).length < window.length := by
  have hmiddle := h.toNat_middle hrange hopen
  have hhalf := window.toNat_middle_lt
  have hnext : (window.middle + 1).toNat = window.middle.toNat + 1 := by
    rw [UInt32.toNat_add]
    exact Nat.mod_eq_of_lt (by change _ + 1 < _; omega)
  obtain ⟨-, hhi⟩ := h
  rw [UInt32.lt_iff_toNat_lt] at hopen
  cases side with
  | true =>
    refine ⟨⟨?_, hhi⟩, ?_⟩
    · change window.middle + 1 ≤ window.hi
      rw [UInt32.le_iff_toNat_le]
      omega
    · change window.hi.toNat - (window.middle + 1).toNat < window.hi.toNat - window.lo.toNat
      omega
  | false =>
    refine ⟨⟨?_, ?_⟩, ?_⟩
    · change window.lo ≤ window.middle
      rw [UInt32.le_iff_toNat_le]
      omega
    · change window.middle ≤ range
      rw [UInt32.le_iff_toNat_le] at hhi ⊢
      omega
    · change window.middle.toNat - window.lo.toNat < window.hi.toNat - window.lo.toNat
      omega

/-- The loop ends within as many turns as its window is long, in the range or where a test fails. -/
theorem shrink_ends (goesRight : UInt32 → Outcome Bool) {budget : Nat} (hbudget : window.length < budget) :
    (∃ place ≤ range, shrink goesRight budget window = .ok place) ∨
      ∃ mid failure, mid < range ∧ goesRight mid = .error failure ∧
        shrink goesRight budget window = .error failure := by
  induction budget generalizing window with
  | zero => exact absurd hbudget (Nat.not_lt_zero _)
  | succ budget ih =>
    rw [shrink]
    by_cases hclosed : window.hi ≤ window.lo
    · rw [if_pos hclosed]
      exact .inl ⟨window.lo, UInt32.le_trans h.lo_le_hi h.hi_le, rfl⟩
    · have hopen : window.lo < window.hi := UInt32.not_le.mp hclosed
      rw [if_neg hclosed]
      rcases hside : goesRight window.middle with failure | side
      · have hinside := UInt32.lt_of_lt_of_le (h.middle_inside hrange hopen).2 h.hi_le
        exact .inr ⟨window.middle, failure, hinside, hside, rfl⟩
      · obtain ⟨hwithin, hshorter⟩ := h.cut hrange hopen side
        rw [Outcome.ok_bind]
        exact ih hwithin (by omega)

end Halves

/-- Every window that a search of a range of at most half of the words comes to lies in the range. -/
theorem Visits.within (h : Visits goesRight ⟨0, range⟩ window) (hrange : range ≤ 2147483648) : window.Within range := by
  induction h with
  | refl => exact ⟨UInt32.zero_le, UInt32.le_refl range⟩
  | tail _ hturn ih =>
    obtain ⟨hopen, -⟩ := hturn
    exact (ih.cut hrange hopen _).1

/-! ### A loop that never ends -/

section Endless

variable (hright : ∀ mid < 2147483648, goesRight mid = .ok true)
include hright

/-- If every test in the lower half of the words asks for the right side, a cut leads back to that half. -/
theorem lo_le_of_cut {side : Bool} (hside : goesRight window.middle = .ok side) :
    (window.cut side).lo ≤ 2147483648 ∧ (window.cut side).hi = window.hi := by
  have hhalf := window.toNat_middle_lt
  obtain rfl : side = true := by
    have hanswer := hside.symm.trans (hright _ (UInt32.lt_iff_toNat_lt.mpr hhalf))
    exact Except.ok.inj hanswer
  refine ⟨?_, rfl⟩
  change window.middle + 1 ≤ 2147483648
  rw [UInt32.le_iff_toNat_le, UInt32.toNat_add]
  change (window.middle.toNat + 1) % 4294967296 ≤ 2147483648
  omega

/-- Then a search of more than half of the words never comes to a window that is empty. -/
theorem Visits.lo_lt_hi (h : Visits goesRight ⟨0, range⟩ window) (hrange : 2147483648 < range) :
    window.lo < window.hi := by
  have hinvariant : window.lo ≤ 2147483648 ∧ window.hi = range := by
    induction h with
    | refl => exact ⟨UInt32.zero_le, rfl⟩
    | tail _ hturn ih =>
      obtain ⟨-, hside⟩ := hturn
      obtain ⟨hlo, hhi⟩ := lo_le_of_cut hright hside
      exact ⟨hlo, hhi.trans ih.2⟩
  rw [hinvariant.2]
  exact UInt32.lt_of_le_of_lt hinvariant.1 hrange

/-- No number of cuts makes the window empty. -/
theorem shrink_eq_divergence (budget : Nat) (hlo : window.lo ≤ 2147483648) (hhi : 2147483648 < window.hi) :
    shrink goesRight budget window = .fault .divergence := by
  induction budget generalizing window with
  | zero => rfl
  | succ budget ih =>
    have hopen : ¬window.hi ≤ window.lo := UInt32.not_le.mpr (UInt32.lt_of_le_of_lt hlo hhi)
    have hside := hright window.middle (UInt32.lt_iff_toNat_lt.mpr window.toNat_middle_lt)
    obtain ⟨hlo', hhi'⟩ := lo_le_of_cut hright hside
    rw [shrink, if_neg hopen, hside, Outcome.ok_bind]
    exact ih hlo' (hhi' ▸ hhi)

end Endless

end Window

/-! ### Threads -/

namespace DeviceEngine

variable {κ : Type} [Element κ]

/-- What a thread reads in a turn: whether the key at the middle stands in front of its needle. -/
def rowTest (haystack : Array κ) (right : Bool) (start : UInt32) (needle : κ) (mid : UInt32) : Outcome Bool := do
  return standsBefore right (← Buffer.read haystack (start + mid).toNat) needle

/-- The loop of a thread ends: every turn finds the middle in its window and leaves a shorter one, what is read belongs to
the row, and the place that is found does as well. A thread only stops earlier if the haystack is shorter than its row. -/
structure LoopEnds (haystack : Array κ) (right : Bool) (start range : UInt32) (needle : κ) : Prop where
  /-- Every window lies in the row. -/
  within : ∀ window, Window.Visits (rowTest haystack right start needle) ⟨0, range⟩ window → window.Within range
  /-- The middle of a window that is not empty lies in it. -/
  middle_inside : ∀ window, Window.Visits (rowTest haystack right start needle) ⟨0, range⟩ window →
    window.lo < window.hi → window.lo ≤ window.middle ∧ window.middle < window.hi
  /-- A turn leaves a shorter window. -/
  length_lt : ∀ window next, Window.Visits (rowTest haystack right start needle) ⟨0, range⟩ window →
    Window.Turn (rowTest haystack right start needle) window next → next.length < window.length
  /-- The loop ends at a place of the row, or where the haystack does. -/
  ends : (∃ place ≤ range, searchRow haystack right start range needle = .ok place) ∨
    ∃ mid < range, haystack.size ≤ (start + mid).toNat ∧
      searchRow haystack right start range needle = .fault .index

/-- The loop of a thread never ends: it comes from one window to the next, and none is empty. -/
structure LoopNeverEnds (haystack : Array κ) (right : Bool) (start range : UInt32) (needle : κ) : Prop where
  /-- Every window is cut once more. -/
  exists_turn : ∀ window, Window.Visits (rowTest haystack right start needle) ⟨0, range⟩ window →
    window.lo < window.hi ∧ ∃ next, Window.Turn (rowTest haystack right start needle) window next
  /-- So the thread does not find a place. -/
  diverges : searchRow haystack right start range needle = .fault .divergence

section Threads

variable {haystack : Array κ} {right : Bool} {needle : κ} {start range : UInt32}

/-- A test fails where the haystack has no key. -/
theorem rowTest_eq_error {mid : UInt32} {failure : Failure} (h : rowTest haystack right start needle mid = .error failure) :
    haystack.size ≤ (start + mid).toNat ∧ failure = .faulted .index := by
  rcases hkey : haystack[(start + mid).toNat]? with _ | key
  · rw [rowTest, Buffer.read, hkey] at h
    exact ⟨Array.getElem?_eq_none_iff.mp hkey, (Except.error.inj h).symm⟩
  · rw [rowTest, Buffer.read_eq_ok_iff.mpr hkey] at h
    cases h

/-- In a row of at most half of the words the loop ends, whatever the keys and the needle are. -/
theorem loopEnds (haystack : Array κ) (right : Bool) (start : UInt32) (needle : κ) (hrange : range ≤ 2147483648) :
    LoopEnds haystack right start range needle := by
  refine ⟨fun window h => h.within hrange, fun window h hopen => (h.within hrange).middle_inside hrange hopen, ?_, ?_⟩
  · rintro window _ h ⟨hopen, -⟩
    exact ((h.within hrange).cut hrange hopen _).2
  · have hstart : (⟨0, range⟩ : Window).Within range := ⟨UInt32.zero_le, UInt32.le_refl range⟩
    have hbudget : (⟨0, range⟩ : Window).length < 18446744073709551616 := by
      have hword := range.toNat_lt
      change range.toNat - 0 < _
      omega
    rcases Window.shrink_ends hstart hrange (rowTest haystack right start needle) hbudget with
      hplace | ⟨mid, failure, hmid, htest, hfails⟩
    · exact .inl hplace
    · obtain ⟨hbehind, rfl⟩ := rowTest_eq_error htest
      exact .inr ⟨mid, hmid, hbehind, hfails⟩

/-- In a longer row it never ends if all keys of the row stand in front of the needle. -/
theorem loopNeverEnds (hrange : 2147483648 < range)
    (hbefore : ∀ mid < range, ∃ key ∈ haystack[(start + mid).toNat]?, standsBefore right key needle = true) :
    LoopNeverEnds haystack right start range needle := by
  have hright : ∀ mid < 2147483648, rowTest haystack right start needle mid = .ok true := by
    intro mid hmid
    obtain ⟨key, hkey, hstands⟩ := hbefore mid (UInt32.lt_trans hmid hrange)
    rw [rowTest, Buffer.read_eq_ok_iff.mpr hkey, Outcome.ok_bind, hstands, Outcome.pure_eq_ok]
  refine ⟨fun window h => ?_, Window.shrink_eq_divergence hright _ UInt32.zero_le hrange⟩
  have hopen := h.lo_lt_hi hright hrange
  exact ⟨hopen, _, .cut hopen (hright _ (UInt32.lt_iff_toNat_lt.mpr window.toNat_middle_lt))⟩

/-- The addresses of a row are exact if the row ends in front of the last word, and only then. -/
theorem addresses_exact_iff (row range : UInt32) :
    (∀ mid < range, (row * range + mid).toNat = row.toNat * range.toNat + mid.toNat) ↔
      row.toNat * range.toNat + range.toNat ≤ 4294967296 := by
  constructor
  · intro hexact
    by_cases hnone : range = 0
    · subst hnone
      exact Nat.zero_le _
    · have hpos : 0 < range.toNat := Nat.pos_of_ne_zero fun hzero => hnone (UInt32.toNat_inj.mp hzero)
      have hlast : (range - 1).toNat = range.toNat - 1 :=
        UInt32.toNat_sub_of_le range 1 (UInt32.le_iff_toNat_le.mpr hpos)
      have hword := (row * range + (range - 1)).toNat_lt
      rw [hexact (range - 1) (UInt32.lt_iff_toNat_lt.mpr (by omega)), hlast] at hword
      omega
  · intro hend mid hmid
    rw [UInt32.lt_iff_toNat_lt] at hmid
    rw [UInt32.toNat_add, UInt32.toNat_mul, Nat.mod_eq_of_lt (show row.toNat * range.toNat < 2 ^ 32 by omega)]
    exact Nat.mod_eq_of_lt (by omega)

end Threads

/-! ### Launches -/

section Launches

variable {haystack needles : Array κ} {right batched : Bool} {needle : κ} {range perRow : UInt32}

/-- The first row starts at the first key, whether there are others or not. -/
theorem firstRow_eq (batched : Bool) (perRow range : UInt32) :
    (if batched then (0 : UInt32) / perRow * range else 0) = 0 := by
  cases batched with
  | false => rfl
  | true => rw [if_pos rfl, UInt32.zero_div, UInt32.zero_mul]

/-- A launch whose first thread does not come to an end does not either. -/
theorem launchSearch_eq_divergence (hfirst : needles[0]? = some needle) (hcount : needles.size < 4294967296)
    (hdiverges : searchRow haystack right 0 range needle = .fault .divergence) {limits : Limits}
    (hlanes : 0 < limits.maxLanes.toNat) {grid : Grid} (hgrid : Grid.perElement needles.size 1 limits = .ok grid)
    (places : Array UInt32) :
    launchSearch haystack needles right batched range perRow (UInt32.ofNat needles.size) grid places =
      .fault .divergence := by
  obtain ⟨hpos, hlanesEq, hblocks, hrows⟩ := Grid.perElement_eq_ok hgrid
  have hcover := (Size.divCeil_eq_ok hblocks).2.1
  have htotal : (0 : UInt32) < UInt32.ofNat needles.size :=
    UInt32.lt_iff_toNat_lt.mpr (by rw [UInt32.toNat_ofNat_of_lt' hcount]; exact hpos)
  have hthread : searchThread haystack needles right batched range perRow (UInt32.ofNat needles.size) grid.lanes
      ⟨UInt32.ofNat 0, UInt32.ofNat 0⟩ (UInt32.ofNat 0) places = .fault .divergence := by
    have hnumber : (⟨UInt32.ofNat 0, UInt32.ofNat 0⟩ : Workgroup).position grid.lanes (UInt32.ofNat 0) = 0 := by
      rw [Workgroup.position_eq, Nat.zero_mul]
      rfl
    have hread : Buffer.read needles (0 : UInt32).toNat = .ok needle := Buffer.read_eq_ok_iff.mpr hfirst
    rw [searchThread, hnumber, if_pos htotal, hread, Outcome.ok_bind, firstRow_eq, hdiverges]
    rfl
  obtain ⟨lanes, hlanesSucc⟩ : ∃ lanes, grid.lanes.toNat = lanes + 1 := ⟨grid.lanes.toNat - 1, by omega⟩
  obtain ⟨blocks, hblocksSucc⟩ : ∃ blocks, grid.blocksPerRow.toNat = blocks + 1 := by
    refine ⟨grid.blocksPerRow.toNat - 1, ?_⟩
    have hnone : grid.blocksPerRow.toNat ≠ 0 := fun hzero => by rw [hzero, Nat.zero_mul] at hcover; omega
    omega
  have hone : grid.layeredRows = 1 := by
    have hrow : grid.rows = 1 := UInt32.toNat_inj.mp hrows
    rw [Grid.layeredRows, Grid.layers, hrow]
    rfl
  have hgroup : forLanes grid.lanes.toNat (fun n => searchThread haystack needles right batched range perRow
      (UInt32.ofNat needles.size) grid.lanes ⟨UInt32.ofNat 0, UInt32.ofNat 0⟩ (UInt32.ofNat n)) places =
        .fault .divergence := by
    rw [hlanesSucc, forLanes, forLanesFrom, hthread]
    rfl
  rw [launchSearch, Workgroup.all_eq, hone, List.range_one, List.flatMap_singleton, hblocksSucc, List.range_succ_eq_map,
    List.map_cons, List.foldlM_cons, hgroup]
  rfl

variable [LawfulElement κ]

/-- A search of long rows is accepted, and never ends if the first needle stands behind its row. -/
theorem exists_search_diverges {rowLen perRow : Nat} (hfirst : needles[0]? = some needle)
    (hcount : needles.size < 4294967296) (hrowLen : rowLen < 4294967296) (hperRow : max perRow 1 < 4294967296)
    (hlong : 2147483648 < rowLen)
    (hbefore : ∀ mid < rowLen, ∃ key ∈ haystack[mid]?, standsBefore right key needle = true)
    (batched : Bool) {engine : DeviceEngine} (hvalid : engine.config.problem? = none) :
    ∃ engine', (search haystack needles rowLen perRow batched right).run engine =
      (.error (.faulted .divergence), engine') := by
  obtain ⟨hpos, -⟩ := Array.getElem?_eq_some_iff.mp hfirst
  have hkeys : haystack.size ≠ 0 := by
    obtain ⟨key, hkey, -⟩ := hbefore 0 (by omega)
    obtain ⟨hinside, -⟩ := Array.getElem?_eq_some_iff.mp hkey
    omega
  have hword : (UInt32.ofNat rowLen).toNat = rowLen := UInt32.toNat_ofNat_of_lt' hrowLen
  have hdiverges : searchRow haystack right 0 (UInt32.ofNat rowLen) needle = .fault .divergence := by
    have hlongWord : 2147483648 < UInt32.ofNat rowLen := by
      rw [UInt32.lt_iff_toNat_lt, hword]
      exact hlong
    refine (loopNeverEnds hlongWord fun mid hmid => ?_).diverges
    rw [UInt32.lt_iff_toNat_lt, hword] at hmid
    rw [UInt32.zero_add]
    exact hbefore mid.toNat hmid
  obtain ⟨body, buffers, pool, hsearch, hfresh, hbody⟩ :=
    exists_search_eq_call perRow batched right hcount hpos hkeys (show rowLen ≠ 0 by omega) engine
  have hvalid' : ({ engine with pool } : DeviceEngine).config.problem? = none := hvalid
  obtain ⟨grid, state, hgrid, -, hlaunches⟩ :=
    exists_run_searchOn right batched hcount hpos hrowLen hperRow hvalid' hfresh
  have hlaunch : launchSearch haystack needles right batched (UInt32.ofNat rowLen) (UInt32.ofNat (max perRow 1))
      (UInt32.ofNat needles.size) grid state = .error (.faulted .divergence) :=
    launchSearch_eq_divergence hfirst hcount hdiverges (Config.pos_of_valid hvalid').1 hgrid state
  rw [hlaunch] at hlaunches
  have hfaults := hlaunches.trans (Stateful.run_bind_of_eq_error (x := Stateful.ofOutcome _) rfl _)
  rw [hsearch]
  exact ⟨_, run_call_of_faulted (hbody.trans (OpenCall.run_onEngine hfaults))⟩

/-- **The search loop of a thread ends in every row of at most half as many keys as there are words**, whatever the keys
and the needle are: in every turn the middle lies in the window, and the next window is shorter. In a longer row it never
ends if the needle stands behind all keys of the row. The addresses that are read are those of the row exactly if it ends in
front of the last word. A device accepts long rows, and a search whose first needle stands behind its row never ends. -/
theorem searchRow_ends_unless_long (haystack : Array κ) (right : Bool) (row range : UInt32) (needle : κ) :
    (range ≤ 2147483648 → LoopEnds haystack right (row * range) range needle) ∧
    (2147483648 < range →
      (∀ mid < range, ∃ key ∈ haystack[(row * range + mid).toNat]?, standsBefore right key needle = true) →
      LoopNeverEnds haystack right (row * range) range needle) ∧
    ((∀ mid < range, (row * range + mid).toNat = row.toNat * range.toNat + mid.toNat) ↔
      row.toNat * range.toNat + range.toNat ≤ 4294967296) ∧
    (2147483648 < range →
      (∀ mid < range.toNat, ∃ key ∈ haystack[mid]?, standsBefore right key needle = true) →
      ∀ (needles : Array κ) (perRow : Nat) (batched : Bool) (engine : DeviceEngine), needles[0]? = some needle →
        needles.size < 4294967296 → max perRow 1 < 4294967296 → engine.config.validate = .ok () →
        ∃ engine', (search haystack needles range.toNat perRow batched right).run engine =
          (.error (.faulted .divergence), engine')) := by
  refine ⟨fun hrange => loopEnds haystack right _ needle hrange, fun hlong hbefore => loopNeverEnds hlong hbefore,
    addresses_exact_iff row range, ?_⟩
  intro hlong hbefore needles perRow batched engine hfirst hcount hperRow hvalid
  exact exists_search_diverges hfirst hcount range.toNat_lt hperRow (UInt32.lt_iff_toNat_lt.mp hlong) hbefore batched
    (Config.problem?_of_validate hvalid)

end Launches

/-- The loop ends in the second of two short rows. It does not in a row of all but one word of keys, whether a thread runs
it by itself or a device is asked to place a needle behind the row. -/
theorem searchRow_ends_short_and_long :
    LoopEnds (#[1, 3, 5, 2, 4, 6] : Array UInt8) true (1 * 3) 3 4 ∧
      LoopNeverEnds (Array.replicate 4294967295 (0 : UInt8)) false (0 * 4294967295) 4294967295 1 ∧
      ∃ engine', (search (Array.replicate 4294967295 (0 : UInt8)) #[1] 4294967295 1 false false).run
        ({ config := {} } : DeviceEngine) = (.error (.faulted .divergence), engine') := by
  have hrow : ∀ mid < 4294967295, ∃ key ∈ (Array.replicate 4294967295 (0 : UInt8))[mid]?,
      standsBefore false key 1 = true := by
    intro mid hmid
    refine ⟨0, ?_, rfl⟩
    rw [Option.mem_def, Array.getElem?_replicate, if_pos hmid]
  obtain ⟨-, hnever, -, hsearch⟩ :=
    searchRow_ends_unless_long (Array.replicate 4294967295 (0 : UInt8)) false 0 4294967295 1
  refine ⟨(searchRow_ends_unless_long #[1, 3, 5, 2, 4, 6] true 1 3 4).1 (by decide), hnever (by decide) ?_,
    hsearch (by decide) hrow #[1] 1 false _ rfl (by decide) (by decide) rfl⟩
  intro mid hmid
  rw [UInt32.zero_mul, UInt32.zero_add]
  exact hrow mid.toNat (UInt32.lt_iff_toNat_lt.mp hmid)

end DeviceEngine

end MergePathSort
