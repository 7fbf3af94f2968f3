import MergePathSort.Proofs.Device.Copies
import MergePathSort.Proofs.Device.ExactMerges

/-!
# Merges at the last word

If all rows of a program together have exactly as many elements as there are words, every element still has a word for
its place, but where the last row ends there is none: that place is zero. A run that ends there seems to be finished
before it has begun. A thread that starts on both runs of the last segment then takes the left one without a comparison,
and a thread that starts on a left run without a right one takes what stands at the first place of all.

## Main definitions

* `Places.LastSegment` : a segment that ends at the last place that is a word.
* `Places.WrongStart` : a start whose outputs are not the same with words and with integers.
* `Places.fallingKeys` : keys of which those behind a place stand before those in front of it.

## Main results

* `Places.Runs.Fits.partition_eq_zero` : a search that finds no element of the left run.
* `Places.LastSegment.exists_wrongStart` : a thread of the last segment that starts wrong.
* `Places.ExtentsFit.exists_not_exact` : places of a pass that are not exact.
-/

namespace MergePathSort

open PlaceNumber (ofWord toPlace)

namespace Places

/-! ### Searches that ask nothing or find nothing -/

section Searches

variable {ω : Type} [PlaceNumber ω]

/-- A search in an empty range asks nothing. -/
theorem search_of_le {goesRight : ω → Outcome Bool} {budget : Nat} {lo hi : ω} (hbudget : 0 < budget) (h : hi ≤ lo) :
    search goesRight budget lo hi = .ok (lo, []) := by
  obtain ⟨budget, rfl⟩ := Nat.exists_eq_succ_of_ne_zero (Nat.ne_of_gt hbudget)
  exact if_pos h

/-- A search that never goes on to the right ends where it started. -/
theorem search_eq_lo {goesRight : ω → Outcome Bool} {budget : Nat} {lo hi found : ω} {asked : List ω}
    (h : search goesRight budget lo hi = .ok (found, asked)) (hleft : ∀ mid ∈ asked, goesRight mid = .ok false) :
    found = lo := by
  induction budget generalizing hi asked with
  | zero => cases h
  | succ budget ih =>
    rw [search] at h
    split at h
    · cases h
      rfl
    · obtain ⟨right, hright, h⟩ := Outcome.bind_eq_ok_iff.mp h
      cases right with
      | false =>
        obtain ⟨rest, hrest, h⟩ := Outcome.bind_eq_ok_iff.mp h
        cases h
        exact ih hrest fun mid hmid => hleft mid (List.mem_cons_of_mem _ hmid)
      | true =>
        obtain ⟨rest, -, h⟩ := Outcome.bind_eq_ok_iff.mp h
        cases h
        cases hright.symm.trans (hleft _ List.mem_cons_self)

/-- A search on a diagonal whose range is empty. -/
theorem Runs.partition_of_le {oracle : Oracle} {run : Runs ω} {diag first : ω}
    (hfirst : (if run.rightLen < diag then diag - run.rightLen else ofWord 0) = first)
    (hle : lesser diag run.leftLen ≤ first) : run.partition oracle diag = .ok (first, []) := by
  rw [Runs.partition, hfirst]
  exact Outcome.bind_eq_ok_iff.mpr ⟨(first, []), search_of_le (by decide) hle, rfl⟩

/-- The first output of a thread: what is compared, what is taken, and where it is stored. -/
theorem Merging.exists_of_places {oracle : Oracle} {merging : Merging ω} {turns : Nat} {places : List ω}
    (hturns : 0 < turns) (h : merging.places oracle turns = .ok places) :
    ∃ left rest, merging.takesLeft oracle = .ok left ∧
      places = merging.compared ++ [merging.source left, merging.out] ++ rest := by
  obtain ⟨turns, rfl⟩ := Nat.exists_eq_succ_of_ne_zero (Nat.ne_of_gt hturns)
  obtain ⟨left, hleft, h⟩ := Outcome.bind_eq_ok_iff.mp h
  obtain ⟨rest, -, h⟩ := Outcome.bind_eq_ok_iff.mp h
  cases h
  exact ⟨left, rest, hleft, rfl⟩

/-- What a thread has to merge that starts at the first output of its runs. -/
def Runs.fromFirst (run : Runs ω) (outStart step : ω) : Merging ω where
  leftStop := run.leftStart + run.leftLen
  rightStop := run.rightStart + run.rightLen
  i := run.leftStart
  j := run.rightStart
  out := outStart
  remaining := lesser (run.leftLen + run.rightLen) step

end Searches

section Runs

variable {oracle : Oracle} {run : Runs UInt32} {total : Nat}

/-- If no element of the left run may stand before one of the right run, a search finds none of the left run. -/
theorem Runs.Fits.partition_eq_zero (h : run.Fits total) (htotal : total ≤ 4294967296) (horacle : oracle.Answers total)
    (diag : UInt32) (hdiag : diag.toNat ≤ run.rightLen.toNat)
    (hright : ∀ p < run.leftStart.toNat + run.leftLen.toNat, ∀ q < total, run.rightStart.toNat ≤ q →
      oracle p q = .ok false) :
    ∃ probes, run.partition oracle diag = .ok (0, probes) ∧
      (run.map integer).partition oracle (integer diag) = .ok (integer 0, probes.map integer) := by
  have hwhole : diag.toNat ≤ run.leftLen.toNat + run.rightLen.toNat := Nat.le_trans hdiag (Nat.le_add_left _ _)
  obtain ⟨found, asked, hfound, -, -, -, -, hasked⟩ := h.asked_exact htotal horacle hwhole
  have hzero : found = 0 := by
    have hlo : (if run.rightLen < diag then diag - run.rightLen else 0) = 0 :=
      if_neg fun hlt => Nat.not_lt.mpr hdiag (UInt32.lt_iff_toNat_lt.mp hlt)
    refine (search_eq_lo hfound fun mid hmid => ?_).trans hlo
    obtain ⟨hlow, hhigh, hleftHigh⟩ := hasked mid hmid
    obtain ⟨-, -, -, hq⟩ := h.probe_exact htotal hwhole mid hlow hhigh hleftHigh
    have hleftEnd := h.left_le
    have hrightEnd := h.right_le
    have hone : (1 : UInt32).toNat = 1 := rfl
    have hleftMid := toNat_add_word (a := run.leftStart) (b := mid) (by omega)
    refine hright _ (show (run.leftStart + mid).toNat < _ by omega) _ hq ?_
    change run.rightStart.toNat ≤ (run.rightStart + diag - 1 - mid).toNat
    rw [UInt32.toNat_sub, UInt32.toNat_sub, UInt32.toNat_add, hone]
    omega
  obtain ⟨first, probes, hfirst, hfirst', -⟩ := h.partition_exact htotal horacle hwhole
  have hsame : run.partition oracle diag = .ok (found, _) := Outcome.bind_eq_ok_iff.mpr ⟨_, hfound, rfl⟩
  obtain rfl : found = first := (Prod.mk.inj (Except.ok.inj (hsame.symm.trans hfirst))).1
  subst hzero
  exact ⟨probes, hfirst, hfirst'⟩

/-- All outputs before a diagonal come from the left run if there is no other. -/
theorem Runs.partition_of_right_empty (oracle : Oracle) {run : Runs UInt32} (hright : run.rightLen = 0) (diag : UInt32) :
    run.partition oracle diag = .ok (diag, []) := by
  refine Runs.partition_of_le ?_ (UInt32.le_iff_toNat_le.mpr (toNat_lesser_le diag run.leftLen))
  rw [hright, UInt32.sub_zero]
  exact ite_eq_left_iff.mpr fun hzero => (UInt32.le_zero_iff.mp (UInt32.not_lt.mp hzero)).symm

/-- All outputs before a diagonal come from the left run if there is no other, with integers. -/
theorem Runs.partition_of_right_empty_integer (oracle : Oracle) {run : Runs Int} {leftLen : UInt32}
    (hleftLen : run.leftLen = integer leftLen) (hright : run.rightLen = integer 0) (diag : UInt32) :
    run.partition oracle (integer diag) = .ok (integer diag, []) := by
  refine Runs.partition_of_le ?_ ?_
  · rw [hright, show integer 0 = 0 from rfl, Int.sub_zero]
    exact ite_eq_left_iff.mpr fun hzero => (Int.le_antisymm (Int.not_lt.mp hzero) (Int.natCast_nonneg _)).symm
  · rw [hleftLen, integer_lesser]
    exact integer_le.mpr (UInt32.le_iff_toNat_le.mpr (toNat_lesser_le diag leftLen))

/-- A thread that starts at the first output of its runs. -/
theorem Runs.start_zero (oracle : Oracle) (run : Runs UInt32) (outStart step : UInt32) :
    run.start oracle outStart 0 step = .ok (run.fromFirst outStart step, []) := by
  have hfirst : run.partition oracle 0 = .ok (0, []) := by
    refine Runs.partition_of_le (if_neg UInt32.not_lt_zero) (UInt32.le_iff_toNat_le.mpr ?_)
    exact toNat_lesser_le 0 run.leftLen
  refine Outcome.bind_eq_ok_iff.mpr ⟨_, hfirst, ?_⟩
  simp only [UInt32.add_zero, UInt32.sub_zero]
  rfl

/-- A thread that starts at the first output of its runs, with integers. -/
theorem Runs.start_zero_integer (oracle : Oracle) {run : Runs Int} {leftLen rightLen : UInt32}
    (hleftLen : run.leftLen = integer leftLen) (hrightLen : run.rightLen = integer rightLen) (outStart step : Int) :
    run.start oracle outStart (integer 0) step = .ok (run.fromFirst outStart step, []) := by
  have hfirst : run.partition oracle (integer 0) = .ok (integer 0, []) := by
    refine Runs.partition_of_le ?_ ?_
    · rw [hrightLen]
      exact if_neg fun hlt => UInt32.not_lt_zero (integer_lt.mp hlt)
    · rw [hleftLen, integer_lesser]
      exact integer_le.mpr (UInt32.le_iff_toNat_le.mpr (toNat_lesser_le 0 leftLen))
  refine Outcome.bind_eq_ok_iff.mpr ⟨_, hfirst, ?_⟩
  simp only [show integer 0 = 0 from rfl, Int.add_zero, Int.sub_zero]
  rfl

end Runs

/-! ### First outputs -/

section Outputs

variable {oracle : Oracle} {run : Runs UInt32} {outStart step : UInt32}

/-- A thread that starts at the first output of its runs has outputs, the same number with words and with integers. -/
theorem Runs.remaining_pos (hlen : run.leftLen.toNat + run.rightLen.toNat < 4294967296) (hleft : 0 < run.leftLen.toNat)
    (hstep : 0 < step.toNat) (run' : Runs Int) (hleftLen : run'.leftLen = integer run.leftLen)
    (hrightLen : run'.rightLen = integer run.rightLen) (outStart : UInt32) (outStart' : Int) :
    0 < toPlace (run.fromFirst outStart step).remaining ∧
      0 < toPlace (run'.fromFirst outStart' (integer step)).remaining := by
  have hboth := toNat_add_word hlen
  have hwords : 0 < (lesser (run.leftLen + run.rightLen) step).toNat := by
    rw [toNat_lesser]
    omega
  refine ⟨hwords, ?_⟩
  rw [Runs.fromFirst, hleftLen, hrightLen, integer_add hlen, integer_lesser, toPlace_integer]
  exact hwords

/-- Two runs of which the right one ends behind the last place that is a word. -/
structure Runs.RightEnds (run : Runs UInt32) (outStart : UInt32) : Prop where
  /-- The left run is not empty. -/
  left_pos : 0 < run.leftLen.toNat
  /-- The left run ends at a word. -/
  left_lt : run.leftStart.toNat + run.leftLen.toNat < 4294967296
  /-- The right run is not empty. -/
  right_pos : 0 < run.rightLen.toNat
  /-- The right run ends at the last place. -/
  right_eq : run.rightStart.toNat + run.rightLen.toNat = 4294967296
  /-- The length of both is a word. -/
  len_lt : run.leftLen.toNat + run.rightLen.toNat < 4294967296
  /-- The first output is not stored where the right run starts. -/
  out_ne : outStart.toNat ≠ run.rightStart.toNat

/-- With words, the first output of runs of which the right one ends at the last place is not compared. -/
theorem Runs.RightEnds.places_ne (h : run.RightEnds outStart) (hstep : 0 < step.toNat) {places : List UInt32}
    {places' : List Int}
    (hplaces : (run.fromFirst outStart step).places oracle (toPlace (run.fromFirst outStart step).remaining) =
      .ok places)
    (hplaces' : ((run.map integer).fromFirst (integer outStart) (integer step)).places oracle
      (toPlace ((run.map integer).fromFirst (integer outStart) (integer step)).remaining) = .ok places') :
    places.map integer ≠ places' := by
  obtain ⟨hleft, hleftEnd, hright, hend, hlen, hout⟩ := h
  obtain ⟨hpos, hpos'⟩ := Runs.remaining_pos hlen hleft hstep (run.map integer) rfl rfl outStart (integer outStart)
  obtain ⟨left, rest, hleftFirst, rfl⟩ := Merging.exists_of_places hpos hplaces
  obtain ⟨left', rest', -, rfl⟩ := Merging.exists_of_places hpos' hplaces'
  have hleftStop := toNat_add_word hleftEnd
  have hrightStop : run.rightStart + run.rightLen = 0 := by
    rw [← UInt32.toNat_inj, UInt32.toNat_add, hend]
    rfl
  have hinside : run.leftStart < run.leftStart + run.leftLen := UInt32.lt_iff_toNat_lt.mpr (by omega)
  have houtside : ¬run.rightStart < run.rightStart + run.rightLen := by
    rw [hrightStop]
    exact UInt32.not_lt_zero
  have hnone : (run.fromFirst outStart step).compared = [] := if_neg fun hboth => houtside hboth.2
  have hboth : ((run.map integer).fromFirst (integer outStart) (integer step)).compared =
      [integer run.leftStart, integer run.rightStart] := by
    refine if_pos ⟨?_, ?_⟩
    · change (run.leftStart.toNat : Int) < run.leftStart.toNat + run.leftLen.toNat
      omega
    · change (run.rightStart.toNat : Int) < run.rightStart.toNat + run.rightLen.toNat
      omega
  rw [hnone, hboth]
  intro hsame
  have hsecond : integer outStart = integer run.rightStart := (List.cons.inj (List.cons.inj hsame).2).1
  exact hout (Int.ofNat_inj.mp hsecond)

/-- A left run that ends behind the last place that is a word, without a right one. -/
structure Runs.LeftEnds (run : Runs UInt32) : Prop where
  /-- The left run is not empty. -/
  left_pos : 0 < run.leftLen.toNat
  /-- The left run does not start at the first place. -/
  start_pos : 0 < run.leftStart.toNat
  /-- The left run ends at the last place. -/
  left_eq : run.leftStart.toNat + run.leftLen.toNat = 4294967296
  /-- The right run would start behind the last place. -/
  rightStart_eq : run.rightStart = 0
  /-- The right run is empty. -/
  right_eq : run.rightLen = 0

/-- With words, the first output of a left run that ends at the last place is not taken from it. -/
theorem Runs.LeftEnds.places_ne (h : run.LeftEnds) (hstep : 0 < step.toNat) {run' : Runs Int}
    (hleftStart' : run'.leftStart = integer run.leftStart) (hleftLen' : run'.leftLen = integer run.leftLen)
    (hrightLen' : run'.rightLen = integer run.rightLen) (outStart' : Int) {places : List UInt32} {places' : List Int}
    (hplaces : (run.fromFirst outStart step).places oracle (toPlace (run.fromFirst outStart step).remaining) =
      .ok places)
    (hplaces' : (run'.fromFirst outStart' (integer step)).places oracle
      (toPlace (run'.fromFirst outStart' (integer step)).remaining) = .ok places') :
    places.map integer ≠ places' := by
  obtain ⟨hleft, hstart, hend, hrightStart, hright⟩ := h
  have hlen : run.leftLen.toNat + run.rightLen.toNat < 4294967296 := by
    rw [hright]
    exact run.leftLen.toNat_lt
  obtain ⟨hpos, hpos'⟩ := Runs.remaining_pos hlen hleft hstep run' hleftLen' hrightLen' outStart outStart'
  obtain ⟨left, rest, hfirst, rfl⟩ := Merging.exists_of_places hpos hplaces
  obtain ⟨left', rest', hfirst', rfl⟩ := Merging.exists_of_places hpos' hplaces'
  have houtside : ¬run.leftStart < run.leftStart + run.leftLen := by
    have hleftStop : run.leftStart + run.leftLen = 0 := by
      rw [← UInt32.toNat_inj, UInt32.toNat_add, hend]
      rfl
    rw [hleftStop]
    exact UInt32.not_lt_zero
  have hinside' : run'.leftStart < run'.leftStart + run'.leftLen := by
    rw [hleftStart', hleftLen', integer, integer]
    omega
  have houtside' : ¬run'.rightStart < run'.rightStart + run'.rightLen := by
    rw [hrightLen', hright, show integer 0 = 0 from rfl]
    omega
  have hnone : (run.fromFirst outStart step).compared = [] := if_neg fun hboth => houtside hboth.1
  have hnone' : (run'.fromFirst outStart' (integer step)).compared = [] := if_neg fun hboth => houtside' hboth.2
  obtain rfl : left = false := (Except.ok.inj ((if_neg houtside).symm.trans hfirst)).symm
  obtain rfl : left' = true :=
    (Except.ok.inj (((if_pos hinside').trans (if_neg houtside')).symm.trans hfirst')).symm
  rw [hnone, hnone']
  intro hsame
  have hfirstPlace : integer run.rightStart = run'.leftStart := (List.cons.inj hsame).1
  rw [hrightStart, hleftStart', integer, integer] at hfirstPlace
  exact Nat.ne_of_lt hstart (Int.ofNat_inj.mp hfirstPlace)

end Outputs

/-! ### The last segment -/

/-- A segment that ends at the last place that is a word, with a left run that is not empty. -/
structure LastSegment (base start middle stop : UInt32) : Prop extends
    SegmentFits base start middle stop 4294967296 where
  /-- The left run is not empty. -/
  left_pos : start.toNat < middle.toNat
  /-- The segment ends at the last place. -/
  end_eq : base.toNat + stop.toNat = 4294967296

/-- A start that is found with words and with integers after the same places have been read, but what comes out of it does
not have the same places. -/
def WrongStart (oracle : Oracle) (words : Outcome (Option (Merging UInt32) × List UInt32))
    (integers : Outcome (Option (Merging Int) × List Int)) : Prop :=
  ∃ merging merging' probes, words = .ok (some merging, probes) ∧
    integers = .ok (some merging', probes.map integer) ∧
    ∀ places places', merging.places oracle (toPlace merging.remaining) = .ok places →
      merging'.places oracle (toPlace merging'.remaining) = .ok places' → places.map integer ≠ places'

section Segments

variable {ω : Type} [PlaceNumber ω] {oracle : Oracle} {settings : MergeSettings}

/-- A thread in the only group of its segment, if its diagonal lies inside of the segment. -/
theorem segmentStart?_eq_ok_oneGroup {base start middle stop x thread : ω} {merging : Merging ω} {probes : List ω}
    (hseveral : settings.severalGroups = false) (hdiag : thread * ofWord settings.step < stop - start)
    (hstart : Runs.start oracle ⟨base + start, middle - start, base + middle, stop - middle⟩ (base + start)
      (thread * ofWord settings.step) (ofWord settings.step) = .ok (merging, probes)) :
    segmentStart? oracle settings base start middle stop x thread = .ok (some merging, probes) := by
  simp only [segmentStart?, hseveral, Bool.false_eq_true, if_false]
  exact (if_pos hdiag).trans (Outcome.bind_eq_ok_iff.mpr ⟨_, hstart, rfl⟩)

/-- A thread in one of several groups of its segment, if the diagonals of both lie inside of the segment. -/
theorem segmentStart?_eq_ok_severalGroups {base start middle stop x thread first : ω} {merging : Merging ω}
    {probes more : List ω} (hseveral : settings.severalGroups = true)
    (hdiag : x * ofWord settings.step < stop - start)
    (hfirst : Runs.partition oracle ⟨base + start, middle - start, base + middle, stop - middle⟩
      (x * ofWord settings.step) = .ok (first, probes)) {part : Runs ω}
    (hpart : partOf base start middle stop (x * ofWord settings.step) first (ofWord settings.step) = part)
    (hinside : thread * ofWord settings.threadWork < part.leftLen + part.rightLen)
    (hstart : part.start oracle (base + start + x * ofWord settings.step) (thread * ofWord settings.threadWork)
      (ofWord settings.threadWork) = .ok (merging, more)) :
    segmentStart? oracle settings base start middle stop x thread = .ok (some merging, probes ++ more) := by
  subst hpart
  simp only [segmentStart?, hseveral, if_true]
  exact (if_pos hdiag).trans (Outcome.bind_eq_ok_iff.mpr ⟨_, hfirst,
    (if_pos hinside).trans (Outcome.bind_eq_ok_iff.mpr ⟨_, hstart, rfl⟩)⟩)

end Segments

section LastSegment

variable {oracle : Oracle} {settings : MergeSettings} {base start middle stop x : UInt32} {total : Nat}

theorem zero_mul_word (a : UInt32) : (0 : UInt32) * ofWord a = 0 ∧ integer 0 * ofWord a = integer 0 :=
  ⟨UInt32.zero_mul, Int.zero_mul _⟩

/-- The first thread of the only group of a segment starts at the first output. -/
theorem SegmentFits.start?_first_oneGroup (h : SegmentFits base start middle stop total)
    (hlt : start.toNat < stop.toNat) (hseveral : settings.severalGroups = false) :
    segmentStart? oracle settings base start middle stop x 0 = .ok
        (some (Runs.fromFirst ⟨base + start, middle - start, base + middle, stop - middle⟩ (base + start)
          settings.step), []) ∧
      segmentStart? oracle settings (integer base) (integer start) (integer middle) (integer stop) (integer x)
          (integer 0) = .ok
        (some (Runs.fromFirst ⟨integer base + integer start, integer middle - integer start,
          integer base + integer middle, integer stop - integer middle⟩ (integer base + integer start)
          (integer settings.step)), []) := by
  obtain ⟨hstart, hmiddle, -, -⟩ := h
  have hlen := toNat_sub_word (Nat.le_of_lt hlt)
  have hinside : 0 < stop - start := UInt32.lt_iff_toNat_lt.mpr (by rw [hlen]; exact Nat.sub_pos_of_lt hlt)
  obtain ⟨hdiag, hdiag'⟩ := zero_mul_word settings.step
  refine ⟨segmentStart?_eq_ok_oneGroup hseveral ?_ ?_, segmentStart?_eq_ok_oneGroup hseveral ?_ ?_⟩
  · rwa [hdiag]
  · rw [hdiag]
    exact Runs.start_zero _ _ _ _
  · rw [hdiag', integer_sub (Nat.le_of_lt hlt)]
    exact integer_lt.mpr hinside
  · rw [hdiag']
    exact Runs.start_zero_integer _ (integer_sub hstart) (integer_sub hmiddle) _ _

/-- The first thread of one of several groups of a segment starts at the first output of the group's part, if that has a
left run. -/
theorem SegmentFits.start?_first_severalGroups (h : SegmentFits base start middle stop total)
    (hseveral : settings.severalGroups = true) (hx : x.toNat * settings.step.toNat < stop.toNat - start.toNat)
    {first : UInt32} {probes : List UInt32}
    (hfirst : Runs.partition oracle ⟨base + start, middle - start, base + middle, stop - middle⟩
      (x * settings.step) = .ok (first, probes))
    (hfirst' : Runs.partition oracle ⟨integer base + integer start, integer middle - integer start,
      integer base + integer middle, integer stop - integer middle⟩ (integer (x * settings.step)) =
        .ok (integer first, probes.map integer))
    {part : Runs UInt32} (hpart : partOf base start middle stop (x * settings.step) first settings.step = part)
    {part' : Runs Int} (hpart' : partOf (integer base) (integer start) (integer middle) (integer stop)
      (integer (x * settings.step)) (integer first) (integer settings.step) = part')
    (hleftLen : part'.leftLen = integer part.leftLen) (hrightLen : part'.rightLen = integer part.rightLen)
    (hpos : 0 < part.leftLen.toNat) (hlen : part.leftLen.toNat + part.rightLen.toNat < 4294967296) :
    segmentStart? oracle settings base start middle stop x 0 =
        .ok (some (part.fromFirst (base + start + x * settings.step) settings.threadWork), probes) ∧
      segmentStart? oracle settings (integer base) (integer start) (integer middle) (integer stop) (integer x)
          (integer 0) = .ok
        (some (part'.fromFirst (integer base + integer start + integer (x * settings.step))
          (integer settings.threadWork)), probes.map integer) := by
  obtain ⟨hstart, hmiddle, hstop, -⟩ := h
  have hdiag := toNat_mul_word (a := x) (b := settings.step) (by omega)
  have hdiagInteger : integer x * ofWord settings.step = integer (x * settings.step) :=
    integer_mul (a := x) (b := settings.step) (by omega)
  have hsegmentLen := toNat_sub_word (Nat.le_trans hstart hmiddle)
  have hdiagInside : x * settings.step < stop - start := UInt32.lt_iff_toNat_lt.mpr (by omega)
  have hpartLen := toNat_add_word hlen
  have hinside : 0 < part.leftLen + part.rightLen := UInt32.lt_iff_toNat_lt.mpr (by
    rw [hpartLen]
    exact Nat.lt_of_lt_of_le hpos (Nat.le_add_right _ _))
  obtain ⟨hthread, hthread'⟩ := zero_mul_word settings.threadWork
  rw [← List.append_nil probes, ← hdiagInteger]
  rw [← hdiagInteger] at hfirst' hpart'
  rw [List.map_append]
  refine ⟨segmentStart?_eq_ok_severalGroups hseveral hdiagInside hfirst hpart ?_ ?_,
    segmentStart?_eq_ok_severalGroups hseveral ?_ hfirst' hpart' ?_ ?_⟩
  · rwa [hthread]
  · rw [hthread]
    exact Runs.start_zero _ _ _ _
  · rw [hdiagInteger, integer_sub (Nat.le_trans hstart hmiddle)]
    exact integer_lt.mpr hdiagInside
  · rw [hthread', hleftLen, hrightLen, integer_add hlen]
    exact integer_lt.mpr hinside
  · rw [hthread']
    exact Runs.start_zero_integer _ hleftLen hrightLen _ _

/-- A segment with two runs that has one group starts wrong. -/
theorem LastSegment.wrongStart_right_oneGroup (h : LastSegment base start middle stop)
    (hright : middle.toNat < stop.toNat) (hseveral : settings.severalGroups = false) (hstep : 0 < settings.step.toNat) :
    WrongStart oracle (segmentStart? oracle settings base start middle stop x 0)
      (segmentStart? oracle settings (integer base) (integer start) (integer middle) (integer stop) (integer x)
        (integer 0)) := by
  obtain ⟨hfits, hleft, hend⟩ := h
  obtain ⟨-, hwholeInteger⟩ := hfits.whole_exact (by omega)
  have hlen := hfits.stop_le
  have hleftLen := toNat_sub_word hfits.start_le
  have hrightLen := toNat_sub_word hfits.middle_le
  have hstartWord := toNat_add_word (a := base) (b := start) (by omega)
  have hmiddleWord := toNat_add_word (a := base) (b := middle) (by omega)
  have hends : Runs.RightEnds ⟨base + start, middle - start, base + middle, stop - middle⟩ (base + start) := by
    constructor <;> simp only <;> omega
  obtain ⟨hwords, hintegers⟩ := hfits.start?_first_oneGroup (by omega) hseveral
  rw [hwholeInteger, integer_add (a := base) (b := start) (by omega)] at hintegers
  exact ⟨_, _, [], hwords, hintegers, fun _ _ => hends.places_ne hstep⟩

/-- No element before a place may stand before one behind it. -/
def Oracle.Falls (oracle : Oracle) (place total : Nat) : Prop :=
  ∀ p < place, ∀ q < total, place ≤ q → oracle p q = .ok false

/-- A segment with two runs that has several groups starts wrong in the group that takes the end of the right run, if the
right run comes before the left one. -/
theorem LastSegment.wrongStart_right_severalGroups (h : LastSegment base start middle stop)
    (hseveral : settings.severalGroups = true) (hwork : 0 < settings.threadWork.toNat)
    (hx : x.toNat * settings.step.toNat < stop.toNat - middle.toNat)
    (hx' : stop.toNat - middle.toNat ≤ x.toNat * settings.step.toNat + settings.step.toNat)
    (horacle : oracle.Answers 4294967296) (hfalls : oracle.Falls (base.toNat + middle.toNat) 4294967296) :
    WrongStart oracle (segmentStart? oracle settings base start middle stop x 0)
      (segmentStart? oracle settings (integer base) (integer start) (integer middle) (integer stop) (integer x)
        (integer 0)) := by
  obtain ⟨hfits, hleft, hend⟩ := h
  obtain ⟨hwhole, hwholeInteger⟩ := hfits.whole_exact (by omega)
  have hlen := hfits.stop_le
  have hdiag := toNat_mul_word (a := x) (b := settings.step) (by omega)
  have hleftLen := toNat_sub_word hfits.start_le
  have hrightLen := toNat_sub_word hfits.middle_le
  have hstartWord := toNat_add_word (a := base) (b := start) (by omega)
  have hmiddleWord := toNat_add_word (a := base) (b := middle) (by omega)
  -- No element of the left run comes before the group.
  obtain ⟨probes, hfirst, hfirst'⟩ := hwhole.partition_eq_zero (Nat.le_refl _) horacle (x * settings.step)
    (by simp only; omega) fun p hp q hq hle => hfalls p (by simp only at hp; omega) q hq (by simp only at hle; omega)
  obtain ⟨-, -, hpartInteger, houtInteger⟩ := hfits.part_exact
    (show base.toNat + (middle.toNat + (x * settings.step).toNat - (0 : UInt32).toNat) < 4294967296 by
      rw [UInt32.toNat_zero]
      omega) (by omega) (Nat.zero_le _) (Nat.zero_le _) settings.step
  have hends : (partOf base start middle stop (x * settings.step) 0 settings.step).RightEnds
      (base + start + x * settings.step) := by
    have hplace := toNat_add_word (a := middle) (b := x * settings.step) (by omega)
    have hright := toNat_sub_word (a := stop) (b := middle + x * settings.step) (by omega)
    have hrightStart := toNat_add_word (a := base) (b := middle + x * settings.step) (by omega)
    have houtWord := toNat_add_word (a := base + start) (b := x * settings.step) (by omega)
    have hleftLesser := toNat_lesser (middle - start) settings.step
    have hrightLesser := toNat_lesser (stop - (middle + x * settings.step)) settings.step
    simp only [partOf, UInt32.add_zero, UInt32.sub_zero]
    constructor <;> simp only <;> omega
  rw [← hwholeInteger] at hfirst'
  obtain ⟨hwords, hintegers⟩ := hfits.start?_first_severalGroups hseveral (by omega) hfirst hfirst' rfl hpartInteger rfl
    rfl hends.left_pos hends.len_lt
  rw [houtInteger] at hintegers
  exact ⟨_, _, probes, hwords, hintegers, fun _ _ => hends.places_ne hwork⟩

/-- A segment that is only a left run starts wrong, if it has one group. -/
theorem LastSegment.wrongStart_left_oneGroup (h : LastSegment base start stop stop)
    (hseveral : settings.severalGroups = false) (hstep : 0 < settings.step.toNat) :
    WrongStart oracle (segmentStart? oracle settings base start stop stop x 0)
      (segmentStart? oracle settings (integer base) (integer start) (integer stop) (integer stop) (integer x)
        (integer 0)) := by
  obtain ⟨hfits, hleft, hend⟩ := h
  have hlen := hfits.stop_le
  have hleftLen := toNat_sub_word hfits.start_le
  have hstartWord := toNat_add_word (a := base) (b := start) (by omega)
  have hends : Runs.LeftEnds ⟨base + start, stop - start, base + stop, stop - stop⟩ := by
    refine ⟨by simp only; omega, by simp only; omega, by simp only; omega, ?_, UInt32.sub_self _⟩
    rw [← UInt32.toNat_inj, UInt32.toNat_add, hend]
    rfl
  obtain ⟨hwords, hintegers⟩ := hfits.start?_first_oneGroup (by omega) hseveral
  exact ⟨_, _, [], hwords, hintegers, fun _ _ =>
    hends.places_ne hstep (integer_add (by omega)) (integer_sub hfits.start_le) (integer_sub (Nat.le_refl _)) _⟩

/-- A segment that is only a left run starts wrong in the last of its groups. -/
theorem LastSegment.wrongStart_left_severalGroups (h : LastSegment base start stop stop)
    (hseveral : settings.severalGroups = true) (hwork : 0 < settings.threadWork.toNat)
    (hx : x.toNat * settings.step.toNat < stop.toNat - start.toNat)
    (hx' : stop.toNat - start.toNat ≤ x.toNat * settings.step.toNat + settings.step.toNat) :
    WrongStart oracle (segmentStart? oracle settings base start stop stop x 0)
      (segmentStart? oracle settings (integer base) (integer start) (integer stop) (integer stop) (integer x)
        (integer 0)) := by
  obtain ⟨hfits, hleft, hend⟩ := h
  have hlen := hfits.stop_le
  have hdiag := toNat_mul_word (a := x) (b := settings.step) (by omega)
  have hplace := toNat_add_word (a := start) (b := x * settings.step) (by omega)
  have hrest := toNat_sub_word (a := stop) (b := start + x * settings.step) (by omega)
  have hleftStart := toNat_add_word (a := base) (b := start + x * settings.step) (by omega)
  have hnone : lesser 0 settings.step = 0 :=
    ite_eq_left_iff.mpr fun hzero => UInt32.le_zero_iff.mp (UInt32.not_lt.mp hzero)
  have hends : (partOf base start stop stop (x * settings.step) (x * settings.step) settings.step).LeftEnds := by
    have hleftLesser := toNat_lesser (stop - (start + x * settings.step)) settings.step
    simp only [partOf, UInt32.add_sub_cancel, UInt32.sub_self]
    refine ⟨by simp only; omega, by simp only; omega, by simp only; omega, ?_, hnone⟩
    rw [← UInt32.toNat_inj, UInt32.toNat_add, hend]
    rfl
  have hleftStart' : integer base + (integer start + integer (x * settings.step)) =
      integer (base + (start + x * settings.step)) := by
    rw [integer_add (by omega), integer_add (by omega)]
  have hleftLen' : lesser (integer stop - (integer start + integer (x * settings.step))) (integer settings.step) =
      integer (lesser (stop - (start + x * settings.step)) settings.step) := by
    rw [integer_add (by omega), integer_sub (by omega), integer_lesser]
  have hrightLen' : lesser (integer stop - (integer stop + integer (x * settings.step) - integer (x * settings.step)))
      (integer settings.step) = integer 0 := by
    rw [Int.add_sub_cancel, show integer stop - integer stop = integer 0 from Int.sub_self _, integer_lesser, hnone]
  rw [← hends.right_eq] at hrightLen'
  obtain ⟨hwords, hintegers⟩ := hfits.start?_first_severalGroups hseveral hx
    (Runs.partition_of_right_empty oracle (UInt32.sub_self _) _)
    (Runs.partition_of_right_empty_integer oracle (integer_sub hfits.start_le) (Int.sub_self _) _) rfl rfl hleftLen'
    hrightLen' hends.left_pos (by rw [hends.right_eq]; exact UInt32.toNat_lt _)
  exact ⟨_, _, [], hwords, hintegers, fun _ _ => hends.places_ne hwork hleftStart' hleftLen' hrightLen' _⟩

/-- The group that takes the last of a number of outputs. -/
theorem exists_last_group {count blocks step : Nat} (hcount : 0 < count) (hblocks : blocks ≤ 4294967296)
    (hcovers : count ≤ blocks * step) : ∃ x : UInt32, x.toNat < blocks ∧ x.toNat * step < count ∧
      count ≤ x.toNat * step + step := by
  obtain ⟨x, hx, pos, hpos, hplace⟩ := exists_place (show count - 1 < blocks * step by omega)
  have hword := toNat_ofNat_word (Nat.lt_of_lt_of_le hx hblocks)
  exact ⟨UInt32.ofNat x, by omega, by rw [hword]; omega, by rw [hword]; omega⟩

/-- In the last segment of the last row some thread starts wrong. -/
theorem LastSegment.exists_wrongStart (h : LastSegment base start middle stop) {sharing : Sharing}
    {width blocks lanes : Nat} (hcovers : sharing.Covers width blocks lanes) (hblocks : blocks ≤ 4294967296)
    (hwidth : stop.toNat - start.toNat ≤ width) (flag : UInt32) (indexed : Bool) (horacle : oracle.Answers 4294967296)
    (hfalls : oracle.Falls (base.toNat + middle.toNat) 4294967296) :
    ∃ x : UInt32, x.toNat < blocks ∧
      WrongStart oracle (segmentStart? oracle (.ofSharing sharing flag indexed) base start middle stop x 0)
        (segmentStart? oracle (.ofSharing sharing flag indexed) (integer base) (integer start) (integer middle)
          (integer stop) (integer x) (integer 0)) := by
  have hleft := h.left_pos
  have hmiddle := h.middle_le
  cases sharing with
  | oneBlock step =>
    obtain ⟨rfl, hlanes⟩ := hcovers
    have hstep : 0 < step.toNat := Nat.pos_of_mul_pos_left (a := lanes) (by omega)
    refine ⟨0, Nat.one_pos, ?_⟩
    rcases Nat.lt_or_eq_of_le hmiddle with hright | hright
    · exact h.wrongStart_right_oneGroup hright rfl hstep
    · obtain rfl := UInt32.toNat_inj.mp hright
      exact h.wrongStart_left_oneGroup rfl hstep
  | manyBlocks stepCount laneWork =>
    obtain ⟨hall, hmany⟩ := hcovers
    have hstepCount : 0 < stepCount.toNat := Nat.pos_of_mul_pos_left (a := blocks) (by omega)
    have hwork : 0 < laneWork.toNat := Nat.pos_of_mul_pos_left (hall ▸ hstepCount)
    rcases Nat.lt_or_eq_of_le hmiddle with hright | hright
    · obtain ⟨x, hx, hless, hreach⟩ := exists_last_group (show 0 < stop.toNat - middle.toNat by omega) hblocks
        (show _ ≤ blocks * stepCount.toNat by omega)
      exact ⟨x, hx, h.wrongStart_right_severalGroups rfl hwork hless hreach horacle hfalls⟩
    · obtain rfl := UInt32.toNat_inj.mp hright
      obtain ⟨x, hx, hless, hreach⟩ := exists_last_group (show 0 < middle.toNat - start.toNat by omega) hblocks
        (show _ ≤ blocks * stepCount.toNat by omega)
      exact ⟨x, hx, h.wrongStart_left_severalGroups rfl hwork hless hreach⟩

end LastSegment

/-! ### The last row -/

/-- A thread that starts wrong does not have exact places. -/
theorem WrongStart.not_exact {oracle : Oracle} {extents : MergeExtents} {settings : MergeSettings}
    {x row thread : UInt32} (h : WrongStart oracle (start? oracle extents settings x row thread)
      (start? oracle extents settings (integer x) (integer row) (integer thread))) (total : Nat) :
    ¬Exact total (mergeRuns oracle extents settings x row thread)
      (mergeRuns oracle extents settings (integer x) (integer row) (integer thread)) := by
  rintro ⟨all, hall, hall', -⟩
  obtain ⟨merging, merging', probes, hstart, hstart', hne⟩ := h
  obtain ⟨found, hfound, hall⟩ := Outcome.bind_eq_ok_iff.mp hall
  obtain rfl := Except.ok.inj (hfound.symm.trans hstart)
  obtain ⟨found', hfound', hall'⟩ := Outcome.bind_eq_ok_iff.mp hall'
  obtain rfl := Except.ok.inj (hfound'.symm.trans hstart')
  obtain ⟨places, hplaces, hall⟩ := Outcome.bind_eq_ok_iff.mp hall
  obtain ⟨places', hplaces', hall'⟩ := Outcome.bind_eq_ok_iff.mp hall'
  obtain rfl := Except.ok.inj hall
  have hsame : probes.map integer ++ places' = (probes ++ places).map integer := Except.ok.inj hall'
  rw [List.map_append] at hsame
  exact hne places places' hplaces hplaces' (List.append_cancel_left hsame).symm

/-- The last of all segments, if the rows of a pass have as many elements as there are words. -/
theorem ExtentsFit.lastSegment {extents : MergeExtents} (h : ExtentsFit extents 4294967296)
    (hrows : extents.rows.toNat * extents.axisLen.toNat = 4294967296) (hwidth : 2 ≤ extents.width.toNat)
    (hsegments : extents.axisLen.toNat ≤ extents.width.toNat * extents.segments.toNat) {row : UInt32}
    (hrow : row.toNat = (extents.segments.toNat - 1) * extents.rows.toNat + (extents.rows.toNat - 1))
    (hgroup : row < extents.rows * extents.segments) :
    LastSegment (row % extents.rows * extents.axisLen) (extents.width * (row / extents.rows))
      (lesser (extents.width * (row / extents.rows) + extents.width / 2) extents.axisLen)
      (lesser (extents.width * (row / extents.rows) + extents.width) extents.axisLen) := by
  have hrowsPos : 0 < extents.rows.toNat := Nat.pos_of_mul_pos_right (by rw [hrows]; decide)
  have haxisLen : 0 < extents.axisLen.toNat := Nat.pos_of_mul_pos_left (by rw [hrows]; decide)
  have hsegmentsPos : 0 < extents.segments.toNat := Nat.pos_of_mul_pos_left (Nat.lt_of_lt_of_le haxisLen hsegments)
  have hrowMod : (row % extents.rows).toNat = extents.rows.toNat - 1 := by
    rw [UInt32.toNat_mod, hrow, place_mod _ (Nat.sub_lt hrowsPos Nat.one_pos)]
  have hrowDiv : (row / extents.rows).toNat = extents.segments.toNat - 1 := by
    rw [UInt32.toNat_div, hrow, place_div _ (Nat.sub_lt hrowsPos Nat.one_pos)]
  have hbaseEnd : (extents.rows.toNat - 1) * extents.axisLen.toNat + extents.axisLen.toNat = 4294967296 := by
    rw [← Nat.succ_mul, Nat.succ_eq_add_one, Nat.sub_add_cancel hrowsPos, hrows]
  have hstartEnd : extents.width.toNat * (extents.segments.toNat - 1) + extents.width.toNat =
      extents.width.toNat * extents.segments.toNat := by
    rw [← Nat.mul_succ, Nat.succ_eq_add_one, Nat.sub_add_cancel hsegmentsPos]
  have hstartLt := h.start_lt _ (Nat.sub_lt hsegmentsPos Nat.one_pos)
  have hlen := h.axisLen_le
  have hwidthLe := h.width_le
  have hbaseWord := toNat_mul_word (a := row % extents.rows) (b := extents.axisLen) (by rw [hrowMod]; omega)
  have hstartWord := toNat_mul_word (a := extents.width) (b := row / extents.rows) (by rw [hrowDiv]; omega)
  obtain ⟨hfits, -⟩ := h.segment_exact (Nat.le_refl _) hgroup
  rw [hrowMod] at hbaseWord
  rw [hrowDiv] at hstartWord
  generalize extents.width * (row / extents.rows) = start at *
  have hhalf : (extents.width / 2).toNat = extents.width.toNat / 2 := UInt32.toNat_div _ _
  have hmiddleWord := toNat_add_word (a := start) (b := extents.width / 2) (by omega)
  have hstopWord := toNat_add_word (a := start) (b := extents.width) (by omega)
  refine ⟨hfits, ?_, ?_⟩
  · rw [toNat_lesser]
    omega
  · rw [toNat_lesser]
    omega

/-- If the rows of a pass have as many elements as there are words, then some thread that merges the end of the last row
does not have exact places, if the keys fall in its segment. -/
theorem ExtentsFit.exists_not_exact {extents : MergeExtents} (h : ExtentsFit extents 4294967296)
    (hrows : extents.rows.toNat * extents.axisLen.toNat = 4294967296) (hwidth : 2 ≤ extents.width.toNat)
    (hsegments : extents.axisLen.toNat ≤ extents.width.toNat * extents.segments.toNat) {sharing : Sharing}
    {blocks lanes : Nat} (hcovers : sharing.Covers extents.width.toNat blocks lanes) (hblocks : blocks ≤ 4294967296)
    (flag : UInt32) (indexed : Bool) :
    ∃ row place, row.toNat < extents.rows.toNat * extents.segments.toNat ∧ ∀ oracle : Oracle,
      oracle.Answers 4294967296 → oracle.Falls place 4294967296 → ∃ x : UInt32, x.toNat < blocks ∧
        ¬Exact 4294967296 (mergeRuns oracle extents (.ofSharing sharing flag indexed) x row 0)
          (mergeRuns oracle extents (.ofSharing sharing flag indexed) (integer x) (integer row) (integer 0)) := by
  have hrowsPos : 0 < extents.rows.toNat := Nat.pos_of_mul_pos_right (by rw [hrows]; decide)
  have haxisLen : 0 < extents.axisLen.toNat := Nat.pos_of_mul_pos_left (by rw [hrows]; decide)
  have hsegmentsPos : 0 < extents.segments.toNat := Nat.pos_of_mul_pos_left (Nat.lt_of_lt_of_le haxisLen hsegments)
  have hlast := place_lt (Nat.sub_lt hsegmentsPos Nat.one_pos) (Nat.sub_lt hrowsPos Nat.one_pos)
  rw [Nat.mul_comm extents.segments.toNat] at hlast
  have hrow := toNat_ofNat_word (Nat.lt_trans hlast h.groups_lt)
  generalize UInt32.ofNat _ = row at hrow
  rw [← hrow] at hlast
  have hgroup : row < extents.rows * extents.segments := by
    rwa [UInt32.lt_iff_toNat_lt, toNat_mul_word h.groups_lt]
  have hends := h.lastSegment hrows hwidth hsegments hrow hgroup
  refine ⟨row, (row % extents.rows * extents.axisLen).toNat +
    (lesser (extents.width * (row / extents.rows) + extents.width / 2) extents.axisLen).toNat, hlast,
    fun oracle horacle hfalls => ?_⟩
  have hwide : (lesser (extents.width * (row / extents.rows) + extents.width) extents.axisLen).toNat -
      (extents.width * (row / extents.rows)).toNat ≤ extents.width.toNat := by
    have hstop := toNat_lesser_le (extents.width * (row / extents.rows) + extents.width) extents.axisLen
    have hsum := Nat.mod_le ((extents.width * (row / extents.rows)).toNat + extents.width.toNat) (2 ^ 32)
    rw [← UInt32.toNat_add] at hsum
    omega
  obtain ⟨x, hx, hwrong⟩ := hends.exists_wrongStart hcovers hblocks hwide flag indexed horacle hfalls
  refine ⟨x, hx, WrongStart.not_exact ?_ _⟩
  obtain ⟨hwords, hintegers⟩ := h.start?_eq (Nat.le_refl _) hgroup oracle (.ofSharing sharing flag indexed) x 0
  rw [hwords, hintegers]
  exact hwrong

/-! ### Keys that fall -/

/-- Keys of which none in front of a place may stand before one behind it. -/
def fallingKeys (direction : Direction) (place total : Nat) : Array UInt8 :=
  Array.ofFn fun p : Fin total =>
    match direction with
    | .ascending => if p < place then 1 else 0
    | .descending => if p < place then 0 else 1

@[simp]
theorem size_fallingKeys (direction : Direction) (place total : Nat) :
    (fallingKeys direction place total).size = total := Array.size_ofFn

/-- Falling keys fall. -/
theorem Oracle.falls_ofKeys (direction : Direction) (place total : Nat) :
    (Oracle.ofKeys direction.flag (fallingKeys direction place total)).Falls place total := by
  intro p hp q hq hle
  have hpTotal : p < total := Nat.lt_trans (Nat.lt_of_lt_of_le hp hle) hq
  simp only [Oracle.ofKeys, inOrder_flag]
  rw [compare_eq_ok (by simpa using hpTotal) (by simpa using hq)]
  have hbehind : ¬q < place := Nat.not_lt.mpr hle
  cases direction with
  | ascending =>
    have hfirst : (fallingKeys .ascending place total)[p]? = some 1 := by simp [fallingKeys, hp, hpTotal]
    have hsecond : (fallingKeys .ascending place total)[q]? = some 0 := by simp [fallingKeys, hbehind, hq]
    simp only [precedesAt, hfirst, hsecond]
    rfl
  | descending =>
    have hfirst : (fallingKeys .descending place total)[p]? = some 0 := by simp [fallingKeys, hp, hpTotal]
    have hsecond : (fallingKeys .descending place total)[q]? = some 1 := by simp [fallingKeys, hbehind, hq]
    simp only [precedesAt, hfirst, hsecond]
    rfl

end Places

end MergePathSort
