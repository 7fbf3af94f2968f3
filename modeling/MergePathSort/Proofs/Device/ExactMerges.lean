import Mathlib.Data.List.Basic
import MergePathSort.Proofs.Device.Places

/-!
# Exact places of merges

The threads of a merge pass compute the same places with words as with integers: their searches, the runs that a group
cuts out of its segment, and their outputs one after the other. A sum on the way may wrap around, but every place that is
read or written is exact. It takes no more than that all rows together have a word's number of elements, and that the
numbers of groups and lanes, multiplied by their outputs, are words.

## Main definitions

* `Places.integer` : the integer of a word.
* `Places.Runs.Fits`, `Places.Merging.Fits` : runs, and what is left to merge, below a bound.
* `Places.SegmentFits`, `Places.CountsFit`, `Places.ExtentsFit` : what a pass has to keep within words.
* `Places.ExactSearch`, `Places.ExactStart`, `Places.Exact` : searches, starts and places that are the same with words and
  with integers.

## Main results

* `Places.search_exact`, `Places.Runs.Fits.partition_exact` : searches.
* `Places.Merging.Fits.outputs_exact` : outputs.
* `Places.mergeRuns_exact` : all places of a thread.
-/

namespace MergePathSort

open PlaceNumber (ofWord toPlace)

/-! ### Words that do not wrap -/

section Words

variable {a b : UInt32}

/-- A sum that is a word. -/
theorem toNat_add_word (h : a.toNat + b.toNat < 4294967296) : (a + b).toNat = a.toNat + b.toNat := by
  rw [UInt32.toNat_add]
  exact Nat.mod_eq_of_lt h

/-- A product that is a word. -/
theorem toNat_mul_word (h : a.toNat * b.toNat < 4294967296) : (a * b).toNat = a.toNat * b.toNat := by
  rw [UInt32.toNat_mul]
  exact Nat.mod_eq_of_lt h

/-- A difference that is not negative. -/
theorem toNat_sub_word (h : b.toNat ≤ a.toNat) : (a - b).toNat = a.toNat - b.toNat :=
  UInt32.toNat_sub_of_le _ _ (UInt32.le_iff_toNat_le.mpr h)

/-- A sum less another word, if the result is a word. The sum itself may wrap around. -/
theorem toNat_add_sub_word {c : UInt32} (hle : c.toNat ≤ a.toNat + b.toNat)
    (hlt : a.toNat + b.toNat - c.toNat < 4294967296) : (a + b - c).toNat = a.toNat + b.toNat - c.toNat := by
  have hc := c.toNat_lt
  rw [UInt32.toNat_sub, UInt32.toNat_add]
  omega

end Words

namespace Places

/-- The integer of a word. -/
def integer (word : UInt32) : Int := word.toNat

section Integers

variable {a b : UInt32}

theorem integer_add (h : a.toNat + b.toNat < 4294967296) : integer a + integer b = integer (a + b) := by
  rw [integer, integer, integer, toNat_add_word h, Int.natCast_add]

theorem integer_mul (h : a.toNat * b.toNat < 4294967296) : integer a * integer b = integer (a * b) := by
  rw [integer, integer, integer, toNat_mul_word h, Int.natCast_mul]

theorem integer_sub (h : b.toNat ≤ a.toNat) : integer a - integer b = integer (a - b) := by
  rw [integer, integer, integer, toNat_sub_word h, Int.natCast_sub h]

theorem integer_div (a b : UInt32) : integer a / integer b = integer (a / b) := by
  rw [integer, integer, integer, UInt32.toNat_div, Int.natCast_ediv]

theorem integer_mod (a b : UInt32) : integer a % integer b = integer (a % b) := by
  rw [integer, integer, integer, UInt32.toNat_mod, Int.natCast_emod]

theorem integer_lt : integer a < integer b ↔ a < b := by
  rw [integer, integer, Int.ofNat_lt, UInt32.lt_iff_toNat_lt]

theorem integer_le : integer a ≤ integer b ↔ a ≤ b := by
  rw [integer, integer, Int.ofNat_le, UInt32.le_iff_toNat_le]

theorem integer_lesser (a b : UInt32) : lesser (integer a) (integer b) = integer (lesser a b) := by
  by_cases h : a < b
  · exact (if_pos (integer_lt.mpr h)).trans (congrArg integer (if_pos h).symm)
  · exact (if_neg fun hlt => h (integer_lt.mp hlt)).trans (congrArg integer (if_neg h).symm)

theorem toNat_lesser (a b : UInt32) : (lesser a b).toNat = min a.toNat b.toNat := by
  by_cases h : a < b
  · have hlt := UInt32.lt_iff_toNat_lt.mp h
    rw [show lesser a b = a from if_pos h]
    omega
  · have hle := UInt32.le_iff_toNat_le.mp (UInt32.not_lt.mp h)
    rw [show lesser a b = b from if_neg h]
    omega

theorem toNat_lesser_le (a b : UInt32) : (lesser a b).toNat ≤ a.toNat := by
  rw [toNat_lesser]
  exact Nat.min_le_left _ _

end Integers

/-! ### Searches -/

/-- A search that has a range left asks in its middle, and goes on in one of the halves. -/
theorem search_succ {ω : Type} [PlaceNumber ω] {goesRight : ω → Outcome Bool} {budget : Nat} {lo hi middle : ω}
    {right : Bool} {found : ω} {asked : List ω} (hleft : ¬hi ≤ lo) (hmiddle : (lo + hi) / ofWord 2 = middle)
    (hgo : goesRight middle = .ok right)
    (hrest : (if right then search goesRight budget (middle + ofWord 1) hi else search goesRight budget lo middle) =
      .ok (found, asked)) :
    search goesRight (budget + 1) lo hi = .ok (found, middle :: asked) := by
  subst hmiddle
  rw [search, if_neg hleft]
  cases right with
  | false =>
    simp only [Bool.false_eq_true, if_false] at hrest
    simp only [hgo, Outcome.ok_bind, Bool.false_eq_true, if_false, hrest]
    rfl
  | true =>
    simp only [if_true] at hrest
    simp only [hgo, Outcome.ok_bind, if_true, hrest]
    rfl

/-- The middle of a range whose sums are words, and the number behind it. -/
theorem middle_exact {lo hi : UInt32} (hlt : lo.toNat < hi.toNat) (hhi : hi.toNat ≤ 2147483648) :
    ((lo + hi) / 2).toNat = (lo.toNat + hi.toNat) / 2 ∧ ((lo + hi) / 2 + 1).toNat = (lo.toNat + hi.toNat) / 2 + 1 ∧
      (integer lo + integer hi) / ofWord 2 = integer ((lo + hi) / 2) ∧
      integer ((lo + hi) / 2) + ofWord 1 = integer ((lo + hi) / 2 + 1) := by
  have htwo : (2 : UInt32).toNat = 2 := rfl
  have hone : (1 : UInt32).toNat = 1 := rfl
  have hsum := toNat_add_word (a := lo) (b := hi) (by omega)
  have hmiddle : ((lo + hi) / 2).toNat = (lo.toNat + hi.toNat) / 2 := by rw [UInt32.toNat_div, hsum, htwo]
  have hnext := toNat_add_word (a := (lo + hi) / 2) (b := 1) (by omega)
  refine ⟨hmiddle, by rw [hnext, hmiddle, hone], ?_, integer_add (b := 1) (by omega)⟩
  rw [integer_add (by omega)]
  exact integer_div _ _

/-- A search asks the same words and ends at the same word with integers, and it does not leave its range. -/
def ExactSearch (goesRight : UInt32 → Outcome Bool) (goesRight' : Int → Outcome Bool) (budget : Nat)
    (lo hi : UInt32) : Prop :=
  ∃ found asked, search goesRight budget lo hi = .ok (found, asked) ∧
    search goesRight' budget (integer lo) (integer hi) = .ok (integer found, asked.map integer) ∧
    lo.toNat ≤ found.toNat ∧ found.toNat ≤ hi.toNat ∧ ∀ mid ∈ asked, lo.toNat ≤ mid.toNat ∧ mid.toNat < hi.toNat

section Searches

variable {goesRight : UInt32 → Outcome Bool} {goesRight' : Int → Outcome Bool} {budget : Nat} {lo hi : UInt32}

/-- A search that goes on in one of the halves of its range. -/
theorem ExactSearch.half (hlt : lo.toNat < hi.toNat) (hhi : hi.toNat ≤ 2147483648) {right : Bool}
    (hgo : goesRight ((lo + hi) / 2) = .ok right) (hgo' : goesRight' (integer ((lo + hi) / 2)) = .ok right)
    (hrest : if right then ExactSearch goesRight goesRight' budget ((lo + hi) / 2 + 1) hi
      else ExactSearch goesRight goesRight' budget lo ((lo + hi) / 2)) :
    ExactSearch goesRight goesRight' (budget + 1) lo hi := by
  obtain ⟨hmiddle, hnext, hinteger, hintegerNext⟩ := middle_exact hlt hhi
  have hopen : ¬hi ≤ lo := fun hle => Nat.not_le.mpr hlt (UInt32.le_iff_toNat_le.mp hle)
  have hopen' : ¬integer hi ≤ integer lo := fun hle => hopen (integer_le.mp hle)
  cases right with
  | false =>
    obtain ⟨found, asked, hfound, hfound', hlow, hhigh, hasked⟩ := hrest
    refine ⟨found, (lo + hi) / 2 :: asked, search_succ hopen rfl hgo hfound, search_succ hopen' hinteger hgo' hfound',
      hlow, by omega, List.forall_mem_cons.mpr ⟨by omega, fun mid hmid => ?_⟩⟩
    have := hasked mid hmid
    omega
  | true =>
    obtain ⟨found, asked, hfound, hfound', hlow, hhigh, hasked⟩ := hrest
    rw [← hintegerNext] at hfound'
    refine ⟨found, (lo + hi) / 2 :: asked, search_succ hopen rfl hgo hfound, search_succ hopen' hinteger hgo' hfound',
      by omega, hhigh, List.forall_mem_cons.mpr ⟨by omega, fun mid hmid => ?_⟩⟩
    have := hasked mid hmid
    omega

/-- A search in a range whose sums are words is exact. -/
theorem search_exact (goesRight : UInt32 → Outcome Bool) (goesRight' : Int → Outcome Bool) (budget : Nat)
    (lo hi : UInt32) (hle : lo.toNat ≤ hi.toNat) (hhi : hi.toNat ≤ 2147483648)
    (hbudget : hi.toNat - lo.toNat < budget)
    (hgoes : ∀ mid : UInt32, lo.toNat ≤ mid.toNat → mid.toNat < hi.toNat →
      ∃ right, goesRight mid = .ok right ∧ goesRight' (integer mid) = .ok right) :
    ExactSearch goesRight goesRight' budget lo hi := by
  induction budget generalizing lo hi with
  | zero => omega
  | succ budget ih =>
    by_cases hempty : hi ≤ lo
    · exact ⟨lo, [], if_pos hempty, if_pos (integer_le.mpr hempty), Nat.le_refl _, hle, by simp⟩
    · have hlt : lo.toNat < hi.toNat := UInt32.lt_iff_toNat_lt.mp (UInt32.not_le.mp hempty)
      obtain ⟨hmiddle, hnext, -, -⟩ := middle_exact hlt hhi
      obtain ⟨right, hgo, hgo'⟩ := hgoes ((lo + hi) / 2) (by omega) (by omega)
      refine .half hlt hhi hgo hgo' ?_
      cases right with
      | false => exact ih lo _ (by omega) (by omega) (by omega) fun mid h h' => hgoes mid h (by omega)
      | true => exact ih _ hi (by omega) hhi (by omega) fun mid h h' => hgoes mid (by omega) h'

end Searches

/-! ### Runs -/

/-- An oracle that compares whatever lies below a bound. -/
def Oracle.Answers (oracle : Oracle) (total : Nat) : Prop := ∀ p < total, ∀ q < total, ∃ answer, oracle p q = .ok answer

/-- The runs in other numbers. -/
def Runs.map {ω ω' : Type} (f : ω → ω') (run : Runs ω) : Runs ω' :=
  ⟨f run.leftStart, f run.leftLen, f run.rightStart, f run.rightLen⟩

/-- Two runs that lie below a bound, and are not longer than a row. -/
structure Runs.Fits (run : Runs UInt32) (total : Nat) : Prop where
  /-- The left run lies below the bound. -/
  left_le : run.leftStart.toNat + run.leftLen.toNat ≤ total
  /-- The right run lies below the bound. -/
  right_le : run.rightStart.toNat + run.rightLen.toNat ≤ total
  /-- The runs together are not longer than a row. -/
  len_le : run.leftLen.toNat + run.rightLen.toNat ≤ 2147483648

theorem toPlace_integer (word : UInt32) : toPlace (integer word) = word.toNat := Int.toNat_natCast _

section Runs

variable {oracle : Oracle} {run : Runs UInt32} {total : Nat} {diag : UInt32}

/-- The places that a search on a diagonal reads are exact. -/
theorem Runs.Fits.probe_exact (h : run.Fits total) (htotal : total ≤ 4294967296)
    (hdiag : diag.toNat ≤ run.leftLen.toNat + run.rightLen.toNat) (mid : UInt32)
    (hlow : diag.toNat - run.rightLen.toNat ≤ mid.toNat) (hhigh : mid.toNat < diag.toNat)
    (hleft : mid.toNat < run.leftLen.toNat) :
    integer run.leftStart + integer mid = integer (run.leftStart + mid) ∧
      integer run.rightStart + integer diag - ofWord 1 - integer mid = integer (run.rightStart + diag - 1 - mid) ∧
      (run.leftStart + mid).toNat < total ∧ (run.rightStart + diag - 1 - mid).toNat < total := by
  obtain ⟨hleftEnd, hrightEnd, -⟩ := h
  have hone : (1 : UInt32).toNat = 1 := rfl
  have hleftMid := toNat_add_word (a := run.leftStart) (b := mid) (by omega)
  have hrightMid : (run.rightStart + diag - 1 - mid).toNat = run.rightStart.toNat + diag.toNat - 1 - mid.toNat := by
    rw [UInt32.toNat_sub, UInt32.toNat_sub, UInt32.toNat_add, hone]
    omega
  refine ⟨integer_add (by omega), ?_, by omega, by omega⟩
  change (run.rightStart.toNat : Int) + diag.toNat - (1 : UInt32).toNat - mid.toNat = ((_ : Nat) : Int)
  omega

/-- The search on a diagonal starts at the same number with words and with integers. -/
theorem searchStart_exact (run : Runs UInt32) (diag : UInt32) :
    (if run.rightLen < diag then diag - run.rightLen else 0).toNat = diag.toNat - run.rightLen.toNat ∧
      (if integer run.rightLen < integer diag then integer diag - integer run.rightLen else ofWord 0) =
        integer (if run.rightLen < diag then diag - run.rightLen else 0) := by
  by_cases hlt : run.rightLen < diag
  · have hle := UInt32.lt_iff_toNat_lt.mp hlt
    rw [if_pos hlt, if_pos (integer_lt.mpr hlt)]
    exact ⟨toNat_sub_word (by omega), integer_sub (by omega)⟩
  · have hle := UInt32.le_iff_toNat_le.mp (UInt32.not_lt.mp hlt)
    rw [if_neg hlt, if_neg (fun h => hlt (integer_lt.mp h))]
    exact ⟨(Nat.sub_eq_zero_of_le hle).symm, rfl⟩

/-- The search on a diagonal asks for the same numbers of elements with words and with integers. -/
theorem Runs.Fits.asked_exact (h : run.Fits total) (htotal : total ≤ 4294967296) (horacle : oracle.Answers total)
    (hdiag : diag.toNat ≤ run.leftLen.toNat + run.rightLen.toNat) :
    ∃ found asked,
      search (fun mid => oracle (toPlace (run.leftStart + mid)) (toPlace (run.rightStart + diag - 1 - mid))) Size.limit
        (if run.rightLen < diag then diag - run.rightLen else 0) (lesser diag run.leftLen) = .ok (found, asked) ∧
      search (fun mid => oracle (toPlace (integer run.leftStart + mid))
          (toPlace (integer run.rightStart + integer diag - ofWord 1 - mid))) Size.limit
        (if integer run.rightLen < integer diag then integer diag - integer run.rightLen else ofWord 0)
        (lesser (integer diag) (integer run.leftLen)) = .ok (integer found, asked.map integer) ∧
      diag.toNat - run.rightLen.toNat ≤ found.toNat ∧ found.toNat ≤ diag.toNat ∧ found.toNat ≤ run.leftLen.toNat ∧
      ∀ mid ∈ asked, diag.toNat - run.rightLen.toNat ≤ mid.toNat ∧ mid.toNat < diag.toNat ∧
        mid.toNat < run.leftLen.toNat := by
  have hlen := h.len_le
  obtain ⟨hlo, hlo'⟩ := searchStart_exact run diag
  rw [hlo', integer_lesser]
  generalize (if run.rightLen < diag then diag - run.rightLen else 0) = lo at hlo
  have hle : lo.toNat ≤ (lesser diag run.leftLen).toNat := by
    rw [hlo, toNat_lesser]
    omega
  have hhi : (lesser diag run.leftLen).toNat ≤ 2147483648 := by
    have := toNat_lesser_le diag run.leftLen
    omega
  have hlimit : 2147483648 < Size.limit := by decide
  have hrange : ∀ mid : UInt32, lo.toNat ≤ mid.toNat ∧ mid.toNat < (lesser diag run.leftLen).toNat →
      diag.toNat - run.rightLen.toNat ≤ mid.toNat ∧ mid.toNat < diag.toNat ∧ mid.toNat < run.leftLen.toNat := by
    rintro mid ⟨hlow, hhigh⟩
    rw [toNat_lesser, Nat.lt_min] at hhigh
    exact ⟨hlo ▸ hlow, hhigh⟩
  obtain ⟨found, asked, hfound, hfound', hlow, hhigh, hasked⟩ :=
    search_exact (fun mid => oracle (toPlace (run.leftStart + mid)) (toPlace (run.rightStart + diag - 1 - mid)))
      (fun mid => oracle (toPlace (integer run.leftStart + mid))
        (toPlace (integer run.rightStart + integer diag - ofWord 1 - mid)))
      Size.limit lo (lesser diag run.leftLen) hle hhi (by omega) fun mid hmid hmid' => by
        obtain ⟨hlow, hhigh, hleftHigh⟩ := hrange mid ⟨hmid, hmid'⟩
        obtain ⟨hleft, hright, hleftLt, hrightLt⟩ := h.probe_exact htotal hdiag mid hlow hhigh hleftHigh
        obtain ⟨answer, hanswer⟩ := horacle _ hleftLt _ hrightLt
        refine ⟨answer, hanswer, ?_⟩
        rw [hleft, hright, toPlace_integer, toPlace_integer]
        exact hanswer
  rw [toNat_lesser, Nat.le_min] at hhigh
  exact ⟨found, asked, hfound, hfound', hlo ▸ hlow, hhigh.1, hhigh.2, fun mid hmid => hrange mid (hasked mid hmid)⟩

/-- The search on a diagonal: the same number of elements with words and with integers, and the same places are read. -/
theorem Runs.Fits.partition_exact (h : run.Fits total) (htotal : total ≤ 4294967296) (horacle : oracle.Answers total)
    (hdiag : diag.toNat ≤ run.leftLen.toNat + run.rightLen.toNat) :
    ∃ first probes, run.partition oracle diag = .ok (first, probes) ∧
      (run.map integer).partition oracle (integer diag) = .ok (integer first, probes.map integer) ∧
      diag.toNat - run.rightLen.toNat ≤ first.toNat ∧ first.toNat ≤ diag.toNat ∧
      first.toNat ≤ run.leftLen.toNat ∧ ∀ place ∈ probes, place.toNat < total := by
  obtain ⟨found, asked, hfound, hfound', hlow, hhigh, hleftHigh, hasked⟩ := h.asked_exact htotal horacle hdiag
  have hprobe := fun mid hmid =>
    h.probe_exact htotal hdiag mid (hasked mid hmid).1 (hasked mid hmid).2.1 (hasked mid hmid).2.2
  refine ⟨found, asked.flatMap fun mid => [run.leftStart + mid, run.rightStart + diag - 1 - mid],
    Outcome.bind_eq_ok_iff.mpr ⟨_, hfound, rfl⟩, ?_, hlow, hhigh, hleftHigh, fun place hplace => ?_⟩
  · have hprobes : (asked.flatMap fun mid => [run.leftStart + mid, run.rightStart + diag - 1 - mid]).map integer =
        (asked.map integer).flatMap fun mid =>
          [integer run.leftStart + mid, integer run.rightStart + integer diag - ofWord 1 - mid] := by
      rw [List.map_flatMap, List.flatMap_map]
      refine List.flatMap_congr fun mid hmid => ?_
      obtain ⟨hleft, hright, -, -⟩ := hprobe mid hmid
      rw [hleft, hright]
      rfl
    rw [hprobes]
    exact Outcome.bind_eq_ok_iff.mpr ⟨_, hfound', rfl⟩
  · obtain ⟨mid, hmid, hplace⟩ := List.mem_flatMap.mp hplace
    obtain ⟨-, -, hleftLt, hrightLt⟩ := hprobe mid hmid
    rcases List.mem_cons.mp hplace with rfl | hplace
    · exact hleftLt
    · rw [List.mem_singleton.mp hplace]
      exact hrightLt

/-- What is left to merge, in other numbers. -/
def Merging.map {ω ω' : Type} (f : ω → ω') (merging : Merging ω) : Merging ω' :=
  ⟨f merging.leftStop, f merging.rightStop, f merging.i, f merging.j, f merging.out, f merging.remaining⟩

/-- What is left to merge lies below a bound, and so do the outputs. -/
structure Merging.Fits (merging : Merging UInt32) (total : Nat) : Prop where
  /-- The next element of the left run does not lie behind its end. -/
  i_le : merging.i.toNat ≤ merging.leftStop.toNat
  /-- The next element of the right run does not lie behind its end. -/
  j_le : merging.j.toNat ≤ merging.rightStop.toNat
  /-- The left run lies below the bound. -/
  leftStop_le : merging.leftStop.toNat ≤ total
  /-- The right run lies below the bound. -/
  rightStop_le : merging.rightStop.toNat ≤ total
  /-- The outputs lie below the bound. -/
  out_le : merging.out.toNat + merging.remaining.toNat ≤ total
  /-- There are elements left for the outputs. -/
  remaining_le : merging.remaining.toNat ≤
    (merging.leftStop.toNat - merging.i.toNat) + (merging.rightStop.toNat - merging.j.toNat)

/-- Where a thread starts in its runs: the same numbers with words and with integers. -/
theorem Runs.Fits.start_exact (h : run.Fits total) (htotal : total < 4294967296) (horacle : oracle.Answers total)
    (hdiag : diag.toNat ≤ run.leftLen.toNat + run.rightLen.toNat) (outStart step : UInt32)
    (hout : outStart.toNat + run.leftLen.toNat + run.rightLen.toNat ≤ total) :
    ∃ merging probes, run.start oracle outStart diag step = .ok (merging, probes) ∧
      (run.map integer).start oracle (integer outStart) (integer diag) (integer step) =
        .ok (merging.map integer, probes.map integer) ∧
      merging.Fits total ∧ ∀ place ∈ probes, place.toNat < total := by
  obtain ⟨first, probes, hfirst, hfirst', hlow, hhigh, hleftHigh, hprobes⟩ :=
    h.partition_exact (Nat.le_of_lt htotal) horacle hdiag
  obtain ⟨hleft, hright, hlen⟩ := h
  have hleftStop := toNat_add_word (a := run.leftStart) (b := run.leftLen) (by omega)
  have hrightStop := toNat_add_word (a := run.rightStart) (b := run.rightLen) (by omega)
  have hi := toNat_add_word (a := run.leftStart) (b := first) (by omega)
  have hj := toNat_add_sub_word (a := run.rightStart) (b := diag) (c := first) (by omega) (by omega)
  have houtWord := toNat_add_word (a := outStart) (b := diag) (by omega)
  have hboth := toNat_add_word (a := run.leftLen) (b := run.rightLen) (by omega)
  have hrest := toNat_sub_word (a := run.leftLen + run.rightLen) (b := diag) (by omega)
  have hremaining := toNat_lesser_le (run.leftLen + run.rightLen - diag) step
  refine ⟨⟨run.leftStart + run.leftLen, run.rightStart + run.rightLen, run.leftStart + first,
    run.rightStart + diag - first, outStart + diag, lesser (run.leftLen + run.rightLen - diag) step⟩, probes,
    Outcome.bind_eq_ok_iff.mpr ⟨_, hfirst, rfl⟩, ?_, ⟨by simp only; omega, by simp only; omega, by simp only; omega,
      by simp only; omega, by simp only; omega, by simp only; omega⟩, hprobes⟩
  have hinteger : integer run.rightStart + integer diag - integer first = integer (run.rightStart + diag - first) := by
    rw [integer, integer, integer, integer, hj]
    omega
  refine Outcome.bind_eq_ok_iff.mpr ⟨_, hfirst', ?_⟩
  simp only [Runs.map, Merging.map, integer_add (a := run.leftStart) (b := run.leftLen) (by omega),
    integer_add (a := run.rightStart) (b := run.rightLen) (by omega),
    integer_add (a := run.leftStart) (b := first) (by omega), hinteger,
    integer_add (a := outStart) (b := diag) (by omega),
    integer_add (a := run.leftLen) (b := run.rightLen) (by omega),
    integer_sub (a := run.leftLen + run.rightLen) (b := diag) (by omega), integer_lesser]
  rfl

end Runs

/-! ### Outputs -/

/-- Two ways to compute places: they find the same places, with words and with integers, all of them below a bound. -/
def Exact (total : Nat) (words : Outcome (List UInt32)) (integers : Outcome (List Int)) : Prop :=
  ∃ places, words = .ok places ∧ integers = .ok (places.map integer) ∧ ∀ place ∈ places, place.toNat < total

section Merging

variable {oracle : Oracle} {total : Nat} {merging : Merging UInt32}

/-- The side of the next output: the same with words and with integers, and there is an element left on it. -/
theorem Merging.Fits.takesLeft_exact (h : merging.Fits total) (horacle : oracle.Answers total)
    (htotal : 0 < merging.remaining.toNat) :
    ∃ left, merging.takesLeft oracle = .ok left ∧ (merging.map integer).takesLeft oracle = .ok left ∧
      (merging.map integer).compared = merging.compared.map integer ∧
      (∀ place ∈ merging.compared, place.toNat < total) ∧
      if left then merging.i.toNat < merging.leftStop.toNat else merging.j.toNat < merging.rightStop.toNat := by
  obtain ⟨hi, hj, hleftStop, hrightStop, -, hremaining⟩ := h
  by_cases hleft : merging.i < merging.leftStop
  · have hleft' := UInt32.lt_iff_toNat_lt.mp hleft
    by_cases hright : merging.j < merging.rightStop
    · have hright' := UInt32.lt_iff_toNat_lt.mp hright
      obtain ⟨left, hleftAnswer⟩ := horacle merging.i.toNat (by omega) merging.j.toNat (by omega)
      refine ⟨left, ?_, ?_, ?_, ?_, ?_⟩
      · exact ((if_pos hleft).trans (if_pos hright)).trans hleftAnswer
      · refine ((if_pos (integer_lt.mpr hleft)).trans (if_pos (integer_lt.mpr hright))).trans ?_
        simp only [Merging.map, toPlace_integer, hleftAnswer]
      · refine (if_pos ⟨integer_lt.mpr hleft, integer_lt.mpr hright⟩).trans ?_
        rw [show merging.compared = [merging.i, merging.j] from if_pos ⟨hleft, hright⟩]
        rfl
      · rw [show merging.compared = [merging.i, merging.j] from if_pos ⟨hleft, hright⟩]
        simp only [List.mem_cons, List.not_mem_nil, or_false]
        rintro place (rfl | rfl) <;> omega
      · cases left <;> simpa
    · have hnone : merging.compared = [] := if_neg fun h => hright h.2
      have hnone' : (merging.map integer).compared = [] := if_neg fun h => hright (integer_lt.mp h.2)
      refine ⟨true, (if_pos hleft).trans (if_neg hright), ?_, by rw [hnone, hnone']; rfl, by simp [hnone], by simpa⟩
      exact (if_pos (integer_lt.mpr hleft)).trans (if_neg fun h => hright (integer_lt.mp h))
  · have hleft' := UInt32.le_iff_toNat_le.mp (UInt32.not_lt.mp hleft)
    have hnone : merging.compared = [] := if_neg fun h => hleft h.1
    have hnone' : (merging.map integer).compared = [] := if_neg fun h => hleft (integer_lt.mp h.1)
    refine ⟨false, if_neg hleft, if_neg fun h => hleft (integer_lt.mp h), by rw [hnone, hnone']; rfl, by simp [hnone], ?_⟩
    simp only [Bool.false_eq_true, if_false]
    omega

/-- A thread goes on exactly after an output. -/
theorem Merging.Fits.advance_exact (h : merging.Fits total) (htotal : total < 4294967296)
    (hpos : 0 < merging.remaining.toNat) {left : Bool}
    (hside : if left then merging.i.toNat < merging.leftStop.toNat else merging.j.toNat < merging.rightStop.toNat) :
    (merging.map integer).source left = integer (merging.source left) ∧
      (merging.map integer).advance left = (merging.advance left).map integer ∧
      (merging.advance left).Fits total ∧ (merging.advance left).remaining.toNat + 1 = merging.remaining.toNat ∧
      (merging.source left).toNat < total ∧ merging.out.toNat < total := by
  obtain ⟨hi, hj, hleftStop, hrightStop, hout, hremaining⟩ := h
  have hone : (1 : UInt32).toNat = 1 := rfl
  have houtNext := toNat_add_word (a := merging.out) (b := 1) (by omega)
  have hremainingNext := toNat_sub_word (a := merging.remaining) (b := 1) (by omega)
  have houtInteger := integer_add (a := merging.out) (b := 1) (by omega)
  have hremainingInteger := integer_sub (a := merging.remaining) (b := 1) (by omega)
  cases left with
  | false =>
    simp only [Bool.false_eq_true, if_false] at hside
    have hnext := toNat_add_word (a := merging.j) (b := 1) (by omega)
    have hadvance : merging.advance false = ⟨merging.leftStop, merging.rightStop, merging.i, merging.j + 1,
      merging.out + 1, merging.remaining - 1⟩ := rfl
    rw [hadvance]
    refine ⟨rfl, ?_, ⟨hi, by simp only; omega, hleftStop, hrightStop, by simp only; omega, by simp only; omega⟩,
      by simp only; omega, Nat.lt_of_lt_of_le hside hrightStop, by omega⟩
    simp only [Merging.map, ← houtInteger, ← hremainingInteger, ← integer_add (a := merging.j) (b := 1) (by omega)]
    rfl
  | true =>
    simp only [if_true] at hside
    have hnext := toNat_add_word (a := merging.i) (b := 1) (by omega)
    have hadvance : merging.advance true = ⟨merging.leftStop, merging.rightStop, merging.i + 1, merging.j,
      merging.out + 1, merging.remaining - 1⟩ := rfl
    rw [hadvance]
    refine ⟨rfl, ?_, ⟨by simp only; omega, hj, hleftStop, hrightStop, by simp only; omega, by simp only; omega⟩,
      by simp only; omega, Nat.lt_of_lt_of_le hside hleftStop, by omega⟩
    simp only [Merging.map, ← houtInteger, ← hremainingInteger, ← integer_add (a := merging.i) (b := 1) (by omega)]
    rfl

/-- The places of all outputs of a thread are exact. -/
theorem Merging.Fits.outputs_exact (h : merging.Fits total) (htotal : total < 4294967296)
    (horacle : oracle.Answers total) {turns : Nat} (hturns : turns ≤ merging.remaining.toNat) :
    Exact total (merging.places oracle turns) ((merging.map integer).places oracle turns) := by
  induction turns generalizing merging with
  | zero => exact ⟨[], rfl, rfl, by simp⟩
  | succ turns ih =>
    obtain ⟨left, htake, htake', hcompared', hcompared, hside⟩ := h.takesLeft_exact horacle (by omega)
    obtain ⟨hsource', hadvance', hfits, hremaining, hsource, hout⟩ := h.advance_exact htotal (by omega) hside
    obtain ⟨places, hplaces, hplaces', hlt⟩ := ih hfits (by omega)
    refine ⟨merging.compared ++ [merging.source left, merging.out] ++ places, ?_, ?_, fun place hplace => ?_⟩
    · exact Outcome.bind_eq_ok_iff.mpr ⟨left, htake, Outcome.bind_eq_ok_iff.mpr ⟨places, hplaces, rfl⟩⟩
    · rw [← hadvance'] at hplaces'
      refine Outcome.bind_eq_ok_iff.mpr ⟨left, htake', Outcome.bind_eq_ok_iff.mpr ⟨_, hplaces', ?_⟩⟩
      rw [hcompared', hsource', List.map_append, List.map_append]
      rfl
    · simp only [List.mem_append, List.mem_cons, List.not_mem_nil, or_false] at hplace
      rcases hplace with (hplace | rfl | rfl) | hplace
      · exact hcompared place hplace
      · exact hsource
      · exact hout
      · exact hlt place hplace

end Merging

/-! ### Segments -/

section Segments

variable {oracle : Oracle} {total : Nat} {settings : MergeSettings} {base start middle stop x thread : UInt32}

/-- A segment of the row that starts at `base`, cut in two. -/
structure SegmentFits (base start middle stop : UInt32) (total : Nat) : Prop where
  /-- The left run does not end before it starts. -/
  start_le : start.toNat ≤ middle.toNat
  /-- The right run does not end before it starts. -/
  middle_le : middle.toNat ≤ stop.toNat
  /-- The segment is not longer than a row. -/
  stop_le : stop.toNat ≤ 2147483648
  /-- The segment lies below the bound. -/
  end_le : base.toNat + stop.toNat ≤ total

/-- The outputs before a group and before a thread are words. -/
structure CountsFit (settings : MergeSettings) (x thread : UInt32) : Prop where
  /-- The outputs before a group of several, and before a thread of the group. -/
  several : settings.severalGroups = true → x.toNat * settings.step.toNat < 4294967296 ∧
    thread.toNat * settings.threadWork.toNat < 4294967296
  /-- The outputs before a thread of the only group. -/
  one : settings.severalGroups = false → thread.toNat * settings.step.toNat < 4294967296

/-- The extents of a pass over rows that lie below a bound. -/
structure ExtentsFit (extents : MergeExtents) (total : Nat) : Prop where
  /-- The rows lie below the bound. -/
  rows_le : extents.rows.toNat * extents.axisLen.toNat ≤ total
  /-- The groups are counted by a word. -/
  groups_lt : extents.rows.toNat * extents.segments.toNat < 4294967296
  /-- A row is not too long for the sums of a search. -/
  axisLen_le : extents.axisLen.toNat ≤ 2147483648
  /-- A segment is not too wide for them. -/
  width_le : extents.width.toNat ≤ 2147483648
  /-- Every segment starts inside of a row. -/
  start_lt : ∀ segment < extents.segments.toNat, extents.width.toNat * segment < extents.axisLen.toNat

/-- A start that is found is the same with words and with integers, and the places that are read for it are exact. -/
def ExactStart (total : Nat) (words : Outcome (Option (Merging UInt32) × List UInt32))
    (integers : Outcome (Option (Merging Int) × List Int)) : Prop :=
  ∃ merging? probes, words = .ok (merging?, probes) ∧
    integers = .ok (merging?.map (Merging.map integer), probes.map integer) ∧
    (∀ merging ∈ merging?, merging.Fits total) ∧ ∀ place ∈ probes, place.toNat < total

/-- A thread starts in runs that fit, if its diagonal lies inside of them, after other places have been read. -/
theorem Runs.Fits.exactStart {run : Runs UInt32} (h : run.Fits total) (htotal : total < 4294967296)
    (horacle : oracle.Answers total) {inside inside' : Prop} [Decidable inside] [Decidable inside']
    (hiff : inside' ↔ inside) {diag outStart : UInt32} (step : UInt32)
    (hdiag : inside → diag.toNat ≤ run.leftLen.toNat + run.rightLen.toNat)
    (hout : outStart.toNat + run.leftLen.toNat + run.rightLen.toNat ≤ total) {probes : List UInt32}
    (hprobes : ∀ place ∈ probes, place.toNat < total) :
    ExactStart total
      (if inside then do
        let (merging, more) ← run.start oracle outStart diag step
        return (some merging, probes ++ more)
      else return (none, probes))
      (if inside' then do
        let (merging, more) ← (run.map integer).start oracle (integer outStart) (integer diag) (integer step)
        return (some merging, probes.map integer ++ more)
      else return (none, probes.map integer)) := by
  by_cases hinside : inside
  · obtain ⟨merging, more, hstarts, hstarts', hfits, hmore⟩ :=
      h.start_exact htotal horacle (hdiag hinside) outStart step hout
    refine ⟨some merging, probes ++ more, (if_pos hinside).trans (Outcome.bind_eq_ok_iff.mpr ⟨_, hstarts, rfl⟩), ?_,
      by simpa using hfits, fun place hplace => (List.mem_append.mp hplace).elim (hprobes place) (hmore place)⟩
    rw [List.map_append]
    exact (if_pos (hiff.mpr hinside)).trans (Outcome.bind_eq_ok_iff.mpr ⟨_, hstarts', rfl⟩)
  · exact ⟨none, probes, if_neg hinside, if_neg (hiff.not.mpr hinside), by simp, hprobes⟩

/-- The right run of a segment starts at a word. -/
theorem SegmentFits.middle_lt (h : SegmentFits base start middle stop total) (htotal : total < 4294967296) :
    base.toNat + middle.toNat < 4294967296 := by
  have hmiddle := h.middle_le
  have hend := h.end_le
  omega

/-- The part of a group lies in its segment, and is the same with words and with integers. -/
theorem SegmentFits.part_exact (h : SegmentFits base start middle stop total) {diag first : UInt32}
    (hword : base.toNat + (middle.toNat + diag.toNat - first.toNat) < 4294967296)
    (hlow : diag.toNat - (stop.toNat - middle.toNat) ≤ first.toNat) (hhigh : first.toNat ≤ diag.toNat)
    (hleftHigh : first.toNat ≤ middle.toNat - start.toNat) (step : UInt32) :
    (partOf base start middle stop diag first step).Fits total ∧
      (base + start + diag).toNat + (partOf base start middle stop diag first step).leftLen.toNat +
        (partOf base start middle stop diag first step).rightLen.toNat ≤ total ∧
      partOf (integer base) (integer start) (integer middle) (integer stop) (integer diag) (integer first)
        (integer step) = (partOf base start middle stop diag first step).map integer ∧
      integer base + integer start + integer diag = integer (base + start + diag) := by
  obtain ⟨hmiddle, hstop, hlen, hend⟩ := h
  have hstartWord := toNat_add_word (a := base) (b := start) (by omega)
  have hout := toNat_add_word (a := base + start) (b := diag) (by omega)
  have hleft := toNat_add_word (a := start) (b := first) (by omega)
  have hright := toNat_add_sub_word (a := middle) (b := diag) (c := first) (by omega) (by omega)
  have hleftWord := toNat_add_word (a := base) (b := start + first) (by omega)
  have hrightWord := toNat_add_word (a := base) (b := middle + diag - first) (by omega)
  have hleftRest := toNat_sub_word (a := middle) (b := start + first) (by omega)
  have hrightRest := toNat_sub_word (a := stop) (b := middle + diag - first) (by omega)
  have hleftLen := toNat_lesser_le (middle - (start + first)) step
  have hrightLen := toNat_lesser_le (stop - (middle + diag - first)) step
  have hrightInteger : integer middle + integer diag - integer first = integer (middle + diag - first) := by
    rw [integer, integer, integer, integer, hright]
    omega
  refine ⟨⟨?_, ?_, ?_⟩, ?_, ?_, ?_⟩
  · simp only [partOf]
    omega
  · simp only [partOf]
    omega
  · simp only [partOf]
    omega
  · simp only [partOf]
    omega
  · simp only [partOf, Runs.map, ← integer_lesser, ← hrightInteger,
      ← integer_add (a := base) (b := start + first) (by omega),
      ← integer_add (a := base) (b := middle + diag - first) (by omega),
      ← integer_add (a := start) (b := first) (by omega), ← integer_sub (a := middle) (b := start + first) (by omega),
      ← integer_sub (a := stop) (b := middle + diag - first) (by omega)]
  · rw [integer_add (by omega), integer_add (by omega)]

/-- The two runs of a segment fit, and they are the same with words and with integers. -/
theorem SegmentFits.whole_exact (h : SegmentFits base start middle stop total)
    (hword : base.toNat + middle.toNat < 4294967296) :
    Runs.Fits ⟨base + start, middle - start, base + middle, stop - middle⟩ total ∧
      (⟨integer base + integer start, integer middle - integer start, integer base + integer middle,
        integer stop - integer middle⟩ : Runs Int) =
          Runs.map integer ⟨base + start, middle - start, base + middle, stop - middle⟩ := by
  obtain ⟨hmiddle, hstop, hlen, hend⟩ := h
  have hstartWord := toNat_add_word (a := base) (b := start) (by omega)
  have hmiddleWord := toNat_add_word (a := base) (b := middle) (by omega)
  have hleftLen := toNat_sub_word hmiddle
  have hrightLen := toNat_sub_word hstop
  refine ⟨⟨by simp only; omega, by simp only; omega, by simp only; omega⟩, ?_⟩
  simp only [Runs.map, integer_add (a := base) (b := start) (by omega),
    integer_add (a := base) (b := middle) (by omega), integer_sub hmiddle, integer_sub hstop]

/-- A diagonal lies inside of a segment with integers exactly if it does with words, and then inside of its runs. -/
theorem SegmentFits.inside_exact (h : SegmentFits base start middle stop total) {a b : UInt32}
    (hproduct : a.toNat * b.toNat < 4294967296) :
    (integer a * integer b < integer stop - integer start ↔ a * b < stop - start) ∧
      (a * b < stop - start → (a * b).toNat ≤ (middle - start).toNat + (stop - middle).toNat) := by
  obtain ⟨hmiddle, hstop, -, -⟩ := h
  have hleftLen := toNat_sub_word hmiddle
  have hrightLen := toNat_sub_word hstop
  have hsegmentLen := toNat_sub_word (Nat.le_trans hmiddle hstop)
  constructor
  · rw [integer_mul hproduct, integer_sub (Nat.le_trans hmiddle hstop)]
    exact integer_lt
  · intro hinside
    have hlt := UInt32.lt_iff_toNat_lt.mp hinside
    omega

/-- Where a thread starts that is in the only group of a segment. -/
theorem SegmentFits.start?_exact_oneGroup (h : SegmentFits base start middle stop total) (htotal : total < 4294967296)
    (horacle : oracle.Answers total) (hseveral : settings.severalGroups = false)
    (hthread : thread.toNat * settings.step.toNat < 4294967296) :
    ExactStart total (segmentStart? oracle settings base start middle stop x thread)
      (segmentStart? oracle settings (integer base) (integer start) (integer middle) (integer stop) (integer x)
        (integer thread)) := by
  obtain ⟨hwhole, hwholeInteger⟩ := h.whole_exact (h.middle_lt htotal)
  obtain ⟨hiff, hdiag⟩ := h.inside_exact hthread
  obtain ⟨hmiddle, hstop, hlen, hend⟩ := h
  have hleftLen := toNat_sub_word hmiddle
  have hrightLen := toNat_sub_word hstop
  have hstartWord := toNat_add_word (a := base) (b := start) (by omega)
  have hstarts := hwhole.exactStart htotal horacle hiff settings.step hdiag
    (show (base + start).toNat + (middle - start).toNat + (stop - middle).toNat ≤ total by omega)
    (show ∀ place ∈ ([] : List UInt32), place.toNat < total by simp)
  rw [← hwholeInteger, ← integer_add (a := base) (b := start) (by omega), ← integer_mul hthread] at hstarts
  simp only [segmentStart?, hseveral, Bool.false_eq_true, if_false]
  exact hstarts

/-- Where a thread starts that is in one of several groups of a segment. -/
theorem SegmentFits.start?_exact_severalGroups (h : SegmentFits base start middle stop total)
    (htotal : total < 4294967296) (horacle : oracle.Answers total) (hseveral : settings.severalGroups = true)
    (hblock : x.toNat * settings.step.toNat < 4294967296)
    (hlane : thread.toNat * settings.threadWork.toNat < 4294967296) :
    ExactStart total (segmentStart? oracle settings base start middle stop x thread)
      (segmentStart? oracle settings (integer base) (integer start) (integer middle) (integer stop) (integer x)
        (integer thread)) := by
  obtain ⟨hwhole, hwholeInteger⟩ := h.whole_exact (h.middle_lt htotal)
  obtain ⟨hiff, hdiag⟩ := h.inside_exact hblock
  simp only [segmentStart?, hseveral, if_true]
  by_cases hinside : x * settings.step < stop - start
  · obtain ⟨first, probes, hfirst, hfirst', hlow, hhigh, hleftHigh, hprobes⟩ :=
      hwhole.partition_exact (Nat.le_of_lt htotal) horacle (hdiag hinside)
    simp only [toNat_sub_word h.start_le, toNat_sub_word h.middle_le] at hlow hleftHigh
    have hend := h.end_le
    have hmiddle := h.middle_le
    obtain ⟨hpart, hout, hpartInteger, houtInteger⟩ := h.part_exact (by omega) hlow hhigh hleftHigh settings.step
    generalize hpartOf : partOf base start middle stop (x * settings.step) first settings.step = part
      at hpart hout hpartInteger
    have hpartLen := toNat_add_word (a := part.leftLen) (b := part.rightLen) (by have := hpart.len_le; omega)
    have hpartLenInteger := integer_add (a := part.leftLen) (b := part.rightLen) (by have := hpart.len_le; omega)
    have hpartIff : (integer (thread * settings.threadWork) < (part.map integer).leftLen + (part.map integer).rightLen) ↔
        thread * settings.threadWork < part.leftLen + part.rightLen := by
      simp only [Runs.map, hpartLenInteger]
      exact integer_lt
    obtain ⟨merging?, more, hstarts, hstarts', hfits, hmore⟩ :=
      hpart.exactStart htotal horacle hpartIff settings.threadWork
        (fun hthere => hpartLen ▸ Nat.le_of_lt (UInt32.lt_iff_toNat_lt.mp hthere)) hout hprobes
    rw [← hpartInteger, ← houtInteger, ← integer_mul hlane, ← integer_mul hblock] at hstarts'
    rw [← hwholeInteger, ← integer_mul hblock] at hfirst'
    subst hpartOf
    exact ⟨merging?, more, (if_pos hinside).trans (Outcome.bind_eq_ok_iff.mpr ⟨_, hfirst, hstarts⟩),
      (if_pos (hiff.mpr hinside)).trans (Outcome.bind_eq_ok_iff.mpr ⟨_, hfirst', hstarts'⟩), hfits, hmore⟩
  · exact ⟨none, [], if_neg hinside, if_neg (hiff.not.mpr hinside), by simp, by simp⟩

/-- Where a thread starts that has a part of a segment. -/
theorem SegmentFits.start?_exact (h : SegmentFits base start middle stop total) (htotal : total < 4294967296)
    (horacle : oracle.Answers total) (hcounts : CountsFit settings x thread) :
    ExactStart total (segmentStart? oracle settings base start middle stop x thread)
      (segmentStart? oracle settings (integer base) (integer start) (integer middle) (integer stop) (integer x)
        (integer thread)) := by
  cases hseveral : settings.severalGroups with
  | false => exact h.start?_exact_oneGroup htotal horacle hseveral (hcounts.one hseveral)
  | true =>
    obtain ⟨hblock, hlane⟩ := hcounts.several hseveral
    exact h.start?_exact_severalGroups htotal horacle hseveral hblock hlane

/-- The segment of a group fits in its row, and it is the same with words and with integers. -/
theorem ExtentsFit.segment_exact {extents : MergeExtents} {row : UInt32} (h : ExtentsFit extents total)
    (htotal : total ≤ 4294967296) (hgroup : row < extents.rows * extents.segments) :
    SegmentFits (row % extents.rows * extents.axisLen) (extents.width * (row / extents.rows))
        (lesser (extents.width * (row / extents.rows) + extents.width / 2) extents.axisLen)
        (lesser (extents.width * (row / extents.rows) + extents.width) extents.axisLen) total ∧
      integer row % integer extents.rows * integer extents.axisLen = integer (row % extents.rows * extents.axisLen) ∧
      integer extents.width * (integer row / integer extents.rows) = integer (extents.width * (row / extents.rows)) ∧
      integer (extents.width * (row / extents.rows)) + integer extents.width / ofWord 2 =
        integer (extents.width * (row / extents.rows) + extents.width / 2) ∧
      integer (extents.width * (row / extents.rows)) + integer extents.width =
        integer (extents.width * (row / extents.rows) + extents.width) := by
  obtain ⟨hrows, hgroups, hlen, hwidth, hsegments⟩ := h
  have hlt := UInt32.lt_iff_toNat_lt.mp hgroup
  rw [toNat_mul_word hgroups] at hlt
  have hstartLt := hsegments (row / extents.rows).toNat (by rw [UInt32.toNat_div]; exact Nat.div_lt_of_lt_mul hlt)
  have hrow : (row % extents.rows).toNat < extents.rows.toNat := by
    rw [UInt32.toNat_mod]
    exact Nat.mod_lt _ (Nat.pos_of_mul_pos_right (Nat.zero_lt_of_lt hlt))
  have hrowEnd := Nat.mul_le_mul_right extents.axisLen.toNat (Nat.succ_le_of_lt hrow)
  rw [Nat.succ_mul] at hrowEnd
  have hbase := toNat_mul_word (a := row % extents.rows) (b := extents.axisLen) (by omega)
  have hstart := toNat_mul_word (a := extents.width) (b := row / extents.rows) (by omega)
  have hhalf : (extents.width / 2).toNat = extents.width.toNat / 2 := UInt32.toNat_div _ _
  have hmiddle := toNat_add_word (a := extents.width * (row / extents.rows)) (b := extents.width / 2) (by omega)
  have hstop := toNat_add_word (a := extents.width * (row / extents.rows)) (b := extents.width) (by omega)
  refine ⟨⟨?_, ?_, ?_, ?_⟩, ?_, ?_, ?_, integer_add (by omega)⟩
  · rw [toNat_lesser]
    omega
  · rw [toNat_lesser, toNat_lesser]
    omega
  · rw [toNat_lesser]
    omega
  · rw [toNat_lesser]
    omega
  · rw [integer_mod, integer_mul (by omega)]
  · rw [integer_div, integer_mul (by omega)]
  · rw [← integer_add (by omega), ← integer_div]
    rfl

/-- A thread of a pass has a part of the segment of its group, with words and with integers. -/
theorem ExtentsFit.start?_eq {extents : MergeExtents} {row : UInt32} (h : ExtentsFit extents total)
    (htotal : total ≤ 4294967296) (hgroup : row < extents.rows * extents.segments) (oracle : Oracle)
    (settings : MergeSettings) (x thread : UInt32) :
    start? oracle extents settings x row thread =
        segmentStart? oracle settings (row % extents.rows * extents.axisLen) (extents.width * (row / extents.rows))
          (lesser (extents.width * (row / extents.rows) + extents.width / 2) extents.axisLen)
          (lesser (extents.width * (row / extents.rows) + extents.width) extents.axisLen) x thread ∧
      start? oracle extents settings (integer x) (integer row) (integer thread) =
        segmentStart? oracle settings (integer (row % extents.rows * extents.axisLen))
          (integer (extents.width * (row / extents.rows)))
          (integer (lesser (extents.width * (row / extents.rows) + extents.width / 2) extents.axisLen))
          (integer (lesser (extents.width * (row / extents.rows) + extents.width) extents.axisLen))
          (integer x) (integer thread) := by
  obtain ⟨-, hbase, hstart, hmiddle, hstop⟩ := h.segment_exact htotal hgroup
  refine ⟨if_pos hgroup, ?_⟩
  have hgroup' : integer row < integer extents.rows * integer extents.segments := by
    rw [integer_mul h.groups_lt]
    exact integer_lt.mpr hgroup
  rw [← integer_lesser, ← integer_lesser, ← hmiddle, ← hstop, ← hstart, ← hbase]
  exact if_pos hgroup'

/-- Where a thread of a pass starts. -/
theorem start?_exact {extents : MergeExtents} (row : UInt32) (htotal : total < 4294967296)
    (horacle : oracle.Answers total) (hextents : ExtentsFit extents total) (hcounts : CountsFit settings x thread) :
    ExactStart total (start? oracle extents settings x row thread)
      (start? oracle extents settings (integer x) (integer row) (integer thread)) := by
  by_cases hgroup : row < extents.rows * extents.segments
  · obtain ⟨hfits, -⟩ := hextents.segment_exact (Nat.le_of_lt htotal) hgroup
    obtain ⟨hwords, hintegers⟩ := hextents.start?_eq (Nat.le_of_lt htotal) hgroup oracle settings x thread
    rw [hwords, hintegers]
    exact hfits.start?_exact htotal horacle hcounts
  · have hgroup' : ¬integer row < integer extents.rows * integer extents.segments := by
      rw [integer_mul hextents.groups_lt]
      exact fun hlt => hgroup (integer_lt.mp hlt)
    exact ⟨none, [], if_neg hgroup, if_neg hgroup', by simp, by simp⟩

/-- The places of a thread of a pass are exact. -/
theorem mergeRuns_exact {extents : MergeExtents} {row : UInt32} (htotal : total < 4294967296)
    (horacle : oracle.Answers total) (hextents : ExtentsFit extents total) (hcounts : CountsFit settings x thread) :
    Exact total (mergeRuns oracle extents settings x row thread)
      (mergeRuns oracle extents settings (integer x) (integer row) (integer thread)) := by
  obtain ⟨merging?, probes, hstart, hstart', hfits, hprobes⟩ :=
    start?_exact row htotal horacle hextents hcounts
  cases merging? with
  | none =>
    exact ⟨probes, Outcome.bind_eq_ok_iff.mpr ⟨_, hstart, rfl⟩, Outcome.bind_eq_ok_iff.mpr ⟨_, hstart', rfl⟩, hprobes⟩
  | some merging =>
    obtain ⟨places, hplaces, hplaces', hlt⟩ :=
      (hfits merging rfl).outputs_exact htotal horacle (Nat.le_refl merging.remaining.toNat)
    refine ⟨probes ++ places, ?_, ?_, fun place hplace => (List.mem_append.mp hplace).elim (hprobes place) (hlt place)⟩
    · exact Outcome.bind_eq_ok_iff.mpr ⟨_, hstart, Outcome.bind_eq_ok_iff.mpr ⟨_, hplaces, rfl⟩⟩
    · refine Outcome.bind_eq_ok_iff.mpr ⟨_, hstart', Outcome.bind_eq_ok_iff.mpr ⟨_, hplaces', ?_⟩⟩
      rw [List.map_append]
      rfl

end Segments

end Places

end MergePathSort
