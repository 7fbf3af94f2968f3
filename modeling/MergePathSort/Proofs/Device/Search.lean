import MergePathSort.Device.MergeKernel
import MergePathSort.Proofs.Merge.Moves

/-!
# Searching in words

The search of a device cuts windows of words in two. As long as its sums do not wrap it is the search that halves an
interval of numbers. The addresses that it reads are sums and differences of words; some of the sums can wrap, but the
addresses themselves are below the number of words, and so they are the exact ones.

## Main results

* `Window.search_eq_ok` : the search loop.
* `DeviceRun.partition_eq_ok`, `DeviceRun.cursor_eq_ok` : the search of a thread, and where it starts.
-/

namespace MergePathSort

/-! ### The loop -/

section Loop

variable {goesRight : UInt32 → Outcome Bool} {test : Nat → Bool}

/-- The middle of a window whose ends have a word as their sum. -/
theorem Window.middle_eq {first last : Nat} (h : first + last < 4294967296) :
    (⟨UInt32.ofNat first, UInt32.ofNat last⟩ : Window).middle = UInt32.ofNat ((first + last) / 2) := by
  rw [middle, UInt32.ofNat_div h (by decide), UInt32.ofNat_add]
  rfl

/-- Cutting a window until it is empty is halving an interval. -/
theorem Window.shrink_eq_ok {first last budget : Nat} (hfirst : first ≤ last) (hlast : last ≤ 2147483648)
    (h : ∀ mid, first ≤ mid → mid < last → goesRight (UInt32.ofNat mid) = .ok (test mid))
    (hbudget : last - first < budget) :
    shrink goesRight budget ⟨UInt32.ofNat first, UInt32.ofNat last⟩ = .ok (UInt32.ofNat (halve test first last)) := by
  fun_induction halve test first last generalizing budget with
  | case1 first last hlt hgo ih =>
    obtain ⟨budget, rfl⟩ : ∃ rest, budget = rest + 1 := ⟨budget - 1, by omega⟩
    have hopen : ¬UInt32.ofNat last ≤ UInt32.ofNat first := by
      rw [UInt32.ofNat_le_iff_le (show last < 4294967296 by omega) (show first < 4294967296 by omega)]
      omega
    have hright : UInt32.ofNat ((first + last) / 2) + 1 = UInt32.ofNat ((first + last) / 2 + 1) := by
      rw [UInt32.ofNat_add]
      rfl
    rw [shrink, if_neg hopen, middle_eq (by omega), h _ (by omega) (by omega), Outcome.ok_bind, hgo, cut, if_pos rfl,
      middle_eq (by omega), hright]
    exact ih (by omega) hlast (fun mid hmid => h mid (by omega)) (by omega)
  | case2 first last hlt hgo ih =>
    obtain ⟨budget, rfl⟩ : ∃ rest, budget = rest + 1 := ⟨budget - 1, by omega⟩
    have hopen : ¬UInt32.ofNat last ≤ UInt32.ofNat first := by
      rw [UInt32.ofNat_le_iff_le (show last < 4294967296 by omega) (show first < 4294967296 by omega)]
      omega
    rw [shrink, if_neg hopen, middle_eq (by omega), h _ (by omega) (by omega), Outcome.ok_bind, cut, if_neg hgo,
      middle_eq (by omega)]
    exact ih (by omega) (by omega) (fun mid hmid hmid' => h mid hmid (by omega)) (by omega)
  | case3 first last hlt =>
    obtain ⟨budget, rfl⟩ : ∃ rest, budget = rest + 1 := ⟨budget - 1, by omega⟩
    obtain rfl : first = last := by omega
    rw [shrink, if_pos (UInt32.le_refl _)]

/-- The search ends as the halving does. -/
theorem Window.search_eq_ok {first last : Nat} (hfirst : first ≤ last) (hlast : last ≤ 2147483648)
    (h : ∀ mid, first ≤ mid → mid < last → goesRight (UInt32.ofNat mid) = .ok (test mid)) :
    search goesRight ⟨UInt32.ofNat first, UInt32.ofNat last⟩ = .ok (UInt32.ofNat (halve test first last)) :=
  shrink_eq_ok hfirst hlast h (by omega)

end Loop

/-! ### Threads -/

/-- The lesser of two numbers, as words. -/
theorem lesser_eq {a b : Nat} (ha : a < 4294967296) (hb : b < 4294967296) :
    lesser (UInt32.ofNat a) (UInt32.ofNat b) = UInt32.ofNat (min a b) := by
  rw [lesser]
  by_cases hlt : a < b
  · rw [if_pos ((UInt32.ofNat_lt_iff_lt ha hb).mpr hlt), Nat.min_eq_left (by omega)]
  · rw [if_neg (fun h => hlt ((UInt32.ofNat_lt_iff_lt ha hb).mp h)), Nat.min_eq_right (by omega)]

/-- Two runs, as words. -/
def Run.words (run : Run) : DeviceRun where
  leftStart := UInt32.ofNat run.leftStart
  leftLen := UInt32.ofNat run.leftLen
  rightStart := UInt32.ofNat run.rightStart
  rightLen := UInt32.ofNat run.rightLen

/-- The cursor of a lane, as words. -/
def Run.cursor (precedes : Nat → Nat → Bool) (run : Run) (outStart diag step : Nat) : Cursor where
  leftStop := UInt32.ofNat (run.leftStart + run.leftLen)
  rightStop := UInt32.ofNat (run.rightStart + run.rightLen)
  i := UInt32.ofNat (run.leftStart + run.leftCount precedes diag)
  j := UInt32.ofNat (run.rightStart + diag - run.leftCount precedes diag)
  out := UInt32.ofNat (outStart + diag)
  remaining := UInt32.ofNat (min (run.leftLen + run.rightLen - diag) step)

section Threads

variable {κ : Type} [KeyOrder κ] {direction : Direction} {src : Array κ} {run : Run} {diag : Nat}

/-- The search of a thread or a group on a diagonal. -/
theorem DeviceRun.partition_eq_ok (hsize : src.size < 4294967296) (hfits : run.Fits src.size)
    (hlen : run.leftLen + run.rightLen ≤ 2147483648) (hdiag : diag ≤ run.leftLen + run.rightLen) :
    run.words.partition src direction.flag (UInt32.ofNat diag) =
      .ok (UInt32.ofNat (run.leftCount (precedesAt direction src) diag)) := by
  obtain ⟨hleft, hright⟩ := hfits
  have hfirst : (if run.words.rightLen < UInt32.ofNat diag then UInt32.ofNat diag - run.words.rightLen else 0) =
      UInt32.ofNat (diag - run.rightLen) := by
    have hlt : run.words.rightLen < UInt32.ofNat diag ↔ run.rightLen < diag :=
      UInt32.ofNat_lt_iff_lt (show run.rightLen < 4294967296 by omega) (show diag < 4294967296 by omega)
    by_cases hbehind : run.rightLen < diag
    · rw [if_pos (hlt.mpr hbehind), UInt32.ofNat_sub (by omega)]
      rfl
    · rw [if_neg (fun h => hbehind (hlt.mp h)), Nat.sub_eq_zero_of_le (by omega)]
      rfl
  have hlast : lesser (UInt32.ofNat diag) run.words.leftLen = UInt32.ofNat (min diag run.leftLen) :=
    lesser_eq (show diag < 4294967296 by omega) (show run.leftLen < 4294967296 by omega)
  rw [partition, Run.leftCount, hfirst, hlast]
  refine Window.search_eq_ok (by omega) (by omega) fun mid hmid hmid' => ?_
  have hleftWord : UInt32.ofNat run.leftStart + UInt32.ofNat mid = UInt32.ofNat (run.leftStart + mid) :=
    (UInt32.ofNat_add _ _).symm
  have hrightWord : UInt32.ofNat run.rightStart + UInt32.ofNat diag - 1 - UInt32.ofNat mid =
      UInt32.ofNat (run.rightStart + diag - 1 - mid) := by
    rw [UInt32.ofNat_sub (by omega), UInt32.ofNat_sub (by omega), UInt32.ofNat_add]
    rfl
  simp only [Run.words, inOrder_flag]
  rw [← compare_eq_ok (show run.leftStart + mid < src.size by omega)
    (show run.rightStart + diag - 1 - mid < src.size by omega), hleftWord, hrightWord,
    UInt32.toNat_ofNat_of_lt' (show run.leftStart + mid < 4294967296 by omega),
    UInt32.toNat_ofNat_of_lt' (show run.rightStart + diag - 1 - mid < 4294967296 by omega)]

/-- Where a thread starts. -/
theorem DeviceRun.cursor_eq_ok (hsize : src.size < 4294967296) (hfits : run.Fits src.size)
    (hlen : run.leftLen + run.rightLen ≤ 2147483648) (hdiag : diag ≤ run.leftLen + run.rightLen) {step : Nat}
    (hstep : step < 4294967296) (outStart : Nat) :
    run.words.cursor src direction.flag (UInt32.ofNat outStart) (UInt32.ofNat diag) (UInt32.ofNat step) =
      .ok (run.cursor (precedesAt direction src) outStart diag step) := by
  have hbounds := run.leftCount_bounds (precedesAt direction src) hdiag
  rw [cursor, partition_eq_ok hsize hfits hlen hdiag, Outcome.ok_bind]
  have hrest : UInt32.ofNat run.leftLen + UInt32.ofNat run.rightLen - UInt32.ofNat diag =
      UInt32.ofNat (run.leftLen + run.rightLen - diag) := by
    rw [UInt32.ofNat_sub hdiag, UInt32.ofNat_add]
  have hright : UInt32.ofNat run.rightStart + UInt32.ofNat diag -
      UInt32.ofNat (run.leftCount (precedesAt direction src) diag) =
        UInt32.ofNat (run.rightStart + diag - run.leftCount (precedesAt direction src) diag) := by
    rw [UInt32.ofNat_sub (by omega), UInt32.ofNat_add]
  simp only [Run.words, hrest, hright, lesser_eq (show run.leftLen + run.rightLen - diag < 4294967296 by omega) hstep]
  simp only [← UInt32.ofNat_add]
  rfl

end Threads

end MergePathSort
