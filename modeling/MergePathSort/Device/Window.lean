import MergePathSort.Outcome

/-!
# Searching on a device

The kernels search by halving a range of 32-bit words, whose sums wrap around. A search is defined for any test,
also for one under which it never ends.

## Main definitions

* `Window`, `Window.middle`, `Window.cut` : what a search has left.
* `Window.search` : the search loop.
-/

namespace MergePathSort

/-- The part of a range of words that a search has left: from `lo` up to, but not including, `hi`. -/
structure Window where
  /-- The first word. -/
  lo : UInt32
  /-- The word after the last. -/
  hi : UInt32
  deriving DecidableEq, Inhabited

namespace Window

/-- The word at which a window is cut in two. -/
def middle (window : Window) : UInt32 := (window.lo + window.hi) / 2

/-- The part of a window behind its middle, or the part before it. -/
def cut (window : Window) (goesRight : Bool) : Window :=
  if goesRight then ⟨window.middle + 1, window.hi⟩ else ⟨window.lo, window.middle⟩

/-- Cuts a window until it is empty, at most `budget` times. -/
def shrink (goesRight : UInt32 → Outcome Bool) : Nat → Window → Outcome UInt32
  | 0, _ => .fault .divergence
  | budget + 1, window =>
    if window.hi ≤ window.lo then .ok window.lo
    else do shrink goesRight budget (window.cut (← goesRight window.middle))

/-- Cuts a window until it is empty. A window is two words, so a search that has not ended after as many cuts as
there are windows comes back to a window that it has seen, and never ends. -/
def search (goesRight : UInt32 → Outcome Bool) (window : Window) : Outcome UInt32 :=
  shrink goesRight 18446744073709551616 window

end Window

end MergePathSort
