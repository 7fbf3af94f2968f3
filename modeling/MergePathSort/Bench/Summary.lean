import MergePathSort.Key.Binary
import MergePathSort.Outcome

/-!
# Statistics of running times

Running times in milliseconds are sorted by their total order, and sums run over the sorted list, so that the same
times in any order give the same statistics.

## Main definitions

* `totalRank` : the rank of a float in the total order of all bit patterns.
* `Summary`, `Summary.ofRuns` : the statistics.
-/

namespace MergePathSort.Bench

/-- The rank of a float in the total order: negative patterns from the largest magnitude down, then positive ones
up. It tells both zeros apart and puts NaN at the two ends. -/
def totalRank (x : Binary64) : Int :=
  if x.isNegative then -1 - (x.unsigned : Int) else x.unsigned

/-- The statistics of running times. -/
structure Summary where
  /-- The number of times. -/
  iterations : Nat
  /-- The shortest time. -/
  least : Float
  /-- The longest time. -/
  greatest : Float
  /-- The time in the middle, or the mean of the two in the middle. -/
  median : Float
  /-- The mean. -/
  average : Float
  /-- The 95th percentile. -/
  percentile95 : Float
  /-- The 99th percentile. -/
  percentile99 : Float
  /-- The standard deviation in percent of the mean. -/
  variation : Float
  /-- Gigabytes per second at the mean. -/
  averageThroughput : Float
  /-- Gigabytes per second at the shortest time. -/
  peakThroughput : Float

/-- The sum of a list, left to right, starting from minus zero. -/
def sum (xs : List Float) : Float := xs.foldl (· + ·) (-0.0)

/-- The position of a percentile in a sorted list of `n` times. -/
def percentilePosition (n : Nat) (fraction : Float) : Nat :=
  min (Float.ofNat n * fraction).toUInt64.toNat (n - 1)

/-- The statistics of runs over that many bytes. There must be a time. -/
def Summary.ofRuns (bytes : Nat) (times : List Binary64) : Outcome Summary := do
  let sorted := times.mergeSort fun a b => totalRank a ≤ totalRank b
  let times := (sorted.map fun x => Float.ofBits x.bits).toArray
  let n := times.size
  let least ← Buffer.read times 0
  let greatest ← Buffer.read times (n - 1)
  let upper ← Buffer.read times (n / 2)
  let lower ← Buffer.read times (if n % 2 = 0 then n / 2 - 1 else n / 2)
  let median := if n % 2 = 0 then (lower + upper) / 2.0 else upper
  let average := sum times.toList / Float.ofNat n
  let variance := sum (times.toList.map fun t => (t - average) * (t - average)) / Float.ofNat n
  let gigabytes := (UInt64.ofNat bytes).toFloat / 1073741824.0
  return { iterations := n, least, greatest, median, average
           percentile95 := ← Buffer.read times (percentilePosition n 0.95)
           percentile99 := ← Buffer.read times (percentilePosition n 0.99)
           variation := variance.sqrt / average * 100.0
           averageThroughput := gigabytes / (average / 1000.0)
           peakThroughput := gigabytes / (least / 1000.0) }

end MergePathSort.Bench
