import MergePathSort.Merge.Run
import MergePathSort.Plan.Pass

/-!
# Sharing out a merge

A segment is merged by blocks, and a block's part by its lanes. If one block merges the whole segment, its lanes
start at multiples of their step. If several do, every block finds its own start on the segment's merge path and
cuts both runs to the number of its outputs; its lanes then search that smaller pair of runs.

## Main definitions

* `BlockShare`, `Segment.share?` : what one block merges.
* `BlockShare.laneMoves` : the moves of one lane.
* `Segment.moves` : the moves of all lanes of all blocks.
-/

namespace MergePathSort

/-- The part of a segment that one block merges. -/
structure BlockShare where
  /-- The runs that it merges. -/
  run : Run
  /-- Where its outputs start. -/
  outStart : Nat
  /-- The outputs of every lane. -/
  laneOutputs : Nat
  deriving DecidableEq, Inhabited

variable {κ : Type} [KeyOrder κ]

/-- What block `block` of a segment merges. A block past the end of a short segment has nothing to do. -/
def Segment.share? (src : Array κ) (segment : Segment) (direction : Direction) (sharing : Sharing)
    (block : Nat) : Outcome (Option BlockShare) :=
  match sharing with
  | .oneBlock step =>
    if block = 0 ∧ segment.isEmpty = false then do
      return some { run := ← segment.whole, outStart := segment.start, laneOutputs := step.toNat }
    else .ok none
  | .manyBlocks stepCount laneWork => do
    let diag ← Size.mul block stepCount.toNat
    if (← segment.len) ≤ diag then return none
    let first ← (← segment.whole).partition src direction diag
    let leftStart ← Size.add segment.start first
    let rightStart ← Size.sub (← Size.add segment.middle diag) first
    let run : Run :=
      { leftStart
        leftLen := min (← Size.sub segment.middle leftStart) stepCount.toNat
        rightStart
        rightLen := min (← Size.sub segment.stop rightStart) stepCount.toNat }
    return some { run, outStart := ← Size.add segment.start diag, laneOutputs := laneWork.toNat }

/-- The moves of lane `lane` of a block. A lane past the end of the block's part makes none. -/
def BlockShare.laneMoves (src : Array κ) (share : BlockShare) (direction : Direction) (lane : Nat) :
    Outcome (List Move) := do
  let diag ← Size.mul lane share.laneOutputs
  if (← share.run.total) ≤ diag then return []
  let first ← share.run.partition src direction diag
  share.run.moves src direction share.outStart diag share.laneOutputs first

/-- The moves of all lanes of a block, lane by lane. -/
def BlockShare.moves (src : Array κ) (share : BlockShare) (direction : Direction) (lanes : Nat) :
    Outcome (List Move) := do
  return (← (List.range lanes).mapM (share.laneMoves src direction)).flatten

/-- The moves of all lanes of all blocks of a segment, block by block. -/
def Segment.moves (src : Array κ) (segment : Segment) (direction : Direction) (sharing : Sharing)
    (blocks lanes : Nat) : Outcome (List Move) := do
  let moves ← (List.range blocks).mapM fun block => do
    match ← segment.share? src direction sharing block with
    | some share => share.moves src direction lanes
    | none => return []
  return moves.flatten

end MergePathSort
