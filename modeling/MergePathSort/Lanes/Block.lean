import MergePathSort.Outcome

/-!
# Blocks of lanes

A block works in phases, separated by barriers. In a phase every lane acts once, on the buffers of its row and on
scratch that only the block sees. Lanes of one phase write disjoint places, so that running them one after the
other amounts to running them in lockstep. What the phases are may depend on what the row holds when the block
starts.

## Main definitions

* `Block`, `Block.run` : a block and what it does to its row.
* `Usage` : the blocks and barriers of a launch.
* `Workbench` : a block's scratch, driven step by step.
-/

namespace MergePathSort

/-- Runs `count` lanes from lane `n` on, one after the other. -/
def forLanesFrom {σ : Type} (lane : Nat → σ → Outcome σ) : Nat → Nat → σ → Outcome σ
  | 0, _, state => .ok state
  | count + 1, n, state =>
    match lane n state with
    | .ok state => forLanesFrom lane count (n + 1) state
    | .error failure => .error failure

/-- Runs lanes `0` to `count - 1`, one after the other. -/
def forLanes {σ : Type} (count : Nat) (lane : Nat → σ → Outcome σ) (state : σ) : Outcome σ :=
  forLanesFrom lane count 0 state

/-- Lanes run one after the other are a fold over their numbers. -/
theorem forLanesFrom_eq_foldlM {σ : Type} (lane : Nat → σ → Outcome σ) (count n : Nat) (state : σ) :
    forLanesFrom lane count n state = (List.range' n count).foldlM (fun state n => lane n state) state := by
  induction count generalizing n state with
  | zero => rfl
  | succ count ih =>
    rw [forLanesFrom, List.range'_succ, List.foldlM_cons]
    cases lane n state with
    | ok state => exact ih (n + 1) state
    | error failure => rfl

/-- Running `count` lanes is a fold over the numbers below `count`. -/
theorem forLanes_eq_foldlM {σ : Type} (count : Nat) (lane : Nat → σ → Outcome σ) (state : σ) :
    forLanes count lane state = (List.range count).foldlM (fun state n => lane n state) state := by
  rw [forLanes, forLanesFrom_eq_foldlM, List.range_eq_range']

/-- Blocks and barriers that were used. -/
structure Usage where
  /-- The blocks. -/
  blocks : Nat := 0
  /-- The barriers. -/
  barriers : Nat := 0
  deriving DecidableEq, Inhabited

/-- Usages add up. -/
instance : Add Usage := ⟨fun a b => ⟨a.blocks + b.blocks, a.barriers + b.barriers⟩⟩

/-- What one lane does in a phase, to the row's buffers and to the block's scratch. -/
abbrev LaneAction (ρ τ : Type) : Type := Nat → ρ × τ → Outcome (ρ × τ)

/-- A block of a launch, where `ρ` is what the launch does its work on and `τ` the block's scratch. -/
structure Block (ρ τ : Type) where
  /-- The number of lanes. -/
  lanes : Nat
  /-- The scratch as the block finds it. -/
  scratch : τ
  /-- The phases, planned when the block starts. -/
  phases : ρ → Outcome (List (LaneAction ρ τ))

namespace Block

variable {ρ τ : Type}

/-- A block with no scratch whose lanes all act once. -/
def once (lanes : Nat) (scratch : τ) (lane : Nat → ρ → Outcome ρ) : Block ρ τ where
  lanes
  scratch
  phases _ := .ok [fun n (row, scratch) => do return (← lane n row, scratch)]

/-- Runs the phases one after the other. -/
def runPhases (lanes : Nat) (phases : List (LaneAction ρ τ)) (state : ρ × τ) : Outcome (ρ × τ) :=
  phases.foldlM (fun state phase => forLanes lanes phase state) state

/-- Runs a block. A barrier stands between any two phases. -/
def run (block : Block ρ τ) (row : ρ) : Outcome (ρ × Usage) := do
  let phases ← block.phases row
  let (row, _) ← runPhases block.lanes phases (row, block.scratch)
  return (row, ⟨1, phases.length - 1⟩)

/-- Runs blocks one after the other. -/
def runAll (blocks : List (Block ρ τ)) (row : ρ) : Outcome (ρ × Usage) :=
  blocks.foldlM (fun (row, used) block => do
    let (row, more) ← block.run row
    return (row, used + more)) (row, {})

end Block

/-! ### Driving a block by hand -/

/-- The scratch of a block and the barriers that it has passed. -/
structure Workbench (α : Type) where
  /-- The number of lanes. -/
  lanes : Nat
  /-- The barriers passed so far. -/
  barriers : Nat := 0
  /-- The scratch. -/
  shared : Array α

namespace Workbench

variable {α : Type}

/-- A bench whose scratch holds `len` equal elements of `width` bytes. -/
def ofSize (lanes len width : Nat) (x : α) : Outcome (Workbench α) := do
  Buffer.requireRoom len width
  return { lanes, shared := Array.replicate len x }

/-- Lanes `n` and up to `count` more of them, each storing one element. Lanes before one that faults have stored
theirs. -/
def storeFrom (place : Nat → Outcome Nat) (element : Nat → Outcome α) :
    Nat → Nat → Array α → Outcome Unit × Array α
  | 0, _, shared => (.ok (), shared)
  | count + 1, n, shared =>
    match (do Buffer.write shared (← place n) (← element n)) with
    | .ok shared => storeFrom place element count (n + 1) shared
    | .error failure => (.error failure, shared)

/-- A phase in which every lane stores one element. -/
def store (bench : Workbench α) (place : Nat → Outcome Nat) (element : Nat → Outcome α) :
    Outcome Unit × Workbench α :=
  let (result, shared) := storeFrom place element bench.lanes 0 bench.shared
  (result, { bench with shared })

/-- Exchanges two elements. -/
def exchange (bench : Workbench α) (i j : Nat) : Outcome Unit × Workbench α :=
  match Buffer.exchange bench.shared i j with
  | .ok shared => (.ok (), { bench with shared })
  | .error failure => (.error failure, bench)

/-- Passes a barrier. -/
def barrier (bench : Workbench α) : Workbench α := { bench with barriers := bench.barriers + 1 }

end Workbench

end MergePathSort
