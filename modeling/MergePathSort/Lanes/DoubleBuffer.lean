/-!
# Double buffers

Sorting passes read one buffer and write another, and the next pass goes the other way. The two are the sides of a
`DoubleBuffer`. Inputs arrive on the front side and results are left there. Merge passes alternate: an even pass
reads the front side, an odd one the back side.

## Main definitions

* `Side`, `Side.other`, `Side.ofPass` : the two sides, and the one that a merge pass reads.
* `DoubleBuffer`, `DoubleBuffer.get`, `DoubleBuffer.modify` : a pair of buffers and access to a side.
-/

namespace MergePathSort

/-- One side of a pair of buffers. -/
inductive Side where
  /-- The side on which inputs arrive and results are left. -/
  | front
  /-- The other side. -/
  | back
  deriving DecidableEq, Inhabited

namespace Side

/-- The opposite side. -/
def other : Side → Side
  | .front => .back
  | .back => .front

/-- The side that a merge pass reads. -/
def ofPass (pass : Nat) : Side := if pass % 2 = 0 then .front else .back

@[simp]
theorem other_other (side : Side) : side.other.other = side := by
  cases side <;> rfl

/-- A pass reads what the pass before it has written. -/
theorem ofPass_succ (pass : Nat) : ofPass (pass + 1) = (ofPass pass).other := by
  rcases Nat.mod_two_eq_zero_or_one pass with h | h
  · have next : (pass + 1) % 2 = 1 := by omega
    simp [ofPass, other, h, next]
  · have next : (pass + 1) % 2 = 0 := by omega
    simp [ofPass, other, h, next]

end Side

/-- A pair of buffers of one kind. -/
structure DoubleBuffer (β : Type) where
  /-- The front side. -/
  front : β
  /-- The back side. -/
  back : β
  deriving DecidableEq

namespace DoubleBuffer

variable {β γ : Type}

/-- A pair of equal buffers. -/
def both (buffer : β) : DoubleBuffer β := ⟨buffer, buffer⟩

/-- The buffer on a side. -/
def get (pair : DoubleBuffer β) : Side → β
  | .front => pair.front
  | .back => pair.back

/-- The pair with every buffer changed. -/
def map (f : β → γ) (pair : DoubleBuffer β) : DoubleBuffer γ := ⟨f pair.front, f pair.back⟩

/-- The pair with the buffer on one side changed, if the change succeeds. -/
@[inline]
def modify {ε : Type} (side : Side) (f : β → Except ε β) : DoubleBuffer β → Except ε (DoubleBuffer β)
  | ⟨front, back⟩ =>
    match side with
    | .front => do return ⟨← f front, back⟩
    | .back => do return ⟨front, ← f back⟩

@[simp]
theorem get_both (buffer : β) (side : Side) : (both buffer).get side = buffer := by
  cases side <;> rfl

@[simp]
theorem get_map (f : β → γ) (pair : DoubleBuffer β) (side : Side) :
    (pair.map f).get side = f (pair.get side) := by
  cases side <;> rfl

end DoubleBuffer

end MergePathSort
