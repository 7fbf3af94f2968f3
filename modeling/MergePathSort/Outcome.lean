import MergePathSort.Refusal

/-!
# Outcomes and machine sizes

A step of the engine succeeds, is refused with a `Refusal`, or faults: its arithmetic leaves the range of a
machine size, a position lies outside a buffer, an assertion fails, or a loop never ends. A fault is kept apart
from a refusal, so that "this never faults" is a statement about the definitions.

Sizes and positions are natural numbers below `Size.limit`. The operations of `Size` compute on them exactly
and fault where a 64-bit word could not hold the result.

## Main definitions

* `Fault`, `Failure`, `Outcome` : the results of a step.
* `Stateful` : a step that keeps a state.
* `Size.add`, `Size.sub`, `Size.mul`, `Size.div`, `Size.mod`, `Size.divCeil`, `Size.product` : sizes.
* `Buffer.requireRoom` : the bound on the size of a buffer.
* `Buffer.read`, `Buffer.write`, `Buffer.exchange`, `Buffer.slice` : bounded access to a buffer.
-/

namespace MergePathSort

/-- The ways in which a step can go wrong without being refused. -/
inductive Fault where
  /-- A result leaves the range of a machine size, or a divisor is zero. -/
  | arithmetic
  /-- A position lies outside its buffer. -/
  | index
  /-- A buffer is larger than any memory. -/
  | capacity
  /-- An assertion fails. -/
  | assertion
  /-- A loop never ends. -/
  | divergence
  deriving DecidableEq, Inhabited

/-- Why a step has no result. -/
inductive Failure where
  /-- The step is refused. -/
  | refused (error : Refusal)
  /-- The step faults. -/
  | faulted (fault : Fault)
  deriving DecidableEq, Inhabited

/-- The result of a step. -/
abbrev Outcome (α : Type) : Type := Except Failure α

/-- The outcome of a refused step. -/
def Outcome.refuse {α : Type} (error : Refusal) : Outcome α := .error (.refused error)

/-- The outcome of a step that faults. -/
def Outcome.fault {α : Type} (fault : Fault) : Outcome α := .error (.faulted fault)

/-- A step that reads and changes a state. What it has changed stays changed when it is refused. -/
abbrev Stateful (σ α : Type) : Type := ExceptT Failure (StateM σ) α

namespace Stateful

variable {σ α : Type}

/-- A step that leaves the state alone. -/
def ofOutcome (outcome : Outcome α) : Stateful σ α := fun state => (outcome, state)

end Stateful

/-! ### Sizes -/

namespace Size

/-- Sizes and positions lie below this bound: they are 64-bit words. -/
def limit : Nat := 18446744073709551616

/-- A number that must be a size. -/
@[inline]
def fit (n : Nat) : Outcome Nat := if n < limit then .ok n else .fault .arithmetic

/-- The sum of two sizes. -/
def add (a b : Nat) : Outcome Nat := fit (a + b)

/-- The difference of two sizes, which must not be negative. -/
@[inline]
def sub (a b : Nat) : Outcome Nat :=
  if b ≤ a then .ok (a - b) else .fault .arithmetic

/-- The product of two sizes. -/
def mul (a b : Nat) : Outcome Nat := fit (a * b)

/-- A number is a size if it lies below the limit. -/
theorem fit_eq_ok_iff {n m : Nat} : fit n = .ok m ↔ n < limit ∧ n = m := by
  by_cases h : n < limit
  · simp [fit, h]
  · simp [fit, h, Outcome.fault]

theorem add_eq_ok_iff {a b c : Nat} : add a b = .ok c ↔ a + b < limit ∧ a + b = c := fit_eq_ok_iff

theorem mul_eq_ok_iff {a b c : Nat} : mul a b = .ok c ↔ a * b < limit ∧ a * b = c := fit_eq_ok_iff

theorem sub_eq_ok_iff {a b c : Nat} : sub a b = .ok c ↔ b ≤ a ∧ a - b = c := by
  by_cases h : b ≤ a
  · simp [sub, h]
  · simp [sub, h, Outcome.fault]

theorem add_of_lt {a b : Nat} (h : a + b < limit) : add a b = .ok (a + b) := if_pos h

theorem mul_of_lt {a b : Nat} (h : a * b < limit) : mul a b = .ok (a * b) := if_pos h

theorem sub_of_le {a b : Nat} (h : b ≤ a) : sub a b = .ok (a - b) := if_pos h

/-- The quotient of two sizes, rounded down. -/
def div (a b : Nat) : Outcome Nat :=
  if b = 0 then .fault .arithmetic else .ok (a / b)

/-- The remainder of two sizes. -/
def mod (a b : Nat) : Outcome Nat :=
  if b = 0 then .fault .arithmetic else .ok (a % b)

/-- The quotient of two sizes, rounded up. -/
def divCeil (a b : Nat) : Outcome Nat :=
  if b = 0 then .fault .arithmetic else .ok ((a + b - 1) / b)

/-- The product of a list of sizes, taken left to right: a zero hides what comes after it, not before it. -/
def product (sizes : List Nat) : Outcome Nat := sizes.foldlM mul 1

/-- A size read as a signed word: the upper half of the range stands for the negative numbers. -/
def toSigned (n : Nat) : Int := Int.bmod n limit

/-- An integer that must be a signed word. -/
def fitSigned (z : Int) : Outcome Int :=
  if -9223372036854775808 ≤ z ∧ z < 9223372036854775808 then .ok z else .fault .arithmetic

end Size

/-! ### Buffers -/

namespace Buffer

variable {α : Type}

/-- The bytes of a buffer lie below this bound: a distance within a buffer is a signed word. -/
def byteLimit : Nat := 9223372036854775808

/-- Two positions in buffers have a sum that is a size. -/
theorem two_mul_byteLimit : 2 * byteLimit = Size.limit := rfl

/-- Faults if a buffer of `len` elements of `width` bytes is larger than any memory. -/
def requireRoom (len width : Nat) : Outcome Unit :=
  if len * width < byteLimit then .ok () else .fault .capacity

/-- The element at a position. -/
@[inline]
def read (buffer : Array α) (position : Nat) : Outcome α :=
  match buffer[position]? with
  | some x => .ok x
  | none => .fault .index

/-- The buffer with the element at a position replaced. -/
@[inline]
def write (buffer : Array α) (position : Nat) (x : α) : Outcome (Array α) :=
  if h : position < buffer.size then .ok (buffer.set position x h) else .fault .index

/-- The buffer with the elements at two positions exchanged. -/
@[inline]
def exchange (buffer : Array α) (i j : Nat) : Outcome (Array α) :=
  if h : i < buffer.size ∧ j < buffer.size then .ok (buffer.swap i j h.1 h.2) else .fault .index

/-- The `len` elements from `start` on. -/
def slice (buffer : Array α) (start len : Nat) : Outcome (Array α) :=
  if start + len ≤ buffer.size then .ok (buffer.extract start (start + len)) else .fault .index

theorem read_eq_ok_iff {buffer : Array α} {position : Nat} {x : α} :
    read buffer position = .ok x ↔ buffer[position]? = some x := by
  cases h : buffer[position]? <;> simp [read, h, Outcome.fault]

end Buffer

end MergePathSort
