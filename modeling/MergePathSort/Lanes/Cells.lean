import MergePathSort.Outcome

/-!
# Keys and the indices that travel with them

A buffer of keys may be tracked: then a second buffer of the same length holds the index of every key, and
whatever moves a key moves its index. `Cells` is such a buffer, a `Cell` one element of it. Copying between two
buffers of which both or none are tracked moves keys and indices alike.

## Main definitions

* `Cells`, `Cells.fetch`, `Cells.store`, `Cells.exchange` : a buffer and its bounded access.
* `Cells.load`, `Cells.swap` : access that leaves the indices alone unless it is told to move them.
* `Cells.blank` : a buffer with given contents in every place.
-/

namespace MergePathSort

/-- A key, with its index if indices are tracked. -/
abbrev Cell (κ ι : Type) : Type := κ × Option ι

/-- A buffer of keys, with a buffer of their indices if they are tracked. -/
structure Cells (κ ι : Type) where
  /-- The keys. -/
  keys : Array κ
  /-- The index of every key. -/
  indices : Option (Array ι)
  deriving DecidableEq

namespace Cells

variable {κ ι : Type}

/-- A buffer of `len` equal cells. -/
def blank (len : Nat) (key : κ) (index? : Option ι) : Cells κ ι :=
  ⟨Array.replicate len key, index?.map (Array.replicate len ·)⟩

/-- The cell at a position. -/
@[inline]
def fetch (cells : Cells κ ι) (position : Nat) : Outcome (Cell κ ι) := do
  let key ← Buffer.read cells.keys position
  match cells.indices with
  | none => return (key, none)
  | some indices => return (key, some (← Buffer.read indices position))

/-- The buffer with the cell at a position replaced. An untracked buffer takes the key alone. -/
@[inline]
def store : Cells κ ι → Nat → Cell κ ι → Outcome (Cells κ ι)
  | ⟨keys, some indices⟩, position, (key, some index) => do
    return ⟨← Buffer.write keys position key, some (← Buffer.write indices position index)⟩
  | ⟨keys, indices?⟩, position, (key, _) => do
    return ⟨← Buffer.write keys position key, indices?⟩

/-- The buffer with the cells at two positions exchanged. -/
@[inline]
def exchange : Cells κ ι → Nat → Nat → Outcome (Cells κ ι)
  | ⟨keys, some indices⟩, i, j => do
    return ⟨← Buffer.exchange keys i j, some (← Buffer.exchange indices i j)⟩
  | ⟨keys, none⟩, i, j => do
    return ⟨← Buffer.exchange keys i j, none⟩

/-- The cell at a position, with its index only if indices are moved. -/
@[inline]
def load (indexed : Bool) (cells : Cells κ ι) (position : Nat) : Outcome (Cell κ ι) :=
  if indexed then cells.fetch position else do return (← Buffer.read cells.keys position, none)

/-- The buffer with the keys at two positions exchanged, and their indices if indices are moved. -/
@[inline]
def swap (indexed : Bool) (cells : Cells κ ι) (i j : Nat) : Outcome (Cells κ ι) :=
  if indexed then cells.exchange i j else do return ⟨← Buffer.exchange cells.keys i j, cells.indices⟩

end Cells

end MergePathSort
