import MergePathSort.Key.Element
import MergePathSort.Outcome

/-!
# Device buffers

A pool keeps the buffers of a device. A buffer's name holds its number, its length and the size of its elements,
and all three must be right to reach it. Numbers are handed out in order and never again. A buffer holds bytes;
reading it takes them as elements of any type.

Nothing is known of the bytes of a buffer that has only been reserved. The pool has a function that says what they are,
and what is proved of pools holds whatever the function is. A pool that runs finds zeros.

## Main definitions

* `BufferName`, `Pool` : a pool and the names of its buffers.
* `Pool.upload`, `Pool.reserve` : new buffers, with given elements and with whatever stands there.
* `Pool.contents`, `Pool.elements`, `Pool.read`, `Pool.overwrite` : access by name.
* `Pool.free`, `Pool.freeAll`, `Pool.liveCount` : giving buffers back.
* `Pool.register`, `Pool.release` : the steps in which a buffer is added and taken out.
-/

namespace MergePathSort

/-- The name of a device buffer. -/
structure BufferName where
  /-- The buffer's number. -/
  number : Nat
  /-- The number of elements. -/
  len : Nat
  /-- The bytes of an element. -/
  width : Nat
  deriving DecidableEq, Inhabited

/-- The bytes of the elements. -/
def BufferName.bytes (name : BufferName) : Outcome Nat := Size.mul name.len name.width

/-- The buffers of a device. -/
structure Pool where
  /-- The number of the next buffer. -/
  nextNumber : Nat := 0
  /-- The buffers that are allocated, with their bytes. -/
  allocated : List (BufferName × Array UInt8) := []
  /-- The bytes of a reserved buffer before anything is stored there, by the buffer's number and the byte's place. -/
  unwritten : Nat → Nat → UInt8 := fun _ _ => 0
  deriving Inhabited

namespace Pool

/-- A new buffer with given bytes. -/
def insert (pool : Pool) (len width : Nat) (bytes : Array UInt8) : BufferName × Pool :=
  let name := ⟨pool.nextNumber, len, width⟩
  (name, { pool with nextNumber := pool.nextNumber + 1, allocated := (name, bytes) :: pool.allocated })

/-- The bytes of elements that follow each other. -/
def encode {κ : Type} [Element κ] (data : Array κ) : Array UInt8 :=
  data.foldl (fun bytes x => bytes ++ Element.toBytes x) #[]

/-- Bytes taken as elements. They must be a whole number of elements. -/
def decode (κ : Type) [Element κ] (bytes : Array UInt8) : Outcome (Array κ) :=
  let width := Element.width κ
  if bytes.size % width = 0 then
    .ok ((Array.range (bytes.size / width)).map fun n =>
      Element.ofBytes (bytes.extract (n * width) (n * width + width)).toList)
  else .fault .index

/-- A new buffer with given elements. -/
def upload {κ : Type} [Element κ] (pool : Pool) (data : Array κ) : BufferName × Pool :=
  pool.insert data.size (Element.width κ) (encode data)

/-- The elements that a reserved buffer has room for: at least one. -/
def room (len : Nat) : Nat := max len 1

/-- The bytes of the next buffer if nothing is stored in it. -/
def fresh (pool : Pool) (bytes : Nat) : Array UInt8 := (Array.range bytes).map (pool.unwritten pool.nextNumber)

/-- A new buffer of `len` elements in which nothing has been stored, with room for at least one element. -/
def reserve (κ : Type) [Element κ] (pool : Pool) (len : Nat) : Outcome (BufferName × Pool) := do
  let bytes ← Size.mul (room len) (Element.width κ)
  Buffer.requireRoom bytes 1
  return pool.insert len (Element.width κ) (pool.fresh bytes)

/-- The refusal of a name that is not allocated. -/
def unknown (name : BufferName) : Refusal := .device s!"buffer {name.number} is not allocated"

/-- The bytes of a buffer. -/
def contents (pool : Pool) (name : BufferName) : Outcome (Array UInt8) :=
  match pool.allocated.find? (·.1 == name) with
  | some (_, bytes) => .ok bytes
  | none => .refuse (unknown name)

/-- All elements that a buffer has room for, of any type. -/
def elements (κ : Type) [Element κ] (pool : Pool) (name : BufferName) : Outcome (Array κ) := do
  decode κ (← pool.contents name)

/-- The elements of a buffer, of any type, at most as many as the name says. -/
def read (κ : Type) [Element κ] (pool : Pool) (name : BufferName) : Outcome (Array κ) := do
  return (← pool.elements κ name).take name.len

/-- The pool with the bytes of a buffer replaced. -/
def overwrite (pool : Pool) (name : BufferName) (bytes : Array UInt8) : Pool :=
  { pool with allocated := pool.allocated.map fun entry => if entry.1 = name then (name, bytes) else entry }

/-- The pool without a buffer. -/
def free (pool : Pool) (name : BufferName) : Outcome Pool :=
  if pool.allocated.any (·.1 == name) then
    .ok { pool with allocated := pool.allocated.filter (·.1 != name) }
  else .refuse (unknown name)

/-- The number of allocated buffers. -/
def liveCount (pool : Pool) : Nat := pool.allocated.length

/-- The pool without any buffer, and how many there were. -/
def freeAll (pool : Pool) : Nat × Pool := (pool.liveCount, { pool with allocated := [] })

/-! ### Steps -/

/-- Adds a buffer. The number is taken first, and then the buffer is there. -/
def register (len width : Nat) (bytes : Array UInt8) : Stateful Pool BufferName := do
  let name : BufferName := ⟨(← get).nextNumber, len, width⟩
  modify fun pool => { pool with nextNumber := pool.nextNumber + 1 }
  modify fun pool => { pool with allocated := (name, bytes) :: pool.allocated }
  return name

/-- Takes a buffer out. The name is taken out first, and refused if nothing had it. -/
def release (name : BufferName) : Stateful Pool Unit := do
  let found := (← get).allocated.any (·.1 == name)
  modify fun pool => { pool with allocated := pool.allocated.filter (·.1 != name) }
  unless found do Stateful.ofOutcome (.refuse (unknown name))

end Pool

end MergePathSort
