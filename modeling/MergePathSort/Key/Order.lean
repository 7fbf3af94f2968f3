/-!
# Keys and directions

A key type has a comparison that may leave two keys unordered, as two floats are when one of them is NaN. The
engine asks three questions of a pair of keys, in one of two directions: may the first stand before the second
(`Direction.mayPrecede`), do the two stand the wrong way round (`Direction.misplaced`), and how does a sort of a
slice compare them (`Direction.compare`). Equal keys are in order and never out of order, in both directions;
this is what makes every stage keep ties in place.

Device kernels are not told the direction but a flag, and have comparisons of their own that decide by it (`inOrder`,
`outOfOrder`). For the flag of a direction they answer as the direction does.
-/

namespace MergePathSort

/-- A type of keys. Two keys are less, equal, greater, or unordered. -/
class KeyOrder (κ : Type) where
  /-- The order of two keys, if they have one. -/
  compare? : κ → κ → Option Ordering

namespace KeyOrder

variable {κ : Type}

/-- Keys ordered by an integer rank; a key without a rank is unordered to every key. -/
@[reducible]
def ofRank (rank? : κ → Option Int) : KeyOrder κ where
  compare? a b :=
    match rank? a, rank? b with
    | some x, some y => some (compare x y)
    | _, _ => none

variable [KeyOrder κ]

/-- The first key is less than the second or equal to it. -/
@[inline]
def le (a b : κ) : Bool :=
  match compare? a b with
  | some .lt | some .eq => true
  | _ => false

/-- The first key is less than the second. -/
@[inline]
def lt (a b : κ) : Bool :=
  match compare? a b with
  | some .lt => true
  | _ => false

/-- The first key is greater than the second. -/
@[inline]
def gt (a b : κ) : Bool :=
  match compare? a b with
  | some .gt => true
  | _ => false

end KeyOrder

/-! ### Directions -/

/-- The direction of a sort. -/
inductive Direction where
  /-- From the least key to the greatest. -/
  | ascending
  /-- From the greatest key to the least. -/
  | descending
  deriving DecidableEq, Inhabited

namespace Direction

/-- The direction's name in configuration text. -/
def name : Direction → String
  | .ascending => "ascending"
  | .descending => "descending"

/-- The direction as a device kernel is told: one for ascending, zero for descending. -/
def flag : Direction → UInt32
  | .ascending => 1
  | .descending => 0

variable {κ : Type} [KeyOrder κ]

/-- The first key may stand before the second. Equal keys may, so a merge keeps the left one first. -/
@[inline]
def mayPrecede (direction : Direction) (a b : κ) : Bool :=
  match direction with
  | .ascending => KeyOrder.le a b
  | .descending => KeyOrder.le b a

/-- The two keys stand strictly the wrong way round. Equal keys never do, so an exchange keeps ties. -/
@[inline]
def misplaced (direction : Direction) (a b : κ) : Bool :=
  match direction with
  | .ascending => KeyOrder.gt a b
  | .descending => KeyOrder.lt a b

/-- The comparison for sorting a slice. Unordered keys count as equal. -/
def compare (direction : Direction) (a b : κ) : Ordering :=
  let ordering := (KeyOrder.compare? a b).getD .eq
  match direction with
  | .ascending => ordering
  | .descending => ordering.swap

end Direction

/-! ### Flags -/

section Flags

variable {κ : Type} [KeyOrder κ]

/-- The first key may stand before the second, as a device kernel decides it by its flag. -/
@[inline]
def inOrder (flag : UInt32) (a b : κ) : Bool := if flag = 0 then KeyOrder.le b a else KeyOrder.le a b

/-- The two keys stand strictly the wrong way round, as a device kernel decides it by its flag. -/
@[inline]
def outOfOrder (flag : UInt32) (a b : κ) : Bool := if flag = 0 then KeyOrder.lt a b else KeyOrder.gt a b

/-- A kernel with the flag of a direction has keys stand in the order of the direction. -/
@[simp]
theorem inOrder_flag (direction : Direction) (a b : κ) : inOrder direction.flag a b = direction.mayPrecede a b := by
  cases direction <;> rfl

/-- A kernel with the flag of a direction finds those keys misplaced that the direction does. -/
@[simp]
theorem outOfOrder_flag (direction : Direction) (a b : κ) :
    outOfOrder direction.flag a b = direction.misplaced a b := by
  cases direction <;> rfl

end Flags

end MergePathSort
