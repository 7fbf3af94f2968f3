import MergePathSort.Key.Binary

/-!
# Element types

The types a tensor can hold: the integers of 8 to 64 bits and the floats of 32 and 64 bits. An element is read
and written as a number, its value for an integer and its bit pattern for a float, and stored on a device as the
little-endian bytes of that number in two's complement. Four of the integer types also serve as index types.

## Main definitions

* `Element` : an element type, with `Element.zero`, `Element.toBytes` and `Element.ofBytes`.
* `IndexElement` : an index type, with the largest position it holds.
-/

namespace MergePathSort

/-- A type of tensor elements. -/
class Element (κ : Type) extends KeyOrder κ where
  /-- The number of bytes of an element. -/
  width : Nat
  /-- The number by which an element is written. -/
  toNumber : κ → Int
  /-- The element written by a number, taken modulo the type's range. -/
  ofNumber : Int → κ

namespace Element

variable {κ : Type} [Element κ]

/-- The element whose bytes are all zero. -/
def zero : κ := ofNumber 0

/-- The `n` lowest bytes of a number, the lowest first. -/
def lowBytes : Nat → Nat → List UInt8
  | 0, _ => []
  | n + 1, bits => UInt8.ofNat bits :: lowBytes n (bits / 256)

/-- The number of a list of bytes, the lowest first. -/
def bytesNumber : List UInt8 → Nat
  | [] => 0
  | b :: rest => b.toNat + 256 * bytesNumber rest

/-- The bytes that store an element. -/
def toBytes (x : κ) : List UInt8 :=
  lowBytes (width κ) (toNumber x % Nat.pow 256 (width κ)).toNat

/-- The element stored by a list of bytes. -/
def ofBytes (bytes : List UInt8) : κ := ofNumber (bytesNumber bytes)

end Element

/-- A type of positions along an axis. -/
class IndexElement (ι : Type) extends Element ι where
  /-- The type's name. -/
  name : String
  /-- The largest position that the type holds. -/
  maxPosition : Nat
  /-- The index of a position, taken modulo the type's range. -/
  ofPosition : Nat → ι

/-- Every position along an axis of that length fits the index type. -/
def IndexElement.fits (ι : Type) [IndexElement ι] (len : Nat) : Bool :=
  len == 0 || len - 1 ≤ IndexElement.maxPosition ι

/-! ### The element types -/

instance : Element Int8 where
  toKeyOrder := .ofRank fun x => some x.toInt
  width := 1
  toNumber := Int8.toInt
  ofNumber := Int8.ofInt

instance : Element Int16 where
  toKeyOrder := .ofRank fun x => some x.toInt
  width := 2
  toNumber := Int16.toInt
  ofNumber := Int16.ofInt

instance : Element Int32 where
  toKeyOrder := .ofRank fun x => some x.toInt
  width := 4
  toNumber := Int32.toInt
  ofNumber := Int32.ofInt

instance : Element Int64 where
  toKeyOrder := .ofRank fun x => some x.toInt
  width := 8
  toNumber := Int64.toInt
  ofNumber := Int64.ofInt

instance : Element UInt8 where
  toKeyOrder := .ofRank fun x => some x.toNat
  width := 1
  toNumber x := x.toNat
  ofNumber := UInt8.ofInt

instance : Element UInt16 where
  toKeyOrder := .ofRank fun x => some x.toNat
  width := 2
  toNumber x := x.toNat
  ofNumber := UInt16.ofInt

instance : Element UInt32 where
  toKeyOrder := .ofRank fun x => some x.toNat
  width := 4
  toNumber x := x.toNat
  ofNumber := UInt32.ofInt

instance : Element UInt64 where
  toKeyOrder := .ofRank fun x => some x.toNat
  width := 8
  toNumber x := x.toNat
  ofNumber := UInt64.ofInt

instance : Element Binary32 where
  toKeyOrder := .ofRank Binary32.rank?
  width := 4
  toNumber x := x.bits.toNat
  ofNumber z := ⟨UInt32.ofInt z⟩

instance : Element Binary64 where
  toKeyOrder := .ofRank Binary64.rank?
  width := 8
  toNumber x := x.bits.toNat
  ofNumber z := ⟨UInt64.ofInt z⟩

/-! ### The index types -/

instance : IndexElement Int32 where
  name := "i32"
  maxPosition := 2147483647
  ofPosition := Int32.ofNat

instance : IndexElement Int64 where
  name := "i64"
  maxPosition := 9223372036854775807
  ofPosition := Int64.ofNat

instance : IndexElement UInt32 where
  name := "u32"
  maxPosition := 4294967295
  ofPosition := UInt32.ofNat

instance : IndexElement UInt64 where
  name := "u64"
  maxPosition := 18446744073709551615
  ofPosition := UInt64.ofNat

end MergePathSort
