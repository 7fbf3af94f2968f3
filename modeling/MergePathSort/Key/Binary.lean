import MergePathSort.Key.Order

/-!
# Floats as bit patterns

A binary float is its IEEE 754 bit pattern, so that NaN payloads and the sign of zero survive every move. Only
its order is ever needed: a pattern that is not NaN has an integer rank, the pattern without the sign bit taken
with that sign. The rank orders finite numbers and infinities as their values do and puts both zeros at zero.

## Main definitions

* `Binary32`, `Binary64` : the two formats.
* `Binary32.rank?`, `Binary64.rank?` : the rank of a pattern that is not NaN.
* `Binary32.ofNat` : the float of a small natural number.
-/

namespace MergePathSort

/-- The rank of a float pattern `n`: `signBit` is the pattern of minus zero and `infinity` that of infinity.
Magnitudes above infinity are NaN and have no rank. -/
def floatRank? (signBit infinity n : Nat) : Option Int :=
  let magnitude := n % signBit
  if infinity < magnitude then none
  else if n < signBit then some (magnitude : Int)
  else some (-(magnitude : Int))

/-- A float of 32 bits. -/
structure Binary32 where
  /-- The bit pattern. -/
  bits : UInt32
  deriving DecidableEq, Inhabited

/-- A float of 64 bits. -/
structure Binary64 where
  /-- The bit pattern. -/
  bits : UInt64
  deriving DecidableEq, Inhabited

/-- The bits of a float of 64 bits without the sign bit. -/
def Binary64.unsigned (x : Binary64) : Nat := x.bits.toNat % 9223372036854775808

/-- The sign bit of a float of 64 bits is set. -/
def Binary64.isNegative (x : Binary64) : Bool := 9223372036854775808 ≤ x.bits.toNat

/-- The rank of a float of 32 bits; none if it is NaN. -/
def Binary32.rank? (x : Binary32) : Option Int := floatRank? 0x80000000 0x7f800000 x.bits.toNat

/-- The rank of a float of 64 bits; none if it is NaN. -/
def Binary64.rank? (x : Binary64) : Option Int :=
  floatRank? 0x8000000000000000 0x7ff0000000000000 x.bits.toNat

/-- The float of a natural number below `2 ^ 24`, which is exact. -/
def Binary32.ofNat (n : Nat) : Binary32 :=
  if n = 0 then ⟨0⟩
  else
    let e := n.log2
    ⟨UInt32.ofNat ((e + 127) * 8388608 + (n - Nat.pow 2 e) * Nat.pow 2 (23 - e))⟩

end MergePathSort
