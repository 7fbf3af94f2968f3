import MergePathSort.Decimal.Rounding
import MergePathSort.Key.Binary

/-!
# Floats with a fixed number of places

A finite float is a whole number of powers of two, so its decimal text with a fixed number of places is a rounded
quotient. Rounding looks at the exact value, and a tie goes to the even last place.

## Main definitions

* `Binary64.magnitude` : the exact magnitude of a finite float as a quotient.
* `Binary64.fixed` : a float with a fixed number of places.
-/

namespace MergePathSort

namespace Binary64

/-- The magnitude of a finite float, as numerator and denominator. -/
def magnitude (x : Binary64) : Nat × Nat :=
  let exponent := x.unsigned / 4503599627370496
  let fraction := x.unsigned % 4503599627370496
  if exponent = 0 then (fraction, Nat.pow 2 1074)
  else if exponent < 1075 then (4503599627370496 + fraction, Nat.pow 2 (1075 - exponent))
  else ((4503599627370496 + fraction) * Nat.pow 2 (exponent - 1075), 1)

/-- A float with a fixed number of places, at least one of them. -/
def fixed (places : Nat) (x : Binary64) : String :=
  let infinity := 0x7ff0000000000000
  if infinity < x.unsigned then "NaN"
  else
    let text :=
      if x.unsigned = infinity then "inf"
      else Decimal.fixedText places x.magnitude.1 x.magnitude.2
    if x.isNegative then "-" ++ text else text

end Binary64

end MergePathSort
