/-!
# Rounding to nearest

Quotients of natural numbers rounded to the nearest integer, a tie to the even one, and what is built from it:
decimal text with a fixed number of places, and the 64-bit float nearest to a natural number.

## Main definitions

* `roundDiv` : the nearest integer to a quotient.
* `fixedText` : a quotient with a fixed number of decimal places.
* `nearestBinary64` : the value of the 64-bit float nearest to a natural number.
-/

namespace MergePathSort.Decimal

/-- The integer nearest to `num / den`, a tie to the even one. -/
def roundDiv (num den : Nat) : Nat :=
  let q := num / den
  let r := num % den
  if 2 * r < den then q
  else if den < 2 * r then q + 1
  else if q % 2 = 0 then q else q + 1

/-- A text filled up with a character on the left to at least `width` characters. -/
def padLeft (fill : Char) (width : Nat) (text : String) : String :=
  "".pushn fill (width - text.length) ++ text

/-- The quotient `num / den` with `places` decimal places, at least one of them. -/
def fixedText (places num den : Nat) : String :=
  let scaled := roundDiv (num * Nat.pow 10 places) den
  let whole := toString (scaled / Nat.pow 10 places)
  whole ++ "." ++ padLeft '0' places (toString (scaled % Nat.pow 10 places))

/-- The value of the 64-bit float nearest to `n`: 53 significant bits, a tie to the even last bit. -/
def nearestBinary64 (n : Nat) : Nat :=
  let unit := Nat.pow 2 (n.log2 - 52)
  roundDiv n unit * unit

end MergePathSort.Decimal
