import MergePathSort.Decimal.Rounding
import MergePathSort.Outcome

/-!
# Sizes on the command line

A size is asked for as a number of elements, or as a number of bytes with a unit, of which four make an element.
It is shown as bytes, in the largest unit that it fills, with two places.

## Main definitions

* `parseNatural` : a decimal number that is a size.
* `readSize` : the number of elements asked for.
* `showBytes` : a number of bytes as it is shown.
-/

namespace MergePathSort.Bench

/-- The bytes of an element. -/
def elementBytes : Nat := 4

/-- The units of bytes with their letters, the largest first. -/
def units : List (Char × Nat) := [('g', 1073741824), ('m', 1048576), ('k', 1024)]

/-- A letter of a size in lower case. Besides the letters of ASCII, the Kelvin sign is a form of `k`, and no
other character has one of the letters of a size as its lower case. -/
def lowerCase (c : Char) : Char := if c.toNat = 0x212a then 'k' else c.toLower

/-- The text without a character at its end, if it ends in it. -/
def withoutLast (c : Char) (text : List Char) : Option (List Char) :=
  if text.getLast? = some c then some text.dropLast else none

/-- The text without a plus sign in front. -/
def withoutPlus : List Char → List Char
  | '+' :: digits => digits
  | digits => digits

/-- The number written by decimal digits. -/
def digitsNumber (digits : List Char) : Nat :=
  digits.foldl (fun n c => 10 * n + (c.toNat - 0x30)) 0

/-- The size written by decimal digits, at least one of them, with or without a plus sign. -/
def parseNatural (text : List Char) : Option Nat :=
  let digits := withoutPlus text
  if digits.isEmpty || !digits.all Char.isDigit then none
  else
    let n := digitsNumber digits
    if n < Size.limit then some n else none

/-- The number of elements asked for, if the text asks for any. One `b` at the end says nothing by itself. Bytes
that are more than a size can hold are a fault. -/
def readSize (text : String) : Outcome (Option Nat) :=
  let letters := text.toList.map lowerCase
  let letters := (withoutLast 'b' letters).getD letters
  match units.findSome? fun (letter, unit) => (withoutLast letter letters).map (·, unit) with
  | none => .ok (parseNatural letters)
  | some (digits, unit) =>
    match parseNatural digits with
    | none => .ok none
    | some n => do return some ((← Size.mul n unit) / elementBytes)

/-- A number of bytes as it is shown. It is taken as the nearest 64-bit float, which matters only for the
largest sizes. -/
def showBytes (bytes : Nat) : String :=
  match units.find? fun (_, unit) => unit ≤ bytes with
  | some (letter, unit) =>
    Decimal.fixedText 2 (Decimal.nearestBinary64 bytes) unit ++ " " ++ letter.toUpper.toString ++ "B"
  | none => toString bytes ++ " B"

end MergePathSort.Bench
