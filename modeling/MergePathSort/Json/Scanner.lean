import MergePathSort.Refusal
import MergePathSort.Decimal.Rounding

/-!
# Scanning JSON text

Configuration is read from bytes, from left to right, and the first fault decides how reading fails
(`Json.Category`). A value is scanned in one of two ways. Where it is asked for, its string contents are decoded
and checked, and a number must lie in the range of a 64-bit float. Where it is only passed over, strings may
hold any bytes and unpaired surrogates, and numbers may have any size.

## Main definitions

* `scanString` : the contents of a string, one byte at a time.
* `scanNumeral`, `Numeral` : a number, kept as its digits.
* `mismatch` : how reading fails where a value of another kind stands.
* `skipValue` : passes over a value at any depth.
* `scanNatural`, `scanBool`, `scanText` : the scalar values of a configuration.
-/

namespace MergePathSort.Json

/-- The bytes that are still to be read. -/
abbrev Text : Type := List UInt8

/-- Reads a value off the front of the text. -/
abbrev Scan (α : Type) : Type := Text → Except Category (α × Text)

/-- Blanks separate the parts of a value. -/
def isBlank (b : UInt8) : Bool := b == 0x20 || b == 0x0a || b == 0x09 || b == 0x0d

/-- The text from its first byte that is no blank. -/
def skipBlanks (text : Text) : Text := text.dropWhile isBlank

/-- Reads the bytes of a word such as `null`. -/
def literal : List UInt8 → Text → Except Category Text
  | [], text => .ok text
  | _ :: _, [] => .error .truncated
  | expected :: more, b :: rest => if b = expected then literal more rest else .error .malformed

/-- Reads the opening quote of a key. Only a string is a key. -/
def openKey (text : Text) : Except Category Text :=
  match skipBlanks text with
  | [] => .error .truncated
  | b :: rest => if b = 0x22 then .ok rest else .error .malformed

/-- Reads the colon between a key and its value. -/
def colon (text : Text) : Except Category Text :=
  match skipBlanks text with
  | [] => .error .truncated
  | b :: rest => if b = 0x3a then .ok rest else .error .malformed

/-! ### Strings -/

/-- The byte that a one-letter escape stands for. -/
def escapedByte? (b : UInt8) : Option UInt8 :=
  if b = 0x22 ∨ b = 0x5c ∨ b = 0x2f then some b
  else if b = 0x62 then some 0x08
  else if b = 0x66 then some 0x0c
  else if b = 0x6e then some 0x0a
  else if b = 0x72 then some 0x0d
  else if b = 0x74 then some 0x09
  else none

/-- The value of a hexadecimal digit. -/
def hexDigit? (b : UInt8) : Option Nat :=
  if 0x30 ≤ b ∧ b ≤ 0x39 then some (b.toNat - 0x30)
  else if 0x41 ≤ b ∧ b ≤ 0x46 then some (b.toNat - 0x41 + 10)
  else if 0x61 ≤ b ∧ b ≤ 0x66 then some (b.toNat - 0x61 + 10)
  else none

/-- The value of a list of hexadecimal digits, the highest first. -/
def hexValue? (digits : List UInt8) : Option Nat :=
  digits.foldlM (fun value b => do return 16 * value + (← hexDigit? b)) 0

/-- The UTF-8 bytes of a code point. -/
def codePointBytes (codePoint : Nat) : List UInt8 := String.utf8EncodeChar (Char.ofNat codePoint)

/-- Where a scan stands inside a string. -/
inductive Pending where
  /-- Between characters. -/
  | plain
  /-- After a backslash. -/
  | backslash
  /-- Inside the four digits of a code unit, of which some are read, the last one first. A leading surrogate
  may be waiting for this one. -/
  | unit (lead : Option Nat) (digits : List UInt8)
  /-- After a leading surrogate, where a backslash must follow. -/
  | partner (lead : Nat)
  /-- After a leading surrogate and a backslash, where a `u` must follow. -/
  | partnerUnit (lead : Nat)

/-- What follows a code unit, and the bytes that it adds. In a string that is only passed over, any unit
will do. -/
def acceptUnit (decoded : Bool) (lead : Option Nat) (unit : Nat) :
    Except Category (Pending × List UInt8) :=
  if !decoded then .ok (.plain, [])
  else
    match lead with
    | none =>
      if 0xdc00 ≤ unit ∧ unit ≤ 0xdfff then .error .malformed
      else if 0xd800 ≤ unit ∧ unit ≤ 0xdbff then .ok (.partner unit, [])
      else .ok (.plain, codePointBytes unit)
    | some lead =>
      if 0xdc00 ≤ unit ∧ unit ≤ 0xdfff then
        .ok (.plain, codePointBytes (0x10000 + (lead - 0xd800) * 0x400 + (unit - 0xdc00)))
      else .error .malformed

/-- Scans a string after its opening quote: its bytes, the last one first while they are collected. -/
def scanString (decoded : Bool) : Pending → List UInt8 → Scan (List UInt8)
  | _, _, [] => .error .truncated
  | .plain, bytes, b :: rest =>
    if b = 0x22 then .ok (bytes.reverse, rest)
    else if b = 0x5c then scanString decoded .backslash bytes rest
    else if b < 0x20 then .error .malformed
    else scanString decoded .plain (b :: bytes) rest
  | .backslash, bytes, b :: rest =>
    if b = 0x75 then scanString decoded (.unit none []) bytes rest
    else
      match escapedByte? b with
      | some c => scanString decoded .plain (c :: bytes) rest
      | none => .error .malformed
  | .unit lead digits, bytes, b :: rest =>
    if digits.length < 3 then scanString decoded (.unit lead (b :: digits)) bytes rest
    else
      match hexValue? (b :: digits).reverse with
      | none => .error .malformed
      | some unit =>
        match acceptUnit decoded lead unit with
        | .error category => .error category
        | .ok (pending, added) => scanString decoded pending (added.reverse ++ bytes) rest
  | .partner lead, bytes, b :: rest =>
    if b = 0x5c then scanString decoded (.partnerUnit lead) bytes rest else .error .malformed
  | .partnerUnit lead, bytes, b :: rest =>
    if b = 0x75 then scanString decoded (.unit (some lead) []) bytes rest else .error .malformed

/-- Scans a string after its opening quote, as characters. -/
def scanCharacters : Scan String := fun text => do
  let (bytes, rest) ← scanString true .plain [] text
  match String.fromUTF8? ⟨bytes.toArray⟩ with
  | some s => return (s, rest)
  | none => .error .malformed

/-- Passes over a string after its opening quote. -/
def skipString (text : Text) : Except Category Text := do
  let (_, rest) ← scanString false .plain [] text
  return rest

/-! ### Numbers -/

/-- Decimal digits. -/
def isDigit (b : UInt8) : Bool := 0x30 ≤ b && b ≤ 0x39

/-- A number as it is written. -/
structure Numeral where
  /-- A minus sign stands in front. -/
  negative : Bool
  /-- The digits before the point. -/
  whole : List UInt8
  /-- The digits after the point, if there is one. -/
  fraction : Option (List UInt8)
  /-- The exponent, if there is one: whether it is negative, and its digits. -/
  exponent : Option (Bool × List UInt8)

/-- The number written by a list of digits. -/
def digitsValue (digits : List UInt8) : Nat :=
  digits.foldl (fun value b => 10 * value + (b.toNat - 0x30)) 0

/-- Scans at least one digit. At the end of the text, `missing` says how reading fails. -/
def scanDigits (missing : Category) : Scan (List UInt8) := fun text =>
  match text with
  | [] => .error missing
  | b :: _ =>
    if isDigit b then .ok (text.takeWhile isDigit, text.dropWhile isDigit) else .error .malformed

/-- Scans the digits before the point: a leading zero stands alone. -/
def scanWhole (missing : Category) : Scan (List UInt8) := fun text => do
  let (digits, rest) ← scanDigits missing text
  match digits with
  | 0x30 :: _ :: _ => .error .malformed
  | _ => return (digits, rest)

/-- Scans the point and the digits after it, if they are there. -/
def scanFraction (missing : Category) : Scan (Option (List UInt8)) := fun text =>
  match text with
  | 0x2e :: rest => do
    let (digits, rest) ← scanDigits missing rest
    return (some digits, rest)
  | _ => .ok (none, text)

/-- Scans the exponent, if it is there. -/
def scanExponent (missing : Category) : Scan (Option (Bool × List UInt8)) := fun text =>
  match text with
  | b :: rest =>
    if b = 0x65 ∨ b = 0x45 then do
      let (negative, rest) :=
        match rest with
        | 0x2d :: more => (true, more)
        | 0x2b :: more => (false, more)
        | _ => (false, rest)
      let (digits, rest) ← scanDigits missing rest
      return (some (negative, digits), rest)
    else .ok (none, text)
  | [] => .ok (none, text)

/-- Scans a number. -/
def scanNumeral (missing : Category) : Scan Numeral := fun text => do
  let (negative, text) :=
    match text with
    | 0x2d :: rest => (true, rest)
    | _ => (false, text)
  let (whole, text) ← scanWhole missing text
  let (fraction, text) ← scanFraction missing text
  let (exponent, text) ← scanExponent missing text
  return (⟨negative, whole, fraction, exponent⟩, text)

namespace Numeral

/-- Digits are taken as a whole number while it stays below `2 ^ 64`. -/
def significandLimit : Nat := 18446744073709551616

/-- The natural number below `2 ^ 64` that is written without a sign, point or exponent. -/
def natural? (n : Numeral) : Option Nat :=
  match n with
  | ⟨false, whole, none, none⟩ =>
    let value := digitsValue whole
    if value < significandLimit then some value else none
  | _ => none

/-- Appends digits to a significand while it stays below `2 ^ 64`; the digits for which there is no room
are left over. -/
def takeSignificant : Nat → List UInt8 → Nat × List UInt8
  | significand, [] => (significand, [])
  | significand, b :: rest =>
    let longer := 10 * significand + (b.toNat - 0x30)
    if longer < significandLimit then takeSignificant longer rest else (significand, b :: rest)

/-- The number as a significand below `2 ^ 64` and a power of ten. -/
def scientific (n : Numeral) : Nat × Int :=
  let (significand, surplus) := takeSignificant 0 n.whole
  let digits := n.fraction.getD []
  let (significand, unread) := takeSignificant significand digits
  let shift : Int := (surplus.length : Int) - ((digits.length - unread.length : Nat) : Int)
  match n.exponent with
  | none => (significand, shift)
  | some (false, digits) => (significand, shift + digitsValue digits)
  | some (true, digits) => (significand, shift - digitsValue digits)

/-- The number, rounded once as a significand and once more as a product, is a finite 64-bit float. -/
def isFinite (n : Numeral) : Bool :=
  match n.scientific with
  | (0, _) => true
  | (significand, .ofNat power) =>
    power ≤ 308 &&
      Decimal.nearestBinary64 significand * Decimal.nearestBinary64 (Nat.pow 10 power) <
        Nat.pow 2 1024 - Nat.pow 2 970
  | (_, .negSucc _) => true

end Numeral

/-- Scans a number that is asked for, which must lie in the range of a 64-bit float. -/
def scanNumber : Scan Numeral := fun text => do
  let (numeral, rest) ← scanNumeral .truncated text
  if numeral.isFinite then return (numeral, rest) else .error .malformed

/-! ### Values of any kind -/

/-- How reading fails where a value of another kind stands. Scalars are read to their end first, and may fail
by themselves. -/
def mismatch (text : Text) : Category :=
  let after (scanned : Except Category Text) : Category :=
    match scanned with
    | .ok _ => .mismatched
    | .error category => category
  match text with
  | [] => .truncated
  | b :: rest =>
    if b = 0x6e then after (literal [0x75, 0x6c, 0x6c] rest)
    else if b = 0x74 then after (literal [0x72, 0x75, 0x65] rest)
    else if b = 0x66 then after (literal [0x61, 0x6c, 0x73, 0x65] rest)
    else if b = 0x2d ∨ isDigit b then after ((scanNumber text).map (·.2))
    else if b = 0x22 then after ((scanCharacters rest).map (·.2))
    else if b = 0x5b ∨ b = 0x7b then .mismatched
    else .malformed

/-- The two kinds of brackets around values. -/
inductive Bracket where
  /-- Around the elements of a list. -/
  | list
  /-- Around the members of an object. -/
  | object

/-- The byte that closes a bracket. -/
def Bracket.close : Bracket → UInt8
  | .list => 0x5d
  | .object => 0x7d

/-- Passes over a value that is no list and no object. -/
def skipScalar (text : Text) : Except Category Text :=
  match text with
  | [] => .error .truncated
  | b :: rest =>
    if b = 0x6e then literal [0x75, 0x6c, 0x6c] rest
    else if b = 0x74 then literal [0x72, 0x75, 0x65] rest
    else if b = 0x66 then literal [0x61, 0x6c, 0x73, 0x65] rest
    else if b = 0x2d ∨ isDigit b then (scanNumeral .malformed text).map (·.2)
    else if b = 0x22 then skipString rest
    else .error .malformed

/-- After a value inside open brackets: closes brackets up to a comma, or up to the outermost one. -/
def afterValue : List Bracket → Scan (List Bracket)
  | [], text => .ok ([], text)
  | bracket :: outer, text =>
    match skipBlanks text with
    | [] => .error .truncated
    | b :: rest =>
      if b = 0x2c then .ok (bracket :: outer, rest)
      else if b = bracket.close then afterValue outer rest
      else .error .malformed

/-- Passes over what precedes a value inside a bracket: nothing in a list, the key in an object. -/
def beforeValue (bracket : Bracket) (text : Text) : Except Category Text :=
  match bracket with
  | .list => .ok text
  | .object =>
    match skipBlanks text with
    | [] => .error .truncated
    | b :: rest => if b = 0x22 then do colon (← skipString rest) else .error .malformed

/-- After an opening bracket: closes it at once, or leaves it open in front of its first value. -/
def afterOpening (bracket : Bracket) (outer : List Bracket) : Scan (List Bracket) := fun text =>
  match skipBlanks text with
  | [] => .error .truncated
  | b :: rest => if b = bracket.close then afterValue outer rest else .ok (bracket :: outer, b :: rest)

/-- Passes over a value inside open brackets, and over all that follows it up to the outermost bracket. Every
turn reads at least one byte, so a budget above the length of the text is never used up. -/
def skipWithin : Nat → List Bracket → Text → Except Category Text
  | 0, _, _ => .error .truncated
  | budget + 1, brackets, text => do
    let (brackets, text) ←
      match skipBlanks text with
      | [] => .error .truncated
      | b :: rest =>
        if b = 0x5b then afterOpening .list brackets rest
        else if b = 0x7b then afterOpening .object brackets rest
        else do afterValue brackets (← skipScalar (b :: rest))
    match brackets with
    | [] => return text
    | bracket :: _ => skipWithin budget brackets (← beforeValue bracket text)

/-- Passes over a value. -/
def skipValue (text : Text) : Except Category Text := skipWithin (text.length + 1) [] text

/-! ### Scalars that are asked for -/

/-- Scans a natural number below a limit, which is at most `2 ^ 64`. -/
def scanNatural (limit : Nat) : Scan Nat := fun text =>
  match skipBlanks text with
  | [] => .error .truncated
  | b :: rest =>
    if b = 0x2d ∨ isDigit b then do
      let (numeral, rest) ← scanNumber (b :: rest)
      match numeral.natural? with
      | some n => if n < limit then return (n, rest) else .error .mismatched
      | none => .error .mismatched
    else .error (mismatch (b :: rest))

/-- Scans a truth value. -/
def scanBool : Scan Bool := fun text =>
  match skipBlanks text with
  | [] => .error .truncated
  | b :: rest =>
    if b = 0x74 then do return (true, ← literal [0x72, 0x75, 0x65] rest)
    else if b = 0x66 then do return (false, ← literal [0x61, 0x6c, 0x73, 0x65] rest)
    else .error (mismatch (b :: rest))

/-- Scans a string. -/
def scanText : Scan String := fun text =>
  match skipBlanks text with
  | [] => .error .truncated
  | b :: rest => if b = 0x22 then scanCharacters rest else .error (mismatch (b :: rest))

/-- Scans the word `null`. -/
def scanNull : Scan Unit := fun text =>
  match skipBlanks text with
  | [] => .error .truncated
  | b :: rest =>
    if b = 0x6e then do return ((), ← literal [0x75, 0x6c, 0x6c] rest)
    else .error (mismatch (b :: rest))

/-- Reads a whole text: one value with blanks around it. -/
def readWhole {α : Type} (scan : Scan α) (text : Text) : Except Category α := do
  let (x, rest) ← scan text
  match skipBlanks rest with
  | [] => return x
  | _ :: _ => .error .malformed

end MergePathSort.Json
