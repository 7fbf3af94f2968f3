/-!
# Writing JSON strings

A string is written between quotes. The quote, the backslash and the control characters are escaped, the latter
by a letter where there is one; every other character stands for itself.

## Main definitions

* `escape`, `quoted` : a character and a string as they are written.
-/

namespace MergePathSort.Json

/-- The digit that writes a number below sixteen. -/
def hexDigit (n : Nat) : Char :=
  if n < 10 then Char.ofNat (0x30 + n) else Char.ofNat (0x61 + (n - 10))

/-- A character inside a string. -/
def escape (c : Char) : List Char :=
  if c.toNat = 0x22 ∨ c.toNat = 0x5c then ['\\', c]
  else if c.toNat = 0x08 then ['\\', 'b']
  else if c.toNat = 0x0c then ['\\', 'f']
  else if c.toNat = 0x0a then ['\\', 'n']
  else if c.toNat = 0x0d then ['\\', 'r']
  else if c.toNat = 0x09 then ['\\', 't']
  else if c.toNat < 0x20 then ['\\', 'u', '0', '0', hexDigit (c.toNat / 16), hexDigit (c.toNat % 16)]
  else [c]

/-- A string as it is written. -/
def quoted (s : String) : String := "\"" ++ String.ofList (s.toList.flatMap escape) ++ "\""

end MergePathSort.Json
