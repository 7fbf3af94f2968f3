import MergePathSort.Text.Unseen

/-!
# Quoted text

A text is shown between quotes, so that every character of it can be told. Quotes and backslashes are escaped,
some control characters are written by a letter, and any other character that cannot be seen by its code point.

## Main definitions

* `escape`, `quoted` : a character and a text as they are shown.
-/

namespace MergePathSort.Text

/-- The hexadecimal digits of a code point, in lower case. -/
def codePointDigits (n : Nat) : String := String.ofList (Nat.toDigits 16 n)

/-- A character inside quotes. -/
def escape (c : Char) : String :=
  if c = '"' then "\\\""
  else if c = '\\' then "\\\\"
  else if c.toNat = 0 then "\\0"
  else if c = '\t' then "\\t"
  else if c = '\r' then "\\r"
  else if c = '\n' then "\\n"
  else if isUnseen c then "\\u\x7b" ++ codePointDigits c.toNat ++ "\x7d"
  else c.toString

/-- A text between quotes. -/
def quoted (text : String) : String := "\"" ++ String.join (text.toList.map escape) ++ "\""

end MergePathSort.Text
