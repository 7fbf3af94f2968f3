import MergePathSort.Json.Scanner

/-!
# Reading records

A record is read from an object or from a list of its fields in order. Fields may be absent, and what is missing
at the end is decided by the record. In an object the fields come in any order, none twice, and members that are
no fields are passed over.

## Main definitions

* `Field` : a field of a record that is being read.
* `scanRecord` : reads a record.
-/

namespace MergePathSort.Json

/-- A field of a record, where `ρ` is the record as far as it has been read. -/
structure Field (ρ : Type) where
  /-- The field's key. -/
  key : String
  /-- The field has been read. -/
  isSet : ρ → Bool
  /-- Reads the field's value into the record. -/
  scan : ρ → Scan ρ

variable {ρ : Type}

/-- Reads the elements of a list into fields, until the list or the fields end. -/
def scanElements : List (Field ρ) → Bool → ρ → Scan ρ
  | [], _, record, text => .ok (record, text)
  | field :: fields, first, record, text =>
    match skipBlanks text with
    | [] => .error .truncated
    | b :: rest =>
      if b = 0x5d then .ok (record, b :: rest)
      else if first then do
        let (record, text) ← field.scan record (b :: rest)
        scanElements fields false record text
      else if b = 0x2c then
        match skipBlanks rest with
        | [] => .error .truncated
        | c :: more =>
          if c = 0x5d then .error .malformed
          else do
            let (record, text) ← field.scan record (c :: more)
            scanElements fields false record text
      else .error .malformed

/-- Reads the end of a list. -/
def endList (text : Text) : Except Category Text :=
  match skipBlanks text with
  | [] => .error .truncated
  | b :: rest => if b = 0x5d then .ok rest else .error .malformed

/-- Reads a member of an object after its opening quote. -/
def scanMember (fields : List (Field ρ)) (record : ρ) : Scan ρ := fun text => do
  let (key, text) ← scanCharacters text
  match fields.find? (fun field => field.key == key) with
  | some field =>
    if field.isSet record then .error .mismatched
    else field.scan record (← colon text)
  | none => return (record, ← skipValue (← colon text))

/-- Reads the members of an object and its end. Every turn reads at least one byte, so a budget above the
length of the text is never used up. -/
def scanMembers (fields : List (Field ρ)) : Nat → Bool → ρ → Scan ρ
  | 0, _, _, _ => .error .truncated
  | budget + 1, first, record, text =>
    match skipBlanks text with
    | [] => .error .truncated
    | b :: rest =>
      if b = 0x7d then .ok (record, rest)
      else if first then
        if b = 0x22 then do
          let (record, text) ← scanMember fields record rest
          scanMembers fields budget false record text
        else .error .malformed
      else if b = 0x2c then
        match skipBlanks rest with
        | [] => .error .truncated
        | c :: more =>
          if c = 0x22 then do
            let (record, text) ← scanMember fields record more
            scanMembers fields budget false record text
          else .error .malformed
      else .error .malformed

/-- Reads a record: `finish` turns what has been read into the record, or finds a field missing. -/
def scanRecord {α : Type} (fields : List (Field ρ)) (start : ρ) (finish : ρ → Option α) : Scan α :=
  fun text =>
    let complete (record : ρ) : Except Category α :=
      match finish record with
      | some x => .ok x
      | none => .error .mismatched
    match skipBlanks text with
    | [] => .error .truncated
    | b :: rest =>
      if b = 0x5b then do
        let (record, text) ← scanElements fields true start rest
        let x ← complete record
        return (x, ← endList text)
      else if b = 0x7b then do
        let (record, text) ← scanMembers fields (rest.length + 1) true start rest
        return (← complete record, text)
      else .error (mismatch (b :: rest))

end MergePathSort.Json
