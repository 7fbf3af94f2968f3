import MergePathSort.Config.Basic
import MergePathSort.Json.Record
import MergePathSort.Json.Quoted
import MergePathSort.Key.Order

/-!
# Configuration text

A configuration is kept as JSON text. It is written with its fields in a fixed order and without blanks. It is
read from objects or from lists of fields; limits and tuning may be left out, and within the limits all but
the number of lanes. A configuration that has been read must be of the known version and valid.

## Main definitions

* `Config.text` : a configuration as it is written.
* `Config.parse` : reads a configuration without judging it.
* `Config.load` : reads a configuration from the contents of a file, if there is one, and judges it.
* `Direction.parse`, `Direction.text` : a direction as it is read and written.
-/

namespace MergePathSort

open Json

/-! ### Writing -/

/-- A truth value as it is written. -/
def boolText (b : Bool) : String := if b then "true" else "false"

/-- Limits as they are written. -/
def Limits.text (limits : Limits) : String :=
  "\x7b\"max_lanes_per_block\":" ++ toString limits.maxLanes.toNat ++
  ",\"fixed_block_dim\":" ++ boolText limits.fixedLanes ++
  ",\"max_shared_bytes\":" ++ toString limits.sharedBytes.toNat ++ "\x7d"

/-- Tuning as it is written. -/
def Tuning.text (tuning : Tuning) : String :=
  "\x7b\"tile\":" ++ toString tuning.tile.toNat ++
  ",\"thread_work\":" ++ toString tuning.laneWork.toNat ++ "\x7d"

/-- A configuration as it is written. -/
def Config.text (config : Config) : String :=
  "\x7b\"version\":" ++ quoted config.version ++ ",\"limits\":" ++ config.limits.text ++
  ",\"tuning\":" ++ config.tuning.text ++ "\x7d"

/-- A direction as it is written. -/
def Direction.text (direction : Direction) : String := quoted direction.name

/-! ### Reading -/

/-- Limits as far as they have been read. -/
structure LimitsDraft where
  /-- The number of lanes. -/
  maxLanes : Option UInt32 := none
  /-- Whether the number of lanes is fixed. -/
  fixedLanes : Option Bool := none
  /-- The bytes of scratch. -/
  sharedBytes : Option UInt64 := none

/-- Tuning as far as it has been read. -/
structure TuningDraft where
  /-- The tile. -/
  tile : Option UInt32 := none
  /-- The outputs of a lane. -/
  laneWork : Option UInt32 := none

/-- A configuration as far as it has been read. -/
structure ConfigDraft where
  /-- The version. -/
  version : Option String := none
  /-- The limits. -/
  limits : Option Limits := none
  /-- The tuning. -/
  tuning : Option Tuning := none

/-- Scans a 32-bit word. -/
def scanWord : Scan UInt32 := fun text => do
  let (n, rest) ← scanNatural 4294967296 text
  return (UInt32.ofNat n, rest)

/-- Scans a size. -/
def scanSize : Scan UInt64 := fun text => do
  let (n, rest) ← scanNatural Size.limit text
  return (UInt64.ofNat n, rest)

/-- The fields of limits, in the order in which a list holds them. -/
def Limits.fields : List (Json.Field LimitsDraft) :=
  [ { key := "max_lanes_per_block"
      isSet := (·.maxLanes.isSome)
      scan := fun draft text => do
        let (x, rest) ← scanWord text
        return ({ draft with maxLanes := some x }, rest) },
    { key := "fixed_block_dim"
      isSet := (·.fixedLanes.isSome)
      scan := fun draft text => do
        let (x, rest) ← scanBool text
        return ({ draft with fixedLanes := some x }, rest) },
    { key := "max_shared_bytes"
      isSet := (·.sharedBytes.isSome)
      scan := fun draft text => do
        let (x, rest) ← scanSize text
        return ({ draft with sharedBytes := some x }, rest) } ]

/-- Scans limits. Only the number of lanes must be there. -/
def Limits.scan : Scan Limits :=
  scanRecord Limits.fields {} fun draft => do
    let maxLanes ← draft.maxLanes
    return { maxLanes, fixedLanes := draft.fixedLanes.getD false,
             sharedBytes := draft.sharedBytes.getD 49152 }

/-- The fields of tuning, in the order in which a list holds them. -/
def Tuning.fields : List (Json.Field TuningDraft) :=
  [ { key := "tile"
      isSet := (·.tile.isSome)
      scan := fun draft text => do
        let (x, rest) ← scanWord text
        return ({ draft with tile := some x }, rest) },
    { key := "thread_work"
      isSet := (·.laneWork.isSome)
      scan := fun draft text => do
        let (x, rest) ← scanWord text
        return ({ draft with laneWork := some x }, rest) } ]

/-- Scans tuning. Both fields must be there. -/
def Tuning.scan : Scan Tuning :=
  scanRecord Tuning.fields {} fun draft => do
    return { tile := ← draft.tile, laneWork := ← draft.laneWork }

/-- The fields of a configuration, in the order in which a list holds them. -/
def Config.fields : List (Json.Field ConfigDraft) :=
  [ { key := "version"
      isSet := (·.version.isSome)
      scan := fun draft text => do
        let (x, rest) ← scanText text
        return ({ draft with version := some x }, rest) },
    { key := "limits"
      isSet := (·.limits.isSome)
      scan := fun draft text => do
        let (x, rest) ← Limits.scan text
        return ({ draft with limits := some x }, rest) },
    { key := "tuning"
      isSet := (·.tuning.isSome)
      scan := fun draft text => do
        let (x, rest) ← Tuning.scan text
        return ({ draft with tuning := some x }, rest) } ]

/-- Scans a configuration. Only the version must be there. -/
def Config.scan : Scan Config :=
  scanRecord Config.fields {} fun draft => do
    let version ← draft.version
    return { version, limits := draft.limits.getD {}, tuning := draft.tuning.getD {} }

/-- Reads a configuration without judging it. -/
def Config.parse (text : Json.Text) : Except Json.Category Config := readWhole Config.scan text

/-- Reads a configuration from the bytes of a file, if there is one. It must be of the known version and
valid. -/
def Config.load (file? : Option Json.Text) : Outcome Config :=
  match file? with
  | none => .refuse .missingFile
  | some text =>
    match Config.parse text with
    | .error category => .refuse (.unreadableText category)
    | .ok config =>
      if config.version ≠ Config.formatVersion then
        .refuse (.configVersion config.version Config.formatVersion)
      else config.checked

/-- The direction of a name. -/
def Direction.ofName? (name : String) : Option Direction :=
  if name = Direction.ascending.name then some .ascending
  else if name = Direction.descending.name then some .descending
  else none

/-- Scans the name of a direction after its opening quote. -/
def Direction.scanName : Scan Direction := fun text => do
  let (name, rest) ← scanCharacters text
  match Direction.ofName? name with
  | some direction => return (direction, rest)
  | none => .error .mismatched

/-- Scans a direction: its name, or an object whose only member has that key and the value `null`. -/
def Direction.scan : Scan Direction := fun text =>
  match skipBlanks text with
  | [] => .error .truncated
  | b :: rest =>
    if b = 0x22 then Direction.scanName rest
    else if b = 0x7b then do
      let (direction, rest) ← Direction.scanName (← openKey rest)
      let ((), rest) ← scanNull (← colon rest)
      match skipBlanks rest with
      | [] => .error .truncated
      | c :: rest => if c = 0x7d then return (direction, rest) else .error .malformed
    else .error .malformed

/-- Reads a direction. -/
def Direction.parse (text : Json.Text) : Except Json.Category Direction := readWhole Direction.scan text

end MergePathSort
