import MergePathSort.Outcome

/-!
# Configurations

A configuration says what a target can run (`Limits`) and how the algorithm is cut to size (`Tuning`): the
tile that one block sorts and the outputs of one lane in a wide merge. It is valid if the tile is a power of
two, nothing is zero, and a block has a lane for every two places of a tile.

## Main definitions

* `Limits`, `Tuning`, `Config` : a configuration.
* `ConfigProblem`, `Config.problem?`, `Config.validate` : the rules of a valid configuration.
-/

namespace MergePathSort

/-- What a target can run. -/
structure Limits where
  /-- The largest number of lanes of a block. -/
  maxLanes : UInt32 := 1024
  /-- Every merge pass runs with the largest number of lanes. -/
  fixedLanes : Bool := false
  /-- The bytes of scratch that the lanes of a block share. -/
  sharedBytes : UInt64 := 49152
  deriving DecidableEq, Inhabited

/-- How the algorithm is cut to size. -/
structure Tuning where
  /-- The elements that one block sorts in its scratch. -/
  tile : UInt32 := 128
  /-- The outputs of one lane in a merge whose segments take several blocks. -/
  laneWork : UInt32 := 4
  deriving DecidableEq, Inhabited

/-- The binary logarithm of the tile, rounded down; a tile of zero has none. -/
def Tuning.tileLog2 (tuning : Tuning) : Outcome Nat :=
  if tuning.tile = 0 then .fault .arithmetic else .ok tuning.tile.toNat.log2

/-- The lanes of a block that sorts a tile: every lane owns two places. -/
def Tuning.lanesPerTile (tuning : Tuning) : UInt32 := tuning.tile / 2

/-- A configuration of the engine. -/
structure Config where
  /-- The version of the format in which the configuration is written. -/
  version : String := "0.1"
  /-- What the target can run. -/
  limits : Limits := {}
  /-- How the algorithm is cut to size. -/
  tuning : Tuning := {}
  deriving DecidableEq, Inhabited

/-! ### Validity -/

/-- The rules that a configuration can break, by itself or on a device. -/
inductive ConfigProblem where
  /-- The tile is not a power of two, or it is one. -/
  | tileNotPowerOfTwo (tile : UInt32)
  /-- A lane has no outputs. -/
  | noLaneWork
  /-- A block has no lanes. -/
  | noLanes
  /-- A block has too few lanes for a tile. -/
  | tileTooWide (tile needed allowed : UInt32)
  /-- A block has more lanes than the device. -/
  | lanesBeyondDevice (lanes allowed : UInt32)
  /-- A tile needs more scratch than a block has. -/
  | tileBeyondScratch (tile : UInt32) (needed : Nat) (available : UInt64)
  deriving DecidableEq

/-- The wording of a broken rule. -/
def ConfigProblem.message : ConfigProblem → String
  | .tileNotPowerOfTwo tile => s!"tile must be a power of two >= 2, got {tile}"
  | .noLaneWork => "thread_work must be at least 1"
  | .noLanes => "max_lanes_per_block must be at least 1"
  | .tileTooWide tile needed allowed => s!"tile {tile} needs {needed} lanes, device allows {allowed}"
  | .lanesBeyondDevice lanes allowed => s!"max_lanes_per_block {lanes} exceeds the device limit {allowed}"
  | .tileBeyondScratch tile needed available =>
    s!"tile {tile} needs {needed} bytes of shared memory, device has {available}"

/-- A broken rule as a refusal. -/
def ConfigProblem.refusal (problem : ConfigProblem) : Refusal := .invalidConfig problem.message

namespace Config

/-- The only version of the format. -/
def formatVersion : String := "0.1"

/-- The first rule that a configuration breaks. -/
def problem? (config : Config) : Option ConfigProblem :=
  let tile := config.tuning.tile
  let lanes := config.limits.maxLanes
  if tile < 2 ∨ Nat.pow 2 tile.toNat.log2 ≠ tile.toNat then some (.tileNotPowerOfTwo tile)
  else if config.tuning.laneWork = 0 then some .noLaneWork
  else if lanes = 0 then some .noLanes
  else if lanes < config.tuning.lanesPerTile then some (.tileTooWide tile config.tuning.lanesPerTile lanes)
  else none

/-- Refuses a configuration that breaks a rule. -/
def validate (config : Config) : Outcome Unit :=
  match config.problem? with
  | some problem => .refuse problem.refusal
  | none => .ok ()

/-- The configuration, if it is valid. -/
def checked (config : Config) : Outcome Config := do
  config.validate
  return config

end Config

end MergePathSort
