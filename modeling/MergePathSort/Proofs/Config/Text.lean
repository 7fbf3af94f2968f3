import MergePathSort.Config.Text
import MergePathSort.Proofs.Json.Records

/-!
# A written configuration is read back

The text of a configuration is read back as the configuration, for every version, every word and every size that it can
hold. So reading it from a file refuses it only for what it says: first for its version, then for the first rule that it
breaks.

## Main results

* `Config.reads_text` : the text of a configuration is read back.
* `Config.load_text` : what becomes of a configuration that is loaded from the file it was written to.
-/

namespace MergePathSort

open Json

/-! ### Fields -/

namespace Json

variable {α β : Type} {scan : Scan α} {written : Text} {x : α}

/-- What is read is put to use. -/
theorem Reads.map (h : Reads scan written x) (f : α → β) :
    Reads (fun text => do
      let (x, rest) ← scan text
      return (f x, rest)) written (f x) := by
  intro text htext
  simp only [h text htext, ok_bind]
  rfl

/-- A whole text of one value. -/
theorem Reads.readWhole (h : Reads scan written x) : readWhole scan written = .ok x := by
  have hend : EndsValue [] := fun _ hb => nomatch hb
  have hscan := h [] hend
  rw [List.append_nil] at hscan
  simp only [Json.readWhole, hscan, ok_bind]
  rfl

end Json

theorem reads_scanWord (word : UInt32) : Reads scanWord (decimal word.toNat) word := by
  have hword := (reads_decimal word.toNat_lt (by decide)).map UInt32.ofNat
  rwa [UInt32.ofNat_toNat] at hword

theorem reads_scanSize (size : UInt64) : Reads scanSize (decimal size.toNat) size := by
  have hsize := (reads_decimal size.toNat_lt (by decide)).map UInt64.ofNat
  rwa [UInt64.ofNat_toNat] at hsize

theorem reads_scanBool (b : Bool) : Reads scanBool (bytes (boolText b)) b := by
  intro text _
  cases b with
  | true =>
    have hbytes : bytes (boolText true) = [0x74, 0x72, 0x75, 0x65] := by decide
    rw [hbytes]
    rfl
  | false =>
    have hbytes : bytes (boolText false) = [0x66, 0x61, 0x6c, 0x73, 0x65] := by decide
    rw [hbytes]
    rfl

/-! ### Records -/

/-- The members of limits as they are written. -/
def Limits.members (limits : Limits) : List (String × Text) :=
  [("max_lanes_per_block", decimal limits.maxLanes.toNat), ("fixed_block_dim", bytes (boolText limits.fixedLanes)),
    ("max_shared_bytes", decimal limits.sharedBytes.toNat)]

theorem Limits.bytes_text (limits : Limits) : bytes limits.text = objectText limits.members := by
  have hfirst : bytes "\x7b\"max_lanes_per_block\":" =
      0x7b :: bytes (quoted "max_lanes_per_block") ++ [0x3a] := by decide +kernel
  have hsecond : bytes ",\"fixed_block_dim\":" =
      0x2c :: bytes (quoted "fixed_block_dim") ++ [0x3a] := by decide +kernel
  have hthird : bytes ",\"max_shared_bytes\":" =
      0x2c :: bytes (quoted "max_shared_bytes") ++ [0x3a] := by decide +kernel
  have hend : bytes "\x7d" = [0x7d] := by decide
  unfold Limits.text Limits.members
  simp only [bytes_append]
  rewrite [hfirst, hsecond, hthird, hend]
  simp only [objectText, memberText, decimal, List.append_assoc, List.cons_append, List.nil_append, List.flatMap_cons,
    List.flatMap_nil]

theorem Limits.reads_text (limits : Limits) : Reads Limits.scan (bytes limits.text) limits := by
  have hmembers : ReadsMembers Limits.fields {} limits.members
      ⟨some limits.maxLanes, some limits.fixedLanes, some limits.sharedBytes⟩ := by
    refine .cons _ rfl rfl ((reads_scanWord limits.maxLanes).map fun x => (⟨some x, none, none⟩ : LimitsDraft)) ?_
    refine .cons _ rfl rfl
      ((reads_scanBool limits.fixedLanes).map fun x => (⟨some limits.maxLanes, some x, none⟩ : LimitsDraft)) ?_
    refine .cons _ rfl rfl ((reads_scanSize limits.sharedBytes).map fun x =>
      (⟨some limits.maxLanes, some limits.fixedLanes, some x⟩ : LimitsDraft)) ?_
    exact .nil _
  rw [Limits.bytes_text]
  exact reads_scanRecord hmembers rfl

/-- The members of tuning as they are written. -/
def Tuning.members (tuning : Tuning) : List (String × Text) :=
  [("tile", decimal tuning.tile.toNat), ("thread_work", decimal tuning.laneWork.toNat)]

theorem Tuning.bytes_text (tuning : Tuning) : bytes tuning.text = objectText tuning.members := by
  have hfirst : bytes "\x7b\"tile\":" = 0x7b :: bytes (quoted "tile") ++ [0x3a] := by decide +kernel
  have hsecond : bytes ",\"thread_work\":" = 0x2c :: bytes (quoted "thread_work") ++ [0x3a] := by decide +kernel
  have hend : bytes "\x7d" = [0x7d] := by decide
  unfold Tuning.text Tuning.members
  simp only [bytes_append]
  rewrite [hfirst, hsecond, hend]
  simp only [objectText, memberText, decimal, List.append_assoc, List.cons_append, List.nil_append, List.flatMap_cons,
    List.flatMap_nil]

theorem Tuning.reads_text (tuning : Tuning) : Reads Tuning.scan (bytes tuning.text) tuning := by
  have hmembers : ReadsMembers Tuning.fields {} tuning.members ⟨some tuning.tile, some tuning.laneWork⟩ := by
    refine .cons _ rfl rfl ((reads_scanWord tuning.tile).map fun x => (⟨some x, none⟩ : TuningDraft)) ?_
    refine .cons _ rfl rfl
      ((reads_scanWord tuning.laneWork).map fun x => (⟨some tuning.tile, some x⟩ : TuningDraft)) ?_
    exact .nil _
  rw [Tuning.bytes_text]
  exact reads_scanRecord hmembers rfl

/-- The members of a configuration as they are written. -/
def Config.members (config : Config) : List (String × Text) :=
  [("version", bytes (quoted config.version)), ("limits", bytes config.limits.text),
    ("tuning", bytes config.tuning.text)]

theorem Config.bytes_text (config : Config) : bytes config.text = objectText config.members := by
  have hfirst : bytes "\x7b\"version\":" = 0x7b :: bytes (quoted "version") ++ [0x3a] := by decide +kernel
  have hsecond : bytes ",\"limits\":" = 0x2c :: bytes (quoted "limits") ++ [0x3a] := by decide +kernel
  have hthird : bytes ",\"tuning\":" = 0x2c :: bytes (quoted "tuning") ++ [0x3a] := by decide +kernel
  have hend : bytes "\x7d" = [0x7d] := by decide
  unfold Config.text Config.members
  simp only [bytes_append]
  rewrite [hfirst, hsecond, hthird, hend]
  simp only [objectText, memberText, List.append_assoc, List.cons_append, List.nil_append, List.flatMap_cons,
    List.flatMap_nil]

/-- The text of a configuration is read back. -/
theorem Config.reads_text (config : Config) : Reads Config.scan (bytes config.text) config := by
  have hmembers : ReadsMembers Config.fields {} config.members
      ⟨some config.version, some config.limits, some config.tuning⟩ := by
    refine .cons _ rfl rfl ((reads_quoted config.version).map fun x => (⟨some x, none, none⟩ : ConfigDraft)) ?_
    refine .cons _ rfl rfl
      (config.limits.reads_text.map fun x => (⟨some config.version, some x, none⟩ : ConfigDraft)) ?_
    refine .cons _ rfl rfl (config.tuning.reads_text.map fun x =>
      (⟨some config.version, some config.limits, some x⟩ : ConfigDraft)) ?_
    exact .nil _
  rw [Config.bytes_text]
  exact reads_scanRecord hmembers rfl

/-! ### Loading -/

/-- Reading the text of a configuration without judging it gives the configuration. -/
theorem Config.parse_text (config : Config) : Config.parse (bytes config.text) = .ok config :=
  config.reads_text.readWhole

/-- A configuration breaks a rule or none. -/
theorem Config.validate_eq_ok_or_refuse (config : Config) :
    config.validate = .ok () ∨ ∃ reason, config.validate = .refuse (.invalidConfig reason) := by
  rw [Config.validate]
  cases config.problem? with
  | none => exact .inl rfl
  | some problem => exact .inr ⟨problem.message, rfl⟩

/-- A configuration that is loaded from the file it was written to, for every version, all words and all sizes. One of the
known version comes back as it was if it is valid, and is refused as its validation refuses it if it is not, for a rule
that it breaks; one of any other version is refused for its version, which the refusal names, whatever else is wrong with
it. -/
theorem Config.load_text (config : Config) :
    Config.load (some (bytes config.text)) =
        (if config.version = Config.formatVersion then
          match config.validate with
          | .ok () => .ok config
          | .error failure => .error failure
        else .refuse (.configVersion config.version Config.formatVersion)) ∧
      (config.validate = .ok () ∨ ∃ reason, config.validate = .refuse (.invalidConfig reason)) := by
  refine ⟨?_, config.validate_eq_ok_or_refuse⟩
  rw [Config.load, Config.parse_text]
  simp only
  by_cases hversion : config.version = Config.formatVersion
  · rw [if_neg (not_not_intro hversion), if_pos hversion, Config.checked]
    cases config.validate <;> rfl
  · rw [if_pos hversion, if_neg hversion]

/-- A version of quotes, control characters and characters beyond ASCII, with the largest numbers. -/
example : Config.load (some (bytes ({
      version := "\"\\\x01\té☃"
      limits := { maxLanes := 4294967295, sharedBytes := 18446744073709551615 } } : Config).text)) =
    .refuse (.configVersion "\"\\\x01\té☃" "0.1") := by decide +kernel

end MergePathSort
