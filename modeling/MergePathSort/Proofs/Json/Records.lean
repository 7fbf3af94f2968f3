import MergePathSort.Json.Record
import MergePathSort.Proofs.Json.Numbers

/-!
# Written records are read back

A record is written as an object of members, one for each field. It is read back member by member: every key leads to
its field, which has not been read before, and what the field reads goes into the record. `ReadsMembers` says this of a
list of members, from the record before the first of them to the record behind the last, and the object is read along it.

## Main definitions

* `Reads` : a scan reads a value wherever a value may stand.
* `objectText` : an object as it is written.
* `ReadsMembers` : the members of an object, read into a record.

## Main results

* `reads_quoted`, `reads_decimal` : strings and numbers.
* `reads_scanRecord` : a record that is written as an object.
-/

namespace MergePathSort.Json

/-- A scan reads a value, whatever follows it. -/
def Reads {α : Type} (scan : Scan α) (written : Text) (x : α) : Prop :=
  ∀ text, EndsValue text → scan (written ++ text) = .ok (x, text)

/-! ### Scalars -/

theorem reads_quoted (s : String) : Reads scanText (bytes (quoted s)) s := by
  intro text _
  rw [bytes_quoted, List.cons_append, List.append_assoc]
  exact scanCharacters_escape s text

theorem reads_decimal {limit n : Nat} (hn : n < limit) (hlimit : limit ≤ Numeral.significandLimit) :
    Reads (scanNatural limit) (decimal n) n :=
  fun _ htext => scanNatural_decimal hn hlimit htext

/-! ### Objects -/

/-- A member of an object as it is written: its key and its value. -/
def memberText (member : String × Text) : Text := bytes (quoted member.1) ++ 0x3a :: member.2

/-- An object as it is written, without blanks. -/
def objectText : List (String × Text) → Text
  | [] => [0x7b, 0x7d]
  | member :: members => 0x7b :: memberText member ++ members.flatMap (fun m => 0x2c :: memberText m) ++ [0x7d]

variable {ρ α : Type} {fields : List (Field ρ)}

/-- The members of an object lead from one record to another: each one to its field, which has not been read yet. -/
inductive ReadsMembers (fields : List (Field ρ)) : ρ → List (String × Text) → ρ → Prop
  /-- There are no members left. -/
  | nil (record : ρ) : ReadsMembers fields record [] record
  /-- A member is read, and then the others. -/
  | cons {record next last : ρ} {key : String} {value : Text} {members : List (String × Text)} (field : Field ρ)
      (hfield : fields.find? (fun field => field.key == key) = some field) (hfree : field.isSet record = false)
      (hreads : Reads (field.scan record) value next) (hmembers : ReadsMembers fields next members last) :
      ReadsMembers fields record ((key, value) :: members) last

/-- What follows a member: the others, or the closing bracket. -/
theorem endsValue_members (members : List (String × Text)) (text : Text) :
    EndsValue (members.flatMap (fun m => 0x2c :: memberText m) ++ 0x7d :: text) := by
  cases members with
  | nil =>
    rintro _ ⟨⟩
    exact .inr rfl
  | cons member members =>
    rintro _ ⟨⟩
    exact .inl rfl

/-- A member is read, from its opening quote on. -/
theorem scanMember_memberText {record next : ρ} {key : String} {value : Text} {field : Field ρ}
    (hfield : fields.find? (fun field => field.key == key) = some field) (hfree : field.isSet record = false)
    (hreads : Reads (field.scan record) value next) {text : Text} (htext : EndsValue text) :
    ∃ rest, memberText (key, value) ++ text = 0x22 :: rest ∧ scanMember fields record rest = .ok (next, text) := by
  refine ⟨(key.toList.flatMap escape).flatMap String.utf8EncodeChar ++ 0x22 :: 0x3a :: (value ++ text), ?_, ?_⟩
  · simp [memberText, bytes_quoted]
  · have hcolon : colon (0x3a :: (value ++ text)) = .ok (value ++ text) := rfl
    simp only [scanMember, scanCharacters_escape, ok_bind, hfield, hfree, Bool.false_eq_true, if_false, hcolon]
    exact hreads text htext

/-- The next member of an object. -/
theorem scanMembers_next {record next : ρ} {rest text : Text} (hscan : scanMember fields record rest = .ok (next, text))
    (budget : Nat) :
    scanMembers fields (budget + 1) true record (0x22 :: rest) = scanMembers fields budget false next text ∧
      scanMembers fields (budget + 1) false record (0x2c :: 0x22 :: rest) =
        scanMembers fields budget false next text := by
  have hread : (scanMember fields record rest >>= fun scanned => scanMembers fields budget false scanned.1 scanned.2) =
      scanMembers fields budget false next text := by
    rw [hscan, ok_bind]
  exact ⟨hread, hread⟩

/-- All members behind the first one are read, and the end of the object. -/
theorem scanMembers_rest {record last : ρ} {members : List (String × Text)} (h : ReadsMembers fields record members last)
    {budget : Nat} (hbudget : members.length < budget) (text : Text) :
    scanMembers fields budget false record (members.flatMap (fun m => 0x2c :: memberText m) ++ 0x7d :: text) =
      .ok (last, text) := by
  induction h generalizing budget with
  | nil record =>
    obtain ⟨budget, rfl⟩ := Nat.exists_eq_add_one_of_ne_zero (Nat.ne_of_gt hbudget)
    rfl
  | cons field hfield hfree hreads hmembers ih =>
    obtain ⟨budget, rfl⟩ := Nat.exists_eq_add_one_of_ne_zero (Nat.ne_of_gt (Nat.zero_lt_of_lt hbudget))
    obtain ⟨rest, hwritten, hscan⟩ := scanMember_memberText hfield hfree hreads (endsValue_members _ text)
    rw [List.flatMap_cons, List.cons_append, List.cons_append, List.append_assoc, hwritten,
      (scanMembers_next hscan budget).2]
    exact ih (Nat.lt_of_succ_lt_succ hbudget)

/-- Every member takes at least one byte. -/
theorem length_le_length_members (members : List (String × Text)) :
    members.length ≤ (members.flatMap fun m => 0x2c :: memberText m).length := by
  induction members with
  | nil => exact Nat.le_refl 0
  | cons member members ih =>
    rw [List.flatMap_cons, List.length_append, List.length_cons, List.length_cons]
    omega

/-- An object is read as a record once its members are. -/
theorem scanRecord_object {start last : ρ} {rest text : Text} {finish : ρ → Option α} {x : α}
    (hmembers : scanMembers fields (rest.length + 1) true start rest = .ok (last, text)) (hfinish : finish last = some x) :
    scanRecord fields start finish (0x7b :: rest) = .ok (x, text) := by
  have hskip : skipBlanks (0x7b :: rest) = 0x7b :: rest := rfl
  have hbracket : ¬(0x7b : UInt8) = 0x5b := by decide
  rw [scanRecord]
  simp only [hskip, if_neg hbracket, if_true, hmembers, ok_bind, hfinish]
  rfl

/-- A record that is written as an object is read back. -/
theorem reads_scanRecord {start last : ρ} {key : String} {value : Text} {members : List (String × Text)}
    (h : ReadsMembers fields start ((key, value) :: members) last) {finish : ρ → Option α} {x : α}
    (hfinish : finish last = some x) : Reads (scanRecord fields start finish) (objectText ((key, value) :: members)) x := by
  intro text _
  cases h with
  | cons field hfield hfree hreads hmembers =>
    obtain ⟨rest, hwritten, hscan⟩ := scanMember_memberText hfield hfree hreads (endsValue_members members text)
    have hobject : objectText ((key, value) :: members) ++ text = 0x7b :: 0x22 :: rest := by
      rw [objectText, ← hwritten]
      simp
    have hbudget : members.length < (0x22 :: rest).length := by
      have hcount := length_le_length_members members
      rw [← hwritten, List.length_append, List.length_append, List.length_cons]
      omega
    rw [hobject]
    refine scanRecord_object ?_ hfinish
    rw [(scanMembers_next hscan _).1, scanMembers_rest hmembers hbudget text]

end MergePathSort.Json
