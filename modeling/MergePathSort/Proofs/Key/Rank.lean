import MergePathSort.Key.Element

/-!
# Ranks of keys

The keys of every element type are ordered by an integer rank, which NaN lacks (`RankedOrder`). As long as the keys
of a row are pairwise comparable, a direction of sorting is nothing but an integer for every key: keys may stand in
front of each other as their integers do (`Direction.Ranks`). The proofs about sorted data work with such integers.

An index type is faithful if it holds every position that can occur along a sorted axis (`FaithfulIndex`).

## Main definitions

* `RankedOrder`, `KeyOrder.Comparable` : orders by rank, and keys without NaN among them.
* `Direction.Ranks` : integers that order keys as a direction does.
* `FaithfulIndex` : index types that hold positions exactly.
-/

namespace MergePathSort

/-- The order of a key type is that of an integer rank; keys without a rank are unordered to every key. -/
class RankedOrder (κ : Type) [KeyOrder κ] : Prop where
  /-- The rank orders the keys. -/
  exists_rank : ∃ rank? : κ → Option Int, ∀ a b : κ, KeyOrder.compare? a b =
    match rank? a, rank? b with
    | some x, some y => some (compare x y)
    | _, _ => none

instance : RankedOrder Int8 := ⟨fun x => some x.toInt, fun _ _ => rfl⟩
instance : RankedOrder Int16 := ⟨fun x => some x.toInt, fun _ _ => rfl⟩
instance : RankedOrder Int32 := ⟨fun x => some x.toInt, fun _ _ => rfl⟩
instance : RankedOrder Int64 := ⟨fun x => some x.toInt, fun _ _ => rfl⟩
instance : RankedOrder UInt8 := ⟨fun x => some x.toNat, fun _ _ => rfl⟩
instance : RankedOrder UInt16 := ⟨fun x => some x.toNat, fun _ _ => rfl⟩
instance : RankedOrder UInt32 := ⟨fun x => some x.toNat, fun _ _ => rfl⟩
instance : RankedOrder UInt64 := ⟨fun x => some x.toNat, fun _ _ => rfl⟩
instance : RankedOrder Binary32 := ⟨Binary32.rank?, fun _ _ => rfl⟩
instance : RankedOrder Binary64 := ⟨Binary64.rank?, fun _ _ => rfl⟩

section Ranks

variable {κ : Type} [KeyOrder κ]

/-- Any two of the keys are ordered: none of them is NaN. -/
def KeyOrder.Comparable (keys : List κ) : Prop :=
  ∀ a ∈ keys, ∀ b ∈ keys, (KeyOrder.compare? a b).isSome

/-- A rank orders the keys as the direction does: keys stand in order of their ranks, and keys of one rank are
equal. -/
structure Direction.Ranks (direction : Direction) (keys : List κ) (rank : κ → Int) : Prop where
  /-- A key may stand before another if its rank is not greater. -/
  mayPrecede_iff : ∀ a ∈ keys, ∀ b ∈ keys, (direction.mayPrecede a b = true ↔ rank a ≤ rank b)
  /-- Two keys stand the wrong way round if the second has the lesser rank. -/
  misplaced_iff : ∀ a ∈ keys, ∀ b ∈ keys, (direction.misplaced a b = true ↔ rank b < rank a)
  /-- Keys of one rank are equal. -/
  equal_iff : ∀ a ∈ keys, ∀ b ∈ keys, (KeyOrder.compare? a b = some .eq ↔ rank a = rank b)

section OfRank

variable {a b : κ} {x y : Int}

/-- A key with a rank is less than or equal to another if its rank is. -/
theorem KeyOrder.le_iff_of_compare? (h : KeyOrder.compare? a b = some (compare x y)) :
    KeyOrder.le a b = true ↔ x ≤ y := by
  rw [KeyOrder.le, h]
  rcases hcmp : compare x y
  · simp [Int.le_of_lt (Int.compare_eq_lt.mp hcmp)]
  · simp [Int.compare_eq_eq.mp hcmp]
  · simp [Int.not_le.mpr (Int.compare_eq_gt.mp hcmp)]

/-- A key with a rank is less than another if its rank is. -/
theorem KeyOrder.lt_iff_of_compare? (h : KeyOrder.compare? a b = some (compare x y)) :
    KeyOrder.lt a b = true ↔ x < y := by
  rw [KeyOrder.lt, h, ← Int.compare_eq_lt]
  rcases compare x y <;> simp

/-- A key with a rank is greater than another if its rank is. -/
theorem KeyOrder.gt_iff_of_compare? (h : KeyOrder.compare? a b = some (compare x y)) :
    KeyOrder.gt a b = true ↔ y < x := by
  rw [KeyOrder.gt, h, ← Int.compare_eq_gt]
  rcases compare x y <;> simp

end OfRank

/-- Comparable keys have ranks for every direction. -/
theorem KeyOrder.Comparable.exists_ranks [RankedOrder κ] {keys : List κ} (h : KeyOrder.Comparable keys)
    (direction : Direction) : ∃ rank : κ → Int, direction.Ranks keys rank := by
  obtain ⟨rank?, hrank⟩ := RankedOrder.exists_rank (κ := κ)
  -- A comparable key has a rank, as it is comparable to itself.
  have hget : ∀ a ∈ keys, rank? a = some ((rank? a).getD 0) := by
    intro a ha
    have hself := h a ha a ha
    rw [hrank] at hself
    rcases hx : rank? a with _ | x
    · simp [hx] at hself
    · rfl
  have hcompare : ∀ a ∈ keys, ∀ b ∈ keys,
      KeyOrder.compare? a b = some (compare ((rank? a).getD 0) ((rank? b).getD 0)) := by
    intro a ha b hb
    rw [hrank, hget a ha, hget b hb]
    rfl
  cases direction with
  | ascending =>
    refine ⟨fun a => (rank? a).getD 0, ⟨fun a ha b hb => ?_, fun a ha b hb => ?_, fun a ha b hb => ?_⟩⟩
    · exact KeyOrder.le_iff_of_compare? (hcompare a ha b hb)
    · exact KeyOrder.gt_iff_of_compare? (hcompare a ha b hb)
    · rw [hcompare a ha b hb, Option.some.injEq, Int.compare_eq_eq]
  | descending =>
    refine ⟨fun a => -(rank? a).getD 0, ⟨fun a ha b hb => ?_, fun a ha b hb => ?_, fun a ha b hb => ?_⟩⟩
    · rw [Int.neg_le_neg_iff]
      exact KeyOrder.le_iff_of_compare? (hcompare b hb a ha)
    · rw [Int.neg_lt_neg_iff]
      exact KeyOrder.lt_iff_of_compare? (hcompare a ha b hb)
    · rw [hcompare a ha b hb, Option.some.injEq, Int.compare_eq_eq, Int.neg_inj]

end Ranks

/-! ### Index types -/

/-- An index type that holds positions exactly, up to its largest one, and every position below `2 ^ 31`. -/
class FaithfulIndex (ι : Type) [IndexElement ι] : Prop where
  /-- A position that fits is read back. -/
  toNumber_ofPosition : ∀ p ≤ IndexElement.maxPosition ι, Element.toNumber (IndexElement.ofPosition p : ι) = p
  /-- Every position below `2 ^ 31` fits. -/
  le_maxPosition : 2147483647 ≤ IndexElement.maxPosition ι

instance : FaithfulIndex Int32 where
  toNumber_ofPosition p hp := Int32.toInt_ofNat_of_lt (Nat.lt_succ_of_le hp)
  le_maxPosition := by decide

instance : FaithfulIndex Int64 where
  toNumber_ofPosition p hp := Int64.toInt_ofNat_of_lt (Nat.lt_succ_of_le hp)
  le_maxPosition := by decide

instance : FaithfulIndex UInt32 where
  toNumber_ofPosition p hp := congrArg Nat.cast (UInt32.toNat_ofNat_of_lt' (Nat.lt_succ_of_le hp))
  le_maxPosition := by decide

instance : FaithfulIndex UInt64 where
  toNumber_ofPosition p hp := congrArg Nat.cast (UInt64.toNat_ofNat_of_lt' (Nat.lt_succ_of_le hp))
  le_maxPosition := by decide

end MergePathSort
