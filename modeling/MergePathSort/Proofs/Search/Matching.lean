import Mathlib.Algebra.GroupWithZero.Nat
import MergePathSort.Proofs.Chunk
import MergePathSort.Proofs.Key.Rank
import MergePathSort.Proofs.Outcome
import MergePathSort.Proofs.Tensor.Coordinates
import MergePathSort.Search

/-!
# Rows and their needles

A row that is partitioned by the question whether a key stands in front of a needle has all such keys at its front, so
the place of the needle is their number. A row in ascending order is partitioned by every needle. Needles are matched
with the rows of a haystack by the leading extents of their shapes, and the row of a needle lies in the haystack whenever
there is a needle at all.

## Main definitions

* `PartitionedBy` : lists that have the elements with a property at their front.
* `Matching.Mismatch`, `Matching.Matches` : shapes that cannot be matched, and the matching of those that can.
* `Matching.row`, `Matching.places` : the number of the row of a needle, and the places of all needles.

## Main results

* `insertionPoint_eq_countP`, `partitionedBy_of_ascending` : places in partitioned rows, and ascending rows.
* `Matching.ofShapes_eq_refuse`, `Matching.exists_ofShapes`, `Matching.matches_of_ofShapes` : when two shapes are matched.
* `Matching.search_eq_ok` : the places of all needles.
-/

namespace MergePathSort

/-! ### Partitioned rows -/

section Partitioned

variable {α : Type} {p : α → Bool}

/-- The elements with a property stand in front of those without it. -/
def PartitionedBy (p : α → Bool) (row : List α) : Prop := row.Pairwise fun a b => p b = true → p a = true

/-- The front of a partitioned list holds all elements with the property. -/
theorem PartitionedBy.length_takeWhile {row : List α} (h : PartitionedBy p row) :
    (row.takeWhile p).length = row.countP p := by
  induction row with
  | nil => rfl
  | cons a row ih =>
    obtain ⟨hfirst, hrest⟩ := List.pairwise_cons.mp h
    by_cases ha : p a = true
    · rw [List.takeWhile_cons_of_pos ha, List.countP_cons_of_pos ha, List.length_cons, ih hrest]
    · have hnone : row.countP p = 0 := List.countP_eq_zero.mpr fun b hb hpb => ha (hfirst b hb hpb)
      rw [List.takeWhile_cons_of_neg ha, List.countP_cons_of_neg ha, hnone, List.length_nil]

variable {κ : Type} [KeyOrder κ] {right : Bool} {needle : κ}

/-- The place of a needle in a partitioned row is the number of keys in front of it. -/
theorem insertionPoint_eq_countP {row : List κ} (h : PartitionedBy (standsBefore right · needle) row) :
    insertionPoint right row.toArray needle = row.countP (standsBefore right · needle) :=
  h.length_takeWhile

/-- A key stands in front of a needle if a key that is not less does. -/
theorem standsBefore_of_le [RankedOrder κ] {a b : κ} (hle : KeyOrder.le a b = true)
    (hb : standsBefore right b needle = true) : standsBefore right a needle = true := by
  obtain ⟨rank?, hrank⟩ := RankedOrder.exists_rank (κ := κ)
  rcases ha : rank? a with _ | x
  · simp [KeyOrder.le, hrank, ha] at hle
  rcases hb' : rank? b with _ | y
  · simp [KeyOrder.le, hrank, ha, hb'] at hle
  rcases hn : rank? needle with _ | z
  · cases right <;> simp [standsBefore, KeyOrder.le, KeyOrder.lt, hrank, hb', hn] at hb
  have hcompare : ∀ {c d : κ} {u v : Int}, rank? c = some u → rank? d = some v →
      KeyOrder.compare? c d = some (compare u v) := by
    intro c d u v hc hd
    rw [hrank, hc, hd]
  have hxy := (KeyOrder.le_iff_of_compare? (hcompare ha hb')).mp hle
  cases right with
  | true =>
    have hyz := (KeyOrder.le_iff_of_compare? (hcompare hb' hn)).mp hb
    exact (KeyOrder.le_iff_of_compare? (hcompare ha hn)).mpr (Int.le_trans hxy hyz)
  | false =>
    have hyz := (KeyOrder.lt_iff_of_compare? (hcompare hb' hn)).mp hb
    exact (KeyOrder.lt_iff_of_compare? (hcompare ha hn)).mpr (Int.lt_of_le_of_lt hxy hyz)

/-- A row in ascending order is partitioned by every needle. -/
theorem partitionedBy_of_ascending [RankedOrder κ] {row : List κ} (h : row.Pairwise (KeyOrder.le · · = true))
    (right : Bool) (needle : κ) : PartitionedBy (standsBefore right · needle) row :=
  h.imp fun hle hb => standsBefore_of_le hle hb

end Partitioned

/-! ### Matchings -/

namespace Matching

/-- Shapes that cannot be matched: the haystack has no axis, or it has several and the needles have not as many or
other leading extents. -/
def Mismatch (sorted values : List Nat) : Prop :=
  sorted.length = 0 ∨ 2 ≤ sorted.length ∧
    (values.length ≠ sorted.length ∨ values.take (sorted.length - 1) ≠ sorted.take (sorted.length - 1))

/-- The matching of two shapes. -/
inductive Matches : Matching → List Nat → List Nat → Prop where
  /-- A haystack of one axis serves all needles. -/
  | whole (rowLen : Nat) (values : List Nat) : Matches ⟨rowLen, values.prod, false, values.prod⟩ [rowLen] values
  /-- A row of a haystack with more axes serves the needles of one row. -/
  | rows (first : Nat) (leading : List Nat) (rowLen perRow : Nat) :
    Matches ⟨rowLen, perRow, true, ((first :: leading) ++ [perRow]).prod⟩ ((first :: leading) ++ [rowLen])
      ((first :: leading) ++ [perRow])

variable {matching : Matching} {sorted values : List Nat}

/-- Two shapes with a matching are no mismatch. -/
theorem Matches.not_mismatch (h : matching.Matches sorted values) : ¬Mismatch sorted values := by
  cases h with
  | whole rowLen values => simp [Mismatch]
  | rows first leading rowLen perRow => simp [Mismatch]

/-- The last extent of the haystack is the length of its rows. -/
theorem Matches.getLast?_eq (h : matching.Matches sorted values) : sorted.getLast? = some matching.rowLen := by
  cases h with
  | whole rowLen values => rfl
  | rows first leading rowLen perRow => exact List.getLast?_concat

/-- Shapes of more than one axis are matched if their leading extents are the same. -/
theorem ofShapes_append (first : Nat) (leading valuesLeading : List Nat) (rowLen perRow : Nat) {total : Nat}
    (hcount : Size.product (valuesLeading ++ [perRow]) = .ok total) :
    ofShapes ((first :: leading) ++ [rowLen]) (valuesLeading ++ [perRow]) =
      if first :: leading = valuesLeading then .ok ⟨rowLen, perRow, true, total⟩
      else .refuse (.searchShapeMismatch ((first :: leading) ++ [rowLen]) (valuesLeading ++ [perRow])) := by
  obtain ⟨x, xs, hreverse⟩ : ∃ x xs, (first :: leading).reverse = x :: xs :=
    List.exists_cons_of_ne_nil (by simp)
  have hsame : x :: xs = valuesLeading.reverse ↔ first :: leading = valuesLeading := by
    rw [← hreverse, List.reverse_inj]
  rw [ofShapes, hcount, Outcome.ok_bind, List.reverse_append, List.reverse_append, hreverse]
  simp only [List.reverse_singleton, List.singleton_append, hsame, Outcome.pure_eq_ok]

/-- Two shapes are matched or refused, as long as the needles can be counted. -/
theorem ofShapes_cases (sorted : List Nat) (hcount : Size.product values = .ok values.prod) :
    (∃ matching, ofShapes sorted values = .ok matching ∧ matching.Matches sorted values) ∨
      ofShapes sorted values = .refuse (.searchShapeMismatch sorted values) ∧ Mismatch sorted values := by
  rcases List.eq_nil_or_concat sorted with rfl | ⟨leading, rowLen, rfl⟩
  · rw [ofShapes, hcount]
    exact .inr ⟨rfl, .inl rfl⟩
  rw [List.concat_eq_append]
  cases leading with
  | nil =>
    rw [ofShapes, hcount]
    exact .inl ⟨_, rfl, .whole rowLen values⟩
  | cons first leading =>
    rcases List.eq_nil_or_concat values with rfl | ⟨valuesLeading, perRow, rfl⟩
    · refine .inr ⟨?_, .inr ⟨by simp, .inl (by simp)⟩⟩
      obtain ⟨x, xs, hreverse⟩ : ∃ x xs, (first :: leading).reverse = x :: xs :=
        List.exists_cons_of_ne_nil (by simp)
      rw [ofShapes, hcount, Outcome.ok_bind, List.reverse_append, hreverse]
      rfl
    · rw [List.concat_eq_append] at hcount ⊢
      rw [ofShapes_append first leading valuesLeading rowLen perRow hcount]
      by_cases hsame : first :: leading = valuesLeading
      · subst hsame
        exact .inl ⟨_, if_pos rfl, .rows first leading rowLen perRow⟩
      · refine .inr ⟨if_neg hsame, .inr ⟨by simp, ?_⟩⟩
        by_cases hlen : valuesLeading.length = (first :: leading).length
        · refine .inr fun htake => hsame ?_
          rw [List.length_append, List.length_singleton, Nat.add_sub_cancel, List.take_left' rfl,
            List.take_left' hlen] at htake
          exact htake.symm
        · exact .inl (by simpa using hlen)

/-- Two shapes that have been matched match. -/
theorem matches_of_ofShapes (h : ofShapes sorted values = .ok matching) : matching.Matches sorted values := by
  obtain ⟨total, htotal, -⟩ := Outcome.bind_eq_ok_iff.mp h
  obtain ⟨rfl, -⟩ := Size.product_eq_ok htotal
  rcases ofShapes_cases sorted htotal with ⟨matching', hmatching, hmatches⟩ | ⟨hrefused, -⟩
  · obtain rfl : matching = matching' := Except.ok.inj (h.symm.trans hmatching)
    exact hmatches
  · rw [hrefused] at h
    exact absurd h (Outcome.refuse_ne_ok _ _)

/-- Shapes that cannot be matched are refused. -/
theorem ofShapes_eq_refuse (hcount : Size.product values = .ok values.prod) (h : Mismatch sorted values) :
    ofShapes sorted values = .refuse (.searchShapeMismatch sorted values) := by
  rcases ofShapes_cases sorted hcount with ⟨matching, -, hmatches⟩ | ⟨hrefused, -⟩
  · exact absurd h hmatches.not_mismatch
  · exact hrefused

/-- Shapes that can be matched are. -/
theorem exists_ofShapes (hcount : Size.product values = .ok values.prod) (h : ¬Mismatch sorted values) :
    ∃ matching, ofShapes sorted values = .ok matching ∧ matching.Matches sorted values := by
  rcases ofShapes_cases sorted hcount with hmatched | ⟨-, hmismatch⟩
  · exact hmatched
  · exact absurd hmismatch h

/-! ### Searching -/

/-- The number of the row of a needle. -/
def row (matching : Matching) (needle : Nat) : Nat := if matching.batched then needle / matching.perRow else 0

/-- The row of a needle lies in the haystack. -/
theorem Matches.row_inside (h : matching.Matches sorted values) {needle : Nat} (hneedle : needle < values.prod) :
    matching.row needle * matching.rowLen + matching.rowLen ≤ sorted.prod := by
  cases h with
  | whole rowLen values => simp [row]
  | rows first leading rowLen perRow =>
    rw [List.prod_append, List.prod_singleton] at hneedle
    have hrow : needle / perRow < (first :: leading).prod := by
      refine (Nat.div_lt_iff_lt_mul (Nat.pos_of_ne_zero ?_)).mpr hneedle
      rintro rfl
      simp at hneedle
    have hrows : (first :: leading ++ [rowLen]).prod = (first :: leading).prod * rowLen := by
      rw [List.prod_append, List.prod_singleton]
    rw [row, if_pos rfl, ← Nat.succ_mul, hrows]
    exact Nat.mul_le_mul_right rowLen hrow

/-- One row serves no more needles than there are. -/
theorem Matches.perRow_le (h : matching.Matches sorted values) (hne : values.prod ≠ 0) :
    matching.perRow ≤ values.prod := by
  cases h with
  | whole rowLen values => exact Nat.le_refl _
  | rows first leading rowLen perRow =>
    rw [List.prod_append, List.prod_singleton] at hne ⊢
    exact Nat.le_mul_of_pos_left perRow (Nat.pos_of_ne_zero (mul_ne_zero_iff.mp hne).1)

/-- Where the row of a needle starts. -/
theorem Matches.rowStart_eq_ok (h : matching.Matches sorted values) {needle : Nat} (hneedle : needle < values.prod)
    (hlimit : sorted.prod < Size.limit) :
    matching.rowStart needle = .ok (matching.row needle * matching.rowLen) := by
  have hinside := h.row_inside hneedle
  cases h with
  | whole rowLen values => simp [rowStart, row]
  | rows first leading rowLen perRow =>
    have hperRow : 0 < perRow := by
      refine Nat.pos_of_ne_zero ?_
      rintro rfl
      simp at hneedle
    rw [rowStart, if_pos ⟨rfl, hperRow⟩, Size.mul_eq_ok_iff]
    exact ⟨by rw [row, if_pos rfl] at hinside; omega, rfl⟩

section Places

variable {κ : Type} [KeyOrder κ]

/-- The places of all needles: each is placed in the row that it is matched with. -/
def places (matching : Matching) (haystack needles : Array κ) (right : Bool) : Array Nat :=
  (needles.toList.zipIdx.map fun (value, needle) =>
    insertionPoint right (chunk matching.rowLen haystack.toList (matching.row needle)).toArray value).toArray

@[simp]
theorem size_places (matching : Matching) (haystack needles : Array κ) (right : Bool) :
    (matching.places haystack needles right).size = needles.size := by
  simp [places]

variable {haystack needles : Array κ} {right : Bool} {needle : Nat} {value : κ}

/-- The place of a needle. -/
theorem getElem?_places (h : needles[needle]? = some value) : (matching.places haystack needles right)[needle]? =
    some (insertionPoint right (chunk matching.rowLen haystack.toList (matching.row needle)).toArray value) := by
  simp [places, List.getElem?_zipIdx, h]

/-- A needle is placed in its row or behind it. -/
theorem insertionPoint_le (right : Bool) (row : Array κ) (value : κ) : insertionPoint right row value ≤ row.size :=
  (List.takeWhile_sublist _).length_le

/-- No place lies behind the end of a row, or of the haystack. -/
theorem le_of_mem_places {place : Nat} (h : place ∈ matching.places haystack needles right) :
    place ≤ matching.rowLen ∧ place ≤ haystack.size := by
  obtain ⟨⟨value, needle⟩, -, rfl⟩ := List.mem_map.mp (List.mem_toArray.mp h)
  have hle := insertionPoint_le right (chunk matching.rowLen haystack.toList (matching.row needle)).toArray value
  rw [List.size_toArray, length_chunk, Array.length_toList, Nat.le_min] at hle
  exact ⟨hle.1, Nat.le_trans hle.2 (Nat.sub_le _ _)⟩

/-- Without keys in front of which they could stand, all needles are placed at zero. -/
theorem places_of_isEmpty (h : needles.size = 0 ∨ haystack.size = 0 ∨ matching.rowLen = 0) (right : Bool) :
    matching.places haystack needles right = Array.replicate needles.size 0 := by
  refine Array.eq_replicate_iff.mpr ⟨size_places .., fun place hplace => ?_⟩
  have hle := le_of_mem_places hplace
  have hnonempty := Array.size_pos_of_mem hplace
  rw [size_places] at hnonempty
  omega

/-- The search finds the places of all needles. -/
theorem Matches.search_eq_ok (h : matching.Matches sorted values) (hhaystack : haystack.size = sorted.prod)
    (hneedles : needles.size = values.prod) (hlimit : haystack.size < Size.limit) (right : Bool) :
    matching.search haystack needles right = .ok (matching.places haystack needles right) := by
  rw [search]
  refine Outcome.bind_eq_ok_iff.mpr ⟨_, Outcome.mapM_eq_ok fun (value, needle) hmem => ?_, rfl⟩
  have hneedle : needle < values.prod := by
    have hlt := List.snd_lt_of_mem_zipIdx hmem
    rwa [Array.length_toList, hneedles, Nat.add_zero] at hlt
  have hinside := h.row_inside hneedle
  have hend : Size.add (matching.row needle * matching.rowLen) matching.rowLen =
      .ok (matching.row needle * matching.rowLen + matching.rowLen) := Size.add_of_lt (by omega)
  have hslice : Buffer.slice haystack (matching.row needle * matching.rowLen) matching.rowLen =
      .ok (chunk matching.rowLen haystack.toList (matching.row needle)).toArray := by
    rw [Buffer.slice, if_pos (by omega), extract_eq_chunk]
  simp only [h.rowStart_eq_ok hneedle (hhaystack ▸ hlimit), hend, hslice, Outcome.ok_bind, Outcome.pure_eq_ok]

end Places

end Matching

end MergePathSort
