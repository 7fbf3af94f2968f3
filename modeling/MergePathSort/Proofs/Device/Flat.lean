import MergePathSort.Proofs.Device.Groups
import MergePathSort.Proofs.Host.Copies

/-!
# Rows in flat buffers

A device keeps all rows of a side in one buffer, one row after the other. A flat buffer is described by the same lists
of tagged keys as a row; its rows are its chunks.

## Main definitions

* `TaggedRow.rowAt`, `TaggedRow.ofRows` : one row of flat buffers, and flat buffers put together from rows.
-/

namespace MergePathSort

variable {κ ι : Type}

namespace TaggedRow

/-- One of the rows of flat buffers. -/
def rowAt (axisLen : Nat) (flat : TaggedRow κ ι) (number : Nat) : TaggedRow κ ι := flat.map (chunk axisLen · number)

/-- Rows, put one after the other. -/
def ofRows (count : Nat) (rows : Nat → TaggedRow κ ι) : TaggedRow κ ι :=
  ⟨(List.range count).flatMap (rows · |>.front), (List.range count).flatMap (rows · |>.back)⟩

variable {axisLen count number : Nat} {flat : TaggedRow κ ι} {rows : Nat → TaggedRow κ ι}

theorem get_ofRows (count : Nat) (rows : Nat → TaggedRow κ ι) (side : Side) :
    (ofRows count rows).get side = (List.range count).flatMap fun number => (rows number).get side := by
  cases side <;> rfl

theorem HasLength.ofRows (h : ∀ number < count, (rows number).HasLength axisLen) :
    (ofRows count rows).HasLength (count * axisLen) :=
  ⟨length_flatMap_of_length fun number hnumber => (h number hnumber).front,
    length_flatMap_of_length fun number hnumber => (h number hnumber).back⟩

/-- The rows of flat buffers that are put together from rows are these. -/
theorem chunk_get_ofRows (h : ∀ number < count, (rows number).HasLength axisLen) (side : Side) (hnumber : number < count) :
    chunk axisLen ((ofRows count rows).get side) number = (rows number).get side := by
  rw [get_ofRows]
  exact chunk_flatMap_of_length (fun k hk => (h k hk).get side) hnumber

/-- What is made of every row of a side, put together. -/
theorem flatMap_chunk_get_ofRows (h : ∀ number < count, (rows number).HasLength axisLen) (side : Side) {α : Type}
    (result : List (κ × Tag ι) → List α) :
    ((List.range count).flatMap fun number => result (chunk axisLen ((ofRows count rows).get side) number)) =
      (List.range count).flatMap fun number => result ((rows number).get side) :=
  flatMap_range_congr fun number hnumber => by rw [chunk_get_ofRows h side hnumber]

theorem HasLength.rowAt (h : flat.HasLength (count * axisLen)) (hnumber : number < count) :
    (flat.rowAt axisLen number).HasLength axisLen :=
  ⟨length_chunk_of_length h.front hnumber, length_chunk_of_length h.back hnumber⟩

/-- Flat buffers are put together from their rows. -/
theorem ofRows_rowAt (h : flat.HasLength (count * axisLen)) : ofRows count (flat.rowAt axisLen) = flat := by
  have hfront := flatMap_chunk axisLen count flat.front
  have hback := flatMap_chunk axisLen count flat.back
  rw [List.take_of_length_le (Nat.le_of_eq h.front)] at hfront
  rw [List.take_of_length_le (Nat.le_of_eq h.back)] at hback
  calc ofRows count (flat.rowAt axisLen)
      = ⟨(List.range count).flatMap (chunk axisLen flat.front), (List.range count).flatMap (chunk axisLen flat.back)⟩ :=
        rfl
    _ = flat := by rw [hfront, hback]

end TaggedRow

end MergePathSort
