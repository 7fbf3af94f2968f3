import MergePathSort.Key.Element
import MergePathSort.Lanes.Cells
import MergePathSort.Lanes.DoubleBuffer
import MergePathSort.Proofs.Outcome

/-!
# Buffers as lists of tagged keys

A buffer of cells is described by the list of its keys, each with a tag: the tag says which index travels with the
key. If indices are not tracked the tags are there all the same, as ghosts, so that a sort with and without indices
moves the same tagged keys, and where a key came from can be said in both. All access to a buffer is access to the list.

A loop that writes a buffer from the front is described by an `overlay`: what it has written so far, and behind that
the entries that were there before. Where entries are written in no fixed order, all that is said is that a list *improves*:
it is right wherever it was, if a target tells what is right.

## Main definitions

* `Tag`, `numbered` : what travels with a key, and keys with their positions.
* `Cells.ofTagged` : the buffer of a list of tagged keys.
* `overlay` : a list whose first entries are replaced.
* `Improves` : what was right has stayed so.
-/

namespace MergePathSort

namespace Buffer

variable {α : Type}

theorem read_toArray {xs : List α} {p : Nat} (h : p < xs.length) : read xs.toArray p = .ok xs[p] := by
  simp [read, h]

theorem write_toArray {xs : List α} {p : Nat} (h : p < xs.length) (x : α) :
    write xs.toArray p x = .ok (xs.set p x).toArray := by
  simp [write, h]

theorem exchange_toArray {xs : List α} {i j : Nat} (hi : i < xs.length) (hj : j < xs.length) :
    exchange xs.toArray i j = .ok ((xs.set i xs[j]).set j xs[i]).toArray := by
  simp [exchange, hi, hj, Array.swap]

end Buffer

/-- What travels with a key: its position in the source row, or an index that was in the buffer before. -/
inductive Tag (ι : Type) where
  /-- The key's position in its source row. -/
  | position (p : Nat)
  /-- An index that was there before. -/
  | given (index : ι)

/-- The index of a tag. -/
def Tag.index {ι : Type} [IndexElement ι] : Tag ι → ι
  | .position p => IndexElement.ofPosition p
  | .given index => index

/-- The position of a tag. -/
def Tag.position? {ι : Type} : Tag ι → Option Nat
  | .position p => some p
  | .given _ => none

/-- Keys, tagged with their positions. -/
def numbered {κ ι : Type} (keys : List κ) : List (κ × Tag ι) := keys.mapIdx fun p key => (key, .position p)

@[simp]
theorem length_numbered {κ ι : Type} (keys : List κ) : (numbered keys : List (κ × Tag ι)).length = keys.length := by
  simp [numbered]

@[simp]
theorem map_fst_numbered {κ ι : Type} (keys : List κ) : (numbered keys : List (κ × Tag ι)).map Prod.fst = keys :=
  List.ext_getElem (by simp) fun n _ _ => by simp [numbered]

namespace Cells

variable {κ ι : Type} [IndexElement ι]

/-- The buffer of a list of tagged keys. -/
def ofTagged (tracked : Bool) (cells : List (κ × Tag ι)) : Cells κ ι where
  keys := (cells.map Prod.fst).toArray
  indices := if tracked then some (cells.map (·.2.index)).toArray else none

/-- The cell of a tagged key. -/
def cellOf (tracked : Bool) (cell : κ × Tag ι) : Cell κ ι :=
  (cell.1, if tracked then some cell.2.index else none)

variable {tracked : Bool} {cells : List (κ × Tag ι)}

theorem read_keys_ofTagged {p : Nat} (h : p < cells.length) :
    Buffer.read (ofTagged tracked cells).keys p = .ok cells[p].1 := by
  rw [ofTagged, Buffer.read_toArray (by simpa using h), List.getElem_map]

@[simp]
theorem size_keys_ofTagged : (ofTagged tracked cells).keys.size = cells.length := by
  simp [ofTagged]

theorem fetch_ofTagged {p : Nat} (h : p < cells.length) :
    (ofTagged tracked cells).fetch p = .ok (cellOf tracked cells[p]) := by
  cases tracked <;> simp [ofTagged, fetch, cellOf, Buffer.read_toArray, h]

/-- Storing the cell of a tagged key. -/
theorem store_ofTagged {p : Nat} (h : p < cells.length) (cell : κ × Tag ι) :
    (ofTagged tracked cells).store p (cellOf tracked cell) = .ok (ofTagged tracked (cells.set p cell)) := by
  cases tracked <;> simp [ofTagged, store, cellOf, Buffer.write_toArray, h, List.map_set]

/-- Storing a key with an index. A buffer without indices takes the key alone. -/
theorem store_some_ofTagged {p : Nat} (h : p < cells.length) (cell : κ × Tag ι) :
    (ofTagged tracked cells).store p (cell.1, some cell.2.index) = .ok (ofTagged tracked (cells.set p cell)) := by
  cases tracked <;> simp [ofTagged, store, Buffer.write_toArray, h, List.map_set]

/-- Exchanging two cells. -/
theorem exchange_ofTagged {i j : Nat} (hi : i < cells.length) (hj : j < cells.length) :
    (ofTagged tracked cells).exchange i j = .ok (ofTagged tracked ((cells.set i cells[j]).set j cells[i])) := by
  cases tracked <;> simp [ofTagged, exchange, Buffer.exchange_toArray, hi, hj, List.map_set]

/-- Exchanging two neighbours. -/
theorem exchange_neighbours (done : List (κ × Tag ι)) (a b : κ × Tag ι) (rest : List (κ × Tag ι)) :
    (ofTagged tracked (done ++ a :: b :: rest)).exchange done.length (done.length + 1) =
      .ok (ofTagged tracked (done ++ b :: a :: rest)) := by
  have hfirst : done.length < (done ++ a :: b :: rest).length := by simp
  have hsecond : done.length + 1 < (done ++ a :: b :: rest).length := by simp
  rw [exchange_ofTagged hfirst hsecond]
  simp [List.getElem_append_right]

/-- Loading a cell of a buffer whose indices are moved if they are tracked. -/
theorem load_ofTagged (tracked : Bool) (cells : List (κ × Tag ι)) (p : Nat) :
    (ofTagged tracked cells).load tracked p = (ofTagged tracked cells).fetch p := by
  cases tracked <;> rfl

/-- Exchanging two cells of a buffer whose indices are moved if they are tracked. -/
theorem swap_ofTagged (tracked : Bool) (cells : List (κ × Tag ι)) (i j : Nat) :
    (ofTagged tracked cells).swap tracked i j = (ofTagged tracked cells).exchange i j := by
  cases tracked <;> rfl

/-- Keys, and as many indices if they are tracked, are the buffer of some tagged keys. -/
theorem exists_eq_ofTagged (tracked : Bool) (keys : Array κ) (indices : Array ι)
    (h : tracked = true → indices.size = keys.size) :
    ∃ cells : List (κ × Tag ι), cells.length = keys.size ∧
      (⟨keys, if tracked then some indices else none⟩ : Cells κ ι) = ofTagged tracked cells := by
  cases tracked with
  | false => exact ⟨keys.toList.map (·, .position 0), by simp, by simp [ofTagged, Function.comp_def]⟩
  | true =>
    have hlen : keys.toList.length = indices.toList.length := (h rfl).symm
    refine ⟨(keys.toList.zip indices.toList).map fun pair => (pair.1, .given pair.2), by simp [h rfl], ?_⟩
    have hkeys := List.map_fst_zip (Nat.le_of_eq hlen)
    have hindices := List.map_snd_zip (Nat.le_of_eq hlen.symm)
    simp only [ofTagged, List.map_map, Function.comp_def, Tag.index, if_true]
    rw [hkeys, hindices]

/-- Equal cells, tracked or not. -/
theorem blank_eq_ofTagged (len : Nat) (key : κ) (index : ι) :
    blank len key (if tracked then some index else none) =
      ofTagged tracked (List.replicate len (key, .given index)) := by
  cases tracked <;> simp [blank, ofTagged, Tag.index]

end Cells

namespace DoubleBuffer

variable {β ε : Type}

/-- A side changed by a step that succeeds. -/
theorem modify_front {f : β → Except ε β} {front back front' : β} (h : f front = .ok front') :
    (⟨front, back⟩ : DoubleBuffer β).modify .front f = .ok ⟨front', back⟩ := by
  simp only [modify, h]
  rfl

theorem modify_back {f : β → Except ε β} {front back back' : β} (h : f back = .ok back') :
    (⟨front, back⟩ : DoubleBuffer β).modify .back f = .ok ⟨front, back'⟩ := by
  simp only [modify, h]
  rfl

end DoubleBuffer

/-! ### Overlays -/

section Overlay

variable {α : Type}

/-- A list whose first entries are replaced by those of another list. -/
def overlay (done old : List α) : List α := done ++ old.drop done.length

variable {done old : List α}

@[simp]
theorem overlay_nil (old : List α) : overlay [] old = old := rfl

/-- All entries are replaced. -/
theorem overlay_of_length_eq (h : done.length = old.length) : overlay done old = done := by
  simp [overlay, h]

theorem length_overlay (h : done.length ≤ old.length) : (overlay done old).length = old.length := by
  simp [overlay]
  omega

/-- An entry behind those that are replaced. -/
theorem getElem?_overlay_of_le {p : Nat} (h : done.length ≤ p) : (overlay done old)[p]? = old[p]? := by
  rw [overlay, List.getElem?_append_right h, List.getElem?_drop]
  congr 1
  omega

/-- Replacing one more entry. -/
theorem set_overlay (h : done.length < old.length) (x : α) :
    (overlay done old).set done.length x = overlay (done ++ [x]) old := by
  rw [overlay, overlay, List.set_append_right _ _ (Nat.le_refl _), Nat.sub_self,
    List.drop_eq_getElem_cons h, List.set_cons_zero, List.length_append, List.append_assoc]
  rfl

/-- Replacing one more entry, by the next one of a list. -/
theorem set_overlay_take (done old : List α) {xs : List α} {t : Nat} (ht : t < xs.length)
    (h : done.length + t < old.length) :
    (overlay (done ++ xs.take t) old).set (done.length + t) xs[t] = overlay (done ++ xs.take (t + 1)) old := by
  have hlen : (done ++ xs.take t).length = done.length + t := by
    rw [List.length_append, List.length_take, Nat.min_eq_left (by omega)]
  rw [List.take_succ_eq_append_getElem ht, ← List.append_assoc, ← set_overlay (by omega), hlen]

end Overlay

/-! ### Entries of a target -/

section Improves

variable {α : Type} {target ys ys' ys'' : List α}

/-- A list that is right wherever another one is. -/
structure Improves (target ys ys' : List α) : Prop where
  /-- Nothing is stored behind the end. -/
  length_eq : ys'.length = ys.length
  /-- What was right has stayed so. -/
  keeps : ∀ p : Nat, ys[p]? = target[p]? → ys'[p]? = target[p]?

theorem Improves.refl (target ys : List α) : Improves target ys ys := ⟨rfl, fun _ h => h⟩

theorem Improves.trans (h : Improves target ys ys') (h' : Improves target ys' ys'') : Improves target ys ys'' :=
  ⟨h'.length_eq.trans h.length_eq, fun p hp => h'.keeps p (h.keeps p hp)⟩

/-- Storing what is right. -/
theorem Improves.set {p : Nat} {x : α} (hx : target[p]? = some x) (ys : List α) :
    Improves target ys (ys.set p x) := by
  refine ⟨List.length_set, fun q hq => ?_⟩
  rw [List.getElem?_set]
  split
  · rename_i hpq
    subst hpq
    split
    · exact hx.symm
    · rename_i hbehind
      rw [← hq, List.getElem?_eq_none (by omega)]
  · exact hq

/-- A place that has been stored is right. -/
theorem getElem?_set_target {p : Nat} {x : α} (hx : target[p]? = some x) (hlen : ys.length = target.length) :
    (ys.set p x)[p]? = target[p]? := by
  obtain ⟨hp, -⟩ := List.getElem?_eq_some_iff.mp hx
  rw [List.getElem?_set_self (by omega), hx]

end Improves

end MergePathSort
