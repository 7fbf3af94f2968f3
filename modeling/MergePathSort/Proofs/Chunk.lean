/-!
# Chunks of lists

A row is cut into chunks of one width: the tiles of a row, the segments of a pass, the outputs of a lane. Rows of one
width that follow each other are chunks of the whole, and a place in the whole is a row and a position in it. What a
pass takes is gathered from the positions that it takes it from.

## Main definitions

* `chunk`, `gather` : the chunks of a list, and the elements at given positions.

## Main results

* `place_lt`, `exists_place`, `place_inj` : rows of one width, and positions in them.
* `flatMap_chunk`, `chunk_flatMap` : a list is put together from its chunks, and cut into them again.
-/

namespace MergePathSort

variable {α β : Type}

/-! ### Places -/

section Places

variable {width rows row row' pos pos' : Nat}

/-- An element of a row lies among those of all rows. -/
theorem place_lt (hrow : row < rows) (hpos : pos < width) : row * width + pos < rows * width := by
  have hle := Nat.mul_le_mul_right width (Nat.succ_le_of_lt hrow)
  rw [Nat.succ_mul] at hle
  omega

/-- The row of an element. -/
theorem place_div (row : Nat) (hpos : pos < width) : (row * width + pos) / width = row := by
  rw [Nat.mul_comm, Nat.mul_add_div (Nat.zero_lt_of_lt hpos), Nat.div_eq_of_lt hpos, Nat.add_zero]

/-- The position of an element in its row. -/
theorem place_mod (row : Nat) (hpos : pos < width) : (row * width + pos) % width = pos := by
  rw [Nat.mul_comm, Nat.mul_add_mod, Nat.mod_eq_of_lt hpos]

/-- A place among those of all rows is a position in a row. -/
theorem exists_place {place : Nat} (h : place < rows * width) :
    ∃ row < rows, ∃ pos < width, place = row * width + pos := by
  have hwidth : 0 < width := Nat.pos_of_mul_pos_left (Nat.zero_lt_of_lt h)
  exact ⟨place / width, (Nat.div_lt_iff_lt_mul hwidth).mpr h, place % width, Nat.mod_lt _ hwidth,
    (Nat.div_add_mod' place width).symm⟩

/-- An element has one row and one position in it. -/
theorem place_inj (hpos : pos < width) (hpos' : pos' < width) (h : row * width + pos = row' * width + pos') :
    row = row' ∧ pos = pos' :=
  ⟨by rw [← place_div row hpos, h, place_div row' hpos'], by rw [← place_mod row hpos, h, place_mod row' hpos']⟩

end Places

/-! ### Chunks -/

/-- The chunk with a number of a list that is cut into chunks of `width`. -/
def chunk (width : Nat) (xs : List α) (number : Nat) : List α := (xs.drop (number * width)).take width

theorem length_chunk (width : Nat) (xs : List α) (number : Nat) :
    (chunk width xs number).length = min width (xs.length - number * width) := by
  rw [chunk, List.length_take, List.length_drop]

theorem getElem_chunk {width number t : Nat} {xs : List α} (h : t < (chunk width xs number).length) :
    (chunk width xs number)[t] = getElem xs (number * width + t) (by rw [length_chunk] at h; omega) := by
  simp [chunk]

theorem map_chunk (f : α → β) (width : Nat) (xs : List α) (number : Nat) :
    (chunk width xs number).map f = chunk width (xs.map f) number := by
  rw [chunk, chunk, List.map_take, List.map_drop]

/-- The first chunks are the front of the list. -/
theorem flatMap_chunk (width count : Nat) (xs : List α) :
    (List.range count).flatMap (chunk width xs) = xs.take (count * width) := by
  induction count with
  | zero => simp
  | succ count ih =>
    rw [List.range_succ, List.flatMap_append, ih, List.flatMap_singleton, chunk, ← List.take_add, Nat.succ_mul]

section Parts

variable {width count size : Nat} {part : Nat → List α}

/-- The length of the first parts, when every part is as long as a chunk. -/
theorem length_flatMap_parts (hlen : ∀ k < count, (part k).length = min width (size - k * width)) {k : Nat}
    (hk : k ≤ count) : ((List.range k).flatMap part).length = min (k * width) size := by
  induction k with
  | zero => simp
  | succ k ih =>
    rw [List.range_succ, List.flatMap_append, List.length_append, ih (by omega), List.flatMap_singleton,
      hlen k (by omega), Nat.succ_mul]
    omega

/-- The first parts are the front of all parts. -/
theorem take_flatMap_parts (hlen : ∀ k < count, (part k).length = min width (size - k * width)) {k : Nat}
    (hk : k ≤ count) : ((List.range count).flatMap part).take (k * width) = (List.range k).flatMap part := by
  have hfront := length_flatMap_parts hlen hk
  have hall := length_flatMap_parts hlen (Nat.le_refl count)
  obtain ⟨rest, rfl⟩ := Nat.exists_eq_add_of_le hk
  rw [List.range_add, List.flatMap_append] at hall ⊢
  rw [List.length_append] at hall
  rcases Nat.le_total (k * width) size with hle | hge
  · exact List.take_left' (by omega)
  · have hmore : k * width ≤ (k + rest) * width := Nat.mul_le_mul_right _ (by omega)
    have hrest : (((List.range rest).map (k + ·)).flatMap part).length = 0 := by omega
    rw [List.length_eq_zero_iff.mp hrest, List.append_nil, List.take_of_length_le (by omega)]

/-- The chunks of a list that is put together from chunks. -/
theorem chunk_flatMap (hlen : ∀ k < count, (part k).length = min width (size - k * width)) {number : Nat}
    (hnumber : number < count) : chunk width ((List.range count).flatMap part) number = part number := by
  have hfront := length_flatMap_parts hlen (k := number) (by omega)
  have hpart := hlen number hnumber
  rw [chunk, List.take_drop, ← Nat.succ_mul, take_flatMap_parts hlen hnumber, List.range_succ, List.flatMap_append,
    List.flatMap_singleton]
  rcases Nat.le_total (number * width) size with hle | hge
  · exact List.drop_left' (by omega)
  · have hempty : part number = [] := List.length_eq_zero_iff.mp (by omega)
    rw [hempty, List.append_nil, List.drop_of_length_le (by omega)]

end Parts

section Rows

variable {width count : Nat} {part : Nat → List α}

/-- A part among parts of one width is as long as a chunk. -/
theorem length_part_eq_min (hlen : ∀ k < count, (part k).length = width) :
    ∀ k < count, (part k).length = min width (count * width - k * width) := by
  intro k hk
  rw [hlen k hk, ← Nat.sub_mul]
  exact (Nat.min_eq_left (Nat.le_mul_of_pos_left _ (by omega))).symm

/-- The length of parts of one width. -/
theorem length_flatMap_of_length (hlen : ∀ k < count, (part k).length = width) :
    ((List.range count).flatMap part).length = count * width := by
  rw [length_flatMap_parts (length_part_eq_min hlen) (Nat.le_refl count), Nat.min_self]

/-- The chunks of parts of one width. -/
theorem chunk_flatMap_of_length (hlen : ∀ k < count, (part k).length = width) {number : Nat}
    (hnumber : number < count) : chunk width ((List.range count).flatMap part) number = part number :=
  chunk_flatMap (length_part_eq_min hlen) hnumber

/-- An element of a chunk. -/
theorem getElem?_chunk {xs : List α} {number t : Nat} (h : t < width) :
    (chunk width xs number)[t]? = xs[number * width + t]? := by
  rw [chunk, List.getElem?_take_of_lt h, List.getElem?_drop]

/-- A chunk of whole chunks. -/
theorem length_chunk_of_length {xs : List α} (h : xs.length = count * width) {number : Nat} (hnumber : number < count) :
    (chunk width xs number).length = width := by
  rw [length_chunk, h, ← Nat.sub_mul]
  exact Nat.min_eq_left (Nat.le_mul_of_pos_left _ (by omega))

end Rows

/-- A chunk of an array. -/
theorem extract_eq_chunk {α : Type} (axisLen number : Nat) (buffer : Array α) :
    buffer.extract (number * axisLen) (number * axisLen + axisLen) = (chunk axisLen buffer.toList number).toArray := by
  apply Array.toList_inj.mp
  rw [Array.toList_extract, List.extract_eq_take_drop, Nat.add_sub_cancel_left]
  rfl

/-! ### Parts of any width -/

/-- The chunks of a list of parts of one width. -/
theorem chunk_flatten {width : Nat} {parts : List (List α)} (h : ∀ part ∈ parts, part.length = width) {number : Nat}
    (hnumber : number < parts.length) : chunk width parts.flatten number = parts[number] := by
  induction parts generalizing number with
  | nil => simp at hnumber
  | cons part parts ih =>
    have hpart := h part (by simp)
    rw [chunk, List.flatten_cons]
    cases number with
    | zero => rw [Nat.zero_mul, List.drop_zero, List.take_left' hpart, List.getElem_cons_zero]
    | succ number =>
      rw [List.length_cons] at hnumber
      rw [Nat.succ_mul, Nat.add_comm, ← List.drop_drop, List.drop_left' hpart, List.getElem_cons_succ]
      exact ih (fun p hp => h p (by simp [hp])) (by omega)

/-- An entry of a list that has one for every number. -/
theorem getElem?_map_range_eq_some {count number : Nat} {f : Nat → α} {x : α} :
    ((List.range count).map f)[number]? = some x ↔ number < count ∧ f number = x := by
  rw [List.getElem?_eq_some_iff]
  simp

/-- A list that is put together from equal parts. -/
theorem flatMap_range_congr {part part' : Nat → List α} {count : Nat}
    (h : ∀ number < count, part number = part' number) :
    (List.range count).flatMap part = (List.range count).flatMap part' := by
  induction count with
  | zero => rfl
  | succ count ih =>
    rw [List.range_succ, List.flatMap_append, List.flatMap_append, ih fun number hnumber => h number (by omega),
      List.flatMap_singleton, List.flatMap_singleton, h count (by omega)]

section Flattened

variable {part : Nat → List α} {count number t p : Nat}

/-- An element of one of the parts that a list is put together from. -/
theorem getElem?_flatMap_range (hnumber : number < count) (ht : t < (part number).length) :
    ((List.range count).flatMap part)[((List.range number).flatMap part).length + t]? = (part number)[t]? := by
  obtain ⟨rest, rfl⟩ := Nat.exists_eq_add_of_lt hnumber
  rw [show number + rest + 1 = number + 1 + rest by omega, List.range_add, List.flatMap_append, List.range_succ,
    List.flatMap_append, List.flatMap_singleton, List.append_assoc, List.getElem?_append_right (by omega),
    Nat.add_sub_cancel_left, List.getElem?_append_left ht]

/-- The place of an element of one of the parts. -/
theorem lt_length_flatMap_range (hnumber : number < count) (ht : t < (part number).length) :
    ((List.range number).flatMap part).length + t < ((List.range count).flatMap part).length := by
  obtain ⟨rest, rfl⟩ := Nat.exists_eq_add_of_lt hnumber
  rw [show number + rest + 1 = number + 1 + rest by omega, List.range_add, List.flatMap_append, List.range_succ,
    List.flatMap_append, List.flatMap_singleton, List.length_append, List.length_append]
  omega

/-- Every element of a list that is put together from parts stands in one of them. -/
theorem exists_of_lt_length_flatMap (h : p < ((List.range count).flatMap part).length) :
    ∃ number < count, ∃ t < (part number).length, p = ((List.range number).flatMap part).length + t := by
  induction count with
  | zero => simp at h
  | succ count ih =>
    rcases Nat.lt_or_ge p ((List.range count).flatMap part).length with hlt | hge
    · obtain ⟨number, hnumber, t, ht, hp⟩ := ih hlt
      exact ⟨number, by omega, t, ht, hp⟩
    · rw [List.range_succ, List.flatMap_append, List.length_append, List.flatMap_singleton] at h
      exact ⟨count, by omega, p - ((List.range count).flatMap part).length, by omega, by omega⟩

end Flattened

/-! ### Gathering -/

/-- The elements at given positions. -/
def gather (xs : List α) (sources : List Nat) : List α := sources.filterMap (xs[·]?)

theorem gather_append (xs : List α) (first second : List Nat) :
    gather xs (first ++ second) = gather xs first ++ gather xs second :=
  List.filterMap_append ..

theorem gather_cons {xs : List α} {source : Nat} (h : source < xs.length) (sources : List Nat) :
    gather xs (source :: sources) = xs[source] :: gather xs sources := by
  rw [gather, List.filterMap_cons, List.getElem?_eq_getElem h]
  rfl

theorem length_gather {xs : List α} {sources : List Nat} (h : ∀ source ∈ sources, source < xs.length) :
    (gather xs sources).length = sources.length := by
  induction sources with
  | nil => rfl
  | cons source sources ih =>
    rw [gather_cons (h source (by simp)), List.length_cons, ih fun s hs => h s (by simp [hs]), List.length_cons]

/-- One of the elements at given positions. -/
theorem getElem?_gather {xs : List α} {sources : List Nat} (h : ∀ source ∈ sources, source < xs.length) (p : Nat) :
    (gather xs sources)[p]? = sources[p]?.bind (xs[·]?) := by
  induction sources generalizing p with
  | nil => rfl
  | cons source sources ih =>
    have hsource := h source (by simp)
    rw [gather_cons hsource]
    cases p with
    | zero => simp [hsource]
    | succ p => simpa using ih (fun s hs => h s (by simp [hs])) p

theorem gather_flatMap (xs : List α) (sources : β → List Nat) (numbers : List β) :
    gather xs (numbers.flatMap sources) = numbers.flatMap fun number => gather xs (sources number) := by
  induction numbers with
  | nil => rfl
  | cons number numbers ih => rw [List.flatMap_cons, List.flatMap_cons, gather_append, ih]

theorem map_gather (f : α → β) (xs : List α) (sources : List Nat) :
    (gather xs sources).map f = gather (xs.map f) sources := by
  simp [gather, List.map_filterMap]

/-- The elements at the positions from `start` on, as far as they follow each other. -/
theorem gather_range' (xs : List α) (start len : Nat) :
    gather xs (List.range' start len) = (xs.drop start).take len := by
  induction len generalizing start with
  | zero => rfl
  | succ len ih =>
    rw [List.range'_succ, gather, List.filterMap_cons]
    rcases Nat.lt_or_ge start xs.length with h | h
    · rw [List.getElem?_eq_getElem h, List.drop_eq_getElem_cons h, List.take_succ_cons, ← ih]
      rfl
    · rw [List.getElem?_eq_none h, List.drop_eq_nil_of_le h, List.take_nil]
      have := ih (start + 1)
      rwa [List.drop_eq_nil_of_le (by omega), List.take_nil] at this

end MergePathSort
