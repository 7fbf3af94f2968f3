import MergePathSort.Proofs.Host.Launches

/-!
# Running programs on the host

A program is run on buffers that hold anything before. They are cut into rows, every row goes through the effects of the
launches, and the rows are put together again.

## Main definitions

* `Buffers.HasLength` : both sides of the buffers have room for the keys of all rows.
* `keysOfRows`, `indicesOfRows` : a side of rows that follow each other.

## Main results

* `Program.exists_execute` : a program on its input and buffers.
-/

namespace MergePathSort

variable {κ ι : Type}

/-! ### Buffers -/

/-- Both sides of the buffers hold a number of keys, and as many indices if there are any. -/
structure Buffers.HasLength (buffers : Buffers κ ι) (total : Nat) : Prop where
  /-- The keys of the front side. -/
  front : buffers.keys.front.size = total
  /-- The keys of the back side. -/
  back : buffers.keys.back.size = total
  /-- The indices. -/
  indices : ∀ indices, buffers.indices = some indices → indices.front.size = total ∧ indices.back.size = total

/-- One side of a row as it was before: the keys, each tagged with its index if there are indices. -/
def taggedPart (axisLen number : Nat) (keys : Array κ) (indices : Option (Array ι)) : List (κ × Tag ι) :=
  match indices with
  | some indices => (chunk axisLen keys.toList number).zip ((chunk axisLen indices.toList number).map .given)
  | none => numbered (chunk axisLen keys.toList number)

theorem length_taggedPart {axisLen number : Nat} {keys : Array κ} {indices : Option (Array ι)}
    (h : ∀ part, indices = some part → part.size = keys.size) :
    (taggedPart axisLen number keys indices).length = (chunk axisLen keys.toList number).length := by
  cases indices with
  | none => rw [taggedPart, length_numbered]
  | some indices =>
    rw [taggedPart, List.length_zip, List.length_map, length_chunk, length_chunk, Array.length_toList,
      Array.length_toList, h indices rfl, Nat.min_self]

variable [IndexElement ι]

/-- One side of a row as a buffer. -/
theorem rowCells_eq_ofTagged {axisLen number : Nat} {keys : Array κ} {indices : Option (Array ι)}
    (h : ∀ part, indices = some part → part.size = keys.size) :
    Buffers.rowCells axisLen number keys indices =
      Cells.ofTagged indices.isSome (taggedPart axisLen number keys indices) := by
  cases indices with
  | none =>
    simp only [Buffers.rowCells, Cells.ofTagged, taggedPart, extract_eq_chunk, map_fst_numbered]
    rfl
  | some indices =>
    have hlen : (chunk axisLen keys.toList number).length =
        ((chunk axisLen indices.toList number).map (Tag.given (ι := ι))).length := by
      rw [List.length_map, length_chunk, length_chunk, Array.length_toList, Array.length_toList, h indices rfl]
    have hkeys := List.map_fst_zip (Nat.le_of_eq hlen)
    have hindices := List.map_snd_zip (Nat.le_of_eq hlen.symm)
    have hgiven : (taggedPart axisLen number keys (some indices)).map (·.2.index) =
        chunk axisLen indices.toList number := by
      have := congrArg (List.map Tag.index) hindices
      simpa [taggedPart, Function.comp_def, Tag.index] using this
    simp only [Buffers.rowCells, Cells.ofTagged, hgiven, extract_eq_chunk]
    simp only [taggedPart, hkeys]
    rfl

namespace Buffers

/-- A row of buffers as it was before. -/
def taggedRow (buffers : Buffers κ ι) (axisLen number : Nat) : TaggedRow κ ι :=
  ⟨taggedPart axisLen number buffers.keys.front (buffers.indices.map (·.front)),
    taggedPart axisLen number buffers.keys.back (buffers.indices.map (·.back))⟩

variable {buffers : Buffers κ ι} {rows axisLen : Nat}

omit [IndexElement ι] in
theorem HasLength.taggedRow (h : buffers.HasLength (rows * axisLen)) {number : Nat} (hnumber : number < rows) :
    (buffers.taggedRow axisLen number).HasLength axisLen := by
  obtain ⟨hfront, hback, hindices⟩ := h
  constructor
  · rw [Buffers.taggedRow, length_taggedPart, length_chunk_of_lt hfront hnumber]
    intro part hpart
    obtain ⟨indices, hsome, rfl⟩ := Option.map_eq_some_iff.mp hpart
    exact (hindices indices hsome).1.trans hfront.symm
  · rw [Buffers.taggedRow, length_taggedPart, length_chunk_of_lt hback hnumber]
    intro part hpart
    obtain ⟨indices, hsome, rfl⟩ := Option.map_eq_some_iff.mp hpart
    exact (hindices indices hsome).2.trans hback.symm

/-- The rows of buffers as lists. -/
theorem rows_eq_cellsOfRows (h : buffers.HasLength (rows * axisLen)) (haxisLen : 0 < axisLen) :
    buffers.rows axisLen = cellsOfRows buffers.indices.isSome rows (buffers.taggedRow axisLen) := by
  obtain ⟨hfront, hback, hindices⟩ := h
  rw [Buffers.rows, hfront, Nat.mul_div_cancel _ haxisLen, cellsOfRows]
  congr 1
  funext number
  rw [rowCells_eq_ofTagged, rowCells_eq_ofTagged, Option.isSome_map, Option.isSome_map]
  · rfl
  · intro part hpart
    obtain ⟨indices, hsome, rfl⟩ := Option.map_eq_some_iff.mp hpart
    exact (hindices indices hsome).2.trans hback.symm
  · intro part hpart
    obtain ⟨indices, hsome, rfl⟩ := Option.map_eq_some_iff.mp hpart
    exact (hindices indices hsome).1.trans hfront.symm

theorem join_eq_toArray_flatMap {α : Type} (parts : List (Array α)) :
    join parts = (parts.flatMap Array.toList).toArray := by
  have hacc : ∀ acc : Array α, parts.foldl (· ++ ·) acc = acc ++ (parts.flatMap Array.toList).toArray := by
    induction parts with
    | nil => simp
    | cons part parts ih =>
      intro acc
      rw [List.foldl_cons, ih]
      apply Array.toList_inj.mp
      simp
  rw [join, hacc, Array.empty_append]

end Buffers

/-- The keys of a side of rows that follow each other. -/
def keysOfRows (count : Nat) (side : Nat → List (κ × Tag ι)) : Array κ :=
  ((List.range count).flatMap fun number => (side number).map Prod.fst).toArray

/-- The indices of a side of rows that follow each other. -/
def indicesOfRows (count : Nat) (side : Nat → List (κ × Tag ι)) : Array ι :=
  ((List.range count).flatMap fun number => (side number).map (·.2.index)).toArray

section Rows

variable {α : Type} {count axisLen : Nat} {side : Nat → List (κ × Tag ι)}

omit [IndexElement ι] in
/-- What is read off rows of one length, all rows together. -/
theorem length_flatMap_rows (f : κ × Tag ι → α) (hside : ∀ number < count, (side number).length = axisLen) :
    ((List.range count).flatMap fun number => (side number).map f).length = count * axisLen :=
  length_flatMap_of_length fun number hnumber => by rw [List.length_map, hside number hnumber]

omit [IndexElement ι] in
/-- What is read off one of many rows of one length. -/
theorem chunk_flatMap_rows (f : κ × Tag ι → α) (hside : ∀ number < count, (side number).length = axisLen)
    {number : Nat} (hnumber : number < count) :
    chunk axisLen ((List.range count).flatMap fun number => (side number).map f) number =
      (side number).map f := by
  refine chunk_flatMap_of_length (fun k hk => ?_) hnumber
  rw [List.length_map, hside k hk]

omit [IndexElement ι] in
/-- What is read off one place of one of many rows of one length. -/
theorem getElem?_flatMap_rows (f : κ × Tag ι → α) (hside : ∀ number < count, (side number).length = axisLen)
    {number : Nat} (hnumber : number < count) {p : Nat} (hp : p < axisLen) :
    ((List.range count).flatMap fun number => (side number).map f)[number * axisLen + p]? =
      (side number)[p]?.map f := by
  rw [← getElem?_chunk hp, chunk_flatMap_rows f hside hnumber, List.getElem?_map]

end Rows

theorem join_keys (tracked : Bool) (count : Nat) (side : Nat → List (κ × Tag ι)) :
    Buffers.join ((List.range count).map fun number => (Cells.ofTagged tracked (side number)).keys) =
      keysOfRows count side := by
  rw [Buffers.join_eq_toArray_flatMap, List.flatMap_map]
  rfl

theorem join_indices (count : Nat) (side : Nat → List (κ × Tag ι)) :
    Buffers.join ((List.range count).filterMap fun number => (Cells.ofTagged true (side number)).indices) =
      indicesOfRows count side := by
  have hsome : (List.range count).filterMap (some ∘ fun number => ((side number).map (·.2.index)).toArray) =
      (List.range count).map fun number => ((side number).map (·.2.index)).toArray := congrFun List.filterMap_eq_map _
  change Buffers.join ((List.range count).filterMap (some ∘ _)) = _
  rw [hsome, Buffers.join_eq_toArray_flatMap, List.flatMap_map]
  rfl

/-- Rows put together. -/
theorem Buffers.ofRows_cellsOfRows (tracked : Bool) (count : Nat) (rows : Nat → TaggedRow κ ι) :
    Buffers.ofRows (cellsOfRows tracked count rows) tracked =
      ⟨⟨keysOfRows count (rows · |>.front), keysOfRows count (rows · |>.back)⟩,
        if tracked then some ⟨indicesOfRows count (rows · |>.front), indicesOfRows count (rows · |>.back)⟩
        else none⟩ := by
  simp only [← join_keys tracked, ← join_indices, Buffers.ofRows, cellsOfRows, List.map_map, List.filterMap_map]
  cases tracked <;> rfl

/-! ### Execution -/

/-- The number of elements of packed rows. -/
theorem AxisView.total_eq_ok {view : AxisView} (hafter : view.after = 1)
    (hlt : view.before * view.axisLen < Size.limit) :
    view.total = .ok (view.before * view.axisLen) := by
  have hmul : Size.mul view.before view.axisLen = .ok (view.before * view.axisLen) := Size.mul_of_lt hlt
  have hone : Size.mul (view.before * view.axisLen) 1 = .ok (view.before * view.axisLen) :=
    Size.mul_eq_ok_iff.mpr ⟨by omega, by omega⟩
  rw [AxisView.total, hmul, Outcome.ok_bind, hafter, hone]

variable [Element κ]

namespace Program

variable (program : Program) (input : Array κ) (buffers : Buffers κ ι)

/-- The buffers that a program works on: it leaves the indices alone if it does not track them. -/
def tracked : Buffers κ ι := ⟨buffers.keys, if program.indexed then buffers.indices else none⟩

/-- A row after a program. -/
def finalRow (number : Nat) : TaggedRow κ ι :=
  launchesOnRow program.direction (chunk program.view.axisLen input.toList number) program.launches
    ((program.tracked buffers).taggedRow program.view.axisLen number)

/-- The buffers after a program. -/
def result : Buffers κ ι where
  keys := ⟨keysOfRows program.view.before (program.finalRow input buffers · |>.front),
    keysOfRows program.view.before (program.finalRow input buffers · |>.back)⟩
  indices :=
    if program.indexed then
      some ⟨indicesOfRows program.view.before (program.finalRow input buffers · |>.front),
        indicesOfRows program.view.before (program.finalRow input buffers · |>.back)⟩
    else buffers.indices

variable {program input buffers}

omit [IndexElement ι] [Element κ] in
/-- A program works on buffers of the length of the given ones. -/
theorem hasLength_tracked {total : Nat} (h : buffers.HasLength total) : (program.tracked buffers).HasLength total := by
  refine ⟨h.front, h.back, fun indices hsome => h.indices indices ?_⟩
  cases hindexed : program.indexed with
  | false => simp [tracked, hindexed] at hsome
  | true => simpa [tracked, hindexed] using hsome

/-- A program that fits runs, and leaves every row as its launches in order leave it. -/
theorem exists_execute (h : program.Fits) (hlaunches : program.launches ≠ [])
    (hinput : input.size = program.view.before * program.view.axisLen)
    (htracked : (program.tracked buffers).HasLength (program.view.before * program.view.axisLen))
    (hindexed : program.indexed = true → buffers.indices ≠ none) :
    ∃ report, program.execute input buffers = .ok (program.result input buffers, report) := by
  have htotal := AxisView.total_eq_ok h.after_eq h.total_lt
  have hinputLength : checkLength (program.view.before * program.view.axisLen) input.size = .ok () :=
    if_pos hinput.symm
  have hkeysLength : checkLength (program.view.before * program.view.axisLen) buffers.keys.front.size = .ok () :=
    if_pos htracked.front.symm
  have hsome : (program.tracked buffers).indices.isSome = program.indexed := by
    cases hcase : program.indexed with
    | false => simp [tracked, hcase]
    | true => simpa [tracked, hcase, Option.isSome_iff_ne_none] using hindexed hcase
  have hrows := Buffers.rows_eq_cellsOfRows htracked h.axisLen_pos
  rw [hsome] at hrows
  obtain ⟨report, hreport⟩ := Launch.exists_foldlM_step h hinput (fun _ hl => hl)
    (fun number hnumber => htracked.taggedRow hnumber) {}
  refine ⟨report, ?_⟩
  have hempty : program.isEmpty = false := by simpa [isEmpty] using hlaunches
  have hpacked : program.view.isPacked = true := by simp [AxisView.isPacked, h.after_eq]
  have hlen : program.view.axisLen ≠ 0 := by have := h.axisLen_pos; omega
  have hrun : program.runLaunches input ((program.tracked buffers).rows program.view.axisLen) =
      .ok (cellsOfRows program.indexed program.view.before (program.finalRow input buffers), report) :=
    (congrArg _ hrows).trans hreport
  have hfinal := Buffers.ofRows_cellsOfRows program.indexed program.view.before (program.finalRow input buffers)
  simp only [execute, htotal, Outcome.ok_bind, hinputLength, hkeysLength, hempty, hpacked, hlen]
  rcases hcase : program.indexed
  · simp only [tracked, hcase, Bool.false_eq_true, if_false] at hrun hfinal
    simp [result, hcase, hrun, hfinal]
  · obtain ⟨indices, hindices⟩ := Option.ne_none_iff_exists'.mp (hindexed hcase)
    have hindicesLength : checkLength (program.view.before * program.view.axisLen) indices.front.size = .ok () :=
      if_pos (htracked.indices indices (by simp [tracked, hcase, hindices])).1.symm
    simp only [tracked, hcase, hindices, if_true] at hrun hfinal
    simp [result, hcase, hindices, hindicesLength, hrun, hfinal]

end Program

end MergePathSort
