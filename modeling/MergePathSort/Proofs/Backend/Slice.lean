import MergePathSort.Backend.Slice
import MergePathSort.Proofs.Backend.Untracked
import MergePathSort.Proofs.Sorted.Stability

/-!
# The slice backend sorts as the host does

The slice backend sorts the numbered keys of a row by a comparison, stably. Where two keys compare as equal the one with
the smaller number comes first, so for comparable keys the numbers are the stable sorting permutation of the row. There
is only one, and the host backend returns it, too: where the host has a result the slice backend has the same one,
whatever is in its workspace.

## Main definitions

* `rowOrder` : the positions of a row as the slice backend sorts them.
* `slicedKeys`, `slicedPositions` : the keys and the positions of all rows.
* `AnswersAgree` : the answers of two backends agree.

## Main results

* `rowOrder_stableOrder` : the positions of a row are its stable sorting permutation.
* `Workspace.argsort_eq_ok` : what the workspace held has no influence.
* `Program.sortedRow_eq_sliced` : a program leaves a row as the slice backend sorts it.
* `SliceBackend.sort_answersAgree`, `SliceBackend.argsort_answersAgree` : keys without and with their positions.
* `SliceBackend.agrees_with_host` : the slice backend agrees with the host.
-/

namespace MergePathSort

variable {κ ι : Type}

/-! ### Rows -/

section Rows

variable [KeyOrder κ] {direction : Direction} {keys : List κ} {rank : κ → Int}

/-- The comparison of a slice finds two keys out of order if the direction does. -/
theorem Direction.compare_eq_gt_iff {a b : κ} : direction.compare a b = .gt ↔ direction.misplaced a b = true := by
  cases direction with
  | ascending =>
    rw [compare, misplaced, KeyOrder.gt]
    rcases KeyOrder.compare? a b with _ | _ | _ | _ <;> simp
  | descending =>
    rw [compare, misplaced, KeyOrder.lt]
    rcases KeyOrder.compare? a b with _ | _ | _ | _ <;> simp

/-- Comparable keys are compared by their ranks. -/
theorem Direction.Ranks.compare_ne_gt (hrank : direction.Ranks keys rank) {a b : κ} (ha : a ∈ keys) (hb : b ∈ keys) :
    (direction.compare a b != .gt) = decide (rank a ≤ rank b) := by
  rw [Bool.eq_iff_iff, bne_iff_ne, decide_eq_true_iff, ne_eq, compare_eq_gt_iff, hrank.misplaced_iff a ha b hb, Int.not_lt]

/-- The positions of a row, in the order of its sorted keys. -/
def rowOrder (direction : Direction) (keys : List κ) : List Nat :=
  (sortSlice (fun a b => direction.compare a.1 b.1) keys.zipIdx).map Prod.snd

theorem rowOrder_perm (direction : Direction) (keys : List κ) :
    (rowOrder direction keys).Perm (List.range keys.length) := by
  rw [List.range_eq_range', ← List.zipIdx_map_snd 0 keys]
  exact (List.mergeSort_perm _ _).map Prod.snd

/-- A key of the sorted row stands at its position in the row. -/
theorem getElem?_of_mem_sortSlice {entry : κ × Nat}
    (h : entry ∈ sortSlice (fun a b => direction.compare a.1 b.1) keys.zipIdx) : keys[entry.2]? = some entry.1 :=
  List.mem_zipIdx_iff_getElem?.mp ((List.mergeSort_perm _ _).mem_iff.mp h)

/-- The sorted keys are those at the sorted positions. -/
theorem sortSlice_eq_gather (direction : Direction) (keys : List κ) :
    sortSlice direction.compare keys = gather keys (rowOrder direction keys) := by
  have hkeys : (sortSlice (fun a b => direction.compare a.1 b.1) keys.zipIdx).map Prod.fst =
      sortSlice direction.compare keys := by
    rw [sortSlice, List.map_mergeSort (s := fun a b => direction.compare a b != .gt) fun _ _ _ _ => rfl,
      List.zipIdx_map_fst]
    rfl
  rw [← hkeys, gather, rowOrder, List.filterMap_map, ← List.filterMap_eq_map]
  exact List.filterMap_congr fun entry hentry => (getElem?_of_mem_sortSlice hentry).symm

/-- Sorted keys stand in order of their ranks, and keys of one rank in order of their positions. -/
theorem pairwise_sortSlice (hrank : direction.Ranks keys rank) :
    (sortSlice (fun a b => direction.compare a.1 b.1) keys.zipIdx).Pairwise (RankThenPlace rank) := by
  have hmem : ∀ entry ∈ keys.zipIdx, entry.1 ∈ keys := fun entry hentry =>
    List.mem_of_getElem? (List.mem_zipIdx_iff_getElem?.mp hentry)
  have hranks : sortSlice (fun a b => direction.compare a.1 b.1) keys.zipIdx =
      keys.zipIdx.mergeSort fun a b => decide (rank a.1 ≤ rank b.1) := by
    refine mergeSort_eq_mergeSort_rank fun a ha b hb => ?_
    rw [hrank.compare_ne_gt (hmem a ha) (hmem b hb), decide_eq_true_iff]
  -- The sort is the one that breaks ties by the places of the entries, and these are their positions.
  have hplaces : ∀ entry ∈ keys.zipIdx.zipIdx.mergeSort (List.zipIdxLE fun a b => decide (rank a.1 ≤ rank b.1)),
      entry.2 = entry.1.2 := by
    intro entry hentry
    have hplace := List.mem_zipIdx_iff_getElem?.mp ((List.mergeSort_perm _ _).mem_iff.mp hentry)
    rw [List.getElem?_zipIdx, Option.map_eq_some_iff] at hplace
    obtain ⟨key, -, heq⟩ := hplace
    rw [← heq, Nat.zero_add]
  have hsorted := pairwise_mergeSort_rank (fun entry : κ × Nat => rank entry.1) keys.zipIdx.zipIdx
  rw [hranks, ← List.mergeSort_zipIdx, List.pairwise_map]
  refine hsorted.imp_of_mem fun {a b} ha hb ⟨hle, hplace⟩ => ?_
  rw [hplaces a ha, hplaces b hb] at hplace
  exact ⟨hle, hplace⟩

/-- For comparable keys the positions are the stable sorting permutation of the row. -/
theorem rowOrder_stableOrder [RankedOrder κ] (hcomparable : KeyOrder.Comparable keys) (direction : Direction) :
    direction.StableOrder keys (rowOrder direction keys) := by
  obtain ⟨rank, hrank⟩ := hcomparable.exists_ranks direction
  have hperm := rowOrder_perm direction keys
  have hinOrder : (rowOrder direction keys).Pairwise (KeysInOrder rank keys) := by
    have hdistinct : (rowOrder direction keys).Pairwise (· ≠ ·) := hperm.nodup_iff.mpr List.nodup_range
    rw [rowOrder, List.pairwise_map] at hdistinct ⊢
    refine ((pairwise_sortSlice hrank).and hdistinct).imp_of_mem fun {a b} ha hb ⟨⟨hle, hplace⟩, hne⟩ x y hx hy => ?_
    rw [getElem?_of_mem_sortSlice ha] at hx
    rw [getElem?_of_mem_sortSlice hb] at hy
    cases hx
    cases hy
    exact ⟨hle, fun heq => Nat.lt_of_le_of_ne (hplace heq) hne⟩
  refine ⟨hperm, hinOrder.imp fun hij a b ha hb => ?_, hinOrder.imp fun hij a b ha hb hequal => ?_⟩
  · exact (hrank.mayPrecede_iff a (List.mem_of_getElem? ha) b (List.mem_of_getElem? hb)).mpr (hij a b ha hb).1
  · exact (hij a b ha hb).2 ((hrank.equal_iff a (List.mem_of_getElem? ha) b (List.mem_of_getElem? hb)).mp hequal)

end Rows

/-! ### Positions -/

section Positions

variable [KeyOrder κ] {direction : Direction} {data : Array κ} {axisLen : Nat}

/-- The positions of a row that is numbered from its start are sorted. -/
theorem sortPositions_range (direction : Direction) (row : Array κ) :
    sortPositions direction row (List.range row.size) = .ok (rowOrder direction row.toList) := by
  have hentries : ((List.range row.size).mapM fun position => do return (← Buffer.read row position, position)) =
      (.ok row.toList.zipIdx : Outcome (List (κ × Nat))) := by
    refine Outcome.mapM_eq_ok_of_getElem (by simp) fun i hi _ => ?_
    rw [List.length_range] at hi
    have hread : Buffer.read row i = .ok row[i] := Buffer.read_eq_ok_iff.mpr (Array.getElem?_eq_getElem hi)
    rw [List.getElem_range, hread]
    simp
  rw [sortPositions, hentries]
  rfl

/-- A row that is cut out of data. -/
theorem rowSlice_eq_chunk {α : Type} (data : Array α) (axisLen number : Nat) :
    rowSlice data axisLen number = (chunk axisLen data.toList number).toArray :=
  extract_eq_chunk axisLen number data

omit [KeyOrder κ] in
/-- Reading the keys at positions of a row. -/
theorem mapM_read_eq_gather (row : Array κ) {order : List Nat} (h : ∀ p ∈ order, p < row.size) :
    order.mapM (Buffer.read row) = .ok (gather row.toList order) := by
  induction order with
  | nil => rfl
  | cons p order ih =>
    have hp : p < row.size := h p List.mem_cons_self
    have hread : Buffer.read row p = .ok row[p] := Buffer.read_eq_ok_iff.mpr (Array.getElem?_eq_getElem hp)
    rw [List.mapM_cons, hread, Outcome.ok_bind, ih fun q hq => h q (List.mem_cons_of_mem p hq),
      gather_cons (by simpa using hp)]
    rfl

/-- The rows of the positions of a call are numbered from their starts. -/
theorem Workspace.chunk_number (workspace : Workspace) {len axisLen number : Nat} (hlen : len / axisLen * axisLen = len)
    (hnumber : number < len / axisLen) :
    chunk axisLen (workspace.number len axisLen).positions.toList number = List.range axisLen := by
  have hpositions : (workspace.number len axisLen).positions.toList = (List.range len).map (· % axisLen) := by
    simp [Workspace.number]
  have hlength : (chunk axisLen ((List.range len).map (· % axisLen)) number).length = axisLen :=
    length_chunk_of_length (by simp [hlen]) hnumber
  rw [hpositions]
  refine List.ext_getElem (by rw [hlength, List.length_range]) fun t ht ht' => ?_
  rw [List.length_range] at ht'
  rw [getElem_chunk, List.getElem_map, List.getElem_range, List.getElem_range, place_mod number ht']

/-- The sorted keys of all rows. -/
def slicedKeys (data : Array κ) (axisLen : Nat) (direction : Direction) : List κ :=
  (List.range (data.size / axisLen)).flatMap fun number => sortSlice direction.compare (chunk axisLen data.toList number)

/-- The sorted positions of all rows. -/
def slicedPositions (data : Array κ) (axisLen : Nat) (direction : Direction) : List Nat :=
  (List.range (data.size / axisLen)).flatMap fun number => rowOrder direction (chunk axisLen data.toList number)

theorem length_rowOrder (hlen : data.size / axisLen * axisLen = data.size) {number : Nat}
    (hnumber : number < data.size / axisLen) :
    (rowOrder direction (chunk axisLen data.toList number)).length = axisLen := by
  rw [(rowOrder_perm _ _).length_eq, List.length_range, length_chunk_of_lt hlen.symm hnumber]

/-- Whatever the workspace held, the positions of every row are sorted in it, and the keys are read off them. -/
theorem Workspace.argsort_eq_ok (workspace : Workspace) (direction : Direction)
    (hlen : data.size / axisLen * axisLen = data.size) :
    workspace.argsort data axisLen direction =
      .ok (⟨max workspace.room data.size, (slicedPositions data axisLen direction).toArray⟩,
        (slicedKeys data axisLen direction).toArray) := by
  let order := fun number => rowOrder direction (chunk axisLen data.toList number)
  have hpositions : ((List.range (data.size / axisLen)).mapM fun number =>
      sortPositions direction (rowSlice data axisLen number)
        (rowSlice (workspace.number data.size axisLen).positions axisLen number).toList) =
      .ok ((List.range (data.size / axisLen)).map order) := by
    refine Outcome.mapM_eq_ok fun number hnumber => ?_
    rw [List.mem_range] at hnumber
    have hsize : (chunk axisLen data.toList number).toArray.size = axisLen := by
      rw [List.size_toArray, length_chunk_of_lt hlen.symm hnumber]
    have hsorted := sortPositions_range direction (chunk axisLen data.toList number).toArray
    rw [hsize] at hsorted
    rw [rowSlice_eq_chunk, rowSlice_eq_chunk, workspace.chunk_number hlen hnumber, hsorted]
  have hflat : ((List.range (data.size / axisLen)).map order).flatten = slicedPositions data axisLen direction :=
    List.flatMap_def.symm
  have hvalues : ((List.range (data.size / axisLen)).mapM fun number =>
      (rowSlice (slicedPositions data axisLen direction).toArray axisLen number).toList.mapM
        (Buffer.read (rowSlice data axisLen number))) =
      .ok ((List.range (data.size / axisLen)).map fun number =>
        sortSlice direction.compare (chunk axisLen data.toList number)) := by
    refine Outcome.mapM_eq_ok fun number hnumber => ?_
    rw [List.mem_range] at hnumber
    have hchunk : chunk axisLen (slicedPositions data axisLen direction) number = order number :=
      chunk_flatMap_of_length (fun _ => length_rowOrder hlen) hnumber
    have hlt : ∀ p ∈ order number, p < (chunk axisLen data.toList number).toArray.size := fun p hp =>
      List.mem_range.mp ((rowOrder_perm _ _).mem_iff.mp hp)
    rw [rowSlice_eq_chunk, rowSlice_eq_chunk, hchunk, mapM_read_eq_gather _ hlt, ← sortSlice_eq_gather]
  rw [argsort, hpositions, Outcome.ok_bind]
  simp only [hflat]
  rw [hvalues, Outcome.ok_bind, slicedKeys, List.flatMap_def]
  rfl

end Positions

/-! ### The backend -/

section Backend

variable [Element κ] {data : Array κ} {axisLen : Nat} {direction : Direction}

/-- The slice backend sorts every row. -/
theorem SliceBackend.run_sort (slice : SliceBackend) (direction : Direction) (hdata : data.size ≠ 0) (hpos : 0 < axisLen)
    (hlen : data.size / axisLen * axisLen = data.size) :
    (Backend.sort data axisLen direction : Stateful SliceBackend _).run slice =
      (.ok (slicedKeys data axisLen direction).toArray, slice) := by
  have hempty : data.isEmpty = false := by simpa using hdata
  have hsplit : splitRows data.size axisLen = .ok [data.size / axisLen, axisLen] := splitRows_eq_ok_iff.mpr ⟨hpos, hlen, rfl⟩
  simp only [Backend.sort, hempty, Bool.false_eq_true, if_false]
  rw [Stateful.run_bind_of_eq_ok (Stateful.run_ofOutcome_of_eq_ok hsplit slice)]
  refine Stateful.run_pure_eq_ok_iff.mpr ⟨?_, rfl⟩
  rw [slicedKeys]
  congr 1
  exact flatMap_range_congr fun number _ => by rw [rowSlice_eq_chunk]

/-- The slice backend sorts every row and its positions, whatever its workspace held. -/
theorem SliceBackend.exists_argsort [IndexElement ι] (slice : SliceBackend) (direction : Direction) (hdata : data.size ≠ 0)
    (hpos : 0 < axisLen) (hlen : data.size / axisLen * axisLen = data.size) :
    ∃ slice', (Backend.argsort ι data axisLen direction : Stateful SliceBackend _).run slice =
      (.ok ((slicedKeys data axisLen direction).toArray,
        ((slicedPositions data axisLen direction).map IndexElement.ofPosition).toArray), slice') := by
  have hempty : data.isEmpty = false := by simpa using hdata
  have hsplit : splitRows data.size axisLen = .ok [data.size / axisLen, axisLen] := splitRows_eq_ok_iff.mpr ⟨hpos, hlen, rfl⟩
  have hargsort := (slice.workspace.getD {}).argsort_eq_ok direction hlen
  simp only [Backend.argsort, hempty, Bool.false_eq_true, if_false]
  rw [Stateful.run_bind_of_eq_ok (Stateful.run_ofOutcome_of_eq_ok hsplit slice),
    Stateful.run_bind_of_eq_ok Stateful.run_get,
    Stateful.run_bind_of_eq_ok (Stateful.run_ofOutcome_of_eq_ok hargsort slice)]
  refine ⟨_, Stateful.run_bind_eq_ok_iff.mpr ⟨⟨⟩, _, Stateful.run_set_eq_ok_iff.mpr rfl,
    Stateful.run_pure_eq_ok_iff.mpr ⟨?_, rfl⟩⟩⟩
  rw [List.map_toArray]

/-! ### The host -/

theorem KeyOrder.Comparable.row {keys : List κ} (h : KeyOrder.Comparable keys) (axisLen number : Nat) :
    KeyOrder.Comparable (chunk axisLen keys number) := fun a ha b hb =>
  h a (List.mem_of_mem_drop (List.mem_of_mem_take ha)) b (List.mem_of_mem_drop (List.mem_of_mem_take hb))

/-- A row of comparable keys after a program is the row as the slice backend sorts it. -/
theorem Program.sortedRow_eq_sliced [RankedOrder κ] [IndexElement ι] {indexed : Bool} {config : Config}
    {program : Program} (hlower : Program.lower [data.size / axisLen, axisLen] 1 direction indexed config = .ok program)
    (hlen : data.size / axisLen * axisLen = data.size) {number : Nat} (hnumber : number < data.size / axisLen)
    (hcomparable : KeyOrder.Comparable data.toList) :
    (program.sortedRow (chunk axisLen data.toList number) : TaggedRow κ ι).front.map Prod.fst =
        sortSlice direction.compare (chunk axisLen data.toList number) ∧
      (program.sortedRow (chunk axisLen data.toList number) : TaggedRow κ ι).front.map (·.2.index) =
        (rowOrder direction (chunk axisLen data.toList number)).map IndexElement.ofPosition := by
  obtain ⟨hview, hdirection, -⟩ := Program.eq_of_lower_rows hlower
  have hdata : data.size ≠ 0 := by
    intro hzero
    simp [hzero] at hnumber
  obtain ⟨copy, tiles, passes, shapes, hsorts⟩ := Program.exists_sorts_of_lower_rows hlower (by rwa [hlen])
  have hlength : (chunk axisLen data.toList number).length = program.view.axisLen := by
    rw [length_chunk_of_lt hlen.symm hnumber, hview]
    rfl
  have horder := rowOrder_stableOrder (hcomparable.row axisLen number) program.direction
  obtain ⟨hkeys, hsource, hpositions⟩ :=
    hsorts.row_eq_gather (ι := ι) (hcomparable.row axisLen number) hlength horder
  rw [hdirection] at hkeys hpositions
  exact ⟨by rw [hkeys, sortSlice_eq_gather], by rw [hsource.map_tag_index, hpositions]⟩

/-! ### Agreement -/

/-- Two backends' answers for `len` keys that are to be cut into rows: they return nothing for nothing, refuse what is not
made of rows alike, and where the first one has a result the second one has the same. -/
structure AnswersAgree {α : Type} (nothing : α) (len axisLen : Nat) (first second : Outcome α) : Prop where
  /-- There are no keys. -/
  empty : len = 0 → first = .ok nothing ∧ second = .ok nothing
  /-- There are keys, but no rows of them. -/
  refused : len ≠ 0 → axisLen = 0 ∨ len % axisLen ≠ 0 →
    first = .refuse (.shapeMismatch [axisLen] len) ∧ second = .refuse (.shapeMismatch [axisLen] len)
  /-- A mismatch of shapes is found by both or by neither. -/
  mismatch_iff : ∀ shape found,
    first = .refuse (.shapeMismatch shape found) ↔ second = .refuse (.shapeMismatch shape found)
  /-- A result of the first is one of the second. -/
  ok : ∀ a, first = .ok a → second = .ok a

/-- Answers agree if they do for nothing, for what is not made of rows, and for rows. -/
theorem AnswersAgree.of_rows {α : Type} {nothing : α} {len axisLen : Nat} {first second : Outcome α}
    (hempty : len = 0 → first = .ok nothing ∧ second = .ok nothing)
    (hrefused : len ≠ 0 → ∀ failure, splitRows len axisLen = .error failure →
      first = .error failure ∧ second = .error failure)
    (hrows : len ≠ 0 → 0 < axisLen → len / axisLen * axisLen = len →
      first.RefusedOnly Refusal.OfPlanning ∧ ∃ a, second = .ok a ∧ ∀ b, first = .ok b → b = a) :
    AnswersAgree nothing len axisLen first second := by
  have hbad : len ≠ 0 → axisLen = 0 ∨ len % axisLen ≠ 0 →
      first = .refuse (.shapeMismatch [axisLen] len) ∧ second = .refuse (.shapeMismatch [axisLen] len) :=
    fun hlen hbad => hrefused hlen _ (if_pos hbad)
  by_cases hzero : len = 0
  · obtain ⟨rfl, rfl⟩ := hempty hzero
    exact ⟨hempty, hbad, fun _ _ => Iff.rfl, fun _ h => h⟩
  rcases hsplit : splitRows len axisLen with failure | shape
  · obtain ⟨rfl, rfl⟩ := hrefused hzero failure hsplit
    exact ⟨hempty, hbad, fun _ _ => Iff.rfl, fun _ h => h⟩
  · obtain ⟨hpos, hlen, -⟩ := splitRows_eq_ok_iff.mp hsplit
    obtain ⟨honly, a, rfl, hsame⟩ := hrows hzero hpos hlen
    refine ⟨hempty, hbad, fun shape found => ⟨fun h => ?_, fun h => ?_⟩, fun b hb => congrArg _ (hsame b hb).symm⟩
    · exact (honly _ h).elim
    · exact absurd h.symm (Outcome.refuse_ne_ok _ _)

/-- The backends agree on keys that are sorted without their positions. -/
theorem SliceBackend.sort_answersAgree [RankedOrder κ] (data : Array κ) (axisLen : Nat) (direction : Direction)
    (hcomparable : KeyOrder.Comparable data.toList) (host : HostBackend) (slice : SliceBackend) :
    AnswersAgree #[] data.size axisLen
      ((Backend.sort data axisLen direction : Stateful HostBackend _).run host).1
      ((Backend.sort data axisLen direction : Stateful SliceBackend _).run slice).1 := by
  refine .of_rows (fun hzero => ?_) (fun hdata failure hsplit => ?_) fun hdata hpos hlen => ?_
  · have hempty : data.isEmpty = true := by simpa using hzero
    simp only [Backend.sort, hempty, if_true]
    exact ⟨rfl, rfl⟩
  · have hempty : data.isEmpty = false := by simpa using hdata
    simp only [Backend.sort, hempty, Bool.false_eq_true, if_false, HostBackend.runRows, hsplit]
    exact ⟨rfl, rfl⟩
  · have hempty : data.isEmpty = false := by simpa using hdata
    refine ⟨?_, _, congrArg Prod.fst (slice.run_sort direction hdata hpos hlen), fun values hvalues => ?_⟩
    · simp only [Backend.sort, hempty, Bool.false_eq_true, if_false]
      rw [Stateful.run_bind_pure]
      refine Outcome.refusedOnly_map (HostBackend.refusedOnly_runRows host hdata hpos hlen fun pair hpair => ?_) _
      cases hpair
    · obtain ⟨_, hrun⟩ := Stateful.exists_run_of_fst_eq hvalues
      obtain ⟨-, -, program, hlower, rfl⟩ := HostBackend.exists_of_sort hrun hdata
      exact congrArg List.toArray (flatMap_range_congr fun number hnumber =>
        (Program.sortedRow_eq_sliced (ι := UInt32) hlower hlen hnumber hcomparable).1)

/-- The backends agree on keys that are sorted with their positions. -/
theorem SliceBackend.argsort_answersAgree (ι : Type) [IndexElement ι] [RankedOrder κ] (data : Array κ) (axisLen : Nat)
    (direction : Direction) (hcomparable : KeyOrder.Comparable data.toList) (host : HostBackend) (slice : SliceBackend) :
    AnswersAgree (#[], #[]) data.size axisLen
      ((Backend.argsort ι data axisLen direction : Stateful HostBackend _).run host).1
      ((Backend.argsort ι data axisLen direction : Stateful SliceBackend _).run slice).1 := by
  refine .of_rows (fun hzero => ?_) (fun hdata failure hsplit => ?_) fun hdata hpos hlen => ?_
  · have hempty : data.isEmpty = true := by simpa using hzero
    simp only [Backend.argsort, hempty, if_true]
    exact ⟨rfl, rfl⟩
  · have hempty : data.isEmpty = false := by simpa using hdata
    simp only [Backend.argsort, hempty, Bool.false_eq_true, if_false, HostBackend.runRows, hsplit]
    exact ⟨rfl, rfl⟩
  · have hempty : data.isEmpty = false := by simpa using hdata
    obtain ⟨_, hslice⟩ := slice.exists_argsort (ι := ι) direction hdata hpos hlen
    refine ⟨?_, _, congrArg Prod.fst hslice, fun result hresult => ?_⟩
    · simp only [Backend.argsort, hempty, Bool.false_eq_true, if_false]
      rw [Stateful.run_bind_pure]
      refine Outcome.refusedOnly_map (HostBackend.refusedOnly_runRows host hdata hpos hlen fun pair hpair => ?_) _
      cases hpair
      exact ⟨Array.size_replicate, Array.size_replicate⟩
    · obtain ⟨values, indices⟩ := result
      obtain ⟨_, hrun⟩ := Stateful.exists_run_of_fst_eq hresult
      obtain ⟨-, -, program, hlower, rfl, rfl⟩ := HostBackend.exists_of_argsort hrun hdata
      have hrows := fun number (hnumber : number < data.size / axisLen) =>
        Program.sortedRow_eq_sliced (ι := ι) hlower hlen hnumber hcomparable
      refine Prod.ext (congrArg List.toArray (flatMap_range_congr fun number hnumber => (hrows number hnumber).1)) ?_
      rw [slicedPositions, List.map_flatMap]
      exact congrArg List.toArray (flatMap_range_congr fun number hnumber => (hrows number hnumber).2)

/-- The slice backend agrees with the host. For keys that can be compared, rows of any length, either direction, any index
type and any configuration, and whatever either backend has been asked before, both return nothing for no keys, both
refuse alike what is not made of rows, and whenever the host sorts the keys, or the keys and their positions, the slice
backend returns the same keys and the same positions. -/
theorem SliceBackend.agrees_with_host (ι : Type) [IndexElement ι] [RankedOrder κ] (data : Array κ) (axisLen : Nat)
    (direction : Direction) (hcomparable : KeyOrder.Comparable data.toList) (host : HostBackend) (slice : SliceBackend) :
    AnswersAgree #[] data.size axisLen
        ((Backend.sort data axisLen direction : Stateful HostBackend _).run host).1
        ((Backend.sort data axisLen direction : Stateful SliceBackend _).run slice).1 ∧
      AnswersAgree (#[], #[]) data.size axisLen
        ((Backend.argsort ι data axisLen direction : Stateful HostBackend _).run host).1
        ((Backend.argsort ι data axisLen direction : Stateful SliceBackend _).run slice).1 :=
  ⟨sort_answersAgree data axisLen direction hcomparable host slice,
    argsort_answersAgree ι data axisLen direction hcomparable host slice⟩

end Backend

/-- Zeros of both signs are equal, so they keep their order behind the one, whatever the workspace held before. -/
theorem SliceBackend.agrees_with_host_signed_zeros :
    ((Backend.argsort Int64 (#[⟨0⟩, ⟨2147483648⟩, ⟨1065353216⟩, ⟨0⟩] : Array Binary32) 4 .descending :
        Stateful HostBackend _).run { config := { limits := { maxLanes := 2 }, tuning := { tile := 2 } } }).1 =
      .ok (#[⟨1065353216⟩, ⟨0⟩, ⟨2147483648⟩, ⟨0⟩], #[2, 0, 1, 3]) ∧
    ((Backend.argsort Int64 (#[⟨0⟩, ⟨2147483648⟩, ⟨1065353216⟩, ⟨0⟩] : Array Binary32) 4 .descending :
        Stateful SliceBackend _).run ⟨some ⟨16, #[7, 7]⟩⟩).1 =
      .ok (#[⟨1065353216⟩, ⟨0⟩, ⟨2147483648⟩, ⟨0⟩], #[2, 0, 1, 3]) := by
  have hcomparable : KeyOrder.Comparable ([⟨0⟩, ⟨2147483648⟩, ⟨1065353216⟩, ⟨0⟩] : List Binary32) := by
    unfold KeyOrder.Comparable
    decide
  have hhost : ((Backend.argsort Int64 (#[⟨0⟩, ⟨2147483648⟩, ⟨1065353216⟩, ⟨0⟩] : Array Binary32) 4 .descending :
      Stateful HostBackend _).run { config := { limits := { maxLanes := 2 }, tuning := { tile := 2 } } }).1 =
      .ok (#[⟨1065353216⟩, ⟨0⟩, ⟨2147483648⟩, ⟨0⟩], #[2, 0, 1, 3]) := by cbv
  exact ⟨hhost, (SliceBackend.agrees_with_host Int64 _ 4 .descending hcomparable _ ⟨some ⟨16, #[7, 7]⟩⟩).2.ok _ hhost⟩

end MergePathSort
