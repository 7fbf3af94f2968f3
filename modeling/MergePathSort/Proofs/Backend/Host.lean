import Mathlib
import MergePathSort.Backend.Host
import MergePathSort.Proofs.Host.Execution
import MergePathSort.Proofs.Sorted.Permutation

/-!
# Sorting rows on the host

The host backend cuts the data into rows, lowers a program for them and runs it. What it returns is read off the rows
as the program leaves them. If the keys of a row are comparable, its indices are the stable sorting permutation of
the row, and its values are the keys at these positions. If they are not, the indices still are positions of the row
and lead to the values, but a key may be returned twice and another one lost.

## Main definitions

* `sortedRow` : a row after a program that starts from nothing.

## Main results

* `HostBackend.exists_of_argsort`, `HostBackend.exists_sort` : the result of the host backend, row by row.
* `HostBackend.argsort_stableOrder` : the host backend sorts stably.
* `HostBackend.argsort_perm_iff` : for keys that need not be comparable, when it keeps all keys of a row.
-/

namespace MergePathSort

variable {κ ι : Type}

/-! ### Rows that follow each other -/

/-- Data that is cut into rows is a whole number of rows, which are not empty. -/
theorem splitRows_eq_ok_iff {len axisLen : Nat} {shape : List Nat} :
    splitRows len axisLen = .ok shape ↔
      0 < axisLen ∧ len / axisLen * axisLen = len ∧ shape = [len / axisLen, axisLen] := by
  rw [splitRows]
  split
  · rename_i hbad
    constructor
    · intro h
      exact absurd h (Outcome.refuse_ne_ok _ _)
    · rintro ⟨hpos, hlen, -⟩
      rcases hbad with hzero | hrest
      · omega
      · exact absurd (Nat.mod_eq_zero_of_dvd ⟨len / axisLen, by rw [Nat.mul_comm]; exact hlen.symm⟩) hrest
  · rename_i hgood
    obtain ⟨hpos, hrest⟩ := not_or.mp hgood
    have hlen : len / axisLen * axisLen = len := Nat.div_mul_cancel (Nat.dvd_of_mod_eq_zero (by omega))
    constructor
    · intro h
      cases h
      exact ⟨by omega, hlen, rfl⟩
    · rintro ⟨-, -, rfl⟩
      rfl

/-- The view of rows as a shape with two axes. -/
theorem AxisView.eq_of_ofShape_rows {rows axisLen : Nat} {view : AxisView}
    (h : AxisView.ofShape [rows, axisLen] 1 = .ok view) : view = .ofRows rows axisLen := by
  change (Size.product [rows] >>= fun before => .ok (⟨before, axisLen, 1⟩ : AxisView)) = .ok view at h
  obtain ⟨before, hbefore, h⟩ := Outcome.bind_eq_ok_iff.mp h
  cases h
  change Size.mul 1 rows >>= pure = .ok before at hbefore
  obtain ⟨product, hproduct, hbefore⟩ := Outcome.bind_eq_ok_iff.mp hbefore
  cases hbefore
  obtain ⟨-, rfl⟩ := Size.mul_eq_ok_iff.mp hproduct
  rw [Nat.one_mul]
  rfl

section Lower

variable {rows axisLen : Nat} {direction : Direction} {indexed : Bool} {config : Config} {program : Program}

/-- The program that is lowered for rows. -/
theorem Program.eq_of_lower_rows
    (h : Program.lower [rows, axisLen] 1 direction indexed config = .ok program) :
    program.view = .ofRows rows axisLen ∧ program.direction = direction ∧ program.indexed = indexed := by
  obtain ⟨-, hview, -, hdirection, hindexed, -⟩ := Program.lower_spec h
  exact ⟨AxisView.eq_of_ofShape_rows hview, hdirection, hindexed⟩

/-- The program that is lowered for rows that are not empty sorts them. -/
theorem Program.exists_sorts_of_lower_rows
    (h : Program.lower [rows, axisLen] 1 direction indexed config = .ok program) (hrows : rows * axisLen ≠ 0) :
    ∃ copy tiles passes shapes, program.Sorts config.tuning.tile copy tiles passes shapes := by
  refine Program.exists_sorts_of_lower h ?_
  rw [(Program.eq_of_lower_rows h).1]
  exact hrows

end Lower

/-! ### Programs of the backend -/

variable [Element κ] [IndexElement ι]

namespace HostBackend

variable {data : Array κ} {axisLen : Nat} {direction : Direction} {backend backend' : HostBackend}
  {indices : Option (DoubleBuffer (Array ι))} {buffers : Buffers κ ι}

/-- Rows are sorted exactly if they are rows, a program is lowered for them, and it runs. -/
theorem runRows_eq_ok_iff :
    (runRows data axisLen direction indices).run backend = (.ok buffers, backend') ↔
      0 < axisLen ∧ data.size / axisLen * axisLen = data.size ∧ ∃ program report,
        Program.lower [data.size / axisLen, axisLen] 1 direction indices.isSome backend.config = .ok program ∧
        program.execute data ⟨.zeros data.size, indices⟩ = .ok (buffers, report) ∧
        { backend with runner := ⟨backend.runner.report + report⟩ } = backend' := by
  rw [runRows]
  simp only [Stateful.run_bind_eq_ok_iff, Stateful.run_get_eq_ok_iff, Stateful.run_ofOutcome_eq_ok_iff,
    Stateful.run_set_eq_ok_iff, Stateful.run_pure_eq_ok_iff, splitRows_eq_ok_iff]
  constructor
  · rintro ⟨_, _, ⟨rfl, rfl⟩, shape, _, ⟨⟨hpos, hlen, rfl⟩, rfl⟩, program, _, ⟨hlower, rfl⟩, ⟨result, runner⟩, _,
      ⟨hrun, rfl⟩, ⟨_, _, rfl, rfl, rfl⟩⟩
    obtain ⟨⟨_, report⟩, hexecute, hrun⟩ := Outcome.bind_eq_ok_iff.mp hrun
    cases hrun
    exact ⟨hpos, hlen, program, report, hlower, hexecute, rfl⟩
  · rintro ⟨hpos, hlen, program, report, hlower, hexecute, rfl⟩
    refine ⟨_, _, ⟨rfl, rfl⟩, _, _, ⟨⟨hpos, hlen, rfl⟩, rfl⟩, program, _, ⟨hlower, rfl⟩, (buffers, _), _, ⟨?_, rfl⟩,
      ⟨⟨⟩, _, rfl, rfl, rfl⟩⟩
    rw [HostRunner.run, hexecute]
    rfl

/-- The program that is lowered for rows runs on buffers of zeros, and leaves every row sorted. -/
theorem exists_execute_rows {program : Program}
    (hlower : Program.lower [data.size / axisLen, axisLen] 1 direction indices.isSome backend.config = .ok program)
    (hlen : data.size / axisLen * axisLen = data.size) (hdata : data.size ≠ 0)
    (hindices : ∀ pair, indices = some pair → pair.front.size = data.size ∧ pair.back.size = data.size) :
    ∃ result report, program.execute data ⟨.zeros data.size, indices⟩ = .ok (result, report) ∧
      result.keys.front = keysOfRows (data.size / axisLen) (fun number =>
        (program.sortedRow (chunk axisLen data.toList number) : TaggedRow κ ι).front) ∧
      (result.indices.map (·.front)).getD #[] = if indices.isSome then
        indicesOfRows (data.size / axisLen) (fun number =>
          (program.sortedRow (chunk axisLen data.toList number) : TaggedRow κ ι).front) else #[] := by
  obtain ⟨hview, -, hindexed⟩ := Program.eq_of_lower_rows hlower
  obtain ⟨copy, tiles, passes, shapes, hsorts⟩ := Program.exists_sorts_of_lower_rows hlower (by rwa [hlen])
  have hbefore : program.view.before = data.size / axisLen := by rw [hview]; rfl
  have haxisLen : program.view.axisLen = axisLen := by rw [hview]; rfl
  have htotal : program.view.before * program.view.axisLen = data.size := by rw [hbefore, haxisLen, hlen]
  have hlaunches : program.launches ≠ [] := by
    rw [hsorts.launches_eq]
    simp [sortLaunches, launchesUpTo]
  have hlength : Buffers.HasLength (⟨.zeros data.size, indices⟩ : Buffers κ ι)
      (program.view.before * program.view.axisLen) := by
    rw [htotal]
    exact ⟨Array.size_replicate, Array.size_replicate, hindices⟩
  have hsome : program.indexed = true → indices ≠ none := by
    rw [hindexed]
    exact Option.isSome_iff_ne_none.mp
  obtain ⟨report, hexecute⟩ := Program.exists_execute hsorts.toFits hlaunches htotal.symm
    (Program.hasLength_tracked hlength) hsome
  have hrow : ∀ number, program.finalRow data (⟨.zeros data.size, indices⟩ : Buffers κ ι) number =
      program.sortedRow (chunk axisLen data.toList number) := by
    intro number
    rw [Program.finalRow, hsorts.launchesOnRow_eq, haxisLen]
  refine ⟨_, report, hexecute, ?_, ?_⟩
  · simp only [Program.result, hrow, hbefore]
  · simp only [Program.result, hrow, hbefore, hindexed]
    cases indices with
    | none => rfl
    | some pair => rfl

end HostBackend

/-! ### The backend -/

section Backend

variable {data values : Array κ} {indices : Array ι} {axisLen : Nat} {direction : Direction}
  {backend backend' : HostBackend}

/-- What the host backend returns when it sorts with indices. -/
theorem HostBackend.exists_of_argsort
    (h : (Backend.argsort ι data axisLen direction : Stateful HostBackend _).run backend =
      (.ok (values, indices), backend')) (hdata : data.size ≠ 0) :
    0 < axisLen ∧ data.size / axisLen * axisLen = data.size ∧ ∃ program,
      Program.lower [data.size / axisLen, axisLen] 1 direction true backend.config = .ok program ∧
      values = keysOfRows (data.size / axisLen) (fun number =>
        (program.sortedRow (chunk axisLen data.toList number) : TaggedRow κ ι).front) ∧
      indices = indicesOfRows (data.size / axisLen) (fun number =>
        (program.sortedRow (chunk axisLen data.toList number) : TaggedRow κ ι).front) := by
  have hempty : data.isEmpty = false := by simpa using hdata
  simp only [Backend.argsort, hempty] at h
  obtain ⟨buffers, _, hrows, hresult⟩ := Stateful.run_bind_eq_ok_iff.mp h
  obtain ⟨hresult, rfl⟩ := Stateful.run_pure_eq_ok_iff.mp hresult
  cases hresult
  obtain ⟨hpos, hlen, program, report, hlower, hexecute, -⟩ := HostBackend.runRows_eq_ok_iff.mp hrows
  obtain ⟨result, report', hexecute', hkeys, hindices⟩ := HostBackend.exists_execute_rows hlower hlen hdata (by
    rintro pair ⟨⟩
    exact ⟨Array.size_replicate, Array.size_replicate⟩)
  rw [hexecute] at hexecute'
  cases hexecute'
  exact ⟨hpos, hlen, program, hlower, hkeys, hindices⟩

omit [Element κ] in
/-- A row of data that the host backend sorts, and the program that sorts it. -/
theorem HostBackend.exists_sorts_row {program : Program} {indexed : Bool}
    (hlower : Program.lower [data.size / axisLen, axisLen] 1 direction indexed backend.config = .ok program)
    (hlen : data.size / axisLen * axisLen = data.size) {row : Nat} (hrow : row < data.size / axisLen) :
    ∃ copy tiles passes shapes, program.Sorts backend.config.tuning.tile copy tiles passes shapes ∧
      (chunk axisLen data.toList row).length = program.view.axisLen := by
  have haxisLen : program.view.axisLen = axisLen := by
    rw [(Program.eq_of_lower_rows hlower).1]
    rfl
  have hdata : data.size ≠ 0 := by
    intro hzero
    simp [hzero] at hrow
  obtain ⟨copy, tiles, passes, shapes, hsorts⟩ := Program.exists_sorts_of_lower_rows hlower (by rwa [hlen])
  exact ⟨copy, tiles, passes, shapes, hsorts, by rw [haxisLen, length_chunk_of_lt hlen.symm hrow]⟩

omit [IndexElement ι] in
/-- The keys that the program leaves in every row, as many as there were. -/
theorem HostBackend.length_sortedRow {program : Program} {indexed : Bool}
    (hlower : Program.lower [data.size / axisLen, axisLen] 1 direction indexed backend.config = .ok program)
    (hlen : data.size / axisLen * axisLen = data.size) {row : Nat} (hrow : row < data.size / axisLen) :
    (program.sortedRow (chunk axisLen data.toList row) : TaggedRow κ ι).front.length = axisLen := by
  obtain ⟨copy, tiles, passes, shapes, hsorts, hlength⟩ := exists_sorts_row hlower hlen hrow
  rw [(hsorts.hasLength_sortedRow hlength).front, ← hlength, length_chunk_of_lt hlen.symm hrow]

/-- The size of what the host backend returns. -/
theorem HostBackend.size_of_argsort
    (h : (Backend.argsort ι data axisLen direction : Stateful HostBackend _).run backend =
      (.ok (values, indices), backend')) : values.size = data.size ∧ indices.size = data.size := by
  by_cases hdata : data.size = 0
  · have hempty : data.isEmpty = true := by simpa using hdata
    simp only [Backend.argsort, hempty, if_true] at h
    cases (Stateful.run_pure_eq_ok_iff.mp h).1
    exact ⟨hdata.symm, hdata.symm⟩
  · obtain ⟨-, hlen, program, hlower, rfl, rfl⟩ := HostBackend.exists_of_argsort h hdata
    exact ⟨(length_flatMap_rows _ fun _ => length_sortedRow hlower hlen).trans hlen,
      (length_flatMap_rows _ fun _ => length_sortedRow hlower hlen).trans hlen⟩

/-- A row of what the host backend returns: the keys, and the indices, of the row as a program leaves it. -/
theorem HostBackend.exists_row_of_argsort
    (h : (Backend.argsort ι data axisLen direction : Stateful HostBackend _).run backend =
      (.ok (values, indices), backend')) {row : Nat} (hrow : row < data.size / axisLen) :
    ∃ program, Program.lower [data.size / axisLen, axisLen] 1 direction true backend.config = .ok program ∧
      (∃ copy tiles passes shapes, program.Sorts backend.config.tuning.tile copy tiles passes shapes) ∧
      (chunk axisLen data.toList row).length = program.view.axisLen ∧
      chunk axisLen values.toList row =
        (program.sortedRow (chunk axisLen data.toList row) : TaggedRow κ ι).front.map Prod.fst ∧
      chunk axisLen indices.toList row =
        (program.sortedRow (chunk axisLen data.toList row) : TaggedRow κ ι).front.map (·.2.index) := by
  have hdata : data.size ≠ 0 := by
    intro hzero
    simp [hzero] at hrow
  obtain ⟨-, hlen, program, hlower, rfl, rfl⟩ := HostBackend.exists_of_argsort h hdata
  obtain ⟨copy, tiles, passes, shapes, hsorts, hlength⟩ := exists_sorts_row hlower hlen hrow
  exact ⟨program, hlower, ⟨copy, tiles, passes, shapes, hsorts⟩, hlength,
    chunk_flatMap_rows _ (fun _ => length_sortedRow hlower hlen) hrow,
    chunk_flatMap_rows _ (fun _ => length_sortedRow hlower hlen) hrow⟩

/-- A row of comparable keys that the host backend returns: its indices are the stable sorting permutation of the row,
and its values are the keys at these positions. -/
theorem HostBackend.exists_order_of_argsort [RankedOrder κ] [FaithfulIndex ι]
    (h : (Backend.argsort ι data axisLen direction : Stateful HostBackend _).run backend =
      (.ok (values, indices), backend')) {row : Nat} (hrow : row < data.size / axisLen)
    (hcomparable : KeyOrder.Comparable (chunk axisLen data.toList row)) :
    ∃ order, direction.StableOrder (chunk axisLen data.toList row) order ∧
      (chunk axisLen indices.toList row).map Element.toNumber = order.map Nat.cast ∧
      chunk axisLen values.toList row = gather (chunk axisLen data.toList row) order := by
  obtain ⟨program, hlower, ⟨copy, tiles, passes, shapes, hsorts⟩, hlength, hkeys, hpositions⟩ :=
    HostBackend.exists_row_of_argsort h hrow
  obtain ⟨hsource, horder⟩ := hsorts.stableOrder (ι := ι) hcomparable hlength
  have hword := hsorts.axisLen_le_word
  rw [(Program.eq_of_lower_rows hlower).2.1] at horder
  refine ⟨_, horder, ?_, ?_⟩
  · rw [hpositions, hsource.map_index (by omega)]
  · rw [hkeys, hsource.map_eq.1]

/-- The host backend sorts stably: if the keys of a row are comparable, the indices of the row are its stable sorting
permutation, and the values are the keys at these positions. -/
theorem HostBackend.argsort_stableOrder [RankedOrder κ] [FaithfulIndex ι]
    (h : (Backend.argsort ι data axisLen direction : Stateful HostBackend _).run backend =
      (.ok (values, indices), backend')) :
    values.size = data.size ∧ indices.size = data.size ∧
      ∀ row < data.size / axisLen, KeyOrder.Comparable (chunk axisLen data.toList row) →
        ∃ order, direction.StableOrder (chunk axisLen data.toList row) order ∧
          (chunk axisLen indices.toList row).map Element.toNumber = order.map Nat.cast ∧
          chunk axisLen values.toList row = gather (chunk axisLen data.toList row) order := by
  obtain ⟨hvalues, hindices⟩ := HostBackend.size_of_argsort h
  exact ⟨hvalues, hindices, fun _ hrow hcomparable => HostBackend.exists_order_of_argsort h hrow hcomparable⟩

end Backend

/-- Four keys, two of them equal, sorted by two tiles and a pass. -/
theorem HostBackend.argsort_four_keys :
    ∃ backend', (Backend.argsort UInt32 (#[2, 1, 2, 0] : Array Int32) 4 .ascending : Stateful HostBackend _).run
        { config := { limits := { maxLanes := 2 }, tuning := { tile := 2 } } } =
      (.ok (#[0, 1, 2, 2], #[3, 1, 0, 2]), backend') ∧
      ∃ order, Direction.ascending.StableOrder ([2, 1, 2, 0] : List Int32) order ∧
        ([3, 1, 0, 2] : List UInt32).map Element.toNumber = order.map Nat.cast ∧
        ([0, 1, 2, 2] : List Int32) = gather [2, 1, 2, 0] order := by
  have hrun : (Backend.argsort UInt32 (#[2, 1, 2, 0] : Array Int32) 4 .ascending : Stateful HostBackend _).run
      { config := { limits := { maxLanes := 2 }, tuning := { tile := 2 } } } =
      (.ok (#[0, 1, 2, 2], #[3, 1, 0, 2]), _) := Prod.ext (by cbv) rfl
  have hcomparable : KeyOrder.Comparable ([2, 1, 2, 0] : List Int32) := fun _ _ _ _ => rfl
  exact ⟨_, hrun, (HostBackend.argsort_stableOrder hrun).2.2 0 (by decide) hcomparable⟩

section Backend

variable {data values : Array κ} {indices : Array ι} {axisLen : Nat} {direction : Direction}
  {backend backend' : HostBackend}

/-- Whatever the keys of a row are, the indices are positions of the row, and the values are the keys at these
positions. Every position occurs, and so every key, exactly if no launch takes a position of the row twice. -/
theorem HostBackend.argsort_perm_iff [FaithfulIndex ι]
    (h : (Backend.argsort ι data axisLen direction : Stateful HostBackend _).run backend =
      (.ok (values, indices), backend')) :
    ∀ row < data.size / axisLen, ∃ program order,
      Program.lower [data.size / axisLen, axisLen] 1 direction true backend.config = .ok program ∧
      (chunk axisLen indices.toList row).map Element.toNumber = order.map Nat.cast ∧
      chunk axisLen values.toList row = gather (chunk axisLen data.toList row) order ∧
      order.length = axisLen ∧ (∀ p ∈ order, p < axisLen) ∧
      (order.Perm (List.range axisLen) → (chunk axisLen values.toList row).Perm (chunk axisLen data.toList row)) ∧
      (order.Perm (List.range axisLen) ↔
        launchesTakeOnce direction (chunk axisLen data.toList row) program.launches (⟨[], []⟩ : TaggedRow κ ι)) := by
  intro row hrow
  obtain ⟨program, hlower, ⟨copy, tiles, passes, shapes, hsorts⟩, hlength, hkeys, hpositions⟩ :=
    HostBackend.exists_row_of_argsort h hrow
  have hword := hsorts.axisLen_le_word
  have haxisLen : (chunk axisLen data.toList row).length = axisLen := by
    rw [hlength, (Program.eq_of_lower_rows hlower).1]
    rfl
  have hsource := hsorts.fromSource (ι := ι) hlength
  have hiff := hsorts.perm_range_iff (ι := ι) hlength
  rw [haxisLen, (Program.eq_of_lower_rows hlower).2.1] at hiff
  have hvalues : chunk axisLen values.toList row = gather (chunk axisLen data.toList row)
      (positions (program.sortedRow (chunk axisLen data.toList row) : TaggedRow κ ι).front) := by
    rw [hkeys, hsource.map_eq.1]
  refine ⟨program, _, hlower, ?_, hvalues, ?_, fun p hp => ?_, fun hperm => ?_, hiff⟩
  · rw [hpositions, hsource.map_index (by omega)]
  · rw [hsource.length_positions, (hsorts.hasLength_sortedRow hlength).front, ← hlength, haxisLen]
  · rw [← haxisLen]
    exact hsource.lt_of_mem_positions hp
  · rw [hvalues]
    exact gather_perm (by rwa [haxisLen])

end Backend

/-- A row that starts with NaN loses its first two keys. NaN precedes nothing, so the first lane of the only pass takes
the right run; the second lane finds that the left run has been taken, and takes the right one again. -/
theorem HostBackend.argsort_nan_first :
    ∃ backend', (Backend.argsort UInt32 (#[⟨2143289344⟩, ⟨0⟩, ⟨1065353216⟩, ⟨1073741824⟩] : Array Binary32) 4
        .ascending : Stateful HostBackend _).run
        { config := { limits := { maxLanes := 2 }, tuning := { tile := 2 } } } =
      (.ok (#[⟨1065353216⟩, ⟨1073741824⟩, ⟨1065353216⟩, ⟨1073741824⟩], #[2, 3, 2, 3]), backend') ∧
      ∃ program, Program.lower [1, 4] 1 .ascending true
          { limits := { maxLanes := 2 }, tuning := { tile := 2 } } = .ok program ∧
        ¬launchesTakeOnce .ascending ([⟨2143289344⟩, ⟨0⟩, ⟨1065353216⟩, ⟨1073741824⟩] : List Binary32) program.launches
          (⟨[], []⟩ : TaggedRow Binary32 UInt32) := by
  have hrun : (Backend.argsort UInt32 (#[⟨2143289344⟩, ⟨0⟩, ⟨1065353216⟩, ⟨1073741824⟩] : Array Binary32) 4
      .ascending : Stateful HostBackend _).run
      { config := { limits := { maxLanes := 2 }, tuning := { tile := 2 } } } =
      (.ok (#[⟨1065353216⟩, ⟨1073741824⟩, ⟨1065353216⟩, ⟨1073741824⟩], #[2, 3, 2, 3]), _) := Prod.ext (by cbv) rfl
  obtain ⟨program, order, hlower, hindices, -, -, -, -, hiff⟩ := HostBackend.argsort_perm_iff hrun 0 (by decide)
  have horder : order = [2, 3, 2, 3] :=
    List.map_injective_iff.mpr (fun _ _ => Int.ofNat_inj.mp) hindices.symm
  refine ⟨_, hrun, program, hlower, fun htakes => ?_⟩
  have hperm := hiff.mpr htakes
  rw [horder] at hperm
  exact absurd (hperm.nodup_iff.mpr List.nodup_range) (by decide)

end MergePathSort
