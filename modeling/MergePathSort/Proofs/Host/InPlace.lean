import MergePathSort.Proofs.Launch.Unrefused
import MergePathSort.Proofs.Schedule.Execution

/-!
# Running programs where the buffers are

A runner works on the buffers that it is handed. It checks the lengths, and then every launch cuts the buffers into rows,
runs on them, leaves them changed and adds to the report. So a run that ended early would leave both half done. Carried out
in this way a run ends as it does when it is computed from its input: nothing is refused after the checks, and a launch
finds in the buffers the rows that the last one left.

## Main definitions

* `Workplace` : a runner and the buffers that it is handed.
* `Workplace.run` : a run that changes the buffers where they are.

## Main results

* `Buffers.rows_ofRows`, `Buffers.HasLength.ofRows_rows` : buffers are cut into rows and put together.
* `Workplace.run_eq_refuse_iff` : runs that are refused.
* `Workplace.run_eq_ok` : runs that succeed.
-/

namespace MergePathSort

variable {κ ι : Type}

/-! ### Rows that are put together -/

namespace Buffers

variable {axisLen : Nat}

/-- The number of elements of parts of one size. -/
theorem size_join {α : Type} {parts : List (Array α)} (h : ∀ part ∈ parts, part.size = axisLen) :
    (join parts).size = parts.length * axisLen := by
  have hlengths : ∀ part ∈ parts, part.toList.length = axisLen := fun part hpart => by
    rw [Array.length_toList, h part hpart]
  rw [join_eq_toArray_flatMap, List.size_toArray, List.length_flatMap, List.map_congr_left hlengths, List.map_const',
    List.sum_replicate_nat]

/-- A part is read back from where it is put. -/
theorem extract_join {α : Type} {parts : List (Array α)} (h : ∀ part ∈ parts, part.size = axisLen) (number : Nat)
    (hnumber : number < parts.length) :
    (join parts).extract (number * axisLen) (number * axisLen + axisLen) = parts[number] := by
  have hlengths : ∀ part ∈ parts.map Array.toList, part.length = axisLen := by
    refine List.forall_mem_map.mpr fun part hpart => ?_
    rw [Array.length_toList, h part hpart]
  rw [join_eq_toArray_flatMap, extract_eq_chunk, List.flatMap_def, chunk_flatten hlengths (by simpa using hnumber),
    List.getElem_map]

/-- One side of a row is cut out of the sides of all rows. -/
theorem rowCells_join {sides : List (Cells κ ι)} {indexed : Bool}
    (h : ∀ side ∈ sides, side.room = (axisLen, if indexed then some axisLen else none)) (number : Nat)
    (hnumber : number < sides.length) :
    rowCells axisLen number (join (sides.map Cells.keys))
      (if indexed then some (join (sides.filterMap Cells.indices)) else none) = sides[number] := by
  have hkeys : ∀ part ∈ sides.map Cells.keys, part.size = axisLen :=
    List.forall_mem_map.mpr fun side hside => congrArg Prod.fst (h side hside)
  have hpart := extract_join hkeys number (by simpa using hnumber)
  rw [List.getElem_map] at hpart
  have hroom : sides[number].indices.map Array.size = if indexed then some axisLen else none :=
    congrArg Prod.snd (h _ (List.getElem_mem hnumber))
  cases indexed with
  | false =>
    have hnone : sides[number].indices = none := Option.map_eq_none_iff.mp hroom
    simp only [rowCells, hpart, Bool.false_eq_true, if_false, Option.map_none]
    rw [← hnone]
  | true =>
    -- Every side has indices, so that nothing is left out when they are joined.
    have hsome : ∀ side ∈ sides, side.indices = some (side.indices.getD #[]) := fun side hside => by
      obtain ⟨words, hwords, -⟩ := Option.map_eq_some_iff.mp (congrArg Prod.snd (h side hside))
      rw [hwords, Option.getD_some]
    have hall : sides.filterMap Cells.indices = sides.map fun side => side.indices.getD #[] := by
      rw [← List.filterMap_eq_map']
      exact List.filterMap_congr hsome
    have hsizes : ∀ part ∈ sides.map fun side => side.indices.getD #[], part.size = axisLen :=
      List.forall_mem_map.mpr fun side hside => by
        have hsize : side.indices.map Array.size = some axisLen := congrArg Prod.snd (h side hside)
        rw [hsome side hside] at hsize
        exact Option.some.inj hsize
    have hindices := extract_join hsizes number (by simpa using hnumber)
    rw [List.getElem_map] at hindices
    simp only [rowCells, hpart, hall, if_true, Option.map_some, hindices]
    rw [← hsome _ (List.getElem_mem hnumber)]

/-- The room of a row: all keys of the row on either side, and as many indices if they are tracked. -/
def rowRoom (axisLen : Nat) (indexed : Bool) : DoubleBuffer (Nat × Option Nat) :=
  .both (axisLen, if indexed then some axisLen else none)

/-- Rows that are put together are cut apart again. -/
theorem rows_ofRows {rows : List (RowCells κ ι)} {indexed : Bool} (haxisLen : 0 < axisLen)
    (hrows : ∀ cells ∈ rows, HasRoom (rowRoom axisLen indexed) cells) : (ofRows rows indexed).rows axisLen = rows := by
  have hfront : ∀ side ∈ rows.map DoubleBuffer.front, side.room = (axisLen, if indexed then some axisLen else none) :=
    List.forall_mem_map.mpr fun cells hcells => congrArg DoubleBuffer.front (hrows cells hcells)
  have hback : ∀ side ∈ rows.map DoubleBuffer.back, side.room = (axisLen, if indexed then some axisLen else none) :=
    List.forall_mem_map.mpr fun cells hcells => congrArg DoubleBuffer.back (hrows cells hcells)
  have hsize : (ofRows rows indexed).keys.front.size = rows.length * axisLen := by
    have hsizes : ∀ part ∈ rows.map fun cells => cells.front.keys, part.size = axisLen :=
      List.forall_mem_map.mpr fun cells hcells => congrArg Prod.fst (congrArg DoubleBuffer.front (hrows cells hcells))
    exact (size_join hsizes).trans (by rw [List.length_map])
  refine List.ext_getElem ?_ fun number hleft hright => ?_
  · simp only [Buffers.rows, List.length_map, List.length_range, hsize, Nat.mul_div_cancel _ haxisLen]
  · have hfrontRow := rowCells_join hfront number (by simpa using hright)
    have hbackRow := rowCells_join hback number (by simpa using hright)
    rw [List.getElem_map, List.map_map, List.filterMap_map] at hfrontRow hbackRow
    simp only [Buffers.rows, List.getElem_map, List.getElem_range]
    rw [show rows[number] = ⟨rows[number].front, rows[number].back⟩ from rfl, ← hfrontRow, ← hbackRow]
    cases indexed <;> rfl

/-- What is cut into parts of one size is put together again. -/
theorem join_extract {α : Type} {data : Array α} {count : Nat} (h : data.size = count * axisLen) :
    join ((List.range count).map fun number => data.extract (number * axisLen) (number * axisLen + axisLen)) = data := by
  simp only [join_eq_toArray_flatMap, List.flatMap_map, extract_eq_chunk]
  rw [flatMap_chunk, ← h, List.take_of_length_le (Nat.le_of_eq Array.length_toList), Array.toArray_toList]

/-- A part of the size that all parts have. -/
theorem size_extract_row {α : Type} {data : Array α} {count number : Nat} (h : data.size = count * axisLen)
    (hnumber : number < count) : (data.extract (number * axisLen) (number * axisLen + axisLen)).size = axisLen := by
  rw [extract_eq_chunk, List.size_toArray, length_chunk_of_length (Array.length_toList.trans h) hnumber]

variable {buffers : Buffers κ ι} {count : Nat}

/-- The rows of buffers have the room of rows. -/
theorem HasLength.hasRoom_rows (h : buffers.HasLength (count * axisLen)) (haxisLen : 0 < axisLen) :
    ∀ cells ∈ buffers.rows axisLen, HasRoom (rowRoom axisLen buffers.indices.isSome) cells := by
  rw [Buffers.rows, h.front, Nat.mul_div_cancel _ haxisLen]
  refine List.forall_mem_map.mpr fun number hnumber => ?_
  rw [List.mem_range] at hnumber
  have hfront := size_extract_row h.front hnumber
  have hback := size_extract_row h.back hnumber
  cases hindices : buffers.indices with
  | none => exact congrArg₂ DoubleBuffer.mk (Prod.ext hfront rfl) (Prod.ext hback rfl)
  | some indices =>
    obtain ⟨hfrontIndices, hbackIndices⟩ := h.indices indices hindices
    exact congrArg₂ DoubleBuffer.mk (Prod.ext hfront (congrArg some (size_extract_row hfrontIndices hnumber)))
      (Prod.ext hback (congrArg some (size_extract_row hbackIndices hnumber)))

/-- Buffers that are cut into rows are put together again. -/
theorem HasLength.ofRows_rows (h : buffers.HasLength (count * axisLen)) (haxisLen : 0 < axisLen) :
    ofRows (buffers.rows axisLen) buffers.indices.isSome = buffers := by
  obtain ⟨⟨front, back⟩, _ | ⟨frontIndices, backIndices⟩⟩ := buffers
  all_goals
    simp only [ofRows, Buffers.rows, h.front, Nat.mul_div_cancel _ haxisLen, List.map_map, List.filterMap_map,
      Function.comp_def, rowCells, Option.map_none, Option.map_some, join_extract h.front, join_extract h.back]
  · rfl
  · obtain ⟨hfrontIndices, hbackIndices⟩ := h.indices _ rfl
    simp only [List.filterMap_eq_map', join_extract hfrontIndices, join_extract hbackIndices, Option.isSome_some,
      if_true]

end Buffers

/-! ### Workplaces -/

/-- A runner, and the buffers that it is handed. -/
structure Workplace (κ ι : Type) where
  /-- The runner. -/
  runner : HostRunner
  /-- The buffers. -/
  buffers : Buffers κ ι

/-- Faults if the rows of a program cannot be told apart. -/
def Program.requireRows (program : Program) : Outcome Unit :=
  if program.view.isPacked = false then .fault .assertion
  else if program.view.axisLen = 0 then .fault .arithmetic
  else .ok ()

/-- The buffers with their rows replaced. Indices that are not tracked are left alone. -/
def Program.replaceRows (program : Program) (buffers : Buffers κ ι) (rows : List (RowCells κ ι)) : Buffers κ ι :=
  let replaced := Buffers.ofRows rows program.indexed
  ⟨replaced.keys, if program.indexed then replaced.indices else buffers.indices⟩

namespace Workplace

variable [Element κ] [IndexElement ι]

/-- Runs a launch on the rows of the buffers, and adds it to the report. -/
def launch (program : Program) (input : Array κ) (launch : Launch) : Stateful (Workplace κ ι) Unit := do
  let place ← get
  let (rows, more) ← Stateful.ofOutcome
    (launch.execute program input ((program.tracked place.buffers).rows program.view.axisLen))
  set (⟨⟨place.runner.report + more⟩, program.replaceRows place.buffers rows⟩ : Workplace κ ι)

/-- Runs a program on the buffers where they are. -/
def run (program : Program) (input : Array κ) : Stateful (Workplace κ ι) Unit := do
  let place ← get
  Stateful.ofOutcome (program.check input place.buffers)
  if program.isEmpty then return
  Stateful.ofOutcome program.requireRows
  program.launches.forM (launch program input)

end Workplace

variable [Element κ] [IndexElement ι]

/-- A run as it is computed from its input: the checks, and then the launches. -/
theorem Program.execute_eq (program : Program) (input : Array κ) (buffers : Buffers κ ι) :
    program.execute input buffers = (do
      program.check input buffers
      if program.isEmpty then return (buffers, {})
      program.requireRows
      let (rows, report) ← program.runLaunches input ((program.tracked buffers).rows program.view.axisLen)
      return (program.replaceRows buffers rows, report)) := by
  rw [execute, check, bind_assoc]
  refine bind_congr fun total => ?_
  rw [bind_assoc]
  refine bind_congr fun _ => ?_
  rw [bind_assoc]
  refine bind_congr fun _ => (checkIndices_bind ..).trans (bind_congr fun _ => ?_)
  rw [requireRows]
  cases program.isEmpty with
  | true => rfl
  | false =>
    cases program.view.isPacked with
    | false => rfl
    | true =>
      by_cases haxisLen : program.view.axisLen = 0
      · simp only [if_pos haxisLen]
        rfl
      · simp only [if_neg haxisLen]
        rfl

/-! ### Reports and rows -/

theorem Report.add_assoc (a b c : Report) : a + b + c = a + (b + c) := by
  change Report.mk _ _ _ = Report.mk _ _ _
  congr 1 <;> exact Nat.add_assoc ..

namespace Program

variable {program : Program} {buffers : Buffers κ ι}

omit [Element κ] [IndexElement ι] in
/-- What a program tracks of buffers whose rows are replaced: the new rows. -/
theorem tracked_replaceRows (rows : List (RowCells κ ι)) :
    program.tracked (program.replaceRows buffers rows) = Buffers.ofRows rows program.indexed := by
  cases hindexed : program.indexed <;> simp [tracked, replaceRows, Buffers.ofRows, hindexed]

omit [Element κ] [IndexElement ι] in
/-- Rows that are replaced twice. -/
theorem replaceRows_replaceRows (rows rows' : List (RowCells κ ι)) :
    program.replaceRows (program.replaceRows buffers rows) rows' = program.replaceRows buffers rows' := by
  cases hindexed : program.indexed <;> simp [replaceRows, hindexed]

omit [Element κ] [IndexElement ι] in
/-- Replacing the rows of buffers by what they are. -/
theorem replaceRows_of_ofRows_eq {rows : List (RowCells κ ι)}
    (h : Buffers.ofRows rows program.indexed = program.tracked buffers) : program.replaceRows buffers rows = buffers := by
  cases hindexed : program.indexed with
  | false =>
    rw [hindexed] at h
    simp [replaceRows, hindexed, h, tracked]
  | true =>
    rw [hindexed] at h
    simp [replaceRows, hindexed, h, tracked]

/-- The rows of a program can be told apart if they follow each other and are not empty. -/
theorem requireRows_eq_ok_iff : program.requireRows = .ok () ↔ program.view.after = 1 ∧ 0 < program.view.axisLen := by
  by_cases hafter : program.view.after = 1 <;> by_cases haxisLen : program.view.axisLen = 0 <;>
    simp [requireRows, AxisView.isPacked, hafter, haxisLen, Outcome.fault, Nat.pos_iff_ne_zero]

omit [Element κ] [IndexElement ι] in
/-- The number of elements that is checked, if the rows follow each other. -/
theorem total_of_check {input : Array κ} (hafter : program.view.after = 1) (h : program.check input buffers = .ok ()) :
    program.view.total = .ok (program.view.before * program.view.axisLen) := by
  obtain ⟨total, htotal, -⟩ := Outcome.bind_eq_ok_iff.mp h
  obtain ⟨product, hproduct, hmul⟩ := Outcome.bind_eq_ok_iff.mp htotal
  obtain ⟨-, rfl⟩ := Size.mul_eq_ok_iff.mp hproduct
  obtain ⟨-, rfl⟩ := Size.mul_eq_ok_iff.mp hmul
  rwa [hafter, Nat.mul_one] at htotal

end Program

/-! ### Runs that are refused -/

section Runs

variable {program : Program} {input : Array κ} {buffers : Buffers κ ι} {error : Refusal}

omit [Element κ] in
@[simp]
theorem Program.refusedOnly_requireRows {P : Refusal → Prop} : program.requireRows.RefusedOnly P := by
  simp [requireRows]

/-- A run is refused exactly for what is checked before its first launch. -/
theorem HostRunner.run_eq_refuse_iff (runner : HostRunner) :
    runner.run program input buffers = .refuse error ↔ program.check input buffers = .refuse error := by
  have hlaunches : ∀ rows, (program.runLaunches input (rows : List (RowCells κ ι))).RefusedOnly fun _ => False :=
    fun rows => Outcome.refusedOnly_foldlM (fun state launch => by simp [launch.refusedOnly_execute]) _ _
  refine (Outcome.bind_eq_refuse_iff fun _ => Outcome.refusedOnly_ok _).trans ?_
  rw [Program.execute_eq]
  exact Outcome.bind_eq_refuse_iff fun _ => by simp [hlaunches]

namespace Workplace

/-- A launch is not refused. -/
theorem meets_launch {R : Workplace κ ι → Prop} (one : Launch) (place : Workplace κ ι) :
    Stateful.Meets R (fun _ _ => True) (launch program input one) place := by
  refine Stateful.meets_get_bind ?_
  have hlaunch := Outcome.ensures_of_refusedOnly (Q := fun _ => True) (one.refusedOnly_execute program input
    ((program.tracked place.buffers).rows program.view.axisLen)) fun _ _ => trivial
  exact Stateful.meets_ensures_bind hlaunch fun _ _ => trivial

variable {place : Workplace κ ι}

/-- A run whose checks fail ends there. -/
theorem run_of_check_eq_error {failure : Failure} (hcheck : program.check input place.buffers = .error failure) :
    (run program input).run place = (.error failure, place) := by
  rw [run, Stateful.run_bind_of_eq_ok Stateful.run_get, hcheck]
  exact Stateful.run_bind_of_eq_error (x := Stateful.ofOutcome (.error failure)) rfl _

/-- A run whose checks succeed is not refused. -/
theorem meets_run_of_check {R : Workplace κ ι → Prop} (hcheck : program.check input place.buffers = .ok ()) :
    Stateful.Meets R (fun _ _ => True) (run program input) place := by
  refine Stateful.meets_get_bind ?_
  rw [hcheck]
  refine Stateful.meets_ensures_bind (Q := fun _ => True) trivial fun _ _ => ?_
  split
  · trivial
  have hrequire := Outcome.ensures_of_refusedOnly (Q := fun _ => True) program.refusedOnly_requireRows fun _ _ => trivial
  refine Stateful.meets_ensures_bind hrequire fun _ _ => ?_
  exact Stateful.meets_forM (fun one left _ => meets_launch one left) program.launches trivial

/-- A run on the buffers where they are is refused exactly if the run is, and then it leaves everything as it was. -/
theorem run_eq_refuse_iff {left : Workplace κ ι} :
    (run program input).run place = (Outcome.refuse error, left) ↔
      place.runner.run program input place.buffers = .refuse error ∧ place = left := by
  rw [HostRunner.run_eq_refuse_iff]
  rcases hcheck : program.check input place.buffers with failure | ⟨⟨⟩⟩
  · rw [run_of_check_eq_error hcheck, Prod.mk.injEq]
  · refine iff_of_false (fun h => ?_) fun h => nomatch h.1
    exact (Stateful.meets_iff.mp (meets_run_of_check (R := fun _ => False) hcheck)).1 error left h

/-! ### Runs that succeed -/

/-- A launch on buffers whose rows are replaced replaces them again. -/
theorem run_launch {one : Launch} {rows rows' : List (RowCells κ ι)} {more report : Report}
    (haxisLen : 0 < program.view.axisLen)
    (hrows : ∀ cells ∈ rows, HasRoom (Buffers.rowRoom program.view.axisLen program.indexed) cells)
    (h : one.execute program input rows = .ok (rows', more)) :
    (launch program input one).run ⟨⟨report⟩, program.replaceRows buffers rows⟩ =
      (.ok ⟨⟩, ⟨⟨report + more⟩, program.replaceRows buffers rows'⟩) := by
  rw [launch, Stateful.run_bind_of_eq_ok Stateful.run_get, Program.tracked_replaceRows,
    Buffers.rows_ofRows haxisLen hrows, Stateful.run_bind_of_eq_ok (Stateful.run_ofOutcome_of_eq_ok h _)]
  simp only [Program.replaceRows_replaceRows]
  rfl

/-- Launches on buffers whose rows are replaced, one after the other. -/
theorem run_launches (buffers : Buffers κ ι) (before : Report) {launches : List Launch}
    {rows rows' : List (RowCells κ ι)} {report report' : Report} (haxisLen : 0 < program.view.axisLen)
    (hrows : ∀ cells ∈ rows, HasRoom (Buffers.rowRoom program.view.axisLen program.indexed) cells)
    (h : launches.foldlM (Launch.step program input) (rows, report) = .ok (rows', report')) :
    (launches.forM (launch program input)).run ⟨⟨before + report⟩, program.replaceRows buffers rows⟩ =
      (.ok ⟨⟩, ⟨⟨before + report'⟩, program.replaceRows buffers rows'⟩) := by
  induction launches generalizing rows report with
  | nil =>
    cases h
    rfl
  | cons one launches ih =>
    rw [List.foldlM_cons] at h
    obtain ⟨⟨next, so⟩, hstep, hrest⟩ := Outcome.bind_eq_ok_iff.mp h
    obtain ⟨⟨next', more⟩, hexecute, hnext⟩ := Outcome.bind_eq_ok_iff.mp hstep
    cases hnext
    have hroom := (Outcome.ensures_iff.mp (one.ensures_execute program input hrows)).2 _ hexecute
    change (launch program input one >>= fun _ => launches.forM (launch program input)).run _ = _
    rw [Stateful.run_bind_of_eq_ok (run_launch haxisLen hrows hexecute), Report.add_assoc]
    exact ih hroom.2 hrest

/-- A run that succeeds leaves the buffers that it computes, and its report, where the buffers and the runner are. -/
theorem run_eq_ok {runner runner' : HostRunner} {buffers' : Buffers κ ι} (hbuffers : buffers.Paired)
    (h : runner.run program input buffers = .ok (buffers', runner')) :
    (run program input).run ⟨runner, buffers⟩ = (.ok ⟨⟩, ⟨runner', buffers'⟩) := by
  obtain ⟨⟨result, report⟩, hexecute, hresult⟩ := Outcome.bind_eq_ok_iff.mp h
  cases hresult
  rw [Program.execute_eq] at hexecute
  obtain ⟨⟨⟩, hcheck, hexecute⟩ := Outcome.bind_eq_ok_iff.mp hexecute
  rw [run, Stateful.run_bind_of_eq_ok Stateful.run_get,
    Stateful.run_bind_of_eq_ok (Stateful.run_ofOutcome_of_eq_ok hcheck _)]
  split at hexecute
  · rename_i hempty
    cases hexecute
    rw [if_pos hempty]
    rfl
  · rename_i hlaunches
    obtain ⟨⟨⟩, hrequire, hexecute⟩ := Outcome.bind_eq_ok_iff.mp hexecute
    obtain ⟨⟨rows, more⟩, hrows, hexecute⟩ := Outcome.bind_eq_ok_iff.mp hexecute
    cases hexecute
    rw [if_neg hlaunches, Stateful.run_bind_of_eq_ok (Stateful.run_ofOutcome_of_eq_ok hrequire _)]
    obtain ⟨hafter, haxisLen⟩ := Program.requireRows_eq_ok_iff.mp hrequire
    have htotal := Program.total_of_check hafter hcheck
    have hlength := Program.hasLength_of_check htotal hbuffers hcheck
    have hsome := Program.isSome_tracked_of_check htotal hcheck
    have hroom := hlength.hasRoom_rows haxisLen
    have hback := hlength.ofRows_rows haxisLen
    rw [hsome] at hroom hback
    have hlaunched := run_launches buffers runner.report haxisLen hroom hrows
    rwa [Program.replaceRows_of_ofRows_eq hback] at hlaunched

end Workplace

end Runs

end MergePathSort
