import MergePathSort.Proofs.Backend.Host
import MergePathSort.Proofs.Plan.Refusals
import MergePathSort.Proofs.Sorted.Companions

/-!
# Sorting without indices on the host

A program that does not track indices has the launches of the one that does, so the host backend sorts whatever it sorts
with indices. No launch looks at what stands beside a key, so the keys are the same with and without indices, be they
comparable or not. What the backend has executed before has no influence on either.

## Main results

* `Program.lower_eq_map`, `Program.lower_tracking` : lowering with or without indices.
* `Program.Sorts.row_eq_gather` : a row after a program, by its stable sorting permutation.
* `HostBackend.exists_argsort`, `HostBackend.exists_sort` : both sorts on a backend of the same configuration.
* `HostBackend.exists_of_sort`, `HostBackend.refusedOnly_runRows` : what comes back without indices, and what is refused.
-/

namespace MergePathSort

variable {κ ι : Type}

/-! ### Programs -/

/-- Whether indices are tracked has no influence on how a program is lowered, and none on why it is not. -/
theorem Program.lower_eq_map (shape : List Nat) (axis : Nat) (direction : Direction) (indexed tracking : Bool)
    (config : Config) : Program.lower shape axis direction tracking config =
      (fun program => { program with indexed := tracking }) <$> Program.lower shape axis direction indexed config := by
  rw [lower, lower, map_bind]
  refine bind_congr fun _ => ?_
  rw [map_bind]
  refine bind_congr fun view => ?_
  cases view.isPacked with
  | false => rfl
  | true =>
    simp only [Bool.not_true, Bool.false_eq_true, if_false, map_bind]
    refine bind_congr fun total => ?_
    split
    · rfl
    · rw [map_bind]
      refine bind_congr fun count => ?_
      rw [map_bind]
      rfl

/-- A program that is lowered with indices is lowered without them, and the other way round. -/
theorem Program.lower_tracking {shape : List Nat} {axis : Nat} {direction : Direction} {indexed : Bool} {config : Config}
    {program : Program} (h : Program.lower shape axis direction indexed config = .ok program) (tracking : Bool) :
    Program.lower shape axis direction tracking config = .ok { program with indexed := tracking } := by
  rw [Program.lower_eq_map shape axis direction indexed, h]
  rfl

/-- A row of comparable keys after a program is its stable sorting permutation, whatever the index type. -/
theorem Program.Sorts.row_eq_gather [KeyOrder κ] [RankedOrder κ] {program : Program} {tile : UInt32} {copy tiles : Grid}
    {passes : Nat} {shapes : Nat → MergeShape} (h : program.Sorts tile copy tiles passes shapes) {keys : List κ}
    (hcomparable : KeyOrder.Comparable keys) (hkeys : keys.length = program.view.axisLen) {order : List Nat}
    (horder : program.direction.StableOrder keys order) :
    (program.sortedRow keys : TaggedRow κ ι).front.map Prod.fst = gather keys order ∧
      FromSource keys (program.sortedRow keys : TaggedRow κ ι).front ∧
      positions (program.sortedRow keys : TaggedRow κ ι).front = order := by
  obtain ⟨hsource, horder'⟩ := h.stableOrder (ι := ι) hcomparable hkeys
  have hsame := horder'.unique hcomparable horder
  exact ⟨by rw [hsource.map_eq.1, hsame], hsource, hsame⟩

/-! ### The host -/

variable [Element κ] [IndexElement ι]

section Backend

variable {data values : Array κ} {indices : Array ι} {axisLen : Nat} {direction : Direction}
  {backend backend' other : HostBackend}

/-- What the host backend has executed before has no influence on what it returns. -/
theorem HostBackend.exists_runRows {pair : Option (DoubleBuffer (Array ι))} {buffers : Buffers κ ι}
    (h : (HostBackend.runRows data axisLen direction pair).run backend = (.ok buffers, backend'))
    (hconfig : other.config = backend.config) :
    ∃ other', (HostBackend.runRows data axisLen direction pair).run other = (.ok buffers, other') := by
  obtain ⟨hpos, hlen, program, report, hlower, hexecute, -⟩ := HostBackend.runRows_eq_ok_iff.mp h
  rw [← hconfig] at hlower
  exact ⟨_, HostBackend.runRows_eq_ok_iff.mpr ⟨hpos, hlen, program, report, hlower, hexecute, rfl⟩⟩

/-- A backend of the same configuration sorts with indices alike. -/
theorem HostBackend.exists_argsort
    (h : (Backend.argsort ι data axisLen direction : Stateful HostBackend _).run backend =
      (.ok (values, indices), backend')) (hconfig : other.config = backend.config) :
    ∃ other', (Backend.argsort ι data axisLen direction : Stateful HostBackend _).run other =
      (.ok (values, indices), other') := by
  simp only [Backend.argsort] at h ⊢
  by_cases hempty : data.isEmpty
  · rw [if_pos hempty] at h ⊢
    obtain ⟨hresult, -⟩ := Stateful.run_pure_eq_ok_iff.mp h
    exact ⟨other, Stateful.run_pure_eq_ok_iff.mpr ⟨hresult, rfl⟩⟩
  · rw [if_neg hempty] at h ⊢
    obtain ⟨buffers, _, hrows, hresult⟩ := Stateful.run_bind_eq_ok_iff.mp h
    obtain ⟨hresult, -⟩ := Stateful.run_pure_eq_ok_iff.mp hresult
    obtain ⟨other', hother⟩ := HostBackend.exists_runRows hrows hconfig
    exact ⟨other', Stateful.run_bind_eq_ok_iff.mpr
      ⟨buffers, other', hother, Stateful.run_pure_eq_ok_iff.mpr ⟨hresult, rfl⟩⟩⟩

/-- A backend of the same configuration sorts the keys without indices as it does with them, comparable or not. -/
theorem HostBackend.exists_sort
    (h : (Backend.argsort ι data axisLen direction : Stateful HostBackend _).run backend =
      (.ok (values, indices), backend')) (hconfig : other.config = backend.config) :
    ∃ other', (Backend.sort data axisLen direction : Stateful HostBackend _).run other = (.ok values, other') := by
  by_cases hdata : data.size = 0
  · have hempty : data.isEmpty = true := by simpa using hdata
    obtain ⟨hvalues, -⟩ := HostBackend.size_of_argsort h
    simp only [Backend.sort, hempty, if_true]
    exact ⟨other, Stateful.run_pure_eq_ok_iff.mpr ⟨(Array.eq_empty_of_size_eq_zero (hvalues.trans hdata)).symm, rfl⟩⟩
  · have hempty : data.isEmpty = false := by simpa using hdata
    obtain ⟨hpos, hlen, program, hlower, rfl, -⟩ := HostBackend.exists_of_argsort h hdata
    have hsame := hconfig ▸ Program.lower_tracking hlower false
    obtain ⟨result, report, hexecute, hkeys, -⟩ : ∃ result report,
        Program.execute _ data (⟨.zeros data.size, none⟩ : Buffers κ UInt32) = .ok (result, report) ∧ _ ∧ _ :=
      HostBackend.exists_execute_rows hsame hlen hdata fun _ hnone => nomatch hnone
    have hrows : result.keys.front = keysOfRows (data.size / axisLen) (fun number =>
        (program.sortedRow (chunk axisLen data.toList number) : TaggedRow κ ι).front) :=
      hkeys.trans (congrArg List.toArray (flatMap_range_congr fun number _ => program.map_fst_sortedRow _ .front))
    simp only [Backend.sort, hempty]
    refine ⟨_, Stateful.run_bind_eq_ok_iff.mpr ⟨result, _, HostBackend.runRows_eq_ok_iff.mpr
      ⟨hpos, hlen, _, report, hsame, hexecute, rfl⟩, Stateful.run_pure_eq_ok_iff.mpr ⟨hrows, rfl⟩⟩⟩

/-- What the host backend returns when it sorts without indices. -/
theorem HostBackend.exists_of_sort {values : Array κ} {backend backend' : HostBackend}
    (h : (Backend.sort data axisLen direction : Stateful HostBackend _).run backend = (.ok values, backend'))
    (hdata : data.size ≠ 0) :
    0 < axisLen ∧ data.size / axisLen * axisLen = data.size ∧ ∃ program,
      Program.lower [data.size / axisLen, axisLen] 1 direction false backend.config = .ok program ∧
      values = keysOfRows (data.size / axisLen) (fun number =>
        (program.sortedRow (chunk axisLen data.toList number) : TaggedRow κ UInt32).front) := by
  have hempty : data.isEmpty = false := by simpa using hdata
  simp only [Backend.sort, hempty] at h
  obtain ⟨buffers, _, hrows, hresult⟩ := Stateful.run_bind_eq_ok_iff.mp h
  obtain ⟨rfl, rfl⟩ := Stateful.run_pure_eq_ok_iff.mp hresult
  obtain ⟨hpos, hlen, program, report, hlower, hexecute, -⟩ := HostBackend.runRows_eq_ok_iff.mp hrows
  obtain ⟨result, report', hexecute', hkeys, -⟩ := HostBackend.exists_execute_rows hlower hlen hdata nofun
  rw [hexecute] at hexecute'
  cases hexecute'
  exact ⟨hpos, hlen, program, hlower, hkeys⟩

/-- Data that is not made of rows is refused before a program is lowered for it. -/
theorem HostBackend.run_runRows_of_error {indices : Option (DoubleBuffer (Array ι))} {failure : Failure}
    (hsplit : splitRows data.size axisLen = .error failure) (backend : HostBackend) :
    (HostBackend.runRows data axisLen direction indices).run backend = (.error failure, backend) := by
  rw [HostBackend.runRows, Stateful.run_bind_of_eq_ok Stateful.run_get, hsplit]
  rfl

/-- Rows that the host backend does not sort are refused only for reasons for which a program is not lowered. -/
theorem HostBackend.refusedOnly_runRows {indices : Option (DoubleBuffer (Array ι))} (backend : HostBackend)
    (hdata : data.size ≠ 0) (hpos : 0 < axisLen) (hlen : data.size / axisLen * axisLen = data.size)
    (hindices : ∀ pair, indices = some pair → pair.front.size = data.size ∧ pair.back.size = data.size) :
    ((HostBackend.runRows data axisLen direction indices).run backend).1.RefusedOnly Refusal.OfPlanning := by
  rcases hlower : Program.lower [data.size / axisLen, axisLen] 1 direction indices.isSome backend.config with
    failure | program
  · have hsplit : splitRows data.size axisLen = .ok [data.size / axisLen, axisLen] :=
      splitRows_eq_ok_iff.mpr ⟨hpos, hlen, rfl⟩
    rw [HostBackend.runRows, Stateful.run_bind_of_eq_ok Stateful.run_get,
      Stateful.run_bind_of_eq_ok (Stateful.run_ofOutcome_of_eq_ok hsplit backend), hlower]
    exact (hlower ▸ Program.refusedOnly_lower _ _ _ _ _ : Outcome.RefusedOnly _ (.error failure)).of_error
  · obtain ⟨result, report, hexecute, -⟩ := HostBackend.exists_execute_rows hlower hlen hdata hindices
    rw [HostBackend.runRows_eq_ok_iff.mpr ⟨hpos, hlen, program, report, hlower, hexecute, rfl⟩]
    exact Outcome.refusedOnly_ok result

end Backend

end MergePathSort
