import MergePathSort.Proofs.Backend.Untracked
import MergePathSort.Proofs.Host.Accounts

/-!
# Tracking changes no keys

A program that tracks indices and the one that does not are lowered from the same shapes, and differ in nothing but that.
Whatever the keys are, both leave the same keys on either side of their buffers and count the same launches, blocks and
barriers; a run of the one is refused exactly if a run of the other is. Index buffers of two types hold the same positions.
So the values that the host backend returns with positions are those that it returns without, and the positions are the
same integers for every index type.

## Main definitions

* `Program.untracked`, `Lowered.untracked` : the program that does not track indices.
* `Buffers.numbers`, `Buffers.Tracks` : indices as integers, and index buffers of a length.
* `HostBackend.lowerAndRun`, `HostBackend.keep` : what the host backend does to rows, and what it keeps.

## Main results

* `Program.keys_sortedBuffers`, `Program.numbers_sortedBuffers` : what a program leaves, whatever the index type.
* `Lowered.map_run_untracked`, `Lowered.map_run_tracked` : runs with and without indices, and with indices of two types.
* `HostBackend.run_sort_eq`, `HostBackend.run_argsort_eq` : the host backend.
* `tracking_changes_no_keys` : all of them together.
-/

namespace MergePathSort

variable {κ ι τ : Type}

/-- The program that does the same without indices. -/
def Program.untracked (program : Program) : Program := { program with indexed := false }

/-- The program that is lowered from the same without indices. -/
def Lowered.untracked (lowered : Lowered) : Lowered :=
  { lowered with
    indexed := false
    program := lowered.program.untracked
    lower_eq := Program.lower_tracking lowered.lower_eq false }

/-! ### Buffers -/

/-- What is read off rows of one kind and of another. -/
theorem keysOfRows_congr {count : Nat} {side : Nat → List (κ × Tag ι)} {side' : Nat → List (κ × Tag τ)}
    (h : ∀ number < count, (side number).map Prod.fst = (side' number).map Prod.fst) :
    keysOfRows count side = keysOfRows count side' :=
  congrArg List.toArray (flatMap_range_congr h)

/-- The indices of rows, as integers. -/
theorem map_indicesOfRows [IndexElement ι] (count : Nat) (side : Nat → List (κ × Tag ι)) :
    (indicesOfRows count side).map Element.toNumber =
      ((List.range count).flatMap fun number => (side number).map fun cell => Element.toNumber cell.2.index).toArray := by
  rw [indicesOfRows, List.map_toArray, List.map_flatMap]
  simp only [List.map_map, Function.comp_def]

/-- The indices as integers. -/
def Buffers.numbers [IndexElement ι] (buffers : Buffers κ ι) : Option (DoubleBuffer (Array Int)) :=
  buffers.indices.map (·.map (·.map Element.toNumber))

/-- The keys, and the indices as integers. -/
def Buffers.keysAndNumbers [IndexElement ι] (buffers : Buffers κ ι) :
    DoubleBuffer (Array κ) × Option (DoubleBuffer (Array Int)) := (buffers.keys, buffers.numbers)

/-- There are index buffers of a length. -/
def Buffers.Tracks (buffers : Buffers κ ι) (size : Nat) : Prop :=
  ∃ indices, buffers.indices = some indices ∧ indices.front.size = size

/-- Index buffers without elements. -/
theorem Buffers.Tracks.numbers_of_size_eq_zero [IndexElement ι] {buffers : Buffers κ ι} {size : Nat}
    (h : buffers.Tracks size) (hbuffers : buffers.Paired) (hsize : size = 0) : buffers.numbers = some (.both #[]) := by
  obtain ⟨⟨front, back⟩, hindices, hfront⟩ := h
  have hback := hbuffers.indices _ hindices
  obtain rfl : front = #[] := Array.eq_empty_of_size_eq_zero (hfront.trans hsize)
  obtain rfl : back = #[] := Array.eq_empty_of_size_eq_zero hback
  rw [numbers, hindices, Option.map_some, DoubleBuffer.map, Array.map_empty]
  rfl

/-- Fresh buffers with indices. -/
theorem Buffers.zeros_paired_tracks [Element κ] [IndexElement ι] (size : Nat) :
    (⟨.zeros size, some (.zeros size)⟩ : Buffers κ ι).Paired ∧
      (⟨.zeros size, some (.zeros size)⟩ : Buffers κ ι).Tracks size :=
  ⟨⟨rfl, by rintro _ ⟨⟩; rfl⟩, _, rfl, Array.size_replicate⟩

section Left

variable [Element κ] [IndexElement ι] [IndexElement τ]

/-- The keys that a program leaves, whatever the index type. -/
theorem Program.keys_sortedBuffers (program : Program) (input : Array κ) :
    (program.sortedBuffers input : Buffers κ ι).keys = (program.sortedBuffers input : Buffers κ τ).keys := by
  have hside : ∀ side : Side, keysOfRows program.view.before (fun number =>
      (program.sortedRow (chunk program.view.axisLen input.toList number) : TaggedRow κ ι).get side) =
        keysOfRows program.view.before fun number =>
          (program.sortedRow (chunk program.view.axisLen input.toList number) : TaggedRow κ τ).get side :=
    fun side => keysOfRows_congr fun number _ => program.map_fst_sortedRow _ side
  exact congrArg₂ DoubleBuffer.mk (hside .front) (hside .back)

/-- The indices that a program leaves as integers, whatever the index type. -/
theorem Program.numbers_sortedBuffers [FaithfulIndex ι] [FaithfulIndex τ] {program : Program}
    (haxisLen : program.view.axisLen ≤ 2147483648) (input : Array κ) :
    (program.sortedBuffers input : Buffers κ ι).numbers = (program.sortedBuffers input : Buffers κ τ).numbers := by
  have hkeys : ∀ number, (chunk program.view.axisLen input.toList number).length ≤ 2147483648 := fun number =>
    Nat.le_trans (by rw [length_chunk]; exact Nat.min_le_left _ _) haxisLen
  have hside : ∀ side : Side, (indicesOfRows program.view.before fun number =>
      (program.sortedRow (chunk program.view.axisLen input.toList number) : TaggedRow κ ι).get side).map
        Element.toNumber = (indicesOfRows program.view.before fun number =>
          (program.sortedRow (chunk program.view.axisLen input.toList number) : TaggedRow κ τ).get side).map
            Element.toNumber := by
    intro side
    rw [map_indicesOfRows, map_indicesOfRows]
    exact congrArg List.toArray (flatMap_range_congr fun number _ => program.map_number_sortedRow (hkeys number) side)
  exact congrArg some (congrArg₂ DoubleBuffer.mk (hside .front) (hside .back))

variable (program : Program) (input : Array κ) (buffers : Buffers κ ι)

omit [IndexElement τ] in
theorem Program.keys_left : (program.left input buffers).keys =
    if program.isEmpty then buffers.keys else (program.sortedBuffers input : Buffers κ ι).keys := by
  rw [left]
  split <;> rfl

omit [IndexElement τ] in
theorem Program.numbers_left (h : program.indexed = true) : (program.left input buffers).numbers =
    if program.isEmpty then buffers.numbers else (program.sortedBuffers input : Buffers κ ι).numbers := by
  rw [left, if_pos h]
  split <;> rfl

end Left

/-! ### Runs -/

namespace Lowered

/-- The number of elements. -/
def size (lowered : Lowered) : Nat := lowered.program.view.before * lowered.program.view.axisLen

variable {lowered : Lowered} {input : Array κ} {tracking : Buffers κ ι} {other : Buffers κ τ}

/-- The checks before a run find nothing but the lengths of the input and of the keys, if there are indices. -/
theorem check_eq (htracks : tracking.Tracks lowered.size) : lowered.program.check input tracking = (do
    checkLength lowered.size input.size
    checkLength lowered.size tracking.keys.front.size) := by
  obtain ⟨indices, hindices, hsize⟩ := htracks
  have hchecked : ∀ x : Outcome Unit, (do x; lowered.program.checkIndices lowered.size tracking.indices) = x := by
    intro x
    have hok : lowered.program.checkIndices lowered.size tracking.indices = .ok () := by
      unfold Program.checkIndices
      rw [hindices]
      split
      · exact if_pos hsize.symm
      · rfl
    rw [hok]
    rcases x with failure | _ <;> rfl
  rw [Program.check, total_eq_ok, Outcome.ok_bind]
  exact bind_congr fun _ => hchecked _

/-- A program that does not track indices does not check them. -/
theorem check_untracked_eq : lowered.untracked.program.check input other = (do
    checkLength lowered.size input.size
    checkLength lowered.size other.keys.front.size) := by
  rw [Program.check, total_eq_ok, Outcome.ok_bind]
  refine bind_congr fun _ => ?_
  change (checkLength lowered.size other.keys.front.size >>= fun _ => pure ()) = _
  rcases checkLength lowered.size other.keys.front.size with failure | _ <;> rfl

variable [Element κ] [IndexElement ι] [IndexElement τ]

omit [IndexElement τ] in
/-- A run on an input and buffers that are as long as the program is large succeeds. -/
theorem exists_run (runner : HostRunner) (htracking : tracking.Paired) (htracks : tracking.Tracks lowered.size)
    (hinput : input.size = lowered.size) (hkeys : tracking.keys.front.size = lowered.size) :
    ∃ result, runner.run lowered.program input tracking = .ok result := by
  have hcheck : lowered.program.check input tracking = .ok () :=
    (Program.check_eq_ok_iff total_eq_ok).mpr ⟨hinput, hkeys, fun _ => htracks⟩
  rw [run_eq lowered input runner htracking, hcheck]
  exact ⟨_, rfl⟩

/-- A run with indices leaves the keys that a run without them leaves, and counts the same. -/
theorem map_run_untracked (runner : HostRunner) (htracking : tracking.Paired) (hother : other.Paired)
    (hkeys : other.keys = tracking.keys) (htracks : tracking.Tracks lowered.size) :
    Prod.map Buffers.keys id <$> runner.run lowered.program input tracking =
      Prod.map Buffers.keys id <$> runner.run lowered.untracked.program input other := by
  have hleft : (lowered.program.left input tracking).keys = (lowered.untracked.program.left input other).keys := by
    rw [Program.keys_left, Program.keys_left, hkeys, lowered.program.keys_sortedBuffers (τ := τ) input]
    rfl
  rw [run_eq lowered input runner htracking, run_eq lowered.untracked input runner hother, check_eq htracks,
    check_untracked_eq, hkeys, map_bind, map_bind]
  exact bind_congr fun _ => congrArg (fun keys => Except.ok (keys, _)) hleft

/-- Runs with indices of two types leave the same keys, and the same indices as integers. -/
theorem map_run_tracked [FaithfulIndex ι] [FaithfulIndex τ] (runner : HostRunner) (hindexed : lowered.indexed = true)
    (htracking : tracking.Paired) (hother : other.Paired) (hkeys : other.keys = tracking.keys)
    (htracks : tracking.Tracks lowered.size) (htracks' : other.Tracks lowered.size) :
    Prod.map Buffers.keysAndNumbers id <$> runner.run lowered.program input tracking =
      Prod.map Buffers.keysAndNumbers id <$> runner.run lowered.program input other := by
  have htracked : lowered.program.indexed = true := (Program.lower_spec lowered.lower_eq).2.2.2.2.1.trans hindexed
  have hkeysLeft : (lowered.program.left input tracking).keys = (lowered.program.left input other).keys := by
    rw [Program.keys_left, Program.keys_left, hkeys, lowered.program.keys_sortedBuffers (τ := τ) input]
  have hnumbersLeft : (lowered.program.left input tracking).numbers = (lowered.program.left input other).numbers := by
    rw [Program.numbers_left _ _ _ htracked, Program.numbers_left _ _ _ htracked]
    obtain ⟨-, -, -, -, -, -, ⟨hzero, hnone⟩ | ⟨hrows, -⟩⟩ := Program.lower_spec lowered.lower_eq
    · -- There are no elements, so both index buffers are empty.
      have hempty : lowered.program.isEmpty = true := List.isEmpty_iff.mpr hnone
      rw [if_pos hempty, if_pos hempty, htracks.numbers_of_size_eq_zero htracking hzero,
        htracks'.numbers_of_size_eq_zero hother hzero]
    · obtain ⟨_, _, _, _, hsorts⟩ := Program.exists_sorts_of_lower lowered.lower_eq hrows
      have hempty : ¬lowered.program.isEmpty = true := by
        simp [Program.isEmpty, hsorts.launches_eq, sortLaunches, launchesUpTo]
      rw [if_neg hempty, if_neg hempty, Program.numbers_sortedBuffers (ι := ι) (τ := τ) hsorts.axisLen_le_word]
  rw [run_eq lowered input runner htracking, run_eq lowered input runner hother, check_eq htracks, check_eq htracks',
    hkeys, map_bind, map_bind]
  exact bind_congr fun _ =>
    congrArg₂ (fun keys numbers => Except.ok ((keys, numbers), _)) hkeysLeft hnumbersLeft

end Lowered

/-! ### The host backend -/

namespace HostBackend

variable [Element κ] [IndexElement ι] [IndexElement τ] {backend : HostBackend} {data : Array κ} {axisLen : Nat}
  {direction : Direction}

/-- Rows are lowered and run. -/
def lowerAndRun (backend : HostBackend) (data : Array κ) (axisLen : Nat) (direction : Direction)
    (indices : Option (DoubleBuffer (Array ι))) : Outcome (Buffers κ ι × HostRunner) := do
  let shape ← splitRows data.size axisLen
  let program ← Program.lower shape 1 direction indices.isSome backend.config
  backend.runner.run program data ⟨.zeros data.size, indices⟩

/-- A run has ended: its runner is kept if it has succeeded, and the backend stays as it was otherwise. -/
def keep {α : Type} (backend : HostBackend) : Outcome (α × HostRunner) → Outcome α × HostBackend
  | .ok (result, runner) => (.ok result, { backend with runner })
  | .error failure => (.error failure, backend)

omit [Element κ] [IndexElement ι] in
theorem keep_map {α β : Type} (f : α → β) (ended : Outcome (α × HostRunner)) :
    backend.keep (Prod.map f id <$> ended) = Prod.map (f <$> ·) id (backend.keep ended) := by
  rcases ended with failure | ⟨result, runner⟩ <;> rfl

/-- Sorting rows is lowering and running them. -/
theorem run_runRows_eq (indices : Option (DoubleBuffer (Array ι))) :
    (runRows data axisLen direction indices).run backend =
      backend.keep (backend.lowerAndRun data axisLen direction indices) := by
  rw [runRows, Stateful.run_bind_of_eq_ok Stateful.run_get, lowerAndRun]
  rcases splitRows data.size axisLen with failure | shape
  · rfl
  rw [Stateful.run_bind_of_eq_ok (Stateful.run_ofOutcome_of_eq_ok rfl backend), Outcome.ok_bind]
  rcases Program.lower shape 1 direction indices.isSome backend.config with failure | program
  · rfl
  rw [Stateful.run_bind_of_eq_ok (Stateful.run_ofOutcome_of_eq_ok rfl backend), Outcome.ok_bind]
  rcases backend.runner.run program data ⟨.zeros data.size, indices⟩ with failure | ⟨buffers, runner⟩ <;> rfl

/-- Rows sorted with indices look like rows sorted in another way if the runs of what they are lowered to do. Both fail
alike before that. -/
theorem map_lowerAndRun_eq {γ : Type} {f : Buffers κ ι → γ} {g : Buffers κ τ → γ} {indices : DoubleBuffer (Array ι)}
    {other : Option (DoubleBuffer (Array τ))} (backend : HostBackend) (data : Array κ) (axisLen : Nat)
    (direction : Direction)
    (h : ∀ (lowered : Lowered) (program : Program), lowered.indexed = true → lowered.size = data.size →
      Program.lower lowered.shape lowered.axis lowered.direction other.isSome lowered.config = .ok program →
      Prod.map f id <$> backend.runner.run lowered.program data ⟨.zeros data.size, some indices⟩ =
        Prod.map g id <$> backend.runner.run program data ⟨.zeros data.size, other⟩) :
    Prod.map f id <$> backend.lowerAndRun data axisLen direction (some indices) =
      Prod.map g id <$> backend.lowerAndRun data axisLen direction other := by
  rw [lowerAndRun, lowerAndRun, map_bind, map_bind]
  rcases hsplit : splitRows data.size axisLen with failure | shape
  · rfl
  obtain ⟨-, hlen, rfl⟩ := splitRows_eq_ok_iff.mp hsplit
  rw [Outcome.ok_bind, Outcome.ok_bind, map_bind, map_bind, Option.isSome_some,
    Program.lower_eq_map _ 1 direction true other.isSome]
  rcases hlower : Program.lower [data.size / axisLen, axisLen] 1 direction true backend.config with failure | program
  · rfl
  have hsize : program.view.before * program.view.axisLen = data.size := by
    rw [(Program.eq_of_lower_rows hlower).1]
    exact hlen
  exact h ⟨_, 1, direction, true, backend.config, program, hlower⟩ _ rfl hsize (Program.lower_tracking hlower _)

/-- Rows sorted with indices have the keys of rows sorted without them. Both fail alike. -/
theorem map_lowerAndRun_untracked (backend : HostBackend) (data : Array κ) (axisLen : Nat) (direction : Direction) :
    Prod.map Buffers.keys id <$>
        backend.lowerAndRun data axisLen direction (some (.zeros data.size : DoubleBuffer (Array ι))) =
      Prod.map Buffers.keys id <$>
        backend.lowerAndRun data axisLen direction (none : Option (DoubleBuffer (Array τ))) := by
  refine map_lowerAndRun_eq backend data axisLen direction fun lowered program _ hsize hlower => ?_
  obtain rfl : lowered.untracked.program = program := Except.ok.inj (lowered.untracked.lower_eq.symm.trans hlower)
  obtain ⟨hpaired, htracks⟩ := Buffers.zeros_paired_tracks (κ := κ) (ι := ι) data.size
  exact Lowered.map_run_untracked backend.runner hpaired ⟨rfl, nofun⟩ rfl (by rwa [hsize])

/-- Rows sorted with indices of two types have the same keys, and the same indices as integers. Both fail alike. -/
theorem map_lowerAndRun_tracked [FaithfulIndex ι] [FaithfulIndex τ] (backend : HostBackend) (data : Array κ)
    (axisLen : Nat) (direction : Direction) :
    Prod.map Buffers.keysAndNumbers id <$>
        backend.lowerAndRun data axisLen direction (some (.zeros data.size : DoubleBuffer (Array ι))) =
      Prod.map Buffers.keysAndNumbers id <$>
        backend.lowerAndRun data axisLen direction (some (.zeros data.size : DoubleBuffer (Array τ))) := by
  refine map_lowerAndRun_eq backend data axisLen direction fun lowered program hindexed hsize hlower => ?_
  have hsame := lowered.lower_eq
  rw [hindexed] at hsame
  obtain rfl : lowered.program = program := Except.ok.inj (hsame.symm.trans hlower)
  obtain ⟨hpaired, htracks⟩ := Buffers.zeros_paired_tracks (κ := κ) (ι := ι) data.size
  obtain ⟨hpaired', htracks'⟩ := Buffers.zeros_paired_tracks (κ := κ) (ι := τ) data.size
  exact Lowered.map_run_tracked backend.runner hindexed hpaired hpaired' rfl (by rwa [hsize]) (by rwa [hsize])

/-- Sorting without indices is sorting with them and forgetting them. What is refused and what is counted are the same. -/
theorem run_sort_eq (ι : Type) [IndexElement ι] (backend : HostBackend) (data : Array κ) (axisLen : Nat)
    (direction : Direction) :
    (Backend.sort data axisLen direction : Stateful HostBackend _).run backend =
      Prod.map (Prod.fst <$> ·) id ((Backend.argsort ι data axisLen direction : Stateful HostBackend _).run backend) := by
  cases hempty : data.isEmpty with
  | true =>
    simp only [Backend.sort, Backend.argsort, hempty, if_true]
    rfl
  | false =>
    have hsame := congrArg (Prod.map (DoubleBuffer.front <$> ·) id ∘ backend.keep)
      (map_lowerAndRun_untracked (ι := ι) (τ := UInt32) backend data axisLen direction)
    simp only [Function.comp_apply, keep_map, Prod.map_map, Functor.map_map, Function.comp_def] at hsame
    simp only [Backend.sort, Backend.argsort, hempty, Bool.false_eq_true, if_false, Stateful.run_bind_pure,
      run_runRows_eq, Functor.map_map, Prod.map_apply]
    exact hsame.symm

/-- What comes back with indices, the indices as integers. -/
def valuesAndNumbers (result : Array κ × Array ι) : Array κ × Array Int :=
  (result.1, result.2.map Element.toNumber)

/-- What is at the front of the buffers. -/
def fronts (contents : DoubleBuffer (Array κ) × Option (DoubleBuffer (Array Int))) : Array κ × Array Int :=
  (contents.1.front, (contents.2.map (·.front)).getD #[])

omit [Element κ] in
theorem valuesAndNumbers_empty : valuesAndNumbers ((#[], #[]) : Array κ × Array ι) = (#[], #[]) :=
  congrArg (Prod.mk #[]) Array.map_empty

omit [Element κ] in
theorem valuesAndNumbers_front (buffers : Buffers κ ι) :
    valuesAndNumbers (buffers.keys.front, (buffers.indices.map (·.front)).getD #[]) = fronts buffers.keysAndNumbers := by
  rcases buffers with ⟨keys, _ | indices⟩
  · exact congrArg (Prod.mk keys.front) Array.map_empty
  · rfl

/-- Sorting with indices of two types gives the same values, and the same indices as integers. -/
theorem run_argsort_eq [FaithfulIndex ι] [FaithfulIndex τ] (backend : HostBackend) (data : Array κ) (axisLen : Nat)
    (direction : Direction) :
    Prod.map (valuesAndNumbers <$> ·) id
        ((Backend.argsort ι data axisLen direction : Stateful HostBackend _).run backend) =
      Prod.map (valuesAndNumbers <$> ·) id
        ((Backend.argsort τ data axisLen direction : Stateful HostBackend _).run backend) := by
  cases hempty : data.isEmpty with
  | true =>
    simp only [Backend.argsort, hempty, if_true]
    exact congrArg (fun result => (Except.ok result, backend)) (valuesAndNumbers_empty.trans valuesAndNumbers_empty.symm)
  | false =>
    have hsame := congrArg (Prod.map (fronts <$> ·) id ∘ backend.keep)
      (map_lowerAndRun_tracked (ι := ι) (τ := τ) backend data axisLen direction)
    simp only [Function.comp_apply, keep_map, Prod.map_map, Functor.map_map, Function.comp_def] at hsame
    simp only [Backend.argsort, hempty, Bool.false_eq_true, if_false, Stateful.run_bind_pure,
      run_runRows_eq, Functor.map_map, Prod.map_apply, valuesAndNumbers_front]
    exact hsame

end HostBackend

/-- **Tracking changes no keys.** Be the keys comparable or not: a program that tracks indices is lowered exactly if the
one that does not is. A run of it leaves bit for bit the same keys on both sides of its buffers and adds the same counts
to the report, or both are refused alike; and its index buffers hold the same integers for every index type. So the host
backend sorts without indices to the values that it sorts to with them, and returns the same positions for every index
type. -/
theorem tracking_changes_no_keys [Element κ] [IndexElement ι] [FaithfulIndex ι] [IndexElement τ] [FaithfulIndex τ] :
    (∀ shape axis direction config, Program.lower shape axis direction false config =
      Program.untracked <$> Program.lower shape axis direction true config) ∧
    (∀ (lowered : Lowered) (runner : HostRunner) (input : Array κ) (tracking : Buffers κ ι),
      lowered.indexed = true → tracking.Paired → tracking.Tracks lowered.size →
        (∀ other : Buffers κ τ, other.Paired → other.keys = tracking.keys →
          Prod.map Buffers.keys id <$> runner.run lowered.program input tracking =
            Prod.map Buffers.keys id <$> runner.run lowered.untracked.program input other ∧
          (other.Tracks lowered.size →
            Prod.map Buffers.keysAndNumbers id <$> runner.run lowered.program input tracking =
              Prod.map Buffers.keysAndNumbers id <$> runner.run lowered.program input other)) ∧
        (input.size = lowered.size → tracking.keys.front.size = lowered.size →
          ∃ result, runner.run lowered.program input tracking = .ok result)) ∧
    ∀ (backend : HostBackend) (data : Array κ) (axisLen : Nat) (direction : Direction),
      (Backend.sort data axisLen direction : Stateful HostBackend _).run backend =
          Prod.map (Prod.fst <$> ·) id
            ((Backend.argsort ι data axisLen direction : Stateful HostBackend _).run backend) ∧
        Prod.map (HostBackend.valuesAndNumbers <$> ·) id
            ((Backend.argsort ι data axisLen direction : Stateful HostBackend _).run backend) =
          Prod.map (HostBackend.valuesAndNumbers <$> ·) id
            ((Backend.argsort τ data axisLen direction : Stateful HostBackend _).run backend) := by
  refine ⟨fun shape axis direction config => Program.lower_eq_map shape axis direction true false config, ?_,
    fun backend data axisLen direction => ⟨HostBackend.run_sort_eq ι backend data axisLen direction,
      HostBackend.run_argsort_eq backend data axisLen direction⟩⟩
  intro lowered runner input tracking hindexed htracking htracks
  refine ⟨fun other hother hkeys => ⟨?_, fun htracks' => ?_⟩, Lowered.exists_run runner htracking htracks⟩
  · exact Lowered.map_run_untracked runner htracking hother hkeys htracks
  · exact Lowered.map_run_tracked runner hindexed htracking hother hkeys htracks htracks'

/-- A row that starts with NaN is sorted wrongly, without indices as with them, and from the same positions. -/
theorem tracking_nan_first :
    let config : Config := { limits := { maxLanes := 2 }, tuning := { tile := 2 } }
    let data : Array Binary32 := #[⟨2143289344⟩, ⟨0⟩, ⟨1065353216⟩, ⟨1073741824⟩]
    let values : Array Binary32 := #[⟨1065353216⟩, ⟨1073741824⟩, ⟨1065353216⟩, ⟨1073741824⟩]
    (∃ program result result', Program.lower [1, 4] 1 .ascending true config = .ok program ∧
        ({} : HostRunner).run program data (⟨.zeros 4, some (.zeros 4)⟩ : Buffers Binary32 UInt32) = .ok result ∧
        ({} : HostRunner).run program.untracked data (⟨.zeros 4, none⟩ : Buffers Binary32 Int64) = .ok result' ∧
        result.1.keys = result'.1.keys ∧ result.2 = result'.2) ∧
      ∃ left : HostBackend,
        (Backend.argsort UInt32 data 4 .ascending : Stateful HostBackend _).run { config } =
          (.ok (values, #[2, 3, 2, 3]), left) ∧
        (Backend.sort data 4 .ascending : Stateful HostBackend _).run { config } = (.ok values, left) ∧
        Prod.map (HostBackend.valuesAndNumbers <$> ·) id
            ((Backend.argsort Int64 data 4 .ascending : Stateful HostBackend _).run { config }) =
          (.ok (values, #[2, 3, 2, 3]), left) := by
  intro config data values
  obtain ⟨-, hruns, hbackend⟩ := tracking_changes_no_keys (κ := Binary32) (ι := UInt32) (τ := Int64)
  constructor
  · have hlower : Program.lower [1, 4] 1 .ascending true { limits := { maxLanes := 2 }, tuning := { tile := 2 } } =
        .ok ⟨⟨1, 4, 1⟩, .ascending, true, [⟨.copyIn, ⟨2, 2, 1⟩⟩, ⟨.sortTiles 2, ⟨1, 2, 1⟩⟩,
          ⟨.mergeRuns 0 .front .back ⟨⟨2, 1, 1⟩, 4, 1, .oneBlock 2⟩, ⟨2, 1, 1⟩⟩, ⟨.copyBack, ⟨2, 2, 1⟩⟩]⟩ := rfl
    let lowered : Lowered := ⟨_, _, _, _, _, _, hlower⟩
    obtain ⟨hpaired, htracks⟩ := Buffers.zeros_paired_tracks (κ := Binary32) (ι := UInt32) 4
    obtain ⟨hsame, hsucceeds⟩ := hruns lowered {} data ⟨.zeros 4, some (.zeros 4)⟩ rfl hpaired htracks
    obtain ⟨result, hresult⟩ := hsucceeds rfl rfl
    obtain ⟨hkeys, -⟩ := hsame ⟨.zeros 4, none⟩ ⟨rfl, nofun⟩ rfl
    rw [hresult] at hkeys
    rcases hrun : ({} : HostRunner).run lowered.untracked.program data
      (⟨.zeros 4, none⟩ : Buffers Binary32 Int64) with failure | result'
    · rw [hrun] at hkeys
      exact nomatch hkeys
    · rw [hrun] at hkeys
      obtain ⟨hkeys, hrunner⟩ := Prod.mk.inj (Except.ok.inj hkeys)
      exact ⟨_, result, result', hlower, hresult, hrun, hkeys, hrunner⟩
  · obtain ⟨hsort, hargsort⟩ := hbackend { config } data 4 .ascending
    have hrun : (Backend.argsort UInt32 data 4 .ascending : Stateful HostBackend _).run { config } =
        (.ok (values, #[2, 3, 2, 3]), _) := Prod.ext (by cbv) rfl
    rw [hrun] at hsort hargsort
    refine ⟨_, hrun, hsort, hargsort.symm.trans (Prod.ext ?_ rfl)⟩
    exact congrArg (fun numbers => Except.ok (values, numbers)) ((List.map_toArray ..).trans rfl)

end MergePathSort
