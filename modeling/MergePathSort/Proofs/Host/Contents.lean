import MergePathSort.Proofs.Host.Execution
import MergePathSort.Proofs.Sorted.Program

/-!
# What the buffers hold before a run

The first launch of a lowered program fills the front side of every row, the second both sides, and every later launch
fills the whole of the side that it writes. So what a run leaves on both sides is a function of its input. What the
buffers hold before, of another program perhaps, never reaches a result, and a program that does not track indices hands
the index buffers back as they are.

## Main definitions

* `Program.sortedBuffers` : the buffers that a program leaves, as a function of its input.

## Main results

* `Program.Sorts.result_eq` : the result of a run by that function.
* `HostRunner.run_contents` : two runs on buffers with different contents.
-/

namespace MergePathSort

variable {κ ι : Type} [Element κ] [IndexElement ι]

/-- The buffers that a program leaves when it tracks indices. They depend on the input alone. -/
def Program.sortedBuffers (program : Program) (input : Array κ) : Buffers κ ι :=
  let row (number : Nat) : TaggedRow κ ι := program.sortedRow (chunk program.view.axisLen input.toList number)
  { keys := ⟨keysOfRows program.view.before (row · |>.front), keysOfRows program.view.before (row · |>.back)⟩
    indices := some ⟨indicesOfRows program.view.before (row · |>.front),
      indicesOfRows program.view.before (row · |>.back)⟩ }

variable {program : Program} {input : Array κ}

/-- A run leaves what depends on the input alone, except for index buffers that it does not use. -/
theorem Program.Sorts.result_eq {tile : UInt32} {copy tiles : Grid} {passes : Nat} {shapes : Nat → MergeShape}
    (h : program.Sorts tile copy tiles passes shapes) (input : Array κ) (buffers : Buffers κ ι) :
    program.result input buffers = ⟨(program.sortedBuffers input : Buffers κ ι).keys,
      if program.indexed then (program.sortedBuffers input : Buffers κ ι).indices else buffers.indices⟩ := by
  have hrow : ∀ number, program.finalRow input buffers number =
      program.sortedRow (chunk program.view.axisLen input.toList number) := fun _ => h.launchesOnRow_eq _ _
  simp only [Program.result, hrow, Program.sortedBuffers]

section Runs

variable {shape : List Nat} {axis : Nat} {direction : Direction} {indexed : Bool} {config : Config}
  {buffers : Buffers κ ι}

/-- A lowered program that has launches runs on any buffers of its length. -/
theorem HostRunner.exists_run (runner : HostRunner)
    (hlower : Program.lower shape axis direction indexed config = .ok program)
    (hlaunches : program.launches ≠ []) (hinput : input.size = program.view.before * program.view.axisLen)
    (hbuffers : (program.tracked buffers).HasLength (program.view.before * program.view.axisLen))
    (hindices : program.indexed = true → buffers.indices ≠ none) :
    ∃ runner', runner.run program input buffers = .ok (⟨(program.sortedBuffers input : Buffers κ ι).keys,
      if program.indexed then (program.sortedBuffers input : Buffers κ ι).indices else buffers.indices⟩, runner') := by
  have hrows : program.view.before * program.view.axisLen ≠ 0 := by
    obtain ⟨-, -, -, -, -, -, ⟨-, hnone⟩ | ⟨hrows, -⟩⟩ := Program.lower_spec hlower
    · exact absurd hnone hlaunches
    · exact hrows
  obtain ⟨copy, tiles, passes, shapes, hsorts⟩ := Program.exists_sorts_of_lower hlower hrows
  obtain ⟨report, hexecute⟩ := Program.exists_execute hsorts.toFits hlaunches hinput hbuffers hindices
  refine ⟨⟨runner.report + report⟩, ?_⟩
  rw [HostRunner.run, hexecute, hsorts.result_eq]
  rfl

/-- What buffers hold before a run never reaches its result. Whatever two pairs of buffers of the right length hold, a
lowered program that has launches leaves the same keys on both sides of them, and the same indices on both sides if it
tracks indices. If it does not, both sides of the index buffers stay as they are. -/
theorem HostRunner.run_contents (runner other : HostRunner) (first second : Buffers κ ι)
    (hlower : Program.lower shape axis direction indexed config = .ok program)
    (hlaunches : program.launches ≠ []) (hinput : input.size = program.view.before * program.view.axisLen)
    (hfirst : (program.tracked first).HasLength (program.view.before * program.view.axisLen))
    (hfirstIndices : program.indexed = true → first.indices ≠ none)
    (hsecond : (program.tracked second).HasLength (program.view.before * program.view.axisLen))
    (hsecondIndices : program.indexed = true → second.indices ≠ none) :
    ∃ left right runner' other', runner.run program input first = .ok (left, runner') ∧
      other.run program input second = .ok (right, other') ∧ left.keys = right.keys ∧
      (program.indexed = true → left.indices.isSome ∧ left.indices = right.indices) ∧
      (program.indexed = false → left.indices = first.indices ∧ right.indices = second.indices) := by
  obtain ⟨runner', hleft⟩ := exists_run runner hlower hlaunches hinput hfirst hfirstIndices
  obtain ⟨other', hright⟩ := exists_run other hlower hlaunches hinput hsecond hsecondIndices
  refine ⟨_, _, runner', other', hleft, hright, rfl, fun htracked => ?_, fun huntracked => ?_⟩
  · rw [if_pos htracked, if_pos htracked]
    exact ⟨rfl, rfl⟩
  · have hnot : ¬program.indexed = true := by simp [huntracked]
    rw [if_neg hnot, if_neg hnot]
    exact ⟨rfl, rfl⟩

end Runs

/-- Two rows of four keys, sorted on buffers of zeros and on buffers that hold something else, with indices and without.
Without indices, index buffers of another length are handed back. -/
theorem HostRunner.run_contents_two_rows :
    ∃ tracking plain,
      Program.lower [2, 4] 1 .ascending true { limits := { maxLanes := 2 }, tuning := { tile := 2 } } = .ok tracking ∧
      Program.lower [2, 4] 1 .ascending false { limits := { maxLanes := 2 }, tuning := { tile := 2 } } = .ok plain ∧
      (∃ left right runner' other', HostRunner.run {} tracking (#[3, 1, 2, 0, 7, 5, 6, 4] : Array Int32)
          (⟨.zeros 8, some (.zeros 8)⟩ : Buffers Int32 UInt32) = .ok (left, runner') ∧
        HostRunner.run ⟨⟨4, 8, 24⟩⟩ tracking (#[3, 1, 2, 0, 7, 5, 6, 4] : Array Int32)
          (⟨⟨#[9, 9, 9, 9, 9, 9, 9, 9], #[5, 4, 3, 2, 1, 0, 8, 7]⟩, some ⟨#[7, 6, 5, 4, 3, 2, 1, 0], .replicate 8 9⟩⟩ :
            Buffers Int32 UInt32) = .ok (right, other') ∧
        left.keys = right.keys ∧ left.indices.isSome ∧ left.indices = right.indices) ∧
      ∃ left right runner' other', HostRunner.run {} plain (#[3, 1, 2, 0, 7, 5, 6, 4] : Array Int32)
          (⟨.zeros 8, none⟩ : Buffers Int32 UInt32) = .ok (left, runner') ∧
        HostRunner.run {} plain (#[3, 1, 2, 0, 7, 5, 6, 4] : Array Int32)
          (⟨.both (.replicate 8 9), some ⟨#[1], #[2, 3]⟩⟩ : Buffers Int32 UInt32) = .ok (right, other') ∧
        left.keys = right.keys ∧ left.indices = none ∧ right.indices = some ⟨#[1], #[2, 3]⟩ := by
  have hlaunches : ∀ indexed, Program.lower [2, 4] 1 .ascending indexed
      { limits := { maxLanes := 2 }, tuning := { tile := 2 } } =
      .ok ⟨⟨2, 4, 1⟩, .ascending, indexed, [⟨.copyIn, ⟨2, 2, 2⟩⟩, ⟨.sortTiles 2, ⟨1, 2, 2⟩⟩,
        ⟨.mergeRuns 0 .front .back ⟨⟨2, 1, 2⟩, 4, 1, .oneBlock 2⟩, ⟨2, 1, 2⟩⟩, ⟨.copyBack, ⟨2, 2, 2⟩⟩]⟩ := fun _ => rfl
  have hinput : (#[3, 1, 2, 0, 7, 5, 6, 4] : Array Int32).size = 2 * 4 := rfl
  refine ⟨_, _, hlaunches true, hlaunches false, ?_, ?_⟩
  · have hzeros : Buffers.HasLength (⟨.zeros 8, some (.zeros 8)⟩ : Buffers Int32 UInt32) 8 :=
      ⟨rfl, rfl, by rintro _ ⟨⟩; exact ⟨rfl, rfl⟩⟩
    have hfilled : Buffers.HasLength (⟨⟨#[9, 9, 9, 9, 9, 9, 9, 9], #[5, 4, 3, 2, 1, 0, 8, 7]⟩,
        some ⟨#[7, 6, 5, 4, 3, 2, 1, 0], .replicate 8 9⟩⟩ : Buffers Int32 UInt32) 8 :=
      ⟨rfl, rfl, by rintro _ ⟨⟩; exact ⟨rfl, rfl⟩⟩
    obtain ⟨left, right, runner', other', hleft, hright, hkeys, hindices, -⟩ := HostRunner.run_contents {} ⟨⟨4, 8, 24⟩⟩
      _ _ (hlaunches true) (List.cons_ne_nil _ _) hinput (Program.hasLength_tracked hzeros)
      (fun _ => Option.some_ne_none _) (Program.hasLength_tracked hfilled) (fun _ => Option.some_ne_none _)
    exact ⟨left, right, runner', other', hleft, hright, hkeys, hindices rfl⟩
  · have hplain : ∀ keys : DoubleBuffer (Array Int32), keys.front.size = 8 → keys.back.size = 8 →
        Buffers.HasLength (⟨keys, none⟩ : Buffers Int32 UInt32) 8 :=
      fun _ hfront hback => ⟨hfront, hback, fun _ hnone => nomatch hnone⟩
    obtain ⟨left, right, runner', other', hleft, hright, hkeys, -, hkept⟩ := HostRunner.run_contents {} {}
      ⟨.zeros 8, none⟩ ⟨.both (.replicate 8 9), some ⟨#[1], #[2, 3]⟩⟩ (hlaunches false) (List.cons_ne_nil _ _) hinput
      (hplain _ rfl rfl) (fun hindexed => nomatch hindexed) (hplain _ rfl rfl) (fun hindexed => nomatch hindexed)
    exact ⟨left, right, runner', other', hleft, hright, hkeys, hkept rfl⟩

end MergePathSort
