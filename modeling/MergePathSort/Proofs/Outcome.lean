import MergePathSort.Lanes.Block

/-!
# Steps that succeed

A step is proved to succeed by giving its result, so the lemmas here turn a chain of steps with known results into
the result of the chain: for sequencing, for lists of steps, for the lanes of a phase and for the blocks of a launch.
Loops are described by what they have reached: a family of states, one for each number of steps done.

## Main results

* `Outcome.bind_eq_ok_iff` : a sequence succeeds exactly if both of its steps do.
* `Outcome.mapM_eq_ok`, `Outcome.foldlM_range_eq_ok` : lists of steps with known results.
* `forLanes_eq_ok` : a phase whose lanes have known results.
* `Stateful.run_bind_eq_ok_iff` : a sequence of steps with a state succeeds exactly if both do.
* `Stateful.leaves_bind` : what a sequence leaves, whether it succeeds or not.
* `Block.exists_runAll_map_range`, `Block.exists_runAll_flatMap_range` : blocks in order.
-/

namespace MergePathSort

namespace Outcome

variable {α β σ : Type}

/-- A step after one that succeeds. -/
@[simp]
theorem ok_bind (a : α) (f : α → Outcome β) : ((.ok a : Outcome α) >>= f) = f a := rfl

/-- A step that only returns a result. -/
@[simp]
theorem pure_eq_ok (a : α) : (pure a : Outcome α) = .ok a := rfl

/-- A sequence of two steps succeeds exactly if both do. -/
theorem bind_eq_ok_iff {x : Outcome α} {f : α → Outcome β} {b : β} :
    x >>= f = .ok b ↔ ∃ a, x = .ok a ∧ f a = .ok b := by
  cases x with
  | ok a => simp
  | error failure =>
    constructor
    · intro h
      exact absurd h (by simp [bind, Except.bind])
    · rintro ⟨a, h, -⟩
      cases h

/-- A refused step does not succeed. -/
@[simp]
theorem refuse_ne_ok (error : Refusal) (a : α) : (refuse error : Outcome α) ≠ .ok a := by
  intro h
  cases h

/-- A step that faults does not succeed. -/
@[simp]
theorem fault_ne_ok (fault : Fault) (a : α) : (Outcome.fault fault : Outcome α) ≠ .ok a := by
  intro h
  cases h

/-- Two lists of steps that agree on every element. -/
theorem mapM_congr {f g : α → Outcome β} {xs : List α} (h : ∀ x ∈ xs, f x = g x) : xs.mapM f = xs.mapM g := by
  induction xs with
  | nil => rfl
  | cons x xs ih => rw [List.mapM_cons, List.mapM_cons, h x (by simp), ih fun y hy => h y (by simp [hy])]

/-- What is read off the results of a list of steps. -/
theorem map_mapM {γ : Type} (g : β → γ) (f : α → Outcome β) (xs : List α) :
    List.map g <$> xs.mapM f = xs.mapM fun x => g <$> f x := by
  induction xs with
  | nil => rfl
  | cons x xs ih =>
    rw [List.mapM_cons, List.mapM_cons, ← ih]
    cases f x with
    | error failure => rfl
    | ok y => cases xs.mapM f <;> rfl

/-- A list of steps whose results are known. -/
theorem mapM_eq_ok {f : α → Outcome β} {g : α → β} {xs : List α} (h : ∀ x ∈ xs, f x = .ok (g x)) :
    xs.mapM f = .ok (xs.map g) := by
  induction xs with
  | nil => rfl
  | cons x xs ih =>
    rw [List.mapM_cons, h x (by simp), ok_bind, ih fun y hy => h y (by simp [hy])]
    rfl

/-- A list of steps that have results. -/
theorem exists_mapM {f : α → Outcome β} {xs : List α} (h : ∀ x ∈ xs, ∃ y, f x = .ok y) : ∃ ys, xs.mapM f = .ok ys := by
  induction xs with
  | nil => exact ⟨[], rfl⟩
  | cons x xs ih =>
    obtain ⟨y, hy⟩ := h x (by simp)
    obtain ⟨ys, hys⟩ := ih fun z hz => h z (by simp [hz])
    refine ⟨y :: ys, ?_⟩
    rw [List.mapM_cons, hy, ok_bind, hys]
    rfl

/-- A list of steps whose results are known in their first parts. -/
theorem exists_mapM_eq_ok {γ : Type} {f : α → Outcome (β × γ)} {g : α → β} {xs : List α}
    (h : ∀ x ∈ xs, ∃ c, f x = .ok (g x, c)) : ∃ ys, xs.mapM f = .ok ys ∧ ys.map Prod.fst = xs.map g := by
  induction xs with
  | nil => exact ⟨[], rfl, rfl⟩
  | cons x xs ih =>
    obtain ⟨c, hx⟩ := h x (by simp)
    obtain ⟨ys, hys, hfst⟩ := ih fun y hy => h y (by simp [hy])
    refine ⟨(g x, c) :: ys, ?_, by simp [hfst]⟩
    rw [List.mapM_cons, hx, ok_bind, hys]
    rfl

/-- A list of steps that has succeeded: there is a result for every element, in order. -/
theorem getElem_of_mapM_eq_ok {f : α → Outcome β} {xs : List α} {ys : List β} (h : xs.mapM f = .ok ys) :
    ys.length = xs.length ∧ ∀ i (hi : i < xs.length) (hi' : i < ys.length), f xs[i] = .ok ys[i] := by
  induction xs generalizing ys with
  | nil =>
    cases h
    exact ⟨rfl, fun i hi _ => absurd hi (by simp)⟩
  | cons x xs ih =>
    rw [List.mapM_cons] at h
    obtain ⟨y, hy, h⟩ := bind_eq_ok_iff.mp h
    obtain ⟨rest, hrest, h⟩ := bind_eq_ok_iff.mp h
    cases h
    obtain ⟨hlen, hget⟩ := ih hrest
    refine ⟨by simp [hlen], fun i hi hi' => ?_⟩
    cases i with
    | zero => exact hy
    | succ i => exact hget i (by simpa using hi) (by simpa using hi')

/-- A list of steps whose results are the elements of a list. -/
theorem mapM_eq_ok_of_getElem {f : α → Outcome β} {xs : List α} {ys : List β} (hlen : ys.length = xs.length)
    (h : ∀ i (hi : i < xs.length) (hi' : i < ys.length), f xs[i] = .ok ys[i]) : xs.mapM f = .ok ys := by
  induction xs generalizing ys with
  | nil => rw [List.length_eq_zero_iff.mp hlen, List.mapM_nil, pure_eq_ok]
  | cons x xs ih =>
    obtain ⟨y, ys, rfl⟩ := List.exists_cons_of_length_eq_add_one hlen
    have hfirst : f x = .ok y := h 0 (Nat.zero_lt_succ _) (Nat.zero_lt_succ _)
    rw [List.mapM_cons, hfirst, ok_bind, ih (Nat.succ.inj hlen) fun i hi hi' =>
      h (i + 1) (Nat.succ_lt_succ hi) (Nat.succ_lt_succ hi')]
    rfl

/-- A loop over the numbers below `n` whose state after `i` steps is `state i`. -/
theorem foldlM_range_eq_ok {f : σ → Nat → Outcome σ} (state : Nat → σ) {n : Nat}
    (h : ∀ i < n, f (state i) i = .ok (state (i + 1))) :
    (List.range n).foldlM f (state 0) = .ok (state n) := by
  induction n with
  | zero => rfl
  | succ n ih =>
    rw [List.range_succ, List.foldlM_append, ih fun i hi => h i (by omega), ok_bind, List.foldlM_cons,
      h n (by omega)]
    rfl

end Outcome

/-! ### Steps with a state -/

namespace Stateful

variable {σ α β : Type}

/-- The outcome of a step in a state, and the state that it leaves. -/
def run (step : Stateful σ α) (state : σ) : Outcome α × σ := step state

variable {s s' : σ}

/-- A step whose outcome is known leaves some state. -/
theorem exists_run_of_fst_eq {step : Stateful σ α} {outcome : Outcome α} (h : (run step s).1 = outcome) :
    ∃ s', run step s = (outcome, s') := ⟨_, Prod.ext h rfl⟩

/-- A sequence of two steps succeeds exactly if both do, the second in the state that the first leaves. -/
theorem run_bind_eq_ok_iff {x : Stateful σ α} {f : α → Stateful σ β} {b : β} :
    run (x >>= f) s = (.ok b, s') ↔ ∃ a t, run x s = (.ok a, t) ∧ run (f a) t = (.ok b, s') := by
  change ExceptT.bindCont f (run x s).1 (run x s).2 = _ ↔ _
  rcases run x s with ⟨failure | a, t⟩
  · constructor
    · intro h
      cases h
    · rintro ⟨_, _, h, -⟩
      cases h
  · constructor
    · intro h
      exact ⟨a, t, rfl, h⟩
    · rintro ⟨_, _, h, hf⟩
      cases h
      exact hf

/-- A sequence goes on with the result of its first step, in the state that it leaves. -/
theorem run_bind_of_eq_ok {x : Stateful σ α} {a : α} (h : run x s = (.ok a, s')) (f : α → Stateful σ β) :
    run (x >>= f) s = run (f a) s' := by
  change ExceptT.bindCont f (run x s).1 (run x s).2 = _
  rw [h]
  rfl

/-- A sequence stops where its first step fails. -/
theorem run_bind_of_eq_error {x : Stateful σ α} {failure : Failure} (h : run x s = (.error failure, s'))
    (f : α → Stateful σ β) : run (x >>= f) s = (.error failure, s') := by
  change ExceptT.bindCont f (run x s).1 (run x s).2 = _
  rw [h]
  rfl

/-- Forgetting or changing a result leaves the state that the step leaves. -/
theorem run_bind_pure (x : Stateful σ α) (f : α → β) (s : σ) :
    run (x >>= fun a => pure (f a)) s = (f <$> (run x s).1, (run x s).2) := by
  rcases hrun : run x s with ⟨failure | a, t⟩
  · exact run_bind_of_eq_error hrun _
  · exact run_bind_of_eq_ok hrun _

/-- Reading the state as the first step. -/
theorem run_get : run get s = (.ok s, s) := rfl

/-- A step that leaves the state alone and succeeds. -/
theorem run_ofOutcome_of_eq_ok {outcome : Outcome α} {a : α} (h : outcome = .ok a) (s : σ) :
    run (ofOutcome outcome) s = (.ok a, s) := by
  rw [h]
  rfl

/-- A step that leaves the state alone succeeds exactly if its outcome does. -/
theorem run_ofOutcome_eq_ok_iff {outcome : Outcome α} {a : α} :
    run (ofOutcome outcome) s = (.ok a, s') ↔ outcome = .ok a ∧ s = s' := by
  simp [run, ofOutcome]

/-- A step that leaves the state alone, followed by another one, succeeds exactly if both do. -/
theorem run_ofOutcome_bind_eq_ok_iff {outcome : Outcome α} {f : α → Stateful σ β} {b : β} :
    run (ofOutcome outcome >>= f) s = (.ok b, s') ↔ ∃ a, outcome = .ok a ∧ run (f a) s = (.ok b, s') := by
  rw [run_bind_eq_ok_iff]
  constructor
  · rintro ⟨a, _, houtcome, hrest⟩
    obtain ⟨ha, rfl⟩ := run_ofOutcome_eq_ok_iff.mp houtcome
    exact ⟨a, ha, hrest⟩
  · rintro ⟨a, ha, hrest⟩
    exact ⟨a, s, run_ofOutcome_of_eq_ok ha s, hrest⟩

/-- A step that only returns a result. -/
theorem run_pure_eq_ok_iff {a b : α} : run (pure a) s = (.ok b, s') ↔ a = b ∧ s = s' := by
  change ((.ok a, s) : Outcome α × σ) = (.ok b, s') ↔ _
  simp

/-- Reading the state. -/
theorem run_get_eq_ok_iff {t : σ} : run get s = (.ok t, s') ↔ s = t ∧ s = s' := by
  change ((.ok s, s) : Outcome σ × σ) = (.ok t, s') ↔ _
  simp

/-- Replacing the state. -/
theorem run_set_eq_ok_iff {t : σ} {u : PUnit} : run (set t) s = (.ok u, s') ↔ t = s' := by
  change ((.ok ⟨⟩, t) : Outcome PUnit × σ) = (.ok u, s') ↔ _
  simp

/-! ### What a step leaves -/

/-- Whatever its outcome, a step leaves a state with a property. -/
def Leaves (P : σ → Prop) (step : Stateful σ α) (s : σ) : Prop := P (run step s).2

variable {P : σ → Prop}

/-- A step that leaves the state alone. -/
theorem leaves_ofOutcome (h : P s) (outcome : Outcome α) : Leaves P (ofOutcome outcome) s := h

theorem leaves_pure (h : P s) (a : α) : Leaves P (pure a) s := h

/-- A sequence leaves what its second step does, or what its first one does if that fails. -/
theorem leaves_bind {x : Stateful σ α} {f : α → Stateful σ β} (hx : Leaves P x s)
    (hf : ∀ a t, run x s = (.ok a, t) → P t → Leaves P (f a) t) : Leaves P (x >>= f) s := by
  rcases hrun : run x s with ⟨failure | a, t⟩
  · rw [Leaves, run_bind_of_eq_error hrun]
    rwa [Leaves, hrun] at hx
  · rw [Leaves, run_bind_of_eq_ok hrun]
    rw [Leaves, hrun] at hx
    exact hf a t hrun hx

/-- A step that leaves the state alone, followed by another one. -/
theorem leaves_ofOutcome_bind {outcome : Outcome α} {f : α → Stateful σ β} (h : P s)
    (hf : ∀ a, outcome = .ok a → Leaves P (f a) s) : Leaves P (ofOutcome outcome >>= f) s := by
  refine leaves_bind (leaves_ofOutcome h outcome) fun a t hrun _ => ?_
  obtain ⟨ha, rfl⟩ := run_ofOutcome_eq_ok_iff.mp hrun
  exact hf a ha

/-- Reading the state, followed by another step. -/
theorem leaves_get_bind {f : σ → Stateful σ β} (hf : Leaves P (f s) s) : Leaves P (get >>= f) s := by
  rw [Leaves, run_bind_of_eq_ok run_get]
  exact hf

end Stateful

/-! ### Lanes and blocks -/

/-- A phase whose state after `i` lanes is `state i`. -/
theorem forLanes_eq_ok {σ : Type} {lane : Nat → σ → Outcome σ} (state : Nat → σ) {count : Nat}
    (h : ∀ n < count, lane n (state n) = .ok (state (n + 1))) :
    forLanes count lane (state 0) = .ok (state count) := by
  rw [forLanes_eq_foldlM]
  exact Outcome.foldlM_range_eq_ok state h

namespace Block

variable {ρ τ : Type}

/-- A phase that succeeds, followed by others. -/
theorem runPhases_cons {lanes : Nat} {phase : LaneAction ρ τ} {state state' : ρ × τ}
    (h : forLanes lanes phase state = .ok state') (phases : List (LaneAction ρ τ)) :
    runPhases lanes (phase :: phases) state = runPhases lanes phases state' := by
  rw [runPhases, List.foldlM_cons, h]
  rfl

/-- Phases that succeed, followed by others. -/
theorem runPhases_append {lanes : Nat} {first : List (LaneAction ρ τ)} {state state' : ρ × τ}
    (h : runPhases lanes first state = .ok state') (second : List (LaneAction ρ τ)) :
    runPhases lanes (first ++ second) state = runPhases lanes second state' := by
  rw [runPhases] at h
  rw [runPhases, List.foldlM_append, h]
  rfl

/-- Phases for the numbers below `n`, when the state after `i` of them is `state i`. -/
theorem runPhases_map_range {lanes : Nat} {phase : Nat → LaneAction ρ τ} (state : Nat → ρ × τ) {n : Nat}
    (h : ∀ i < n, forLanes lanes (phase i) (state i) = .ok (state (i + 1))) :
    runPhases lanes ((List.range n).map phase) (state 0) = .ok (state n) := by
  rw [runPhases, List.foldlM_map]
  exact Outcome.foldlM_range_eq_ok state h

/-- A block whose phases are known to succeed. -/
theorem exists_run_of_phases {block : Block ρ τ} {row row' : ρ} {scratch' : τ}
    {phases : List (LaneAction ρ τ)} (hplan : block.phases row = .ok phases)
    (hrun : runPhases block.lanes phases (row, block.scratch) = .ok (row', scratch')) :
    ∃ used, block.run row = .ok (row', used) := by
  refine ⟨⟨1, phases.length - 1⟩, ?_⟩
  rw [run, hplan, Outcome.ok_bind, hrun, Outcome.ok_bind]
  rfl

/-- A block with one phase and no scratch, whose lanes have known results. -/
theorem exists_run_once {lanes : Nat} {scratch : τ} {lane : Nat → ρ → Outcome ρ} (state : Nat → ρ)
    (h : ∀ n < lanes, lane n (state n) = .ok (state (n + 1))) :
    ∃ used, (once lanes scratch lane).run (state 0) = .ok (state lanes, used) := by
  refine exists_run_of_phases rfl ((runPhases_cons (forLanes_eq_ok (fun n => (state n, scratch)) ?_) []).trans rfl)
  intro n hn
  simp [h n hn]

/-- What one block does to the row and to the usage so far. -/
def step (state : ρ × Usage) (block : Block ρ τ) : Outcome (ρ × Usage) := do
  let (row, more) ← block.run state.1
  return (row, state.2 + more)

theorem runAll_eq_foldlM_step (blocks : List (Block ρ τ)) (row : ρ) :
    runAll blocks row = blocks.foldlM step (row, {}) := rfl

/-- A block that succeeds, as a step. -/
theorem step_eq_ok {block : Block ρ τ} {row row' : ρ} {used : Usage} (h : block.run row = .ok (row', used))
    (before : Usage) : step (row, before) block = .ok (row', before + used) := by
  simp [step, h]

/-- The usage before a list of blocks has no influence on whether they succeed and on the row. -/
theorem exists_foldlM_step_of_runAll {blocks : List (Block ρ τ)} {row row' : ρ}
    (h : ∃ used, runAll blocks row = .ok (row', used)) (before : Usage) :
    ∃ used, blocks.foldlM step (row, before) = .ok (row', used) := by
  obtain ⟨used, h⟩ := h
  rw [runAll_eq_foldlM_step] at h
  generalize hstart : ({} : Usage) = start at h
  clear hstart
  induction blocks generalizing row before start with
  | nil =>
    cases h
    exact ⟨before, rfl⟩
  | cons block blocks ih =>
    rw [List.foldlM_cons] at h ⊢
    obtain ⟨⟨mid, more⟩, hfirst, hrest⟩ := Outcome.bind_eq_ok_iff.mp h
    obtain ⟨⟨mid', used'⟩, hrun, hmid⟩ := Outcome.bind_eq_ok_iff.mp hfirst
    cases hmid
    rw [step_eq_ok hrun, Outcome.ok_bind]
    exact ih _ _ hrest

/-- Two lists of blocks, one after the other. -/
theorem exists_runAll_append {first second : List (Block ρ τ)} {row mid row' : ρ}
    (hfirst : ∃ used, runAll first row = .ok (mid, used))
    (hsecond : ∃ used, runAll second mid = .ok (row', used)) :
    ∃ used, runAll (first ++ second) row = .ok (row', used) := by
  obtain ⟨used, hfirst⟩ := hfirst
  obtain ⟨used', h⟩ := exists_foldlM_step_of_runAll hsecond used
  refine ⟨used', ?_⟩
  rw [runAll_eq_foldlM_step] at hfirst ⊢
  rw [List.foldlM_append, hfirst]
  exact h

/-- A single block as a list of blocks. -/
theorem exists_runAll_singleton {block : Block ρ τ} {row row' : ρ}
    (h : ∃ used, block.run row = .ok (row', used)) : ∃ used, runAll [block] row = .ok (row', used) := by
  obtain ⟨used, h⟩ := h
  refine ⟨{} + used, ?_⟩
  rw [runAll_eq_foldlM_step, List.foldlM_cons, step_eq_ok h]
  rfl

/-- Lists of blocks for the numbers below `n`, when the row after `i` lists is `state i`. -/
theorem exists_runAll_flatMap_range {blocks : Nat → List (Block ρ τ)} (state : Nat → ρ) {n : Nat}
    (h : ∀ i < n, ∃ used, runAll (blocks i) (state i) = .ok (state (i + 1), used)) :
    ∃ used, runAll ((List.range n).flatMap blocks) (state 0) = .ok (state n, used) := by
  induction n with
  | zero => exact ⟨{}, rfl⟩
  | succ n ih =>
    rw [List.range_succ, List.flatMap_append]
    refine exists_runAll_append (ih fun i hi => h i (by omega)) ?_
    simpa using h n (by omega)

/-- Blocks for the numbers below `n`, when the row after `i` blocks is `state i`. -/
theorem exists_runAll_map_range {block : Nat → Block ρ τ} (state : Nat → ρ) {n : Nat}
    (h : ∀ i < n, ∃ used, (block i).run (state i) = .ok (state (i + 1), used)) :
    ∃ used, runAll ((List.range n).map block) (state 0) = .ok (state n, used) := by
  rw [List.map_eq_flatMap]
  exact exists_runAll_flatMap_range state fun i hi => exists_runAll_singleton (h i hi)

end Block

end MergePathSort
