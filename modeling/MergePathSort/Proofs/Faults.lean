import MergePathSort.Proofs.Outcome

/-!
# Steps that fault

A step that does not fault succeeds or is refused. A sequence of steps faults where one of its steps does, after those
before it have succeeded; what has been refused cannot fault any more. So "this never faults" is proved step by step, and
where a step can fault, the same lemmas say when.

## Main definitions

* `Outcome.Faults`, `Stateful.Faults` : steps that fault.

## Main results

* `Outcome.faults_bind_iff`, `Stateful.faults_bind_iff` : sequences.
* `Outcome.not_faults_mapM` : lists of steps.
-/

namespace MergePathSort

namespace Outcome

variable {α β : Type}

/-- A step faults: it neither succeeds nor is refused. -/
def Faults (x : Outcome α) : Prop := ∃ fault, x = .error (.faulted fault)

@[simp]
theorem not_faults_ok (a : α) : ¬Faults (.ok a : Outcome α) := by
  rintro ⟨_, ⟨⟩⟩

@[simp]
theorem not_faults_refuse (error : Refusal) : ¬Faults (refuse error : Outcome α) := by
  rintro ⟨_, ⟨⟩⟩

@[simp]
theorem faults_fault (fault : Fault) : Faults (Outcome.fault fault : Outcome α) := ⟨fault, rfl⟩

/-- A sequence of two steps faults exactly if the first one does, or the second one after it. -/
theorem faults_bind_iff {x : Outcome α} {f : α → Outcome β} :
    Faults (x >>= f) ↔ Faults x ∨ ∃ a, x = .ok a ∧ Faults (f a) := by
  cases x with
  | ok a => simp
  | error failure =>
    constructor
    · rintro ⟨fault, hfault⟩
      cases hfault
      exact .inl ⟨fault, rfl⟩
    · rintro (⟨fault, hfault⟩ | ⟨a, ⟨⟩, -⟩)
      cases hfault
      exact ⟨fault, rfl⟩

/-- A sequence of two steps that do not fault. -/
theorem not_faults_bind {x : Outcome α} {f : α → Outcome β} (hx : ¬Faults x) (hf : ∀ a, x = .ok a → ¬Faults (f a)) :
    ¬Faults (x >>= f) := by
  rw [faults_bind_iff]
  rintro (hfaults | ⟨a, ha, hfaults⟩)
  · exact hx hfaults
  · exact hf a ha hfaults

/-- A list of steps that do not fault. -/
theorem not_faults_mapM {f : α → Outcome β} {xs : List α} (h : ∀ x ∈ xs, ¬Faults (f x)) : ¬Faults (xs.mapM f) := by
  induction xs with
  | nil => exact not_faults_ok []
  | cons x xs ih =>
    rw [List.mapM_cons]
    refine not_faults_bind (h x (by simp)) fun y _ => ?_
    refine not_faults_bind (ih fun z hz => h z (by simp [hz])) fun ys _ => ?_
    exact not_faults_ok (y :: ys)

end Outcome

namespace Stateful

variable {σ α β : Type} {s : σ}

/-- A step faults in a state. -/
def Faults (step : Stateful σ α) (s : σ) : Prop := (run step s).1.Faults

/-- A step faults if its outcome does, whatever state it leaves. -/
theorem faults_iff_of_run_eq {step : Stateful σ α} {outcome : Outcome α} {s' : σ} (h : run step s = (outcome, s')) :
    Faults step s ↔ outcome.Faults := by
  rw [Faults, h]

/-- A step that leaves the state alone faults if its outcome is a fault. -/
@[simp]
theorem faults_ofOutcome_iff {outcome : Outcome α} : Faults (ofOutcome outcome) s ↔ outcome.Faults := Iff.rfl

@[simp]
theorem not_faults_pure (a : α) : ¬Faults (pure a : Stateful σ α) s := Outcome.not_faults_ok a

/-- A sequence of two steps faults exactly if the first one does, or the second one in the state that the first leaves. -/
theorem faults_bind_iff {x : Stateful σ α} {f : α → Stateful σ β} :
    Faults (x >>= f) s ↔ Faults x s ∨ ∃ a s', run x s = (.ok a, s') ∧ Faults (f a) s' := by
  rcases hx : run x s with ⟨failure | a, s'⟩
  · rw [faults_iff_of_run_eq (run_bind_of_eq_error hx f), faults_iff_of_run_eq hx]
    constructor
    · rintro ⟨fault, ⟨⟩⟩
      exact .inl ⟨fault, rfl⟩
    · rintro (⟨fault, ⟨⟩⟩ | ⟨_, _, ⟨⟩, -⟩)
      exact ⟨fault, rfl⟩
  · rw [Faults, run_bind_of_eq_ok hx, faults_iff_of_run_eq hx]
    constructor
    · exact fun hfaults => .inr ⟨a, s', rfl, hfaults⟩
    · rintro (hfirst | ⟨_, _, ⟨⟩, hfaults⟩)
      · exact absurd hfirst (Outcome.not_faults_ok a)
      · exact hfaults

/-- Returning something made of a result cannot fault. -/
theorem faults_bind_pure_iff {x : Stateful σ α} {f : α → β} : Faults (x >>= fun a => pure (f a)) s ↔ Faults x s := by
  rw [faults_bind_iff]
  constructor
  · rintro (hfaults | ⟨a, _, -, hpure⟩)
    · exact hfaults
    · exact absurd hpure (not_faults_pure (f a))
  · exact .inl

/-- A step that leaves the state alone, followed by another one. -/
theorem faults_ofOutcome_bind_iff {outcome : Outcome α} {f : α → Stateful σ β} :
    Faults (ofOutcome outcome >>= f) s ↔ outcome.Faults ∨ ∃ a, outcome = .ok a ∧ Faults (f a) s := by
  rw [faults_bind_iff, faults_ofOutcome_iff]
  simp only [run_ofOutcome_eq_ok_iff]
  constructor
  · rintro (hfaults | ⟨a, _, ⟨ha, rfl⟩, hfaults⟩)
    · exact .inl hfaults
    · exact .inr ⟨a, ha, hfaults⟩
  · rintro (hfaults | ⟨a, ha, hfaults⟩)
    · exact .inl hfaults
    · exact .inr ⟨a, s, ⟨ha, rfl⟩, hfaults⟩

end Stateful

end MergePathSort
