import MergePathSort.Proofs.Plan.Refusals

/-!
# Steps that are not refused

A step is refused, it faults, or it succeeds. What a refusal leaves and what a success returns are stated together: a
state that a refused step may leave, and a result that a successful one may return. A sequence is refused where one of
its steps is, so a sequence whose later steps cannot be refused leaves what its first steps do.

Arithmetic and accesses to buffers fault and are never refused. The lemmas on them are simplification rules, so that a
step made of them is found never to be refused by simplification.

## Main definitions

* `Outcome.Ensures` : a step that is never refused, and whose result has a property.
* `Stateful.Meets` : what a step leaves when it is refused, and what it returns when it succeeds.
* `Stateful.Refuses` : the errors with which a step is refused, and what it leaves then.

## Main results

* `Outcome.ensures_bind`, `Outcome.ensures_foldlM` : sequences of steps.
* `Stateful.meets_bind`, `Stateful.meets_foldlM` : sequences of steps with a state.
* `Size.refusedOnly_add`, `Buffer.refusedOnly_read` and the like : arithmetic and accesses.
-/

namespace MergePathSort

/-! ### Outcomes -/

namespace Outcome

variable {α β : Type} {P : Refusal → Prop} {Q : α → Prop}

/-- A sequence is refused only for reasons of a kind exactly if its steps are. -/
@[simp]
theorem refusedOnly_bind_iff {x : Outcome α} {f : α → Outcome β} :
    RefusedOnly P (x >>= f) ↔ RefusedOnly P x ∧ ∀ a, x = .ok a → RefusedOnly P (f a) := by
  rcases x with (error | fault) | a
  · refine ⟨fun h => ⟨refusedOnly_refuse_iff.mpr (h error rfl), fun a ha => nomatch ha⟩, fun h => ?_⟩
    exact refusedOnly_refuse_iff.mpr (h.1 error rfl)
  · exact ⟨fun _ => ⟨refusedOnly_fault fault, fun a ha => nomatch ha⟩, fun _ => refusedOnly_fault fault⟩
  · exact ⟨fun h => ⟨refusedOnly_ok a, fun b hb => Except.ok.inj hb ▸ h⟩, fun h => h.2 a rfl⟩

/-- A sequence whose second step is never refused is refused exactly if its first step is. -/
theorem bind_eq_refuse_iff {x : Outcome α} {f : α → Outcome β} {error : Refusal}
    (hf : ∀ a, RefusedOnly (fun _ => False) (f a)) : x >>= f = refuse error ↔ x = refuse error := by
  rcases x with (error' | fault) | a
  · constructor
    · rintro ⟨⟩
      rfl
    · rintro ⟨⟩
      rfl
  · exact iff_of_false (fun h => nomatch h) fun h => nomatch h
  · exact iff_of_false (fun h => hf a error h) fun h => nomatch h

/-- A step with two branches is refused for the reasons of the branch that it takes. -/
@[simp]
theorem refusedOnly_ite_iff {c : Prop} [Decidable c] {x y : Outcome α} :
    RefusedOnly P (if c then x else y) ↔ (c → RefusedOnly P x) ∧ (¬c → RefusedOnly P y) := by
  by_cases h : c <;> simp [h]

/-- The step is never refused, and if it succeeds its result has a property. -/
def Ensures (Q : α → Prop) : Outcome α → Prop
  | .ok a => Q a
  | .error (.refused _) => False
  | .error (.faulted _) => True

theorem ensures_fault (fault : Fault) : Ensures Q (Outcome.fault fault) := trivial

/-- Never to be refused, and what a success returns. -/
theorem ensures_iff {x : Outcome α} : Ensures Q x ↔ RefusedOnly (fun _ => False) x ∧ ∀ a, x = .ok a → Q a := by
  rcases x with (error | fault) | a
  · exact ⟨False.elim, fun h => h.1 error rfl⟩
  · exact ⟨fun _ => ⟨refusedOnly_fault fault, fun a ha => nomatch ha⟩, fun _ => trivial⟩
  · exact ⟨fun h => ⟨refusedOnly_ok a, fun b hb => Except.ok.inj hb ▸ h⟩, fun h => h.2 a rfl⟩

theorem Ensures.mono {Q' : α → Prop} {x : Outcome α} (h : Ensures Q x) (hQ : ∀ a, Q a → Q' a) : Ensures Q' x := by
  rw [ensures_iff] at h ⊢
  exact ⟨h.1, fun a ha => hQ a (h.2 a ha)⟩

/-- Nothing need be known of the result of a step that is never refused. -/
theorem ensures_of_refusedOnly {x : Outcome α} (h : RefusedOnly (fun _ => False) x) (hQ : ∀ a, x = .ok a → Q a) :
    Ensures Q x :=
  ensures_iff.mpr ⟨h, hQ⟩

/-- A step that is never refused is refused for no reason of any kind. -/
theorem Ensures.refusedOnly {x : Outcome α} (h : Ensures Q x) : RefusedOnly P x :=
  fun error herror => ((ensures_iff.mp h).1 error herror).elim

/-- A sequence ensures what its second step does of any result that the first one ensures. -/
theorem ensures_bind {Q' : β → Prop} {x : Outcome α} {f : α → Outcome β} (hx : Ensures Q x)
    (hf : ∀ a, Q a → Ensures Q' (f a)) : Ensures Q' (x >>= f) := by
  rcases x with (error | fault) | a
  · exact hx
  · trivial
  · exact hf a hx

/-- A sequence whose first step is never refused. -/
theorem ensures_bind_of_refusedOnly {Q' : β → Prop} {x : Outcome α} {f : α → Outcome β}
    (hx : RefusedOnly (fun _ => False) x) (hf : ∀ a, x = .ok a → Ensures Q' (f a)) : Ensures Q' (x >>= f) :=
  ensures_bind (ensures_of_refusedOnly hx fun _ ha => ha) hf

/-- A step with two branches ensures what both of them do. -/
theorem ensures_ite {c : Prop} [Decidable c] {x y : Outcome α} (hx : c → Ensures Q x) (hy : ¬c → Ensures Q y) :
    Ensures Q (if c then x else y) := by
  by_cases h : c
  · rw [if_pos h]
    exact hx h
  · rw [if_neg h]
    exact hy h

/-- A loop keeps what each of its steps keeps. -/
theorem ensures_foldlM {f : α → β → Outcome α} {bs : List β} (hf : ∀ b ∈ bs, ∀ a, Q a → Ensures Q (f a b)) {a : α}
    (ha : Q a) : Ensures Q (bs.foldlM f a) := by
  induction bs generalizing a with
  | nil => exact ha
  | cons b bs ih =>
    rw [List.foldlM_cons]
    refine ensures_bind (hf b List.mem_cons_self a ha) fun a' ha' => ?_
    exact ih (fun b' hb' => hf b' (List.mem_cons_of_mem b hb')) ha'

/-- A list of steps, each of which ensures something of its own result. -/
theorem ensures_mapM {f : β → Outcome α} {bs : List β} (hf : ∀ b ∈ bs, Ensures Q (f b)) :
    Ensures (fun results => results.length = bs.length ∧ ∀ a ∈ results, Q a) (bs.mapM f) := by
  induction bs with
  | nil => exact ⟨rfl, fun a ha => absurd ha List.not_mem_nil⟩
  | cons b bs ih =>
    rw [List.mapM_cons]
    refine ensures_bind (hf b List.mem_cons_self) fun a ha => ?_
    refine ensures_bind (ih fun b' hb' => hf b' (List.mem_cons_of_mem b hb')) fun results hresults => ?_
    exact ⟨congrArg Nat.succ hresults.1, List.forall_mem_cons.mpr ⟨ha, hresults.2⟩⟩

end Outcome

/-! ### Steps with a state -/

namespace Stateful

variable {σ α β : Type} {R : σ → Prop} {Q : α → σ → Prop} {s : σ}

/-- If the step is refused, it leaves a state of one kind; if it succeeds, it returns a result in a state of another. -/
def Meets (R : σ → Prop) (Q : α → σ → Prop) (step : Stateful σ α) (s : σ) : Prop :=
  match run step s with
  | (.ok a, left) => Q a left
  | (.error (.refused _), left) => R left
  | (.error (.faulted _), _) => True

theorem meets_iff {step : Stateful σ α} :
    Meets R Q step s ↔
      (∀ error left, run step s = (Outcome.refuse error, left) → R left) ∧
        ∀ a left, run step s = (.ok a, left) → Q a left := by
  rw [Meets]
  rcases run step s with ⟨(error | fault) | a, left⟩
  · refine ⟨fun h => ⟨?_, fun a _ ha => nomatch ha⟩, fun h => h.1 error left rfl⟩
    rintro _ _ ⟨⟩
    exact h
  · refine ⟨fun _ => ⟨?_, fun a _ ha => nomatch ha⟩, fun _ => trivial⟩
    rintro _ _ ⟨⟩
  · refine ⟨fun h => ⟨?_, ?_⟩, fun h => h.2 a left rfl⟩
    · rintro _ _ ⟨⟩
    · rintro _ _ ⟨⟩
      exact h

theorem Meets.mono {R' : σ → Prop} {Q' : α → σ → Prop} {step : Stateful σ α} (h : Meets R Q step s)
    (hR : ∀ left, R left → R' left) (hQ : ∀ a left, Q a left → Q' a left) : Meets R' Q' step s := by
  rw [meets_iff] at h ⊢
  exact ⟨fun error left hrun => hR left (h.1 error left hrun), fun a left hrun => hQ a left (h.2 a left hrun)⟩

/-- What a step leaves whatever its outcome. -/
theorem meets_of_leaves {step : Stateful σ α} (h : Leaves R step s) : Meets R (fun _ => R) step s :=
  meets_iff.mpr ⟨fun error left hrun => by rwa [Leaves, hrun] at h, fun a left hrun => by rwa [Leaves, hrun] at h⟩

theorem meets_pure {a : α} (h : Q a s) : Meets R Q (pure a) s := h

/-- A step that leaves the state alone. -/
theorem meets_ofOutcome {outcome : Outcome α} (hR : R s) (hQ : ∀ a, outcome = .ok a → Q a s) :
    Meets R Q (ofOutcome outcome) s := by
  rcases outcome with (error | fault) | a
  · exact hR
  · trivial
  · exact hQ a rfl

/-- A step that leaves the state alone and is never refused. -/
theorem meets_ofOutcome_of_ensures {outcome : Outcome α} (h : outcome.Ensures (Q · s)) :
    Meets R Q (ofOutcome outcome) s := by
  rcases outcome with (error | fault) | a
  · exact h.elim
  · trivial
  · exact h

/-- A sequence meets what its second step does, from wherever the first one leaves it. -/
theorem meets_bind {Q' : β → σ → Prop} {x : Stateful σ α} {f : α → Stateful σ β} (hx : Meets R Q x s)
    (hf : ∀ a left, Q a left → Meets R Q' (f a) left) : Meets R Q' (x >>= f) s := by
  rw [Meets] at hx
  rcases hrun : run x s with ⟨(error | fault) | a, left⟩
  all_goals rw [hrun] at hx
  · rwa [Meets, run_bind_of_eq_error hrun]
  · rw [Meets, run_bind_of_eq_error hrun]
    trivial
  · rw [Meets, run_bind_of_eq_ok hrun]
    exact hf a left hx

/-- A step that leaves the state alone, followed by another one. -/
theorem meets_ofOutcome_bind {Q' : β → σ → Prop} {outcome : Outcome α} {f : α → Stateful σ β} (hR : R s)
    (hf : ∀ a, outcome = .ok a → Meets R Q' (f a) s) : Meets R Q' (ofOutcome outcome >>= f) s := by
  refine meets_bind (Q := fun a left => outcome = .ok a ∧ left = s) (meets_ofOutcome hR fun a ha => ⟨ha, rfl⟩) ?_
  rintro a _ ⟨ha, rfl⟩
  exact hf a ha

/-- A step that leaves the state alone and is never refused, followed by another one. -/
theorem meets_ensures_bind {Q' : β → σ → Prop} {Q : α → Prop} {outcome : Outcome α} {f : α → Stateful σ β}
    (h : outcome.Ensures Q) (hf : ∀ a, Q a → Meets R Q' (f a) s) : Meets R Q' (ofOutcome outcome >>= f) s := by
  refine meets_bind (Q := fun a left => Q a ∧ left = s) (meets_ofOutcome_of_ensures (h.mono fun a ha => ⟨ha, rfl⟩)) ?_
  rintro a _ ⟨ha, rfl⟩
  exact hf a ha

/-- Reading the state, followed by another step. -/
theorem meets_get_bind {f : σ → Stateful σ α} (hf : Meets R Q (f s) s) : Meets R Q (get >>= f) s := by
  rwa [Meets, run_bind_of_eq_ok run_get]

/-- Replacing the state, followed by another step. -/
theorem meets_set_bind {left : σ} {f : PUnit → Stateful σ α} (hf : Meets R Q (f ⟨⟩) left) :
    Meets R Q (set left >>= f) s :=
  meets_bind (x := set left) (Q := fun _ set => left = set) rfl fun _ _ hset => hset ▸ hf

/-- Changing the state, followed by another step. -/
theorem meets_modify_bind {change : σ → σ} {f : PUnit → Stateful σ α} (hf : Meets R Q (f ⟨⟩) (change s)) :
    Meets R Q (modify change >>= f) s :=
  meets_bind (x := modify change) (Q := fun _ changed => change s = changed) rfl fun _ _ hchanged => hchanged ▸ hf

/-- A sequence of two steps is refused for the reasons of either. -/
theorem refusedOnly_bind {P : Refusal → Prop} {x : Stateful σ α} {f : α → Stateful σ β} (hx : (run x s).1.RefusedOnly P)
    (hf : ∀ a left, run x s = (.ok a, left) → (run (f a) left).1.RefusedOnly P) :
    (run (x >>= f) s).1.RefusedOnly P := by
  rcases hrun : run x s with ⟨failure | a, left⟩
  · rw [run_bind_of_eq_error hrun]
    rw [hrun] at hx
    exact hx.of_error
  · rw [run_bind_of_eq_ok hrun]
    exact hf a left hrun

/-- A loop keeps what each of its steps keeps. -/
theorem meets_foldlM {f : α → β → Stateful σ α} (hf : ∀ a b left, Q a left → Meets R Q (f a b) left) (bs : List β)
    {a : α} (ha : Q a s) : Meets R Q (bs.foldlM f a) s := by
  induction bs generalizing a s with
  | nil => exact ha
  | cons b bs ih =>
    rw [List.foldlM_cons]
    exact meets_bind (hf a b s ha) fun a' left ha' => ih ha'

/-- Steps that are done in order keep what each of them keeps. -/
theorem meets_forM {Q : σ → Prop} {f : β → Stateful σ PUnit} (hf : ∀ b left, Q left → Meets R (fun _ => Q) (f b) left)
    (bs : List β) (hs : Q s) : Meets R (fun _ => Q) (bs.forM f) s := by
  induction bs generalizing s with
  | nil => exact hs
  | cons b bs ih => exact meets_bind (hf b s hs) fun _ left hleft => ih hleft

/-- If the step is refused, then for a reason and leaving a state that go together. -/
def Refuses (E : Refusal → σ → Prop) (step : Stateful σ α) (s : σ) : Prop :=
  ∀ error left, run step s = (Outcome.refuse error, left) → E error left

section Refuses

variable {E : Refusal → σ → Prop}

theorem refuses_pure (a : α) : Refuses E (pure a) s := by
  rintro error left ⟨⟩

/-- A step that leaves the state alone is refused for the reasons of its outcome. -/
theorem refuses_ofOutcome {outcome : Outcome α} (h : outcome.RefusedOnly (E · s)) :
    Refuses E (ofOutcome outcome) s := by
  rintro error left hrun
  obtain ⟨houtcome, rfl⟩ := Prod.mk.inj hrun
  exact h error houtcome

/-- A sequence is refused for the reasons of its steps, each from where it starts. -/
theorem refuses_bind {x : Stateful σ α} {f : α → Stateful σ β} (hx : Refuses E x s)
    (hf : ∀ a left, run x s = (.ok a, left) → Refuses E (f a) left) : Refuses E (x >>= f) s := by
  intro error left hrun
  rcases hfirst : run x s with ⟨(error' | fault) | a, between⟩
  · rw [run_bind_of_eq_error hfirst] at hrun
    cases hrun
    exact hx error left hfirst
  · rw [run_bind_of_eq_error hfirst] at hrun
    cases hrun
  · rw [run_bind_of_eq_ok hfirst] at hrun
    exact hf a between hfirst error left hrun

/-- A step that leaves the state alone, followed by another one. -/
theorem refuses_ofOutcome_bind {outcome : Outcome α} {f : α → Stateful σ β} (h : outcome.RefusedOnly (E · s))
    (hf : ∀ a, outcome = .ok a → Refuses E (f a) s) : Refuses E (ofOutcome outcome >>= f) s := by
  refine refuses_bind (refuses_ofOutcome h) fun a left hrun => ?_
  obtain ⟨houtcome, rfl⟩ := Prod.mk.inj hrun
  exact hf a houtcome

end Refuses

end Stateful

/-! ### Arithmetic and accesses -/

section Primitives

variable {α : Type} {P : Refusal → Prop}

attribute [simp] Size.refusedOnly_mul Size.refusedOnly_divCeil

@[simp]
theorem Size.refusedOnly_fit (n : Nat) : (Size.fit n).RefusedOnly P := by
  simp [fit]

@[simp]
theorem Size.refusedOnly_add (a b : Nat) : (Size.add a b).RefusedOnly P := Size.refusedOnly_fit (a + b)

@[simp]
theorem Size.refusedOnly_sub (a b : Nat) : (Size.sub a b).RefusedOnly P := by
  simp [sub]

@[simp]
theorem Size.refusedOnly_div (a b : Nat) : (Size.div a b).RefusedOnly P := by
  simp [div]

@[simp]
theorem Size.refusedOnly_mod (a b : Nat) : (Size.mod a b).RefusedOnly P := by
  simp [mod]

@[simp]
theorem Size.refusedOnly_product (sizes : List Nat) : (Size.product sizes).RefusedOnly P :=
  Outcome.refusedOnly_foldlM Size.refusedOnly_mul sizes 1

@[simp]
theorem Buffer.refusedOnly_read (buffer : Array α) (position : Nat) : (Buffer.read buffer position).RefusedOnly P := by
  rw [read]
  split
  · exact Outcome.refusedOnly_ok _
  · exact Outcome.refusedOnly_fault _

@[simp]
theorem Buffer.refusedOnly_slice (buffer : Array α) (start len : Nat) :
    (Buffer.slice buffer start len).RefusedOnly P := by
  simp [slice]

/-- Writing keeps the size of a buffer. -/
theorem Buffer.ensures_write (buffer : Array α) (position : Nat) (x : α) :
    (Buffer.write buffer position x).Ensures fun written => written.size = buffer.size := by
  rw [write]
  split
  · exact Array.size_set _
  · exact Outcome.ensures_fault _

/-- Exchanging elements keeps the size of a buffer. -/
theorem Buffer.ensures_exchange (buffer : Array α) (i j : Nat) :
    (Buffer.exchange buffer i j).Ensures fun exchanged => exchanged.size = buffer.size := by
  rw [exchange]
  split
  · exact Array.size_swap
  · exact Outcome.ensures_fault _

end Primitives

end MergePathSort
