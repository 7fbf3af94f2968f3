import Mathlib.Algebra.GroupWithZero.Nat
import MergePathSort.Proofs.Outcome

/-!
# Blocks at work together

A launch fixes little of the order in which its lanes act. The phases of a block follow each other, and a phase ends when
all of its lanes have acted; but rows are independent, the blocks of a row may be interleaved, and the lanes of a phase may
act in any order. Here all rows of a launch are at work together. At any time a few turns may come next, and a scheduler
takes one of them, until there are none.

That the order does not matter is stated by an inductive predicate: a row *leads* to a result if every turn that may come
next succeeds and leaves a row that leads to it. A row at work only runs out of turns when all of its blocks have ended.

## Main definitions

* `Turn`, `Progress`, `BlockWork` : what may come next in a block, and a block at work.
* `RowWork`, `RowWork.turns`, `RowWork.act` : the blocks of a row at work together.
* `Scheduler`, `LaunchWork.run` : the rows of a launch at work together, in the order of a scheduler.
* `RowWork.Leads` : every order of the turns ends with one result.

## Main results

* `RowWork.act_less` : every turn is a step towards the end.
* `LaunchWork.exists_run` : rows that lead to their results, in the order of any scheduler.
* `Keeps.leads` : blocks that keep up what is known of them.
-/

namespace MergePathSort

/-! ### Turns -/

/-- What may come next in a block. -/
inductive Turn where
  /-- The block starts, and plans its phases. -/
  | start
  /-- A lane acts in the present phase. -/
  | lane (n : Nat)
  /-- The present phase ends, at a barrier or with the block. -/
  | close
  deriving DecidableEq, Inhabited

/-- How far a block has come. -/
structure Progress (ρ τ : Type) where
  /-- The phases that it has planned. -/
  phases : List (LaneAction ρ τ)
  /-- The number of the present phase. -/
  phase : Nat
  /-- The lanes that have still to act in the present phase. -/
  waiting : List Nat
  /-- The scratch. -/
  scratch : τ

/-- A block at work. -/
structure BlockWork (ρ τ : Type) where
  /-- The block. -/
  block : Block ρ τ
  /-- How far it has come, if it has started. -/
  progress : Option (Progress ρ τ)

variable {ρ τ : Type}

/-- A block that enters a phase: all of its lanes have still to act. -/
def Block.enter (block : Block ρ τ) (phases : List (LaneAction ρ τ)) (phase : Nat) (scratch : τ) : Progress ρ τ :=
  ⟨phases, phase, List.range block.lanes, scratch⟩

/-- One lane has acted. -/
def Progress.acted (progress : Progress ρ τ) (n : Nat) (scratch : τ) : Progress ρ τ :=
  { progress with waiting := progress.waiting.filter (· ≠ n), scratch }

namespace BlockWork

/-- The turns of a block that may come next. A block that has ended has none. -/
def turns (work : BlockWork ρ τ) : List Turn :=
  match work.progress with
  | none => [.start]
  | some progress =>
    if progress.phases.length ≤ progress.phase then []
    else if progress.waiting = [] then [.close]
    else progress.waiting.map .lane

/-- A turn of a block, on its row. -/
def act (work : BlockWork ρ τ) (turn : Turn) (row : ρ) : Outcome (ρ × BlockWork ρ τ) :=
  match turn, work.progress with
  | .start, none => do
    let phases ← work.block.phases row
    return (row, ⟨work.block, some (work.block.enter phases 0 work.block.scratch)⟩)
  | .lane n, some progress =>
    match progress.phases[progress.phase]? with
    | some action => do
      let (row, scratch) ← action n (row, progress.scratch)
      return (row, ⟨work.block, some (progress.acted n scratch)⟩)
    | none => .fault .assertion
  | .close, some progress =>
    return (row, ⟨work.block, some (work.block.enter progress.phases (progress.phase + 1) progress.scratch)⟩)
  | _, _ => .fault .assertion

end BlockWork

/-- The turns of numbered parts. -/
def numberedTurns {π θ : Type} (turns : π → List θ) (parts : List π) : List (Nat × θ) :=
  parts.zipIdx.flatMap fun (part, number) => (turns part).map (number, ·)

/-- The blocks of a row at work. -/
structure RowWork (ρ τ : Type) where
  /-- The row. -/
  row : ρ
  /-- The blocks. -/
  blocks : List (BlockWork ρ τ)

namespace RowWork

/-- The blocks of a row before any has started. -/
def ofBlocks (blocks : List (Block ρ τ)) (row : ρ) : RowWork ρ τ := ⟨row, blocks.map (⟨·, none⟩)⟩

/-- The turns that may come next, each with the number of its block. -/
def turns (work : RowWork ρ τ) : List (Nat × Turn) := numberedTurns BlockWork.turns work.blocks

/-- A turn of one of the blocks. -/
def act (work : RowWork ρ τ) (turn : Nat × Turn) : Outcome (RowWork ρ τ) :=
  match work.blocks[turn.1]? with
  | some block => do
    let (row, block) ← block.act turn.2 work.row
    return ⟨row, work.blocks.set turn.1 block⟩
  | none => .fault .assertion

end RowWork

/-- A scheduler takes at any time one of the turns that may come next, each of which has the number of its row and of its
block. -/
structure Scheduler where
  /-- The turn that is taken. -/
  pick : Nat → List (Nat × Nat × Turn) → Nat × Nat × Turn
  /-- It is one that may come next. -/
  pick_mem : ∀ time turns, turns ≠ [] → pick time turns ∈ turns

/-- The scheduler that takes the last of the turns. -/
def Scheduler.lastFirst : Scheduler where
  pick _ turns := turns.getLastD default
  pick_mem _ turns h := by
    rw [List.getLastD_eq_getLast?, List.getLast?_eq_some_getLast h]
    exact List.getLast_mem h

/-! ### Every turn is a step towards the end -/

section Decrease

theorem mem_numberedTurns {π θ : Type} {turns : π → List θ} {parts : List π} {number : Nat} {turn : θ} :
    (number, turn) ∈ numberedTurns turns parts ↔ ∃ part, parts[number]? = some part ∧ turn ∈ turns part := by
  rw [numberedTurns, List.mem_flatMap]
  constructor
  · rintro ⟨⟨part, n⟩, hpart, hturn⟩
    obtain ⟨t, ht, heq⟩ := List.mem_map.mp hturn
    cases heq
    exact ⟨part, List.mem_zipIdx_iff_getElem?.mp hpart, ht⟩
  · rintro ⟨part, hpart, hturn⟩
    exact ⟨(part, number), List.mem_zipIdx_iff_getElem?.mpr hpart, List.mem_map_of_mem hturn⟩

/-- There are no turns if none of the parts has any. -/
theorem numberedTurns_eq_nil {π θ : Type} {turns : π → List θ} {parts : List π} :
    numberedTurns turns parts = [] ↔ ∀ (number : Nat) (part : π), parts[number]? = some part → turns part = [] := by
  constructor
  · intro h number part hpart
    refine List.eq_nil_iff_forall_not_mem.mpr fun turn hturn => ?_
    have hmem : (number, turn) ∈ numberedTurns turns parts := mem_numberedTurns.mpr ⟨part, hpart, hturn⟩
    rw [h] at hmem
    cases hmem
  · intro h
    refine List.eq_nil_iff_forall_not_mem.mpr ?_
    rintro ⟨number, turn⟩ hmem
    obtain ⟨part, hpart, hturn⟩ := mem_numberedTurns.mp hmem
    rw [h number part hpart] at hturn
    cases hturn

/-- Blocks that have not started, and what is left of the others: the first number is the more important one, as a block
may plan any number of phases when it starts. -/
abbrev Left : Type := Nat × Nat

/-- Less is left. -/
def Left.Less (after before : Left) : Prop := after.1 < before.1 ∨ after.1 = before.1 ∧ after.2 < before.2

theorem Left.wf_less : WellFounded Left.Less :=
  Subrelation.wf (fun h => (Prod.lex_def ..).mpr h) (Prod.lex Nat.lt_wfRel Nat.lt_wfRel).wf

/-- What is left of parts together. -/
def Left.total {π : Type} (left : π → Left) (parts : List π) : Left :=
  ((parts.map fun part => (left part).1).sum, (parts.map fun part => (left part).2).sum)

/-- A sum in which one part changes. -/
theorem sum_map_set {π : Type} (f : π → Nat) {parts : List π} {number : Nat} {part : π}
    (h : parts[number]? = some part) (part' : π) :
    ((parts.set number part').map f).sum + f part = (parts.map f).sum + f part' := by
  induction parts generalizing number with
  | nil => simp at h
  | cons first rest ih =>
    cases number with
    | zero =>
      cases h
      simp only [List.set_cons_zero, List.map_cons, List.sum_cons]
      omega
    | succ number =>
      have := ih h
      simp only [List.set_cons_succ, List.map_cons, List.sum_cons]
      omega

/-- Less is left of the whole if less is left of one of its parts. -/
theorem Left.total_set_less {π : Type} {left : π → Left} {parts : List π} {number : Nat} {part part' : π}
    (h : parts[number]? = some part) (hless : (left part').Less (left part)) :
    (total left (parts.set number part')).Less (total left parts) := by
  have hfirst := sum_map_set (fun part => (left part).1) h part'
  have hsecond := sum_map_set (fun part => (left part).2) h part'
  simp only [Less, total] at hless hfirst hsecond ⊢
  omega

/-- What is left of a block: the lanes that are waiting, and the ends and the lanes of the phases from the present one
on. -/
def BlockWork.left (work : BlockWork ρ τ) : Left :=
  match work.progress with
  | none => (1, 0)
  | some progress =>
    (0, progress.waiting.length + (progress.phases.length - progress.phase) * (work.block.lanes + 1))

/-- A turn of a block. -/
theorem BlockWork.act_less {work work' : BlockWork ρ τ} {turn : Turn} {row row' : ρ} (hturn : turn ∈ work.turns)
    (hact : work.act turn row = .ok (row', work')) : work'.left.Less work.left := by
  obtain ⟨block, _ | progress⟩ := work
  · obtain rfl := List.mem_singleton.mp hturn
    obtain ⟨phases, -, heq⟩ := Outcome.bind_eq_ok_iff.mp hact
    cases heq
    exact .inl Nat.zero_lt_one
  · simp only [turns] at hturn
    split at hturn
    · cases hturn
    · rename_i hphase
      split at hturn
      · rename_i hwaiting
        obtain rfl := List.mem_singleton.mp hturn
        cases hact
        refine .inr ⟨rfl, ?_⟩
        obtain ⟨more, hmore⟩ := Nat.exists_eq_add_of_lt (Nat.lt_of_not_le hphase)
        have hbefore : progress.phases.length - progress.phase = more + 1 := by omega
        have hafter : progress.phases.length - (progress.phase + 1) = more := by omega
        simp only [left, Block.enter, List.length_range, hwaiting, List.length_nil, hbefore, hafter, Nat.succ_mul]
        omega
      · obtain ⟨n, hn, rfl⟩ := List.mem_map.mp hturn
        simp only [act] at hact
        split at hact
        · obtain ⟨⟨mid, scratch⟩, -, heq⟩ := Outcome.bind_eq_ok_iff.mp hact
          cases heq
          have hfewer : (progress.waiting.filter (· ≠ n)).length < progress.waiting.length :=
            List.length_filter_lt_length_iff_exists.mpr ⟨n, hn, by simp⟩
          exact .inr ⟨rfl, Nat.add_lt_add_right hfewer _⟩
        · cases hact

/-- What is left of the blocks of a row. -/
def RowWork.left (work : RowWork ρ τ) : Left := .total BlockWork.left work.blocks

/-- A turn of one of the blocks of a row. -/
theorem RowWork.act_less {work work' : RowWork ρ τ} {turn : Nat × Turn} (hturn : turn ∈ work.turns)
    (hact : work.act turn = .ok work') : work'.left.Less work.left := by
  obtain ⟨number, turn⟩ := turn
  obtain ⟨block, hblock, hturn⟩ := mem_numberedTurns.mp hturn
  simp only [act, hblock] at hact
  obtain ⟨⟨row, block'⟩, hblockAct, heq⟩ := Outcome.bind_eq_ok_iff.mp hact
  cases heq
  exact Left.total_set_less hblock (BlockWork.act_less hturn hblockAct)

end Decrease

/-! ### Launches -/

namespace LaunchWork

/-- The turns that may come next, each with the number of its row and of its block. -/
def turns (works : List (RowWork ρ τ)) : List (Nat × Nat × Turn) := numberedTurns RowWork.turns works

/-- A turn of a block of one of the rows. -/
def act (works : List (RowWork ρ τ)) (turn : Nat × Nat × Turn) : Outcome (List (RowWork ρ τ)) :=
  match works[turn.1]? with
  | some work => do return works.set turn.1 (← work.act turn.2)
  | none => .fault .assertion

/-- A turn of a block of one of the rows is a step towards the end. -/
theorem act_less {works works' : List (RowWork ρ τ)} {turn : Nat × Nat × Turn} (hturn : turn ∈ turns works)
    (hact : act works turn = .ok works') : (Left.total RowWork.left works').Less (.total RowWork.left works) := by
  obtain ⟨number, turn⟩ := turn
  obtain ⟨work, hwork, hturn⟩ := mem_numberedTurns.mp hturn
  simp only [act, hwork] at hact
  obtain ⟨work', hworkAct, heq⟩ := Outcome.bind_eq_ok_iff.mp hact
  cases heq
  exact Left.total_set_less hwork (RowWork.act_less hturn hworkAct)

/-- The turns of a scheduler from a time on, until there are none. -/
def run (scheduler : Scheduler) (time : Nat) (works : List (RowWork ρ τ)) : Outcome (List (RowWork ρ τ)) :=
  if _ : turns works = [] then .ok works
  else
    match hact : act works (scheduler.pick time (turns works)) with
    | .ok works' => run scheduler (time + 1) works'
    | .error failure => .error failure
termination_by Left.wf_less.wrap (Left.total RowWork.left works)
decreasing_by exact act_less (scheduler.pick_mem time _ ‹_›) hact

/-- One turn, and those behind it. -/
theorem run_eq_bind (scheduler : Scheduler) (time : Nat) {works : List (RowWork ρ τ)} (h : turns works ≠ []) :
    run scheduler time works =
      act works (scheduler.pick time (turns works)) >>= run scheduler (time + 1) := by
  rw [run, dif_neg h]
  split
  · rename_i hact
    rw [hact, Outcome.ok_bind]
  · rename_i hact
    rw [hact]
    rfl

end LaunchWork

/-! ### Every order of the turns -/

/-- Every order of the turns of a row succeeds and ends with one result. -/
inductive RowWork.Leads : RowWork ρ τ → ρ → Prop where
  /-- There is nothing left to do. -/
  | done {work : RowWork ρ τ} : work.turns = [] → Leads work work.row
  /-- Whatever comes next succeeds, and leads to the result. -/
  | next {work : RowWork ρ τ} {row : ρ} : work.turns ≠ [] →
      (∀ turn ∈ work.turns, ∃ work', work.act turn = .ok work') →
      (∀ turn ∈ work.turns, ∀ work', work.act turn = .ok work' → Leads work' row) → Leads work row

namespace RowWork.Leads

variable {work : RowWork ρ τ} {row : ρ}

/-- A turn of a row that leads to a result. -/
theorem act (h : work.Leads row) {turn : Nat × Turn} (hturn : turn ∈ work.turns) :
    ∃ work', work.act turn = .ok work' ∧ work'.Leads row := by
  cases h with
  | done hnone =>
    rw [hnone] at hturn
    cases hturn
  | next _ hok hleads =>
    obtain ⟨work', hwork'⟩ := hok turn hturn
    exact ⟨work', hwork', hleads turn hturn work' hwork'⟩

/-- The result of a row that has no turns left. -/
theorem row_eq (h : work.Leads row) (hturns : work.turns = []) : work.row = row := by
  cases h with
  | done _ => rfl
  | next hsome _ _ => exact absurd hturns hsome

end RowWork.Leads

namespace LaunchWork

variable {works : List (RowWork ρ τ)} {rows : Nat → ρ}

/-- Rows that lead to their results still do after any turn. -/
theorem exists_act (h : ∀ (number : Nat) (work : RowWork ρ τ), works[number]? = some work → work.Leads (rows number))
    {turn : Nat × Nat × Turn} (hturn : turn ∈ turns works) :
    ∃ works', act works turn = .ok works' ∧ works'.length = works.length ∧
      ∀ (number : Nat) (work : RowWork ρ τ), works'[number]? = some work → work.Leads (rows number) := by
  obtain ⟨number, turn⟩ := turn
  obtain ⟨work, hwork, hturn⟩ := mem_numberedTurns.mp hturn
  obtain ⟨work', hact, hleads⟩ := (h number work hwork).act hturn
  refine ⟨works.set number work', ?_, List.length_set, fun n other hother => ?_⟩
  · simp only [act, hwork, hact]
    rfl
  · rw [List.getElem?_set] at hother
    split at hother
    · rename_i hn
      subst hn
      split at hother
      · cases hother
        exact hleads
      · cases hother
    · exact h n other hother

/-- Rows that lead to their results, in the order of any scheduler. -/
theorem exists_run (scheduler : Scheduler) (time : Nat)
    (h : ∀ (number : Nat) (work : RowWork ρ τ), works[number]? = some work → work.Leads (rows number)) :
    ∃ works', run scheduler time works = .ok works' ∧ works'.map (·.row) = (List.range works.length).map rows := by
  induction time, works using run.induct scheduler with
  | case1 time works hturns =>
    refine ⟨works, by rw [run, dif_pos hturns], List.ext_getElem (by simp) fun number hnumber _ => ?_⟩
    have hlt : number < works.length := by simpa using hnumber
    have hwork : works[number]? = some works[number] := List.getElem?_eq_getElem hlt
    rw [List.getElem_map, List.getElem_map, List.getElem_range]
    exact (h number _ hwork).row_eq (numberedTurns_eq_nil.mp hturns number _ hwork)
  | case2 time works hturns works' hact ih =>
    obtain ⟨next, hnext, hlen, hleads⟩ := exists_act h (scheduler.pick_mem time _ hturns)
    cases hact.symm.trans hnext
    obtain ⟨last, hrun, hrows⟩ := ih hleads
    exact ⟨last, by rw [run_eq_bind scheduler time hturns, hact, Outcome.ok_bind, hrun], by rw [hrows, hlen]⟩
  | case3 time works hturns failure hact =>
    obtain ⟨next, hnext, -⟩ := exists_act h (scheduler.pick_mem time _ hturns)
    cases hact.symm.trans hnext

end LaunchWork

/-! ### Blocks that keep up what is known of them -/

section Keeps

variable {γ : Type}

/-- What is known of the blocks of a row while they are at work, and of a description of the row. Every block keeps it up
for itself, and no lane spoils what is known of the other blocks. -/
structure Keeps (blocks : List (Block ρ τ)) (row : γ → ρ) (Whole : γ → Prop)
    (Known : Nat → Option (Progress ρ τ) → γ → Prop) : Prop where
  /-- A block plans its phases. -/
  start : ∀ {g : γ} {number : Nat} {block : Block ρ τ}, Whole g → blocks[number]? = some block → Known number none g →
    ∃ phases, block.phases (row g) = .ok phases ∧ Known number (some (block.enter phases 0 block.scratch)) g
  /-- A lane acts, and spoils nothing. -/
  lane : ∀ {g : γ} {number : Nat} {block : Block ρ τ} {progress : Progress ρ τ} {action : LaneAction ρ τ} {n : Nat},
    Whole g → blocks[number]? = some block → Known number (some progress) g →
    progress.phases[progress.phase]? = some action → n ∈ progress.waiting → n < block.lanes →
    ∃ g' scratch, action n (row g, progress.scratch) = .ok (row g', scratch) ∧ Whole g' ∧
      Known number (some (progress.acted n scratch)) g' ∧
      ∀ other ≠ number, ∀ state, Known other state g → Known other state g'
  /-- A phase ends. -/
  close : ∀ {g : γ} {number : Nat} {block : Block ρ τ} {progress : Progress ρ τ}, Whole g → blocks[number]? = some block →
    Known number (some progress) g → progress.phase < progress.phases.length → progress.waiting = [] →
    Known number (some (block.enter progress.phases (progress.phase + 1) progress.scratch)) g

namespace Keeps

variable {blocks : List (Block ρ τ)} {row : γ → ρ} {Whole : γ → Prop}
  {Known : Nat → Option (Progress ρ τ) → γ → Prop}

/-- Those that wait are lanes of the block. -/
def LanesWait (work : BlockWork ρ τ) : Prop :=
  ∀ progress, work.progress = some progress → ∀ n ∈ progress.waiting, n < work.block.lanes

/-- The lanes of a block that has entered a phase. -/
theorem lanesWait_enter (block : Block ρ τ) (phases : List (LaneAction ρ τ)) (phase : Nat) (scratch : τ) :
    LanesWait ⟨block, some (block.enter phases phase scratch)⟩ := by
  rintro progress ⟨⟩ n hn
  exact List.mem_range.mp hn

/-- A turn of one block. -/
theorem exists_block_act (h : Keeps blocks row Whole Known) {g : γ} {number : Nat} {work : BlockWork ρ τ} (hwhole : Whole g)
    (hnumber : blocks[number]? = some work.block) (hknown : Known number work.progress g) (hwait : LanesWait work)
    {turn : Turn} (hturn : turn ∈ work.turns) :
    ∃ g' work', work.act turn (row g) = .ok (row g', work') ∧ work'.block = work.block ∧ Whole g' ∧
      Known number work'.progress g' ∧ LanesWait work' ∧
      ∀ other ≠ number, ∀ state, Known other state g → Known other state g' := by
  obtain ⟨block, _ | progress⟩ := work
  · obtain rfl := List.mem_singleton.mp hturn
    obtain ⟨phases, hphases : block.phases (row g) = .ok phases, hnew⟩ := h.start hwhole hnumber hknown
    refine ⟨g, ⟨block, some (block.enter phases 0 block.scratch)⟩, ?_, rfl, hwhole, hnew, lanesWait_enter _ _ _ _,
      fun _ _ _ hother => hother⟩
    simp only [BlockWork.act, hphases]
    rfl
  · simp only [BlockWork.turns] at hturn
    split at hturn
    · cases hturn
    · rename_i hphase
      split at hturn
      · rename_i hwaiting
        obtain rfl := List.mem_singleton.mp hturn
        have hnew := h.close hwhole hnumber hknown (Nat.lt_of_not_le hphase) hwaiting
        exact ⟨g, ⟨block, some _⟩, rfl, rfl, hwhole, hnew, lanesWait_enter _ _ _ _, fun _ _ _ hother => hother⟩
      · obtain ⟨n, hn, rfl⟩ := List.mem_map.mp hturn
        have haction := List.getElem?_eq_getElem (Nat.lt_of_not_le hphase)
        obtain ⟨g', scratch, hact, hwhole', hnew, hothers⟩ :=
          h.lane hwhole hnumber hknown haction hn (hwait progress rfl n hn)
        refine ⟨g', ⟨block, some (progress.acted n scratch)⟩, ?_, rfl, hwhole', hnew, ?_, hothers⟩
        · simp only [BlockWork.act, haction, hact]
          rfl
        · rintro _ ⟨⟩ m hm
          exact hwait progress rfl m (List.mem_filter.mp hm).1

/-- A row at work of which all is known that its blocks keep up. -/
def Upheld (blocks : List (Block ρ τ)) (row : γ → ρ) (Whole : γ → Prop)
    (Known : Nat → Option (Progress ρ τ) → γ → Prop) (work : RowWork ρ τ) : Prop :=
  work.blocks.map (·.block) = blocks ∧ ∃ g, work.row = row g ∧ Whole g ∧
    ∀ (number : Nat) (block : BlockWork ρ τ), work.blocks[number]? = some block →
      Known number block.progress g ∧ LanesWait block

/-- A turn of a row at work. -/
theorem exists_act (h : Keeps blocks row Whole Known) {work : RowWork ρ τ} (hwork : Upheld blocks row Whole Known work)
    {turn : Nat × Turn} (hturn : turn ∈ work.turns) :
    ∃ work', work.act turn = .ok work' ∧ Upheld blocks row Whole Known work' := by
  obtain ⟨number, turn⟩ := turn
  obtain ⟨block, hblock, hturn⟩ := mem_numberedTurns.mp hturn
  obtain ⟨hblocks, g, hrow, hwhole, hknown⟩ := hwork
  have hnumber : blocks[number]? = some block.block := by
    rw [← hblocks, List.getElem?_map, hblock]
    rfl
  obtain ⟨hthis, hwait⟩ := hknown number block hblock
  obtain ⟨g', block', hact, hsame, hwhole', hnew, hwait', hothers⟩ := h.exists_block_act hwhole hnumber hthis hwait hturn
  refine ⟨⟨row g', work.blocks.set number block'⟩, ?_, ?_, g', rfl, hwhole', fun other part hpart => ?_⟩
  · simp only [RowWork.act, hblock, hrow, hact]
    rfl
  · rw [List.map_set, hsame, hblocks]
    obtain ⟨hlt, hget⟩ := List.getElem?_eq_some_iff.mp hnumber
    rw [← hget, List.set_getElem_self]
  · rw [List.getElem?_set] at hpart
    split at hpart
    · rename_i hn
      subst hn
      split at hpart
      · cases hpart
        exact ⟨hnew, hwait'⟩
      · cases hpart
    · rename_i hn
      obtain ⟨hother, hotherWait⟩ := hknown other part hpart
      exact ⟨hothers other (Ne.symm hn) _ hother, hotherWait⟩

/-- A row at work whose blocks have all ended. -/
theorem Upheld.ended {work : RowWork ρ τ} (hwork : Upheld blocks row Whole Known work) (hturns : work.turns = []) :
    ∃ g, work.row = row g ∧ Whole g ∧ ∀ (number : Nat) (block : Block ρ τ), blocks[number]? = some block →
      ∃ progress : Progress ρ τ, progress.phases.length ≤ progress.phase ∧ Known number (some progress) g := by
  obtain ⟨hblocks, g, hrow, hwhole, hknown⟩ := hwork
  refine ⟨g, hrow, hwhole, fun number block hblock => ?_⟩
  rw [← hblocks, List.getElem?_map] at hblock
  obtain ⟨⟨block, progress?⟩, hpart, rfl⟩ := Option.map_eq_some_iff.mp hblock
  have hnone := numberedTurns_eq_nil.mp hturns number _ hpart
  obtain ⟨hthis, -⟩ := hknown number _ hpart
  rcases progress? with _ | progress
  · cases hnone
  · refine ⟨progress, Nat.le_of_not_lt fun hphase => ?_, hthis⟩
    simp only [BlockWork.turns, Nat.not_le.mpr hphase, if_false] at hnone
    split at hnone
    · cases hnone
    · rename_i hwaiting
      exact hwaiting (List.map_eq_nil_iff.mp hnone)

/-- A row at work leads to what is known of it when all of its blocks have ended. -/
theorem leads_of_upheld (h : Keeps blocks row Whole Known) {last : ρ}
    (hlast : ∀ g, Whole g → (∀ (number : Nat) (block : Block ρ τ), blocks[number]? = some block →
      ∃ progress : Progress ρ τ, progress.phases.length ≤ progress.phase ∧ Known number (some progress) g) → row g = last)
    (work : RowWork ρ τ) (hwork : Upheld blocks row Whole Known work) : work.Leads last := by
  -- The induction is on what is left to do.
  induction work using (InvImage.wf RowWork.left Left.wf_less).induction with
  | h work ih =>
    by_cases hturns : work.turns = []
    · obtain ⟨g, hrow, hwhole, hended⟩ := hwork.ended hturns
      rw [← hlast g hwhole hended, ← hrow]
      exact .done hturns
    · refine .next hturns (fun turn hturn => ?_) fun turn hturn work' hact => ?_
      · obtain ⟨work', hact, -⟩ := h.exists_act hwork hturn
        exact ⟨work', hact⟩
      · obtain ⟨next, hnext, hupheld⟩ := h.exists_act hwork hturn
        cases hact.symm.trans hnext
        exact ih work' (RowWork.act_less hturn hact) hupheld

/-- Blocks that keep up what is known of them lead to what is known in the end. -/
theorem leads (h : Keeps blocks row Whole Known) {g : γ} {last : ρ} (hwhole : Whole g)
    (hknown : ∀ (number : Nat) (block : Block ρ τ), blocks[number]? = some block → Known number none g)
    (hlast : ∀ g, Whole g → (∀ (number : Nat) (block : Block ρ τ), blocks[number]? = some block →
      ∃ progress : Progress ρ τ, progress.phases.length ≤ progress.phase ∧ Known number (some progress) g) →
        row g = last) : (RowWork.ofBlocks blocks (row g)).Leads last := by
  refine h.leads_of_upheld hlast _ ⟨?_, g, rfl, hwhole, fun number part hpart => ?_⟩
  · simp [RowWork.ofBlocks, Function.comp_def]
  · rw [RowWork.ofBlocks, List.getElem?_map] at hpart
    obtain ⟨block, hblock, rfl⟩ := Option.map_eq_some_iff.mp hpart
    exact ⟨hknown number block hblock, by rintro _ ⟨⟩⟩

end Keeps

end Keeps

end MergePathSort
