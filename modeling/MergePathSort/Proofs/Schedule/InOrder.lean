import MergePathSort.Proofs.Schedule.Execution

/-!
# The host's own order

The host runs the rows of a launch one after the other, the blocks of a row in order, their phases in order, and the lanes
of a phase in order. A scheduler that always takes the first of the turns does the same, whatever the blocks are and
whether or not they fail: a first turn belongs to the first block that has not ended, and to the first of its lanes that
are waiting. So the host's order is one of the orders in which a launch can be run.

## Main definitions

* `Scheduler.firstFirst` : the scheduler that takes the first of the turns.
* `LaunchWork.inOrder` : rows at work in the order of that scheduler.

## Main results

* `BlockWork.run_inOrder` : a block in order.
* `LaunchWork.inOrder_rows` : rows in order.
* `Launch.executeBy_firstFirst` : a launch in order, as the host executes it.
-/

namespace MergePathSort

/-- The scheduler that takes the first of the turns. -/
def Scheduler.firstFirst : Scheduler where
  pick _ turns := turns.headD default
  pick_mem _ turns h := by
    cases turns with
    | nil => exact absurd rfl h
    | cons turn more => exact List.mem_cons_self

variable {ρ τ : Type}

/-! ### One block -/

namespace BlockWork

/-- What comes of a row and a block at work on it, if the block takes the first of its turns as long as it has any. -/
def TakesFirst {γ : Type} (go : ρ → BlockWork ρ τ → Outcome γ) : Prop :=
  ∀ (row : ρ) (work : BlockWork ρ τ) (turn : Turn) (more : List Turn), work.turns = turn :: more →
    go row work = work.act turn row >>= fun next => go next.1 next.2

variable {γ : Type} {go : ρ → BlockWork ρ τ → Outcome γ} {block : Block ρ τ} {phases : List (LaneAction ρ τ)}

/-- The lanes that are waiting act in order. -/
theorem lanes_inOrder (hgo : TakesFirst go) {phase : Nat} {action : LaneAction ρ τ} (haction : phases[phase]? = some action)
    {waiting : List Nat} (hnodup : waiting.Nodup) (row : ρ) (scratch : τ) :
    go row ⟨block, some ⟨phases, phase, waiting, scratch⟩⟩ =
      waiting.foldlM (fun state n => action n state) (row, scratch) >>= fun state =>
        go state.1 ⟨block, some ⟨phases, phase, [], state.2⟩⟩ := by
  obtain ⟨hphase, -⟩ := List.getElem?_eq_some_iff.mp haction
  induction waiting generalizing row scratch with
  | nil => rfl
  | cons n waiting ih =>
    obtain ⟨hn, hnodup⟩ := List.nodup_cons.mp hnodup
    have hturns : (⟨block, some ⟨phases, phase, n :: waiting, scratch⟩⟩ : BlockWork ρ τ).turns =
        .lane n :: waiting.map .lane := by
      simp only [turns, if_neg (Nat.not_le.mpr hphase), if_neg (List.cons_ne_nil n waiting), List.map_cons]
    have hfilter : (n :: waiting).filter (· ≠ n) = waiting := by
      rw [List.filter_cons_of_neg (by simp)]
      exact List.filter_eq_self.mpr fun m hm => by simpa using fun heq : m = n => hn (heq ▸ hm)
    rw [hgo _ _ _ _ hturns, List.foldlM_cons]
    simp only [act, haction, bind_assoc, Progress.acted, hfilter]
    exact bind_congr fun state => ih hnodup state.1 state.2

/-- A phase and those behind it in order. -/
theorem phases_inOrder (hgo : TakesFirst go) (before remaining : List (LaneAction ρ τ)) (row : ρ) (scratch : τ) :
    go row ⟨block, some (block.enter (before ++ remaining) before.length scratch)⟩ =
      Block.runPhases block.lanes remaining (row, scratch) >>= fun state =>
        go state.1 ⟨block, some (block.enter (before ++ remaining) (before ++ remaining).length state.2)⟩ := by
  induction remaining generalizing before row scratch with
  | nil =>
    rw [List.append_nil]
    rfl
  | cons action remaining ih =>
    have haction : (before ++ action :: remaining)[before.length]? = some action := by simp
    have hclose : ∀ state : ρ × τ,
        go state.1 ⟨block, some ⟨before ++ action :: remaining, before.length, [], state.2⟩⟩ =
          go state.1 ⟨block, some (block.enter (before ++ action :: remaining) (before.length + 1) state.2)⟩ := by
      intro state
      refine hgo _ _ .close [] ?_
      simp [turns]
    rw [Block.enter, lanes_inOrder hgo haction List.nodup_range, Block.runPhases, List.foldlM_cons, forLanes_eq_foldlM,
      bind_assoc]
    refine bind_congr fun state => ?_
    have hrest := ih (before ++ [action]) state.1 state.2
    rw [List.append_assoc, List.singleton_append, List.length_append, List.length_singleton] at hrest
    exact (hclose state).trans hrest

/-- A block in order. -/
theorem run_inOrder (hgo : TakesFirst go) {result : ρ → Outcome γ}
    (hend : ∀ row progress, progress.phases.length ≤ progress.phase → go row ⟨block, some progress⟩ = result row)
    (row : ρ) : go row ⟨block, none⟩ = block.run row >>= fun done => result done.1 := by
  rw [hgo _ _ .start [] rfl, Block.run]
  simp only [act, bind_assoc]
  refine bind_congr fun phases => ?_
  refine (phases_inOrder hgo [] phases row block.scratch).trans (bind_congr fun state => ?_)
  exact hend state.1 _ (Nat.le_refl _)

end BlockWork

/-! ### Rows -/

/-- The turns of parts of which the first ones have none. -/
theorem exists_numberedTurns_eq_cons {π θ : Type} {turns : π → List θ} {done : List π}
    (hdone : ∀ p ∈ done, turns p = []) {part : π} {turn : θ} {more : List θ} (hpart : turns part = turn :: more)
    (rest : List π) :
    ∃ others, numberedTurns turns (done ++ part :: rest) = (done.length, turn) :: others := by
  have hnone : numberedTurns turns done = [] :=
    numberedTurns_eq_nil.mpr fun _ p hp => hdone p (List.mem_of_getElem? hp)
  rw [numberedTurns] at hnone ⊢
  rw [List.zipIdx_append, List.flatMap_append, hnone, List.zipIdx_cons, List.flatMap_cons, Nat.zero_add]
  simp only [hpart]
  exact ⟨_, rfl⟩

/-- What blocks leave on a row, one after the other. -/
theorem Block.map_fst_runAll (blocks : List (Block ρ τ)) (row : ρ) :
    Prod.fst <$> runAll blocks row = blocks.foldlM (fun row block => Prod.fst <$> block.run row) row := by
  have hstep : ∀ used, Prod.fst <$> blocks.foldlM step (row, used) =
      blocks.foldlM (fun row block => Prod.fst <$> block.run row) row := by
    induction blocks generalizing row with
    | nil => exact fun _ => rfl
    | cons block blocks ih =>
      intro used
      rw [List.foldlM_cons, List.foldlM_cons, map_bind, step, bind_assoc, bind_map_left]
      exact bind_congr fun done => ih done.1 _
  rw [runAll_eq_foldlM_step, hstep]

namespace LaunchWork

/-- Rows at work, where always the first of the turns is taken. -/
def inOrder (works : List (RowWork ρ τ)) : Outcome (List (RowWork ρ τ)) := run .firstFirst 0 works

/-- It does not matter at what time this begins. -/
theorem run_firstFirst_congr (time time' : Nat) (works : List (RowWork ρ τ)) :
    run .firstFirst time works = run .firstFirst time' works := by
  induction time, works using run.induct .firstFirst generalizing time' with
  | case1 time works hturns => rw [run, run, dif_pos hturns, dif_pos hturns]
  | case2 time works hturns works' hact ih =>
    have hact' : act works (Scheduler.firstFirst.pick time' (turns works)) = .ok works' := hact
    rw [run_eq_bind _ time hturns, run_eq_bind _ time' hturns, hact, hact']
    exact ih (time' + 1)
  | case3 time works hturns failure hact =>
    have hact' : act works (Scheduler.firstFirst.pick time' (turns works)) = .error failure := hact
    rw [run_eq_bind _ time hturns, run_eq_bind _ time' hturns, hact, hact']
    rfl

/-- The first of the turns, and those behind it. -/
theorem inOrder_of_cons {works : List (RowWork ρ τ)} {turn : Nat × Nat × Turn} {more : List (Nat × Nat × Turn)}
    (h : turns works = turn :: more) : inOrder works = act works turn >>= inOrder := by
  have hpick : Scheduler.firstFirst.pick 0 (turns works) = turn := by
    rw [h]
    rfl
  rw [inOrder, run_eq_bind _ 0 (by rw [h]; exact List.cons_ne_nil _ _), hpick]
  exact bind_congr fun works' => run_firstFirst_congr 1 0 works'

/-- No turns. -/
theorem inOrder_of_nil {works : List (RowWork ρ τ)} (h : turns works = []) : inOrder works = .ok works := by
  rw [inOrder, run, dif_pos h]

section Rows

variable {rows : List (RowWork ρ τ)} {ended : List (BlockWork ρ τ)} (hrows : ∀ work ∈ rows, work.turns = [])
include hrows

/-- The first block that has not ended takes the first turn. -/
theorem takesFirst_inOrder (hended : ∀ block ∈ ended, block.turns = []) (laterBlocks : List (BlockWork ρ τ))
    (laterRows : List (RowWork ρ τ)) :
    BlockWork.TakesFirst fun row block =>
      List.map (·.row) <$> inOrder (rows ++ ⟨row, ended ++ block :: laterBlocks⟩ :: laterRows) := by
  intro row work turn more hturn
  obtain ⟨more, hblock⟩ := exists_numberedTurns_eq_cons hended hturn laterBlocks
  have hrow : (⟨row, ended ++ work :: laterBlocks⟩ : RowWork ρ τ).turns = _ := hblock
  obtain ⟨more, hrow⟩ := exists_numberedTurns_eq_cons hrows hrow laterRows
  refine (congrArg (List.map (·.row) <$> ·) (inOrder_of_cons hrow)).trans ?_
  simp [act, RowWork.act, bind_assoc]

/-- The blocks of a row in order, behind rows that have ended. -/
theorem blocks_inOrder (laterRows : List (RowWork ρ τ)) {result : ρ → Outcome (List ρ)}
    (hend : ∀ row (ended : List (BlockWork ρ τ)), (∀ block ∈ ended, block.turns = []) →
      List.map (·.row) <$> inOrder (rows ++ ⟨row, ended⟩ :: laterRows) = result row)
    (blocks : List (Block ρ τ)) (hended : ∀ block ∈ ended, block.turns = []) (row : ρ) :
    List.map (·.row) <$> inOrder (rows ++ ⟨row, ended ++ blocks.map (⟨·, none⟩)⟩ :: laterRows) =
      blocks.foldlM (fun row block => Prod.fst <$> block.run row) row >>= result := by
  induction blocks generalizing ended row with
  | nil =>
    rw [List.map_nil, List.append_nil]
    exact hend row ended hended
  | cons block blocks ih =>
    rw [List.map_cons, List.foldlM_cons, bind_assoc]
    refine (BlockWork.run_inOrder (takesFirst_inOrder hrows hended _ laterRows) (fun row progress hphase => ?_) row).trans
      (bind_map_left ..).symm
    have hended' : ∀ work ∈ ended ++ [⟨block, some progress⟩], work.turns = [] := by
      intro work hwork
      rcases List.mem_append.mp hwork with hwork | hwork
      · exact hended work hwork
      · rw [List.mem_singleton.mp hwork]
        exact if_pos hphase
    have hrest := ih hended' row
    rwa [List.append_assoc, List.singleton_append] at hrest

end Rows

/-- Rows in order, behind rows that have ended. -/
theorem rows_inOrder (parts : List (List (Block ρ τ) × ρ)) {ended : List (RowWork ρ τ)}
    (hended : ∀ work ∈ ended, work.turns = []) :
    List.map (·.row) <$> inOrder (ended ++ parts.map fun part => .ofBlocks part.1 part.2) =
      (ended.map (·.row) ++ ·) <$> parts.mapM fun part => Prod.fst <$> Block.runAll part.1 part.2 := by
  induction parts generalizing ended with
  | nil =>
    have hnone : turns ended = [] := numberedTurns_eq_nil.mpr fun _ work hwork => hended work (List.mem_of_getElem? hwork)
    rw [List.map_nil, List.append_nil, inOrder_of_nil hnone, List.mapM_nil, Outcome.pure_eq_ok]
    exact congrArg Except.ok (List.append_nil _).symm
  | cons part parts ih =>
    have hend : ∀ row (blocks : List (BlockWork ρ τ)), (∀ block ∈ blocks, block.turns = []) →
        List.map (·.row) <$> inOrder (ended ++ ⟨row, blocks⟩ :: parts.map fun part => .ofBlocks part.1 part.2) =
          (ended.map (·.row) ++ row :: ·) <$> parts.mapM fun part => Prod.fst <$> Block.runAll part.1 part.2 := by
      intro row blocks hblocks
      have hended' : ∀ work ∈ ended ++ [⟨row, blocks⟩], work.turns = [] := by
        intro work hwork
        rcases List.mem_append.mp hwork with hwork | hwork
        · exact hended work hwork
        · rw [List.mem_singleton.mp hwork]
          exact numberedTurns_eq_nil.mpr fun _ block hblock => hblocks block (List.mem_of_getElem? hblock)
      simpa using ih hended'
    have hblocks : List.map (·.row) <$> inOrder (ended ++ ⟨part.2, [] ++ part.1.map (⟨·, none⟩)⟩ :: _) = _ :=
      blocks_inOrder hended _ hend part.1 (fun _ hnone => absurd hnone List.not_mem_nil) part.2
    rw [List.mapM_cons, Block.map_fst_runAll, map_bind]
    refine hblocks.trans (bind_congr fun row => ?_)
    rw [map_bind]
    simp only [map_pure, bind_pure_comp]

end LaunchWork

/-! ### Launches -/

/-- A launch in which the first turn is always taken leaves what it leaves when the host executes it, or fails as it
does. -/
theorem Launch.executeBy_firstFirst {κ ι : Type} [Element κ] [IndexElement ι] (launch : Launch) (program : Program)
    (input : Array κ) (rows : List (RowCells κ ι)) :
    launch.executeBy .firstFirst program input rows = Prod.fst <$> launch.execute program input rows := by
  have hrows := LaunchWork.rows_inOrder (rows.zipIdx.map fun row => (launch.blocksOnRow program input row.2, row.1))
    (fun _ hnone => absurd hnone List.not_mem_nil)
  rw [List.nil_append, List.map_map, List.mapM_map] at hrows
  rw [executeBy, execute, map_bind]
  simp only [map_pure, bind_pure_comp]
  exact hrows.trans ((id_map _).trans (Outcome.map_mapM ..).symm)

end MergePathSort
