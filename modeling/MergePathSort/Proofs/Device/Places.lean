import MergePathSort.Device.Engine
import MergePathSort.Proofs.Outcome

/-!
# Places in the flat buffers

The threads of a launch compute in words where they read and write the flat buffers. Here these computations are written
once for all numbers. Computed with words, which wrap around, they are what the kernels do. Computed with integers, which
never wrap, they are what the kernels mean.

A thread of a merge pass compares keys to find its places, so its places depend on an oracle that compares what two
places hold.

## Main definitions

* `PlaceNumber` : words and integers, as the numbers that places are computed with.
* `Places.copyIn`, `Places.sortTiles`, `Places.mergeRuns`, `Places.copyBack` : the places of a thread.
* `Launch.places` : the places of a thread of any launch.

## Main results

* `copyInGroup_eq`, `onOwnWords_eq_foldlM`, `MergeExtents.cursor?_eq`, `copyBackGroup_eq` : computed with words, they are the
  places of the kernels.
-/

namespace MergePathSort

/-- Numbers that places are computed with. -/
class PlaceNumber (ω : Type) extends Add ω, Sub ω, Mul ω, Div ω, Mod ω, LT ω, LE ω where
  /-- Numbers are compared. -/
  decidableLT : DecidableLT ω
  /-- Numbers are compared. -/
  decidableLE : DecidableLE ω
  /-- The number of a word. -/
  ofWord : UInt32 → ω
  /-- The place of a number in a buffer. -/
  toPlace : ω → Nat

instance PlaceNumber.instDecidableLT {ω : Type} [PlaceNumber ω] : DecidableLT ω := PlaceNumber.decidableLT

instance PlaceNumber.instDecidableLE {ω : Type} [PlaceNumber ω] : DecidableLE ω := PlaceNumber.decidableLE

/-- Words wrap around. -/
instance : PlaceNumber UInt32 where
  decidableLT := inferInstance
  decidableLE := inferInstance
  ofWord := id
  toPlace := UInt32.toNat

/-- Integers do not. -/
instance : PlaceNumber Int where
  decidableLT := inferInstance
  decidableLE := inferInstance
  ofWord word := word.toNat
  toPlace := Int.toNat

namespace Places

open PlaceNumber (ofWord toPlace)

variable {ω : Type} [PlaceNumber ω]

/-- Compares what two places of a buffer hold. -/
def Oracle : Type := Nat → Nat → Outcome Bool

/-- The oracle of a buffer: the key at the first place may stand before the key at the second, as a kernel decides it by
its flag. -/
def Oracle.ofKeys {κ : Type} [KeyOrder κ] (flag : UInt32) (keys : Array κ) : Oracle := fun p q => do
  let a ← Buffer.read keys p
  let b ← Buffer.read keys q
  return inOrder flag a b

/-! ### Copies and tiles -/

/-- The row of a group at place `y` of layer `z`. -/
def rowOf (ys y z : ω) : ω := z * ys + y

/-- The place that a thread of the first kernel copies. -/
def copyIn (extents : DeviceExtents) (threads : UInt32) (x row thread : ω) : List ω :=
  let axisLen := ofWord extents.axisLen
  let after := ofWord extents.after
  let pos := x * ofWord threads + thread
  if pos < axisLen ∧ row < ofWord extents.rows then [(row / after * axisLen + pos) * after + row % after] else []

/-- The place that a thread of the last kernel copies. -/
def copyBack (extents : DeviceExtents) (threads : UInt32) (x row thread : ω) : List ω :=
  let axisLen := ofWord extents.axisLen
  let pos := x * ofWord threads + thread
  if pos < axisLen ∧ row < ofWord extents.rows then [row * axisLen + pos] else []

/-- The places of its tile that a thread owns, numbered from the start of the tile. -/
def ownOffsets (count thread : ω) : List ω :=
  [thread * ofWord 2, thread * ofWord 2 + ofWord 1].filter (· < count)

/-- The number of elements of the tile that starts at `start`. -/
def tileCount (axisLen start tile : ω) : ω := if axisLen - start < tile then axisLen - start else tile

/-- The places that a thread of the kernel that sorts tiles loads and stores. -/
def sortTiles (extents : DeviceExtents) (tile : UInt32) (x row thread : ω) : List ω :=
  if row < ofWord extents.rows then
    let axisLen := ofWord extents.axisLen
    let start := x * ofWord tile
    let base := row * axisLen + start
    (ownOffsets (tileCount axisLen start (ofWord tile)) thread).map (base + ·)
  else []

/-! ### Merges -/

/-- The lesser of two numbers. -/
def lesser (a b : ω) : ω := if a < b then a else b

/-- Two runs in the flat buffer. -/
structure Runs (ω : Type) where
  /-- Where the left run starts. -/
  leftStart : ω
  /-- The length of the left run. -/
  leftLen : ω
  /-- Where the right run starts. -/
  rightStart : ω
  /-- The length of the right run. -/
  rightLen : ω

/-- What a thread has still to merge. -/
structure Merging (ω : Type) where
  /-- Where the left run stops. -/
  leftStop : ω
  /-- Where the right run stops. -/
  rightStop : ω
  /-- The next element of the left run. -/
  i : ω
  /-- The next element of the right run. -/
  j : ω
  /-- Where the next output is stored. -/
  out : ω
  /-- The outputs that are left. -/
  remaining : ω

/-- Cuts a range in two until it is empty: where it ends, and the numbers at which it was cut. -/
def search (goesRight : ω → Outcome Bool) : Nat → ω → ω → Outcome (ω × List ω)
  | 0, _, _ => .fault .divergence
  | budget + 1, lo, hi =>
    if hi ≤ lo then .ok (lo, [])
    else do
      let middle := (lo + hi) / ofWord 2
      let (found, asked) ← if ← goesRight middle then search goesRight budget (middle + ofWord 1) hi
        else search goesRight budget lo middle
      return (found, middle :: asked)

/-- The number of elements of the left run among the first `diag` outputs, and the places that were read to find it. -/
def Runs.partition (oracle : Oracle) (run : Runs ω) (diag : ω) : Outcome (ω × List ω) := do
  let first := if run.rightLen < diag then diag - run.rightLen else ofWord 0
  let left (mid : ω) := run.leftStart + mid
  let right (mid : ω) := run.rightStart + diag - ofWord 1 - mid
  let (found, asked) ← search (fun mid => oracle (toPlace (left mid)) (toPlace (right mid))) Size.limit first
    (lesser diag run.leftLen)
  return (found, asked.flatMap fun mid => [left mid, right mid])

/-- Where a thread starts that merges at most `step` outputs from a diagonal on, and the places that it has read. -/
def Runs.start (oracle : Oracle) (run : Runs ω) (outStart diag step : ω) : Outcome (Merging ω × List ω) := do
  let (first, probes) ← run.partition oracle diag
  return ({ leftStop := run.leftStart + run.leftLen
            rightStop := run.rightStart + run.rightLen
            i := run.leftStart + first
            j := run.rightStart + diag - first
            out := outStart + diag
            remaining := lesser (run.leftLen + run.rightLen - diag) step }, probes)

/-- The part of a group that starts on a diagonal of its segment, when `first` elements of the left run come before it. -/
def partOf {ω : Type} [PlaceNumber ω] (base start middle stop diag first step : ω) : Runs ω :=
  ⟨base + (start + first), lesser (middle - (start + first)) step, base + (middle + diag - first),
    lesser (stop - (middle + diag - first)) step⟩

/-- Where a thread starts that has a part of a segment, and the places that it has read. -/
def segmentStart? (oracle : Oracle) (settings : MergeSettings) (base start middle stop x thread : ω) :
    Outcome (Option (Merging ω) × List ω) :=
  let whole : Runs ω := ⟨base + start, middle - start, base + middle, stop - middle⟩
  let step := ofWord settings.step
  if settings.severalGroups then
    let diag := x * step
    if diag < stop - start then do
      let (first, probes) ← whole.partition oracle diag
      let part := partOf base start middle stop diag first step
      let threadDiag := thread * ofWord settings.threadWork
      if threadDiag < part.leftLen + part.rightLen then
        let (merging, more) ← part.start oracle (base + start + diag) threadDiag (ofWord settings.threadWork)
        return (some merging, probes ++ more)
      else return (none, probes)
    else .ok (none, [])
  else
    let diag := thread * step
    if diag < stop - start then do
      let (merging, probes) ← whole.start oracle (base + start) diag step
      return (some merging, probes)
    else .ok (none, [])

/-- Where a thread of a pass starts, and the places that it has read. -/
def start? (oracle : Oracle) (extents : MergeExtents) (settings : MergeSettings) (x row thread : ω) :
    Outcome (Option (Merging ω) × List ω) :=
  let rows := ofWord extents.rows
  if row < rows * ofWord extents.segments then
    let axisLen := ofWord extents.axisLen
    let width := ofWord extents.width
    let start := width * (row / rows)
    segmentStart? oracle settings (row % rows * axisLen) start (lesser (start + width / ofWord 2) axisLen)
      (lesser (start + width) axisLen) x thread
  else .ok (none, [])

namespace Merging

/-- The next output comes from the left run. -/
def takesLeft (oracle : Oracle) (merging : Merging ω) : Outcome Bool :=
  if merging.i < merging.leftStop then
    if merging.j < merging.rightStop then oracle (toPlace merging.i) (toPlace merging.j) else .ok true
  else .ok false

/-- The element that is taken next. -/
def source (merging : Merging ω) (left : Bool) : ω := if left then merging.i else merging.j

/-- What is left after the next output. -/
def advance (merging : Merging ω) (left : Bool) : Merging ω :=
  let merging := { merging with out := merging.out + ofWord 1, remaining := merging.remaining - ofWord 1 }
  if left then { merging with i := merging.i + ofWord 1 } else { merging with j := merging.j + ofWord 1 }

/-- The places that are compared before the next output. -/
def compared (merging : Merging ω) : List ω :=
  if merging.i < merging.leftStop ∧ merging.j < merging.rightStop then [merging.i, merging.j] else []

/-- The places of a number of outputs: what is compared, what is taken, and where it is stored. -/
def places (oracle : Oracle) : Nat → Merging ω → Outcome (List ω)
  | 0, _ => .ok []
  | turns + 1, merging => do
    let left ← merging.takesLeft oracle
    return merging.compared ++ [merging.source left, merging.out] ++ (← places oracle turns (merging.advance left))

end Merging

/-- The places that a thread of a merge pass reads and writes. -/
def mergeRuns (oracle : Oracle) (extents : MergeExtents) (settings : MergeSettings) (x row thread : ω) :
    Outcome (List ω) := do
  let (merging?, probes) ← start? oracle extents settings x row thread
  match merging? with
  | some merging => return probes ++ (← merging.places oracle (toPlace merging.remaining))
  | none => return probes

end Places

/-- The places that a thread of a launch reads and writes in the flat buffers. -/
def Launch.places {ω : Type} [PlaceNumber ω] (launch : Launch) (program : Program) (extents : DeviceExtents)
    (oracle : Places.Oracle) (x row thread : ω) : Outcome (List ω) :=
  match launch.stage with
  | .copyIn => .ok (Places.copyIn extents launch.grid.lanes x row thread)
  | .sortTiles tile => .ok (Places.sortTiles extents tile x row thread)
  | .mergeRuns _ _ _ shape =>
    Places.mergeRuns oracle ⟨extents.axisLen, shape.width, extents.rows, shape.segments⟩
      (.ofSharing shape.sharing program.direction.flag program.indexed) x row thread
  | .copyBack => .ok (Places.copyBack extents launch.grid.lanes x row thread)

/-! ### Places of the kernels -/

section Kernels

variable {κ : Type}

/-- Acting on at most one place. -/
theorem foldlM_ite_singleton {σ α : Type} {p : Prop} [Decidable p] (place : α) (act : σ → α → Outcome σ) (state : σ) :
    (if p then [place] else []).foldlM act state = if p then act state place else .ok state := by
  split
  · simp only [List.foldlM_cons, List.foldlM_nil, bind_pure]
  · rfl

/-- A thread of the first kernel copies its place. -/
theorem copyInGroup_eq (data : Array κ) (extents : DeviceExtents) (threads : UInt32) (indexed : Bool)
    (group : Workgroup) :
    copyInGroup data extents.axisLen extents.after extents.rows threads indexed group =
      .once threads fun thread cells =>
        (Places.copyIn extents threads group.x group.row thread).foldlM (fun cells place => do
          let key ← Buffer.read data place.toNat
          let index? := if indexed then some (group.position threads thread) else none
          cells.modify .front (·.store place.toNat (key, index?))) cells := by
  simp only [Places.copyIn, foldlM_ite_singleton]
  rfl

/-- A thread of the last kernel copies its place. -/
theorem copyBackGroup_eq (extents : DeviceExtents) (threads : UInt32) (indexed : Bool) (group : Workgroup) :
    (copyBackGroup extents.axisLen extents.rows threads indexed group : GroupBlock κ) =
      .once threads fun thread cells =>
        (Places.copyBack extents threads group.x group.row thread).foldlM (fun cells place => do
          let cell ← cells.back.load indexed place.toNat
          cells.modify .front (·.store place.toNat cell)) cells := by
  simp only [Places.copyBack, foldlM_ite_singleton]
  rfl

/-- A thread of the kernel that sorts tiles loads and stores what it owns of its tile. -/
theorem onOwnWords_eq_foldlM {σ : Type} (count thread : UInt32) (act : UInt32 → σ → Outcome σ) (state : σ) :
    onOwnWords count thread act state =
      (Places.ownOffsets count thread).foldlM (fun state t => act t state) state := by
  rw [onOwnWords, Places.ownOffsets, List.foldlM_filter]
  simp only [decide_eq_true_eq]
  rfl

/-- A thread of the kernel that sorts tiles loads what stands at its places, and stores there what it has sorted. -/
theorem tileGroup_phases [Element κ] (flag : UInt32) (extents : DeviceExtents) (tile threads : UInt32)
    (indexed : Bool) (memory : GroupMemory) (group : Workgroup) (hrow : group.row < extents.rows)
    (cells : DeviceCells κ) :
    let start := group.x * tile
    let base := group.row * extents.axisLen + start
    let count := Places.tileCount extents.axisLen start tile
    (tileGroup flag extents.axisLen extents.rows tile threads indexed memory group).phases cells =
        .ok ((loadWords base count indexed).lane :: (List.range count.toNat).map (fun round =>
          (exchangeWords flag indexed count (UInt32.ofNat round)).lane) ++ [(storeWords base count indexed).lane]) ∧
      ∀ thread, Places.sortTiles extents tile group.x group.row thread =
        (Places.ownOffsets count thread).map (base + ·) := by
  exact ⟨if_pos hrow, fun _ => if_pos hrow⟩

/-! ### Merges of the kernel -/

/-- Two runs in the flat buffer, as the kernel has them. -/
def Places.Runs.device (run : Places.Runs UInt32) : DeviceRun := ⟨run.leftStart, run.leftLen, run.rightStart, run.rightLen⟩

/-- What a thread has still to merge, as the kernel has it. -/
def Places.Merging.cursor (merging : Places.Merging UInt32) : Cursor :=
  ⟨merging.leftStop, merging.rightStop, merging.i, merging.j, merging.out, merging.remaining⟩

/-- What a step returns first does not depend on what is made of the rest. -/
theorem fst_map_bind {α β γ : Type} (x : Outcome (α × β)) (f : α × β → γ) :
    Prod.fst <$> (x >>= fun result => (.ok (result.1, f result) : Outcome (α × γ))) = Prod.fst <$> x := by
  cases x <;> rfl

/-- The search of the kernel. -/
theorem Window.shrink_eq (goesRight : UInt32 → Outcome Bool) (budget : Nat) (window : Window) :
    Window.shrink goesRight budget window = Prod.fst <$> Places.search goesRight budget window.lo window.hi := by
  induction budget generalizing window with
  | zero => rfl
  | succ budget ih =>
    rw [Window.shrink, Places.search]
    split
    · rfl
    · simp only [ih, map_bind]
      refine bind_congr fun right => ?_
      cases right
      · exact (fst_map_bind (Places.search goesRight budget window.lo window.middle) _).symm
      · exact (fst_map_bind (Places.search goesRight budget (window.middle + 1) window.hi) _).symm

section Keys

variable [KeyOrder κ] (flag : UInt32) (keys : Array κ)

/-- The search of a thread or a group on a diagonal. -/
theorem DeviceRun.partition_eq (run : Places.Runs UInt32) (diag : UInt32) :
    run.device.partition keys flag diag = Prod.fst <$> run.partition (.ofKeys flag keys) diag := by
  rw [DeviceRun.partition, Window.search, Window.shrink_eq, Places.Runs.partition]
  rw [map_bind]
  rfl

/-- Where a thread starts in its runs. -/
theorem DeviceRun.cursor_eq (run : Places.Runs UInt32) (outStart diag step : UInt32) :
    run.device.cursor keys flag outStart diag step =
      (fun start => start.1.cursor) <$> run.start (.ofKeys flag keys) outStart diag step := by
  rw [DeviceRun.cursor, DeviceRun.partition_eq, Places.Runs.start]
  cases run.partition (.ofKeys flag keys) diag <;> rfl

/-- A start that is found is that of the kernel, whatever places have been read. -/
theorem map_some_cursor (start : Outcome (Places.Merging UInt32 × List UInt32))
    (probes : List UInt32 → List UInt32) :
    (do return some (← (fun start => start.1.cursor) <$> start) : Outcome (Option Cursor)) =
      (fun start => start.1.map Places.Merging.cursor) <$>
        (do let (merging, more) ← start
            return (some merging, probes more) : Outcome (Option (Places.Merging UInt32) × List UInt32)) := by
  cases start <;> rfl

/-- Going on with what a step returns first. -/
theorem bind_fst_eq_map_bind {α β γ δ : Type} (x : Outcome (α × β)) {f : α → Outcome γ} {g : δ → γ}
    {h : α × β → Outcome δ} (hstep : ∀ result, f result.1 = g <$> h result) :
    (Prod.fst <$> x) >>= f = g <$> (x >>= h) := by
  rcases x with failure | result
  · rfl
  · exact hstep result

/-- Where a thread of a pass starts. -/
theorem MergeExtents.cursor?_eq (extents : MergeExtents) (settings : MergeSettings) (group : Workgroup)
    (thread : UInt32) :
    extents.cursor? settings keys group thread = (fun start => start.1.map Places.Merging.cursor) <$>
      Places.start? (.ofKeys settings.flag keys) extents settings group.x group.row thread := by
  by_cases hgroup : group.row < extents.rows * extents.segments
  · rw [MergeExtents.cursor?, MergeExtents.pair?, if_pos hgroup, Places.start?]
    refine Eq.trans ?_ (congrArg _ (if_pos hgroup).symm)
    rw [Places.segmentStart?]
    refine Eq.trans ?_ (apply_ite _ _ _ _).symm
    refine ite_congr rfl (fun _ => ?_) fun _ => ?_
    · refine Eq.trans ?_ (apply_ite _ _ _ _).symm
      refine ite_congr rfl (fun _ => ?_) fun _ => rfl
      refine (congrArg (· >>= _) (DeviceRun.partition_eq settings.flag keys ⟨_, _, _, _⟩ _)).trans ?_
      refine bind_fst_eq_map_bind _ fun found => ?_
      refine Eq.trans ?_ (apply_ite _ _ _ _).symm
      refine ite_congr rfl (fun _ => ?_) fun _ => rfl
      refine (congrArg (fun start => do return some (← start))
        (DeviceRun.cursor_eq settings.flag keys ⟨_, _, _, _⟩ _ _ _)).trans ?_
      exact map_some_cursor _ (found.2 ++ ·)
    · refine Eq.trans ?_ (apply_ite _ _ _ _).symm
      refine ite_congr rfl (fun _ => ?_) fun _ => rfl
      refine (congrArg (fun start => do return some (← start))
        (DeviceRun.cursor_eq settings.flag keys ⟨_, _, _, _⟩ _ _ _)).trans ?_
      exact map_some_cursor _ id
  · have hnone : Places.start? (.ofKeys settings.flag keys) extents settings group.x group.row thread = .ok (none, []) :=
      if_neg hgroup
    rw [MergeExtents.cursor?, MergeExtents.pair?, if_neg hgroup, hnone]
    rfl

/-- A thread asks, takes and goes on as its places say. -/
theorem Cursor.turn_eq (merging : Places.Merging UInt32) :
    merging.cursor.takesLeft keys flag = merging.takesLeft (.ofKeys flag keys) ∧
      ∀ left, merging.cursor.source left = merging.source left ∧
        merging.cursor.advance left = (merging.advance left).cursor := by
  refine ⟨rfl, fun left => ⟨rfl, ?_⟩⟩
  cases left <;> rfl

end Keys

end Kernels

end MergePathSort
