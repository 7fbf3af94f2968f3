import MergePathSort.Device.MergeKernel
import MergePathSort.Proofs.Host.Copies
import MergePathSort.Proofs.Merge.Moves

/-!
# The turns of a group

The threads of a group merge together, one output each in a turn, so their outputs do not follow each other as those of
lanes do that run one after the other. What is known of every output is that it is the right one: a target tells what
the pass leaves at every place, and a thread that stores the target's entry at a place spoils nothing. So a turn only
improves what has been stored, in whatever order its threads move their cells.

## Main definitions

* `Cursor.Delivers` : a thread stores the target's entries at the places of its outputs.

## Main results

* `mergeTurns_spec` : the turns of a group store the outputs of all threads.
-/

namespace MergePathSort

section Turns

variable {κ : Type} {tracked : Bool} {xs ys target : List (κ × Tag UInt32)} {src : Side}

/-- Cells stored one after the other, each at its place. -/
theorem exists_foldlM_store (hlen : ys.length = target.length) {writes : List (Nat × κ × Tag UInt32)}
    (hwrites : ∀ write ∈ writes, target[write.1]? = some write.2) :
    ∃ ys', (writes.map fun write => (write.1, Cells.cellOf tracked write.2)).foldlM
        (fun (cells : DeviceCells κ) (store : Nat × Cell κ UInt32) =>
          cells.modify src.other (·.store store.1 store.2))
        ((src.pair xs ys).map (Cells.ofTagged tracked)) =
          (.ok ((src.pair xs ys').map (Cells.ofTagged tracked)) : Outcome _) ∧
      Improves target ys ys' ∧ ∀ write ∈ writes, ys'[write.1]? = target[write.1]? := by
  induction writes generalizing ys with
  | nil => exact ⟨ys, rfl, .refl _ _, by simp⟩
  | cons write writes ih =>
    have hwrite := hwrites write (by simp)
    obtain ⟨hp, -⟩ := List.getElem?_eq_some_iff.mp hwrite
    have hset := Improves.set hwrite ys
    obtain ⟨ys', hfold, himproves, hstored⟩ := ih (hset.length_eq.trans hlen) fun w hw => hwrites w (by simp [hw])
    have hstore : (Cells.ofTagged tracked ys).store write.1 (Cells.cellOf tracked write.2) =
        .ok (Cells.ofTagged tracked (ys.set write.1 write.2)) := Cells.store_ofTagged (by omega) write.2
    refine ⟨ys', ?_, hset.trans himproves, fun w hw => ?_⟩
    · rw [List.map_cons, List.foldlM_cons, Side.map_pair, Side.modify_other_pair src hstore, Outcome.ok_bind,
        ← Side.map_pair]
      exact hfold
    · rcases List.mem_cons.mp hw with rfl | hw
      · exact himproves.keeps _ (getElem?_set_target hwrite hlen)
      · exact hstored w hw

/-- Threads that load what their outputs should be. -/
theorem exists_mapM_load (tracked : Bool) {moves : List (Cursor × Bool)}
    (hmoves : ∀ move ∈ moves, (move.1.source move.2).toNat < xs.length ∧
      target[move.1.out.toNat]? = xs[(move.1.source move.2).toNat]?) :
    ∃ writes : List (Nat × κ × Tag UInt32), moves.mapM (fun (cursor, left) => do
        return (cursor.out.toNat, ← (Cells.ofTagged tracked xs).load tracked (cursor.source left).toNat)) =
          (.ok (writes.map fun write => (write.1, Cells.cellOf tracked write.2)) : Outcome _) ∧
      writes.map Prod.fst = moves.map (·.1.out.toNat) ∧ ∀ write ∈ writes, target[write.1]? = some write.2 := by
  induction moves with
  | nil => exact ⟨[], rfl, rfl, by simp⟩
  | cons move moves ih =>
    obtain ⟨hsource, htarget⟩ := hmoves move (by simp)
    obtain ⟨writes, hload, hplaces, hwrites⟩ := ih fun m hm => hmoves m (by simp [hm])
    have hfetch : (Cells.ofTagged tracked xs).load tracked (move.1.source move.2).toNat = .ok _ :=
      (Cells.load_ofTagged _ _ _).trans (Cells.fetch_ofTagged hsource)
    refine ⟨(move.1.out.toNat, xs[(move.1.source move.2).toNat]) :: writes, ?_, by simp [hplaces], fun w hw => ?_⟩
    · simp only [List.mapM_cons, hfetch, Outcome.ok_bind, hload]
      rfl
    · rcases List.mem_cons.mp hw with rfl | hw
      · rw [htarget, List.getElem?_eq_getElem hsource]
      · exact hwrites w hw

/-- Threads that move what their outputs should be together. -/
theorem exists_carryTogether (tracked : Bool) (src : Side) (hlen : ys.length = target.length)
    {moves : List (Cursor × Bool)}
    (hmoves : ∀ move ∈ moves, (move.1.source move.2).toNat < xs.length ∧
      target[move.1.out.toNat]? = xs[(move.1.source move.2).toNat]?) :
    ∃ ys', carryTogether tracked src src.other ((src.pair xs ys).map (Cells.ofTagged tracked)) moves =
        .ok ((src.pair xs ys').map (Cells.ofTagged tracked)) ∧
      Improves target ys ys' ∧ ∀ move ∈ moves, ys'[move.1.out.toNat]? = target[move.1.out.toNat]? := by
  obtain ⟨writes, hload, hplaces, hwrites⟩ := exists_mapM_load tracked hmoves
  obtain ⟨ys', hstore, himproves, hstored⟩ := exists_foldlM_store hlen hwrites
  refine ⟨ys', ?_, himproves, fun move hmove => ?_⟩
  · rw [carryTogether, DoubleBuffer.get_map, Side.get_pair, hload, Outcome.ok_bind]
    exact hstore
  · have hplace : move.1.out.toNat ∈ writes.map Prod.fst := by
      rw [hplaces]
      exact List.mem_map.mpr ⟨move, hmove, rfl⟩
    obtain ⟨write, hwrite, hout⟩ := List.mem_map.mp hplace
    rw [← hout]
    exact hstored write hwrite

/-! ### Cursors -/

/-- The positions that a thread has still to take. -/
def Cursor.order (precedes : Nat → Nat → Bool) (cursor : Cursor) : List Nat :=
  mergeOrder precedes cursor.leftStop.toNat cursor.rightStop.toNat cursor.remaining.toNat cursor.i.toNat
    cursor.j.toNat

/-- A thread that takes from a list what a target has at the places of its outputs. -/
structure Cursor.Delivers (precedes : Nat → Nat → Bool) (xs target : List (κ × Tag UInt32)) (cursor : Cursor) :
    Prop where
  /-- The left run lies in the list. -/
  left_le : cursor.leftStop.toNat ≤ xs.length
  /-- The right run lies in the list. -/
  right_le : cursor.rightStop.toNat ≤ xs.length
  /-- The runs have as many entries as are left to merge. -/
  remaining_le : cursor.remaining.toNat ≤
    (cursor.leftStop.toNat - cursor.i.toNat) + (cursor.rightStop.toNat - cursor.j.toNat)
  /-- The outputs lie in the target. -/
  room : cursor.out.toNat + cursor.remaining.toNat ≤ target.length
  /-- The outputs are those of the target. -/
  outputs : ∀ t < cursor.remaining.toNat,
    target[cursor.out.toNat + t]? = (cursor.order precedes)[t]?.bind (xs[·]?)

/-- The outputs of a thread have been stored. -/
def Cursor.Delivered (target ys : List (κ × Tag UInt32)) (cursor : Cursor) : Prop :=
  ∀ p, cursor.out.toNat ≤ p → p < cursor.out.toNat + cursor.remaining.toNat → ys[p]? = target[p]?

/-- The next output of a thread comes from the left run. -/
def Cursor.goesLeft (precedes : Nat → Nat → Bool) (cursor : Cursor) : Bool :=
  takesFromLeft precedes cursor.leftStop.toNat cursor.rightStop.toNat cursor.i.toNat cursor.j.toNat

namespace Cursor.Delivers

variable {precedes : Nat → Nat → Bool} {cursor : Cursor}

/-- What a thread moves next, and where to. -/
theorem next (h : cursor.Delivers precedes xs target) (hpos : 0 < cursor.remaining.toNat) :
    (cursor.source (cursor.goesLeft precedes)).toNat < xs.length ∧
      target[cursor.out.toNat]? = xs[(cursor.source (cursor.goesLeft precedes)).toNat]? := by
  obtain ⟨hleft, hright, hrest, hroom, houtputs⟩ := h
  obtain ⟨rest, hcount⟩ := Nat.exists_eq_add_of_lt hpos
  have hfirst := houtputs 0 hpos
  rw [order, hcount, Nat.zero_add, mergeOrder, Nat.add_zero] at hfirst
  rw [goesLeft, source]
  rcases htake : takesFromLeft precedes cursor.leftStop.toNat cursor.rightStop.toNat cursor.i.toNat cursor.j.toNat
  · have hj := lt_of_not_takesFromLeft htake (by omega)
    rw [htake] at hfirst
    exact ⟨Nat.lt_of_lt_of_le hj hright, hfirst⟩
  · have hi := lt_of_takesFromLeft htake
    rw [htake] at hfirst
    exact ⟨Nat.lt_of_lt_of_le hi hleft, hfirst⟩

/-- The place and the number of the outputs of a thread that has moved. -/
theorem advance_words (h : cursor.Delivers precedes xs target) (hpos : 0 < cursor.remaining.toNat)
    (hword : target.length < 4294967296) (left : Bool) :
    (cursor.advance left).out.toNat = cursor.out.toNat + 1 ∧
      (cursor.advance left).remaining.toNat + 1 = cursor.remaining.toNat := by
  have hroom := h.room
  have hone : (1 : UInt32).toNat = 1 := rfl
  have hout : (cursor.out + 1).toNat = cursor.out.toNat + 1 := by
    rw [UInt32.toNat_add, hone]
    exact Nat.mod_eq_of_lt (show _ < 4294967296 by omega)
  have hremaining : (cursor.remaining - 1).toNat = cursor.remaining.toNat - 1 :=
    UInt32.toNat_sub_of_le _ _ (UInt32.le_iff_toNat_le.mpr hpos)
  cases left
  · exact ⟨hout, by simp only [Cursor.advance, Bool.false_eq_true, if_false, hremaining]; omega⟩
  · exact ⟨hout, by simp only [Cursor.advance, if_true, hremaining]; omega⟩

/-- A thread that has moved goes on with the positions that are left. -/
theorem order_advance (h : cursor.Delivers precedes xs target) (hpos : 0 < cursor.remaining.toNat)
    (hword : target.length < 4294967296) (hxs : xs.length < 4294967296) :
    cursor.order precedes = (cursor.source (cursor.goesLeft precedes)).toNat ::
      (cursor.advance (cursor.goesLeft precedes)).order precedes ∧
    (cursor.advance (cursor.goesLeft precedes)).remaining.toNat ≤
      ((cursor.advance (cursor.goesLeft precedes)).leftStop.toNat -
          (cursor.advance (cursor.goesLeft precedes)).i.toNat) +
        ((cursor.advance (cursor.goesLeft precedes)).rightStop.toNat -
          (cursor.advance (cursor.goesLeft precedes)).j.toNat) := by
  obtain ⟨-, hremaining⟩ := h.advance_words hpos hword (cursor.goesLeft precedes)
  obtain ⟨hleft, hright, hrest, -, -⟩ := h
  have hone : (1 : UInt32).toNat = 1 := rfl
  rw [order, order, ← hremaining, mergeOrder]
  rcases htake : takesFromLeft precedes cursor.leftStop.toNat cursor.rightStop.toNat cursor.i.toNat cursor.j.toNat
  · have hj := lt_of_not_takesFromLeft htake (by omega)
    have hnext : (cursor.j + 1).toNat = cursor.j.toNat + 1 := by
      rw [UInt32.toNat_add, hone]
      exact Nat.mod_eq_of_lt (show _ < 4294967296 by omega)
    simp only [goesLeft, htake] at hremaining ⊢
    simp only [Cursor.advance, Bool.false_eq_true, if_false, hnext] at hremaining ⊢
    exact ⟨rfl, by omega⟩
  · have hi := lt_of_takesFromLeft htake
    have hnext : (cursor.i + 1).toNat = cursor.i.toNat + 1 := by
      rw [UInt32.toNat_add, hone]
      exact Nat.mod_eq_of_lt (show _ < 4294967296 by omega)
    simp only [goesLeft, htake] at hremaining ⊢
    simp only [Cursor.advance, if_true, hnext] at hremaining ⊢
    exact ⟨rfl, by omega⟩

/-- A thread that has moved delivers the rest of its outputs. -/
theorem advance (h : cursor.Delivers precedes xs target) (hpos : 0 < cursor.remaining.toNat)
    (hword : target.length < 4294967296) (hxs : xs.length < 4294967296) :
    (cursor.advance (cursor.goesLeft precedes)).Delivers precedes xs target := by
  obtain ⟨horder, hrest⟩ := h.order_advance hpos hword hxs
  obtain ⟨hout, hremaining⟩ := h.advance_words hpos hword (cursor.goesLeft precedes)
  have hstops : ∀ left, (cursor.advance left).leftStop = cursor.leftStop ∧
      (cursor.advance left).rightStop = cursor.rightStop := by
    intro left
    cases left <;> exact ⟨rfl, rfl⟩
  obtain ⟨hleftStop, hrightStop⟩ := hstops (cursor.goesLeft precedes)
  refine ⟨by rw [hleftStop]; exact h.left_le, by rw [hrightStop]; exact h.right_le, hrest, ?_, fun t ht => ?_⟩
  · have hroom := h.room
    omega
  · have houtput := h.outputs (t + 1) (by omega)
    rw [horder, List.getElem?_cons_succ] at houtput
    rw [hout, ← houtput]
    congr 1
    omega

end Cursor.Delivers

variable [KeyOrder κ] {direction : Direction}

/-- The question that a thread asks. -/
theorem Cursor.takesLeft_eq_ok {cursor : Cursor} {keys : Array κ} (hleft : cursor.leftStop.toNat ≤ keys.size)
    (hright : cursor.rightStop.toNat ≤ keys.size) :
    cursor.takesLeft keys direction.flag = .ok (cursor.goesLeft (precedesAt direction keys)) := by
  rw [takesLeft, goesLeft, takesFromLeft]
  simp only [UInt32.lt_iff_toNat_lt, inOrder_flag]
  by_cases hi : cursor.i.toNat < cursor.leftStop.toNat
  · by_cases hj : cursor.j.toNat < cursor.rightStop.toNat
    · rw [if_pos hi, if_pos hj, compare_eq_ok (by omega) (by omega)]
      simp [hi, Nat.not_le.mpr hj]
    · rw [if_pos hi, if_neg hj]
      simp [hi, Nat.not_lt.mp hj]
  · rw [if_neg hi]
    simp [hi]

section Settings

variable {settings : MergeSettings} (hflag : settings.flag = direction.flag) (hindexed : settings.indexed = tracked)
include hflag hindexed

/-- A turn stores the next output of every thread, and leaves the threads that have more. -/
theorem mergeTurn_spec (src : Side) (hlen : ys.length = target.length) {cursors : List Cursor}
    (hcursors : ∀ cursor ∈ cursors, cursor.Delivers (precedesAt direction (xs.map Prod.fst).toArray) xs target ∧
      0 < cursor.remaining.toNat) :
    ∃ ys' rest, mergeTurn settings src src.other ((src.pair xs ys).map (Cells.ofTagged tracked)) cursors =
        .ok ((src.pair xs ys').map (Cells.ofTagged tracked), rest) ∧
      Improves target ys ys' ∧
      (∀ cursor ∈ cursors, ys'[cursor.out.toNat]? = target[cursor.out.toNat]?) ∧
      rest = (cursors.map fun cursor => cursor.advance
        (cursor.goesLeft (precedesAt direction (xs.map Prod.fst).toArray))).filter (0 < ·.remaining) := by
  generalize hprecedes : precedesAt direction (xs.map Prod.fst).toArray = precedes at hcursors ⊢
  have hsize : (Cells.ofTagged tracked xs).keys.size = xs.length := Cells.size_keys_ofTagged
  have hsided : cursors.mapM (fun cursor => do
      return (cursor, ← cursor.takesLeft (Cells.ofTagged tracked xs).keys direction.flag)) =
        (.ok (cursors.map fun cursor => (cursor, cursor.goesLeft precedes)) : Outcome _) := by
    refine Outcome.mapM_eq_ok fun cursor hcursor => ?_
    obtain ⟨h, -⟩ := hcursors cursor hcursor
    rw [Cursor.takesLeft_eq_ok (by rw [hsize]; exact h.left_le) (by rw [hsize]; exact h.right_le), ← hprecedes]
    rfl
  have hmoves : ∀ move ∈ cursors.map fun cursor => (cursor, cursor.goesLeft precedes),
      (move.1.source move.2).toNat < xs.length ∧
        target[move.1.out.toNat]? = xs[(move.1.source move.2).toNat]? := by
    intro move hmove
    obtain ⟨cursor, hcursor, rfl⟩ := List.mem_map.mp hmove
    obtain ⟨h, hpos⟩ := hcursors cursor hcursor
    exact h.next hpos
  -- The threads that take the left key move first, and what they store is not spoilt by the others.
  obtain ⟨mid, hleft, hleftImproves, hleftStored⟩ := exists_carryTogether tracked src hlen
    fun move hmove => hmoves move (List.mem_filter.mp hmove).1
  obtain ⟨ys', hright, hrightImproves, hrightStored⟩ := exists_carryTogether tracked src
    (hleftImproves.length_eq.trans hlen) fun move hmove => hmoves move (List.mem_filter.mp hmove).1
  refine ⟨ys', _, ?_, hleftImproves.trans hrightImproves, fun cursor hcursor => ?_, rfl⟩
  · rw [mergeTurn, DoubleBuffer.get_map, Side.get_pair, hflag, hindexed, hsided, Outcome.ok_bind, hleft, Outcome.ok_bind,
      hright, Outcome.ok_bind, List.map_map]
    rfl
  · have hmove : (cursor, cursor.goesLeft precedes) ∈ cursors.map fun cursor => (cursor, cursor.goesLeft precedes) :=
      List.mem_map.mpr ⟨cursor, hcursor, rfl⟩
    cases hside : cursor.goesLeft precedes with
    | false => exact hrightStored _ (List.mem_filter.mpr ⟨hmove, by simp [hside]⟩)
    | true => exact hrightImproves.keeps _ (hleftStored _ (List.mem_filter.mpr ⟨hmove, hside⟩))

/-- So many turns as the threads have outputs at most store all of them. -/
theorem mergeTurns_spec (src : Side) (hxs : xs.length < 4294967296)
    (hword : target.length < 4294967296) (hlen : ys.length = target.length) {turns : Nat} {cursors : List Cursor}
    (hcursors : ∀ cursor ∈ cursors, cursor.Delivers (precedesAt direction (xs.map Prod.fst).toArray) xs target ∧
      0 < cursor.remaining.toNat ∧ cursor.remaining.toNat ≤ turns) :
    ∃ ys', mergeTurns settings src src.other turns ((src.pair xs ys).map (Cells.ofTagged tracked)) cursors =
        .ok ((src.pair xs ys').map (Cells.ofTagged tracked)) ∧
      Improves target ys ys' ∧ ∀ cursor ∈ cursors, cursor.Delivered target ys' := by
  induction turns generalizing ys cursors with
  | zero =>
    refine ⟨ys, rfl, .refl _ _, fun cursor hcursor => ?_⟩
    obtain ⟨-, hpos, hle⟩ := hcursors cursor hcursor
    omega
  | succ turns ih =>
    rw [mergeTurns]
    cases cursors with
    | nil => exact ⟨ys, rfl, .refl _ _, by simp⟩
    | cons first others =>
      obtain ⟨mid, rest, hturn, hturnImproves, hstored, hrest⟩ := mergeTurn_spec hflag hindexed src hlen
        fun cursor hcursor => ⟨(hcursors cursor hcursor).1, (hcursors cursor hcursor).2.1⟩
      generalize hprecedes : precedesAt direction (xs.map Prod.fst).toArray = precedes at hcursors ih hrest
      have hrestCursors : ∀ cursor ∈ rest, cursor.Delivers precedes xs target ∧ 0 < cursor.remaining.toNat ∧
          cursor.remaining.toNat ≤ turns := by
        intro cursor hcursor
        rw [hrest] at hcursor
        obtain ⟨hmem, hpos⟩ := List.mem_filter.mp hcursor
        obtain ⟨before, hbefore, rfl⟩ := List.mem_map.mp hmem
        obtain ⟨h, hbeforePos, hle⟩ := hcursors before hbefore
        obtain ⟨-, hremaining⟩ := h.advance_words hbeforePos hword (before.goesLeft precedes)
        exact ⟨h.advance hbeforePos hword hxs, UInt32.lt_iff_toNat_lt.mp (of_decide_eq_true hpos), by omega⟩
      obtain ⟨ys', hturns, himproves, hdelivered⟩ := ih (hturnImproves.length_eq.trans hlen) hrestCursors
      refine ⟨ys', ?_, hturnImproves.trans himproves, fun cursor hcursor p hp hp' => ?_⟩
      · rw [List.isEmpty_cons, if_neg (by decide), hturn, Outcome.ok_bind]
        exact hturns
      · obtain ⟨h, hpos, -⟩ := hcursors cursor hcursor
        obtain ⟨hout, hremaining⟩ := h.advance_words hpos hword (cursor.goesLeft precedes)
        rcases Nat.eq_or_lt_of_le hp with rfl | hlt
        · exact himproves.keeps _ (hstored cursor hcursor)
        · -- The other outputs are those of the cursor that has moved, which has some left.
          have hmoved : cursor.advance (cursor.goesLeft precedes) ∈ rest := by
            rw [hrest]
            refine List.mem_filter.mpr ⟨List.mem_map.mpr ⟨cursor, hcursor, rfl⟩, ?_⟩
            exact decide_eq_true (UInt32.lt_iff_toNat_lt.mpr (show 0 < _ by omega))
          exact hdelivered _ hmoved p (by omega) (by omega)

end Settings

end Turns

end MergePathSort
