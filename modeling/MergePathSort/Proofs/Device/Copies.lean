import MergePathSort.Proofs.Device.Flat

/-!
# Copies on a device

The kernels that copy walk the flat buffers as the copies of the host walk a row: the threads of all groups together
copy one entry after the other. The addresses are computed in words, and none of them wraps as long as all rows together
have no more elements than there are words.

## Main results

* `exists_launch_copyIn`, `exists_launch_copyBack` : the two launches on all rows.
-/

namespace MergePathSort

variable {κ : Type}

/-! ### Words -/

/-- The position of a thread along its row, as a word. -/
theorem Workgroup.position_eq (row : UInt32) (threads : UInt32) (x n : Nat) :
    Workgroup.position ⟨UInt32.ofNat x, row⟩ threads (UInt32.ofNat n) = UInt32.ofNat (x * threads.toNat + n) := by
  rw [position, UInt32.ofNat_add, UInt32.ofNat_mul, UInt32.ofNat_toNat]

/-- Where an element of a row is stored, as a word. -/
theorem flatAddress_eq (axisLen : UInt32) (row pos : Nat) :
    flatAddress axisLen (UInt32.ofNat row) (UInt32.ofNat pos) = UInt32.ofNat (row * axisLen.toNat + pos) := by
  rw [flatAddress, UInt32.ofNat_add, UInt32.ofNat_mul, UInt32.ofNat_toNat]

/-- Rows that walk their axis with stride one follow each other. -/
theorem copyAddress_one (axisLen row pos : UInt32) : copyAddress axisLen 1 row pos = flatAddress axisLen row pos := by
  rw [copyAddress, flatAddress, UInt32.div_one, UInt32.mod_one, UInt32.mul_one, UInt32.add_zero]

/-- A word that is small enough, as a number. -/
theorem toNat_ofNat_word {n : Nat} (h : n < 4294967296) : (UInt32.ofNat n).toNat = n := UInt32.toNat_ofNat_of_lt' h

/-- Comparing a small number with a word. -/
theorem ofNat_lt_word {n : Nat} {word : UInt32} (h : n < 4294967296) : UInt32.ofNat n < word ↔ n < word.toNat :=
  UInt32.ofNat_lt_iff h

/-! ### Launches -/

/-- A kernel whose groups are blocks does what the block does. -/
theorem Kernel.ofBlock_eq_ok {block : Workgroup → GroupBlock κ} {group : Workgroup} {cells cells' : DeviceCells κ}
    (h : ∃ used, (block group).run cells = .ok (cells', used)) :
    ∃ more, Kernel.ofBlock block cells group = .ok (cells', more) := by
  obtain ⟨used, h⟩ := h
  exact ⟨_, by rw [Kernel.ofBlock, h]; rfl⟩

/-- A group whose threads change nothing leaves the buffers as they are. -/
theorem GroupBlock.masked_once {threads : UInt32} {act : UInt32 → DeviceCells κ → Outcome (DeviceCells κ)}
    {cells : DeviceCells κ} (h : ∀ thread, act thread cells = .ok cells) :
    ∃ used, (GroupBlock.once threads act).run cells = .ok (cells, used) :=
  Block.exists_run_once (fun _ => cells) fun n _ => h (UInt32.ofNat n)

section Copies

variable {tracked : Bool} {grid : Grid} {axisLen rows : UInt32} {flat : TaggedRow κ UInt32}
  {xs : List (κ × Tag UInt32)}

/-- A group whose threads act once on each element of a row, if there is such a row. -/
def copyGroup (axisLen rows threads : UInt32) (act : UInt32 → UInt32 → DeviceCells κ → Outcome (DeviceCells κ))
    (group : Workgroup) : GroupBlock κ :=
  .once threads fun thread cells =>
    if group.position threads thread < axisLen ∧ group.row < rows then
      act group.row (group.position threads thread) cells
    else .ok cells

variable {act : UInt32 → UInt32 → DeviceCells κ → Outcome (DeviceCells κ)}

/-- A group behind the last row does nothing. -/
theorem copyGroup_masked {threads : UInt32} {group : Workgroup} (h : rows ≤ group.row) (cells : DeviceCells κ) :
    ∃ used, (copyGroup axisLen rows threads act group).run cells = .ok (cells, used) := by
  have hnot : ¬group.row < rows := UInt32.not_lt.mpr h
  exact GroupBlock.masked_once fun _ => if_neg fun hboth => hnot hboth.2

/-- The state of a copy before group `x` of a row. -/
def copiedBefore (tracked : Bool) (grid : Grid) (axisLen : UInt32) (flat : TaggedRow κ UInt32)
    (xs : List (κ × Tag UInt32)) (row x : Nat) : DeviceCells κ :=
  copied tracked flat xs (row * axisLen.toNat + min (x * grid.lanes.toNat) axisLen.toNat)

/-- A group copies the part of its row that its threads reach. -/
theorem copyGroup_run (hword : grid.blocksPerRow.toNat * grid.lanes.toNat ≤ 4294967296)
    (hact : ∀ row < rows.toNat, ∀ pos < axisLen.toNat,
      act (UInt32.ofNat row) (UInt32.ofNat pos) (copied tracked flat xs (row * axisLen.toNat + pos)) =
        .ok (copied tracked flat xs (row * axisLen.toNat + pos + 1)))
    {row x : Nat} (hrow : row < rows.toNat) (hx : x < grid.blocksPerRow.toNat) :
    ∃ used, (copyGroup axisLen rows grid.lanes act ⟨UInt32.ofNat x, UInt32.ofNat row⟩).run
      (copiedBefore tracked grid axisLen flat xs row x) =
        .ok (copiedBefore tracked grid axisLen flat xs row (x + 1), used) := by
  have hroom := Nat.mul_le_mul_right grid.lanes.toNat (Nat.succ_le_of_lt hx)
  rw [Nat.succ_mul] at hroom
  rw [copiedBefore, copiedBefore, Nat.succ_mul]
  refine Block.exists_run_once (fun n => copied tracked flat xs
    (row * axisLen.toNat + min (x * grid.lanes.toNat + n) axisLen.toNat)) fun n hn => ?_
  have hrowWord : UInt32.ofNat row < rows := (ofNat_lt_word (Nat.lt_trans hrow rows.toNat_lt)).mpr hrow
  simp only [Workgroup.position_eq, hrowWord, and_true,
    ofNat_lt_word (show x * grid.lanes.toNat + n < 4294967296 by omega)]
  split
  · rename_i hpos
    rw [Nat.min_eq_left (by omega), Nat.min_eq_left (by omega), hact row hrow _ hpos]
    rfl
  · rename_i hpos
    rw [Nat.min_eq_right (by omega), Nat.min_eq_right (by omega)]

/-- A launch whose threads copy one entry each. -/
theorem exists_launch_copies (act : UInt32 → UInt32 → DeviceCells κ → Outcome (DeviceCells κ))
    (hrows : grid.rows = rows) (hlen : flat.front.length = rows.toNat * axisLen.toNat)
    (hxs : xs.length = rows.toNat * axisLen.toNat)
    (hcovers : axisLen.toNat ≤ grid.blocksPerRow.toNat * grid.lanes.toNat)
    (hword : grid.blocksPerRow.toNat * grid.lanes.toNat ≤ 4294967296)
    (hact : ∀ row < rows.toNat, ∀ pos < axisLen.toNat,
      act (UInt32.ofNat row) (UInt32.ofNat pos) (copied tracked flat xs (row * axisLen.toNat + pos)) =
        .ok (copied tracked flat xs (row * axisLen.toNat + pos + 1))) :
    ∃ syncs, (Kernel.ofBlock (copyGroup axisLen rows grid.lanes act)).launch grid (flat.cells tracked) =
      .ok (TaggedRow.cells tracked ⟨xs, flat.back⟩, syncs) := by
  subst hrows
  have hstart : flat.cells tracked = copiedBefore tracked grid axisLen flat xs 0 0 := by
    simp [copiedBefore, copied]
  have hend : copiedBefore tracked grid axisLen flat xs grid.rows.toNat 0 =
      TaggedRow.cells tracked ⟨xs, flat.back⟩ := by
    rw [copiedBefore, copied, List.take_of_length_le (by omega), overlay_of_length_eq (hxs.trans hlen.symm)]
  obtain ⟨cells', syncs, hlaunch, rfl⟩ := Kernel.exists_launch _
    (P := fun row x cells => cells = copiedBefore tracked grid axisLen flat xs row x) hstart
    (by
      rintro row hrow x hx cells rfl
      obtain ⟨more, hmore⟩ := Kernel.ofBlock_eq_ok (copyGroup_run hword hact hrow hx)
      exact ⟨_, more, hmore, rfl⟩)
    (by
      rintro row - cells rfl
      rw [copiedBefore, copiedBefore, Nat.min_eq_right hcovers, Nat.zero_mul, Nat.zero_min, Nat.succ_mul, Nat.add_zero])
    (fun group hgroup cells => Kernel.ofBlock_eq_ok (copyGroup_masked hgroup cells))
  exact ⟨syncs, by rw [hlaunch, hend]⟩

/-- The keys of all rows, each row numbered by itself. -/
def numberedRows (rows axisLen : Nat) (data : Array κ) : List (κ × Tag UInt32) :=
  (List.range rows).flatMap fun row => numbered (chunk axisLen data.toList row)

theorem length_numberedRow {rows axisLen : Nat} {data : Array κ} (h : data.size = rows * axisLen) :
    ∀ row < rows, (numbered (chunk axisLen data.toList row) : List (κ × Tag UInt32)).length = axisLen := by
  intro row hrow
  rw [length_numbered, length_chunk_of_length (by rw [Array.length_toList, h]) hrow]

/-- A key of all rows, numbered in its row. -/
theorem getElem?_numberedRows {rows axisLen : Nat} {data : Array κ} (h : data.size = rows * axisLen) {row pos : Nat}
    (hrow : row < rows) (hpos : pos < axisLen) (hplace : row * axisLen + pos < data.size) :
    (numberedRows rows axisLen data)[row * axisLen + pos]? = some (data[row * axisLen + pos], .position pos) := by
  have hlen := length_chunk_of_length (by rw [Array.length_toList, h]) hrow
  rw [← getElem?_chunk hpos, numberedRows, chunk_flatMap_of_length (length_numberedRow h) hrow, numbered,
    List.getElem?_mapIdx, getElem?_chunk hpos, Array.getElem?_toList, Array.getElem?_eq_getElem hplace]
  rfl

/-- The first launch on all rows. -/
theorem exists_launch_copyIn {data : Array κ} (hrows : grid.rows = rows)
    (hflat : flat.HasLength (rows.toNat * axisLen.toNat)) (hdata : data.size = rows.toNat * axisLen.toNat)
    (htotal : rows.toNat * axisLen.toNat < 4294967296)
    (hcovers : axisLen.toNat ≤ grid.blocksPerRow.toNat * grid.lanes.toNat)
    (hword : grid.blocksPerRow.toNat * grid.lanes.toNat ≤ 4294967296) :
    ∃ syncs, (Kernel.ofBlock (copyInGroup data axisLen 1 rows grid.lanes tracked)).launch grid (flat.cells tracked) =
      .ok (TaggedRow.cells tracked ⟨numberedRows rows.toNat axisLen.toNat data, flat.back⟩, syncs) := by
  have hxs : (numberedRows rows.toNat axisLen.toNat data).length = rows.toNat * axisLen.toNat :=
    length_flatMap_of_length (length_numberedRow hdata)
  refine exists_launch_copies (fun row pos cells => do
    let key ← Buffer.read data (copyAddress axisLen 1 row pos).toNat
    cells.modify .front (·.store (copyAddress axisLen 1 row pos).toNat (key, if tracked then some pos else none))) hrows
    hflat.front hxs hcovers hword fun row hrow pos hpos => ?_
  have hplace := place_lt hrow hpos
  have hkey : Buffer.read data (row * axisLen.toNat + pos) = .ok data[row * axisLen.toNat + pos] :=
    Buffer.read_eq_ok_iff.mpr (Array.getElem?_eq_getElem (by omega))
  obtain ⟨hlt, hget⟩ := List.getElem?_eq_some_iff.mp (getElem?_numberedRows hdata hrow hpos (by omega))
  have hstore := store_next tracked [] flat.front hlt (by simpa [hflat.front] using hplace)
  simp only [List.nil_append, List.length_nil, Nat.zero_add, Cells.cellOf, hget] at hstore
  simp only [copyAddress_one, flatAddress_eq, toNat_ofNat_word (show row * axisLen.toNat + pos < 4294967296 by omega),
    hkey, Outcome.ok_bind]
  exact DoubleBuffer.modify_front hstore

/-- The last launch on all rows. -/
theorem exists_launch_copyBack (hrows : grid.rows = rows) (hflat : flat.HasLength (rows.toNat * axisLen.toNat))
    (htotal : rows.toNat * axisLen.toNat < 4294967296)
    (hcovers : axisLen.toNat ≤ grid.blocksPerRow.toNat * grid.lanes.toNat)
    (hword : grid.blocksPerRow.toNat * grid.lanes.toNat ≤ 4294967296) :
    ∃ syncs, (Kernel.ofBlock (copyBackGroup axisLen rows grid.lanes tracked)).launch grid (flat.cells tracked) =
      .ok (TaggedRow.cells tracked (.both flat.back), syncs) := by
  refine exists_launch_copies (fun row pos cells => do
    let cell ← cells.back.load tracked (flatAddress axisLen row pos).toNat
    cells.modify .front (·.store (flatAddress axisLen row pos).toNat cell)) hrows hflat.front hflat.back hcovers
    hword fun row hrow pos hpos => ?_
  have hplace := place_lt hrow hpos
  have hlt : row * axisLen.toNat + pos < flat.back.length := by rw [hflat.back]; exact hplace
  have hload : (copied tracked flat flat.back (row * axisLen.toNat + pos)).back.load tracked
      (row * axisLen.toNat + pos) = .ok (Cells.cellOf tracked flat.back[row * axisLen.toNat + pos]) :=
    (Cells.load_ofTagged _ _ _).trans (Cells.fetch_ofTagged hlt)
  have hstore := store_next tracked [] flat.front hlt (by simpa [hflat.front] using hplace)
  simp only [flatAddress_eq, toNat_ofNat_word (show row * axisLen.toNat + pos < 4294967296 by omega), hload,
    Outcome.ok_bind]
  refine DoubleBuffer.modify_front ?_
  simpa using hstore

end Copies

end MergePathSort
