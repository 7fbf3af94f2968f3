import MergePathSort.Proofs.Tensor.Coordinates

/-!
# Counting through coordinates

Exchanging two axes counts through the coordinates of the exchanged shape: the last entry moves on, and an entry that has
run out starts again and moves the one in front of it. This meets the coordinates in the order of their positions, for
every number of axes, also where an axis has no extent. So a tensor with as many elements as its shape describes is read at
the coordinate of every position, which can be looked up without counting. With more elements the first coordinate comes
again, and as many elements are read as there are, whatever the shape is.

## Main definitions

* `Tensor.exchangeByLookup` : exchanging axes by looking up the coordinate of every position.

## Main results

* `odometer_coordinate`, `countThrough_eq` : one turn of the odometer, and all of them.
* `Tensor.exchangeAxes_eq_lookup` : axes are exchanged by lookup where the shape describes the elements.
* `Tensor.size_of_exchangeAxes` : exchanging axes keeps the number of elements in any case.
-/

namespace MergePathSort

variable {κ : Type}

/-! ### Counting -/

/-- The first entry of a coordinate counts how often the other extents fit into the position. -/
theorem coordinate_mul_add (extent : Nat) {shape : List Nat} (q : Nat) {r : Nat} (hr : r < shape.prod) :
    coordinate (extent :: shape) (shape.prod * q + r) = q :: coordinate shape r := by
  rw [coordinate_cons, Nat.mul_comm, place_div q hr, place_mod q hr]

/-- One turn of the odometer leads from a position to the next one, and from the last one to the first. -/
theorem odometer_coordinate {shape : List Nat} {n : Nat} (h : n < shape.prod) :
    odometer shape (coordinate shape n) = (coordinate shape ((n + 1) % shape.prod), decide (n + 1 = shape.prod)) := by
  induction shape generalizing n with
  | nil =>
    obtain rfl : n = 0 := by simpa using h
    rfl
  | cons extent shape ih =>
    rw [List.prod_cons, Nat.mul_comm] at h
    have hpos : 0 < shape.prod := Nat.pos_of_ne_zero fun hzero => by simp [hzero] at h
    obtain ⟨q, r, hr, rfl⟩ : ∃ q r, r < shape.prod ∧ n = shape.prod * q + r :=
      ⟨n / shape.prod, n % shape.prod, Nat.mod_lt n hpos, (Nat.div_add_mod n shape.prod).symm⟩
    have hq : q < extent := Nat.lt_of_mul_lt_mul_left (Nat.lt_of_le_of_lt (Nat.le_add_right _ r) h)
    rw [coordinate_mul_add extent q hr, odometer, ih hr, List.prod_cons, Nat.mul_comm extent]
    by_cases hlast : r + 1 = shape.prod
    · -- The entries behind the first one have run out.
      have hnext : shape.prod * q + r + 1 = shape.prod * (q + 1) + 0 := by rw [Nat.mul_succ, Nat.add_assoc, hlast]; rfl
      by_cases hmore : q + 1 < extent
      · have hlt : shape.prod * (q + 1) + 0 < shape.prod * extent := Nat.mul_lt_mul_of_pos_left hmore hpos
        rw [hnext, Nat.mod_eq_of_lt hlt, coordinate_mul_add extent (q + 1) hpos]
        simp [hlast, hmore, Nat.ne_of_lt hmore, Nat.ne_of_gt hpos]
      · obtain rfl : q + 1 = extent := by omega
        rw [hnext]
        simp [hlast]
    · have hrest : r + 1 < shape.prod := by omega
      have hlt : shape.prod * q + (r + 1) < shape.prod * extent :=
        calc shape.prod * q + (r + 1) < shape.prod * (q + 1) := by rw [Nat.mul_succ]; omega
          _ ≤ shape.prod * extent := Nat.mul_le_mul_left _ hq
      rw [Nat.add_assoc, Nat.mod_eq_of_lt hlt, coordinate_mul_add extent q hrest]
      simp [hlast, Nat.mod_eq_of_lt hrest, Nat.ne_of_lt hlt]

/-- The first coordinate of a shape has no entry but zero. -/
theorem coordinate_zero (shape : List Nat) : coordinate shape 0 = shape.map fun _ => 0 := by
  induction shape with
  | nil => rfl
  | cons extent shape ih => rw [coordinate_cons, Nat.zero_div, Nat.zero_mod, ih, List.map_cons]

/-- Counting through the coordinates of a shape reads what stands at the coordinate of each position. -/
theorem countThrough_eq (data : Array κ) (shape stride : List Nat) {count : Nat} (hcount : count ≤ shape.prod) :
    countThrough data shape stride count =
      List.toArray <$> (List.range count).mapM fun n => readAt data stride (coordinate shape n) := by
  have hstates : ∀ n ≤ shape.prod,
      (List.range n).foldlM (fun state _ => readNext data shape stride state) (shape.map fun _ => 0, #[]) =
        (fun elements : List κ => (coordinate shape (n % shape.prod), elements.toArray)) <$>
          (List.range n).mapM fun n => readAt data stride (coordinate shape n) := by
    intro n hn
    induction n with
    | zero =>
      rw [Nat.zero_mod, coordinate_zero]
      rfl
    | succ n ih =>
      rw [List.range_succ, List.foldlM_append, List.mapM_append, ih (Nat.le_of_succ_le hn)]
      rcases (List.range n).mapM fun n => readAt data stride (coordinate shape n) with failure | elements
      · rfl
      change readNext data shape stride (coordinate shape (n % shape.prod), elements.toArray) >>= pure = _
      rw [Nat.mod_eq_of_lt hn, readNext, odometer_coordinate hn, bind_pure, Outcome.ok_bind, List.mapM_cons,
        List.mapM_nil]
      rcases readAt data stride (coordinate shape n) with failure | element
      · rfl
      · exact congrArg (fun out => Except.ok (_, out)) (List.push_toArray elements element)
  rw [countThrough, hstates count hcount, bind_map_left]
  rfl

/-- As many elements are read as are asked for. -/
theorem size_of_countThrough {data elements : Array κ} {shape stride : List Nat} {count : Nat}
    (h : countThrough data shape stride count = .ok elements) : elements.size = count := by
  obtain ⟨last, hlast, h⟩ := Outcome.bind_eq_ok_iff.mp h
  cases h
  clear h
  induction count generalizing last with
  | zero =>
    cases hlast
    rfl
  | succ count ih =>
    rw [List.range_succ, List.foldlM_append] at hlast
    obtain ⟨state, hstate, hlast⟩ := Outcome.bind_eq_ok_iff.mp hlast
    obtain ⟨next, hnext, hlast⟩ := Outcome.bind_eq_ok_iff.mp hlast
    obtain ⟨element, -, hnext⟩ := Outcome.bind_eq_ok_iff.mp hnext
    cases hnext
    cases hlast
    rw [Array.size_push, ih _ hstate]

/-! ### Exchanging two axes -/

namespace Tensor

variable {t t' : Tensor κ}

/-- The tensor with two axes exchanged, in row-major order, where the coordinate of every position is looked up. -/
def exchangeByLookup (t : Tensor κ) (a b : Nat) : Outcome (Tensor κ) :=
  if t.rank ≤ a ∨ t.rank ≤ b then
    .refuse (.invalidAxis (Size.toSigned (max a b)) t.rank)
  else if a = b then .ok t
  else do
    let shape ← exchangeEntries t.shape a b
    let stride ← rowMajorStrides shape
    let source ← exchangeEntries t.stride a b
    let data ← (List.range t.data.size).mapM fun n => readAt t.data source (coordinate shape n)
    return ⟨data.toArray, stride, shape⟩

/-- Two axes are exchanged by lookup if the shape describes the elements, whatever the strides are. -/
theorem exchangeAxes_eq_lookup (hsize : t.data.size = t.shape.prod) (a b : Nat) :
    t.exchangeAxes a b = t.exchangeByLookup a b := by
  rw [exchangeAxes, exchangeByLookup]
  by_cases hrank : t.rank ≤ a ∨ t.rank ≤ b
  · rw [if_pos hrank, if_pos hrank]
  obtain ⟨ha, hb⟩ : a < t.shape.length ∧ b < t.shape.length := by
    rw [rank] at hrank
    omega
  rw [if_neg hrank, if_neg hrank]
  by_cases hab : a = b
  · rw [if_pos hab, if_pos hab]
  rw [if_neg hab, if_neg hab, exchangeEntries_eq_ok ha hb, Outcome.ok_bind, Outcome.ok_bind]
  refine bind_congr fun stride => bind_congr fun source => ?_
  have hcount : t.data.size ≤ (exchanged t.shape a b).prod :=
    Nat.le_of_eq (hsize.trans (prod_exchanged ha hb).symm)
  rw [countThrough_eq t.data _ source hcount, bind_map_left]

/-- Exchanging two axes, if it succeeds, exchanges two extents and keeps the number of elements. -/
theorem size_of_exchangeAxes {a b : Nat} (h : t.exchangeAxes a b = .ok t') :
    (a < t.rank ∧ b < t.rank) ∧ t'.shape = exchanged t.shape a b ∧ t'.data.size = t.data.size := by
  rw [exchangeAxes] at h
  split at h
  · exact absurd h (Outcome.refuse_ne_ok _ _)
  rename_i hrank
  obtain ⟨ha, hb⟩ : a < t.rank ∧ b < t.rank := by omega
  refine ⟨⟨ha, hb⟩, ?_⟩
  split at h
  · rename_i hab
    cases h
    exact ⟨by rw [← hab, exchanged_self ha], rfl⟩
  · rw [exchangeEntries_eq_ok ha hb, Outcome.ok_bind] at h
    obtain ⟨stride, -, h⟩ := Outcome.bind_eq_ok_iff.mp h
    obtain ⟨source, -, h⟩ := Outcome.bind_eq_ok_iff.mp h
    obtain ⟨data, hdata, h⟩ := Outcome.bind_eq_ok_iff.mp h
    cases h
    exact ⟨rfl, size_of_countThrough hdata⟩

end Tensor

end MergePathSort
