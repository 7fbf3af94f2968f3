import Mathlib.Logic.ExistsUnique
import MergePathSort.Proofs.Plan.Outline
import MergePathSort.Proofs.Plan.Safety

/-!
# Rows of a tensor

A sort takes a tensor apart into rows along an axis and finds every element by the number of its row and its position
along the axis. Both together are another name for the element's coordinate: the entries before the axis and those
behind it, numbered in row-major order each, make up the number of the row, and the entry for the axis is the position.
A shape that describes elements whose number is a size has a row and a position for every element, and no two for any.

## Main definitions

* `numberIn`, `Numbered` : the number of a coordinate in row-major order, and shapes whose coordinates are numbered.
* `DescribesElements` : a shape with elements, as many as a size can count.
* `AxisView.Addresses` : the rows of a view, and where their elements are stored.

## Main results

* `AxisView.exists_addresses` : the rows of a shape that describes elements.
-/

namespace MergePathSort

/-! ### Numbers of coordinates -/

/-- The number of a coordinate among those of a shape, in row-major order. -/
def numberIn (shape coordinate : List Nat) : Outcome Nat := do
  offset coordinate (← rowMajorStrides shape)

/-- The coordinates of a shape have the numbers below the number of its elements, each a number of its own. -/
structure Numbered (shape : List Nat) : Prop where
  /-- A coordinate has a number. -/
  lt : ∀ coordinate, InShape coordinate shape → ∃ number < shape.prod, numberIn shape coordinate = .ok number
  /-- A number belongs to one coordinate. -/
  once : ∀ number < shape.prod, ∃! coordinate, InShape coordinate shape ∧ numberIn shape coordinate = .ok number

/-- A shape that describes elements, as many as a size can count. -/
structure DescribesElements (shape : List Nat) : Prop where
  /-- There are elements. -/
  ne_zero : shape.prod ≠ 0
  /-- Their number is a size. -/
  lt : shape.prod < Size.limit

section Numbers

variable {shape c : List Nat}

/-- The extents in front of an axis describe elements if all extents do. -/
theorem DescribesElements.take (h : DescribesElements shape) (k : Nat) : DescribesElements (shape.take k) := by
  refine ⟨fun hzero => h.ne_zero ?_, Nat.lt_of_le_of_lt (prod_take_le h.ne_zero k) h.lt⟩
  rw [← List.take_append_drop k shape, List.prod_append, hzero, Nat.zero_mul]

/-- The extents behind an axis describe elements if all extents do. -/
theorem DescribesElements.drop (h : DescribesElements shape) (k : Nat) : DescribesElements (shape.drop k) := by
  refine ⟨fun hzero => h.ne_zero ?_, Nat.lt_of_le_of_lt (prod_drop_le h.ne_zero k) h.lt⟩
  rw [← List.take_append_drop k shape, List.prod_append, hzero, Nat.mul_zero]

/-- The number of a coordinate is where it is stored. -/
theorem DescribesElements.numberIn_eq_ok (h : DescribesElements shape) (hc : InShape c shape) :
    numberIn shape c = .ok (storedAt c (trailingProducts shape)) := by
  rw [numberIn, rowMajorStrides_of_fits (fits_of_prod_ne_zero h.ne_zero h.lt).1, Outcome.ok_bind]
  exact offset_eq_ok (Nat.lt_trans hc.storedAt_lt h.lt)

/-- The coordinates of a shape that describes elements are numbered. -/
theorem DescribesElements.numbered (h : DescribesElements shape) : Numbered shape := by
  refine ⟨fun c hc => ⟨_, hc.storedAt_lt, h.numberIn_eq_ok hc⟩, fun number hnumber => ?_⟩
  obtain ⟨hc, hstored⟩ := storedAt_coordinate hnumber
  refine ⟨coordinate shape number, ⟨hc, (h.numberIn_eq_ok hc).trans (congrArg _ hstored)⟩, ?_⟩
  rintro c ⟨hc, hok⟩
  rw [h.numberIn_eq_ok hc] at hok
  rw [← Except.ok.inj hok, hc.coordinate_storedAt]

/-- The number of a coordinate in three parts is put together from the numbers of the first and the last. -/
theorem storedAt_around {front back pre post : List Nat} {entry extent : Nat} (hlen : front.length = pre.length) :
    storedAt (front ++ entry :: back) (trailingProducts (pre ++ extent :: post)) =
      (storedAt front (trailingProducts pre) * extent + entry) * post.prod + storedAt back (trailingProducts post) := by
  rw [storedAt_append hlen, trailingProducts, storedAt_cons, List.prod_cons, ← Nat.mul_assoc, Nat.add_mul, Nat.add_assoc]

end Numbers

/-! ### Rows -/

namespace AxisView

/-- The rows of a view around an axis of a shape: a row and a position are one element, and the element has the
coordinates from which the row is numbered. -/
structure Addresses (view : AxisView) (shape : List Nat) (axis rows : Nat) : Prop where
  /-- The axis has the length of a row. -/
  extent_eq : shape[axis]? = some view.axisLen
  /-- The number of rows. -/
  rowCount_eq : view.rowCount = .ok rows
  /-- The number of elements. -/
  total_eq : view.total = .ok shape.prod
  /-- The coordinates of the shape, and those in front of the axis and behind it, are numbered. -/
  numbered : Numbered shape ∧ Numbered (shape.take axis) ∧ Numbered (shape.drop (axis + 1))
  /-- There are as many coordinates in front of the axis and behind it as the view says. -/
  sides_eq : view.before = (shape.take axis).prod ∧ view.after = (shape.drop (axis + 1)).prod
  /-- A position in a row is a place among the elements. -/
  inside : ∀ row < rows, ∀ pos < view.axisLen, ∃ place < shape.prod, view.index row pos = .ok place
  /-- A place among the elements is one position in one row. -/
  once : ∀ place < shape.prod, ∃! cell : Nat × Nat,
    (cell.1 < rows ∧ cell.2 < view.axisLen) ∧ view.index cell.1 cell.2 = .ok place
  /-- The element at a coordinate is in the row with the number of what is in front of the axis and behind it. -/
  element : ∀ front entry back, InShape front (shape.take axis) → entry < view.axisLen →
    InShape back (shape.drop (axis + 1)) → ∃ o i place, numberIn (shape.take axis) front = .ok o ∧
      numberIn (shape.drop (axis + 1)) back = .ok i ∧ o * view.after + i < rows ∧
      numberIn shape (front ++ entry :: back) = .ok place ∧ view.index (o * view.after + i) entry = .ok place

section Index

variable {view : AxisView} {o i row pos : Nat}

/-- The place of an element in the row that has the number `i` behind the number `o`. -/
theorem place_lt_total (ho : o < view.before) (hpos : pos < view.axisLen) (hi : i < view.after) :
    (o * view.axisLen + pos) * view.after + i < view.before * view.axisLen * view.after :=
  place_lt (place_lt ho hpos) hi

/-- The place of an element, by both parts of the number of its row. -/
theorem index_of_parts (htotal : view.before * view.axisLen * view.after < Size.limit) (ho : o < view.before)
    (hpos : pos < view.axisLen) (hi : i < view.after) :
    view.index (o * view.after + i) pos = .ok ((o * view.axisLen + pos) * view.after + i) := by
  have hplace := place_lt_total ho hpos hi
  have hafter : 0 < view.after := Nat.zero_lt_of_lt hi
  have hle : o * view.axisLen + pos ≤ (o * view.axisLen + pos) * view.after := Nat.le_mul_of_pos_right _ hafter
  have hdiv : Size.div (o * view.after + i) view.after = .ok o := by
    rw [Size.div, if_neg (by omega), place_div o hi]
  have hmod : Size.mod (o * view.after + i) view.after = .ok i := by
    rw [Size.mod, if_neg (by omega), place_mod o hi]
  have hbase : Size.mul o view.axisLen = .ok (o * view.axisLen) := Size.mul_of_lt (by omega)
  have hsum : Size.add (o * view.axisLen) pos = .ok (o * view.axisLen + pos) := Size.add_of_lt (by omega)
  have hscaled : Size.mul (o * view.axisLen + pos) view.after = .ok ((o * view.axisLen + pos) * view.after) :=
    Size.mul_of_lt (by omega)
  rw [index, hdiv, Outcome.ok_bind, hmod, Outcome.ok_bind, hbase, Outcome.ok_bind, hsum, Outcome.ok_bind, hscaled,
    Outcome.ok_bind]
  exact Size.add_of_lt (by omega)

/-- A place among the elements is that of one position in one row. -/
theorem existsUnique_cell (htotal : view.before * view.axisLen * view.after < Size.limit) {place : Nat}
    (hplace : place < view.before * view.axisLen * view.after) : ∃! cell : Nat × Nat,
      (cell.1 < view.before * view.after ∧ cell.2 < view.axisLen) ∧ view.index cell.1 cell.2 = .ok place := by
  -- The place is a walk through the axis, and what is behind it; the walk is a row in front, and a position.
  obtain ⟨walk, hwalk, i, hi, rfl⟩ := exists_place hplace
  obtain ⟨o, ho, pos, hpos, rfl⟩ := exists_place hwalk
  refine ⟨(o * view.after + i, pos), ⟨⟨place_lt ho hi, hpos⟩, index_of_parts htotal ho hpos hi⟩, ?_⟩
  rintro ⟨row, pos'⟩ ⟨⟨hrow, hpos'⟩, hindex⟩
  obtain ⟨o', ho', i', hi', rfl⟩ := exists_place hrow
  rw [index_of_parts htotal ho' hpos' hi'] at hindex
  obtain ⟨hsame, rfl⟩ := place_inj hi' hi (Except.ok.inj hindex)
  obtain ⟨rfl, rfl⟩ := place_inj hpos' hpos hsame
  rfl

end Index

section Shape

variable {shape : List Nat} {axis : Nat} {view : AxisView}

/-- A shape around one of its axes. -/
theorem shape_eq_of_ofShape (h : ofShape shape axis = .ok view) :
    shape = shape.take axis ++ view.axisLen :: shape.drop (axis + 1) := by
  obtain ⟨hinside, hextent⟩ := List.getElem?_eq_some_iff.mp (ofShape_eq_ok h).1
  rw [← hextent, ← List.drop_eq_getElem_cons hinside, List.take_append_drop]

/-- The extents of a view describe as many elements as the shape. -/
theorem prod_eq_of_ofShape (h : ofShape shape axis = .ok view) :
    view.before * view.axisLen * view.after = shape.prod := by
  obtain ⟨-, hbefore, hafter⟩ := ofShape_eq_ok h
  rw [shape_eq_of_ofShape h, List.prod_append, List.prod_cons, ← Nat.mul_assoc, ← hbefore, ← hafter]

/-- The element at a coordinate is stored where its row and its position lead. -/
theorem exists_index_of_coordinate (hshape : DescribesElements shape) (h : ofShape shape axis = .ok view)
    {front back : List Nat} {entry : Nat} (hfront : InShape front (shape.take axis)) (hentry : entry < view.axisLen)
    (hback : InShape back (shape.drop (axis + 1))) :
    ∃ o i place, numberIn (shape.take axis) front = .ok o ∧ numberIn (shape.drop (axis + 1)) back = .ok i ∧
      o * view.after + i < view.before * view.after ∧ numberIn shape (front ++ entry :: back) = .ok place ∧
      view.index (o * view.after + i) entry = .ok place := by
  obtain ⟨-, hbefore, hafter⟩ := ofShape_eq_ok h
  have htotal : view.before * view.axisLen * view.after < Size.limit := prod_eq_of_ofShape h ▸ hshape.lt
  have ho : storedAt front (trailingProducts (shape.take axis)) < view.before := hbefore ▸ hfront.storedAt_lt
  have hi : storedAt back (trailingProducts (shape.drop (axis + 1))) < view.after := hafter ▸ hback.storedAt_lt
  have hwhole : InShape (front ++ entry :: back) shape := by
    rw [shape_eq_of_ofShape h, inShape_append hfront.length_eq, inShape_cons]
    exact ⟨hfront, hentry, hback⟩
  have hstored : storedAt (front ++ entry :: back) (trailingProducts shape) =
      (storedAt front (trailingProducts (shape.take axis)) * view.axisLen + entry) * view.after +
        storedAt back (trailingProducts (shape.drop (axis + 1))) := by
    rw [hafter, ← storedAt_around hfront.length_eq, ← shape_eq_of_ofShape h]
  refine ⟨_, _, _, (hshape.take axis).numberIn_eq_ok hfront, (hshape.drop (axis + 1)).numberIn_eq_ok hback,
    place_lt ho hi, hshape.numberIn_eq_ok hwhole, ?_⟩
  rw [hstored]
  exact index_of_parts htotal ho hentry hi

/-- The view of a shape that describes elements addresses them by rows. -/
theorem addresses_of_ofShape (hshape : DescribesElements shape) (h : ofShape shape axis = .ok view) :
    view.Addresses shape axis (view.before * view.after) := by
  have hprod := prod_eq_of_ofShape h
  have hlt := hshape.lt
  have hne : view.before * view.axisLen * view.after ≠ 0 := hprod ▸ hshape.ne_zero
  have hfactors := Nat.mul_ne_zero_iff.mp hne
  have hrows : view.before * view.after ≤ view.before * view.axisLen * view.after :=
    Nat.mul_le_mul_right _ (Nat.le_mul_of_pos_right _ (Nat.pos_of_ne_zero (Nat.mul_ne_zero_iff.mp hfactors.1).2))
  have hwalk : view.before * view.axisLen ≤ view.before * view.axisLen * view.after :=
    Nat.le_mul_of_pos_right _ (Nat.pos_of_ne_zero hfactors.2)
  obtain ⟨hextent, hsides⟩ := ofShape_eq_ok h
  exact
    { extent_eq := hextent
      rowCount_eq := Size.mul_of_lt (by omega)
      total_eq := by
        rw [total, Size.mul_of_lt (by omega), Outcome.ok_bind]
        exact Size.mul_eq_ok_iff.mpr ⟨by omega, hprod⟩
      numbered := ⟨hshape.numbered, (hshape.take axis).numbered, (hshape.drop (axis + 1)).numbered⟩
      sides_eq := hsides
      inside := by
        intro row hrow pos hpos
        obtain ⟨o, ho, i, hi, rfl⟩ := exists_place hrow
        exact ⟨_, hprod ▸ place_lt_total ho hpos hi, index_of_parts (by omega) ho hpos hi⟩
      once := fun place hplace => existsUnique_cell (by omega) (by omega)
      element := fun front entry back hfront hentry hback =>
        exists_index_of_coordinate hshape h hfront hentry hback }

end Shape

/-- A shape that describes elements, as many as a size can count, has rows along each of its axes, and they address its
elements one by one. -/
theorem exists_addresses {shape : List Nat} {axis : Nat} (haxis : axis < shape.length) (hne : shape.prod ≠ 0)
    (hlt : shape.prod < Size.limit) : ∃ view rows, ofShape shape axis = .ok view ∧ view.Addresses shape axis rows := by
  have hshape : DescribesElements shape := ⟨hne, hlt⟩
  have hback := hshape.drop (axis + 1)
  obtain ⟨view, hview, -, -⟩ := exists_ofShape (List.getElem?_eq_getElem haxis)
    ((fits_of_prod_ne_zero hne hlt).2.take (axis + 1)) (fits_of_prod_ne_zero hback.ne_zero hback.lt).2
  exact ⟨view, _, hview, addresses_of_ofShape hshape hview⟩

/-- Around the middle one of three axes, row four is the second one behind the second number in front of the axis, and
it walks the axis in steps of three. -/
theorem exists_addresses_three_axes :
    ∃ view rows, ofShape [2, 5, 3] 1 = .ok view ∧ view.Addresses [2, 5, 3] 1 rows ∧ rows = 6 ∧
      view.index 4 0 = .ok 16 ∧ view.index 4 1 = .ok 19 := by
  obtain ⟨view, rows, hview, haddresses⟩ := exists_addresses (show 1 < [2, 5, 3].length by decide)
    (by decide) (by decide)
  cases hview
  have hrows := haddresses.rowCount_eq
  cases hrows
  exact ⟨_, _, rfl, haddresses, rfl, rfl, rfl⟩

end AxisView

end MergePathSort
