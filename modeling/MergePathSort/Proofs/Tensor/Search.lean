import Mathlib
import MergePathSort.Backend.Host
import MergePathSort.Backend.Slice
import MergePathSort.Proofs.Search.Matching
import MergePathSort.Proofs.Tensor.Lines
import MergePathSort.Tensor.Sort

/-!
# Searching tensors

Needles are placed into the rows of a sorted tensor along its last axis. The needle at a coordinate is searched for in
the whole tensor if that has one axis, and in the row with the coordinate's leading entries otherwise; that row is found
by dividing the needle's number, which agrees with the coordinate as both tensors are row-major. A search on the host
changes no state, and is refused exactly if the shapes cannot be matched or a row has more places than the index type has
positions.

## Main definitions

* `SearchesRows` : backends that search on the host.
* `Tensor.matchingRow` : the row that a coordinate is matched with.
* `Tensor.PlacesNeedles` : what a search returns.

## Main results

* `Matching.Matches.matchingRow_eq` : the row of a needle is that of its coordinate.
* `Tensor.searchLast_places` : when a search is refused, and what it returns.
-/

namespace MergePathSort

/-- A backend that searches on the host, without changing its state. -/
class SearchesRows (β : Type) [Backend β] : Prop where
  /-- A search is that of the matching. -/
  search_eq {κ : Type} [Element κ] (sorted values : Array κ) (matching : Matching) (right : Bool) :
    (Backend.search sorted values matching right : Stateful β (Array Nat)) =
      Stateful.ofOutcome (matching.search sorted values right)

instance : SearchesRows HostBackend := ⟨fun _ _ _ _ => rfl⟩
instance : SearchesRows SliceBackend := ⟨fun _ _ _ _ => rfl⟩

namespace Tensor

variable {κ ι α : Type}

/-- The row that a coordinate is matched with: everything, if there is one axis, and otherwise what stands along the last
axis at the leading entries of the coordinate. -/
def matchingRow (sorted : Tensor κ) (coordinate : List Nat) : Outcome (List κ) :=
  if sorted.rank = 1 then .ok sorted.data.toList else sorted.line (sorted.rank - 1) coordinate

/-- What a search returns: a tensor of the needles' shape, and at every coordinate the number of keys of the matching row
that stand in front of the needle, if these are at the front of the row, as they are in an ascending one. -/
structure PlacesNeedles [KeyOrder κ] [IndexElement ι] (right : Bool) (sorted needles : Tensor κ)
    (found : Tensor ι) : Prop where
  /-- The places are row-major. -/
  rowMajor : found.RowMajor
  /-- The places have the shape of the needles. -/
  shape_eq : found.shape = needles.shape
  /-- The place of the needle at a coordinate. -/
  place : ∀ coordinate, InShape coordinate needles.shape → ∃ needle row place,
    needles.elementAt coordinate = .ok needle ∧ sorted.matchingRow coordinate = .ok row ∧
    found.elementAt coordinate = .ok place ∧
    (row.Pairwise (KeyOrder.le · · = true) ∨ PartitionedBy (standsBefore right · needle) row →
      Element.toNumber place = row.countP (standsBefore right · needle))

/-- A shape that a row-major tensor has serves other elements, as many as the tensor has. -/
theorem RowMajor.exists_ofShape {t : Tensor κ} (h : t.RowMajor) (hcount : t.elementCount = .ok t.data.size)
    {data : Array α} (hsize : data.size = t.data.size) : ∃ made, Tensor.ofShape data t.shape = .ok made := by
  obtain ⟨strides, hstrides, -⟩ := Outcome.bind_eq_ok_iff.mp h.isRowMajor_eq
  rw [elementCount] at hcount
  refine ⟨⟨data, strides, t.shape⟩, ?_⟩
  rw [ofShape, hstrides, Outcome.ok_bind, ofStrides, hcount, Outcome.ok_bind, if_pos hsize.symm, Outcome.pure_eq_ok]

end Tensor

section Matching

variable {κ : Type} {matching : Matching} {sorted : Tensor κ} {values coordinate : List Nat}

/-- The row of a needle is the row that its coordinate is matched with. -/
theorem Matching.Matches.matchingRow_eq (h : matching.Matches sorted.shape values) (hmajor : sorted.RowMajor)
    (hc : InShape coordinate values) :
    sorted.matchingRow coordinate =
      .ok (chunk matching.rowLen sorted.data.toList
        (matching.row (storedAt coordinate (trailingProducts values)))) := by
  have hsize := hmajor.size_eq
  generalize hshape : sorted.shape = shape at h
  cases h with
  | whole rowLen values =>
    have hone : sorted.rank = 1 := by rw [Tensor.rank, hshape, List.length_singleton]
    have hall : chunk rowLen sorted.data.toList 0 = sorted.data.toList := by
      rw [chunk, Nat.zero_mul, List.drop_zero]
      exact List.take_of_length_le (by simp [hsize, hshape])
    rw [Tensor.matchingRow, if_pos hone]
    exact congrArg Except.ok hall.symm
  | rows first leading rowLen perRow =>
    -- The needle stands behind the needles of the rows before, so its number divided by their width is its row.
    obtain ⟨others, entry, rfl⟩ : ∃ others entry, coordinate = others ++ [entry] := by
      have hne : coordinate ≠ [] := fun hnil => by simpa [hnil] using hc.length_eq
      exact ⟨coordinate.dropLast, coordinate.getLast hne, (List.dropLast_concat_getLast hne).symm⟩
    have hlen : others.length = (first :: leading).length := by simpa using hc.length_eq
    have hentry : entry < perRow := by
      refine hc.lt others.length entry perRow ?_ ?_
      · rw [List.getElem?_append_right (Nat.le_refl _), Nat.sub_self, List.getElem?_cons_zero]
      · rw [hlen, List.getElem?_append_right (Nat.le_refl _), Nat.sub_self, List.getElem?_cons_zero]
    have hline : InShapeBut (first :: leading).length (others ++ [entry]) sorted.shape := by
      refine ⟨by simp [hshape, hlen], fun axis e extent haxis he hextent => ?_⟩
      rw [hshape] at hextent
      obtain ⟨hinside, -⟩ := List.getElem?_eq_some_iff.mp hextent
      rw [List.length_append, List.length_singleton] at hinside
      rw [List.getElem?_append_left (by omega)] at hextent
      exact hc.lt axis e extent he (by rwa [List.getElem?_append_left (by omega)])
    have hrank : sorted.rank = (first :: leading).length + 1 := by
      rw [Tensor.rank, hshape, List.length_append, List.length_singleton]
    have hrow : storedAt (others ++ [entry]) (trailingProducts ((first :: leading) ++ [perRow])) / perRow =
        Tensor.lineNumber (first :: leading) (others ++ [entry]) := by
      rw [storedAt_append_singleton hlen, Tensor.lineNumber, List.take_left' hlen, place_div _ hentry]
    rw [Tensor.matchingRow, if_neg (by simp [hrank]), hrank, Nat.add_sub_cancel, Matching.row, if_pos rfl, hrow]
    exact (hmajor.line_last hshape hline).2

end Matching

/-! ### Searching along the last axis -/

namespace Tensor

section Search

variable {β : Type} [Backend β] {κ ι : Type} [Element κ] [IndexElement ι] {sorted needles : Tensor κ} {right : Bool}
  {backend : β} {matching : Matching}

/-- Needles whose shape cannot be matched are refused. -/
theorem searchLast_of_mismatch (hcount : needles.elementCount = .ok needles.shape.prod)
    (h : Matching.Mismatch sorted.shape needles.shape) :
    (sorted.searchLast ι needles right : Stateful β _).run backend =
      (.error (.refused (.searchShapeMismatch sorted.shape needles.shape)), backend) := by
  refine Stateful.run_bind_of_eq_error ?_ _
  rw [Matching.ofShapes_eq_refuse hcount h]
  rfl

/-- A search goes on to the check of the index type with the matching of the shapes. -/
theorem searchLast_of_matching (h : Matching.ofShapes sorted.shape needles.shape = .ok matching)
    (hroom : matching.rowLen + 1 < Size.limit) :
    (sorted.searchLast ι needles right : Stateful β _).run backend =
      Stateful.run (do
        Stateful.ofOutcome (requirePositions ι (matching.rowLen + 1))
        let found ← Backend.search sorted.data needles.data matching right
        Stateful.ofOutcome (Tensor.ofShape (found.map IndexElement.ofPosition) needles.shape) :
          Stateful β (Tensor ι)) backend := by
  have hplaces : Size.add matching.rowLen 1 = .ok (matching.rowLen + 1) := Size.add_of_lt hroom
  rw [searchLast, Stateful.run_bind_of_eq_ok (Stateful.run_ofOutcome_of_eq_ok h backend),
    Stateful.run_bind_of_eq_ok (Stateful.run_ofOutcome_of_eq_ok hplaces backend)]

/-- A row with more places than the index type has positions is refused. -/
theorem searchLast_of_indexRange (h : Matching.ofShapes sorted.shape needles.shape = .ok matching)
    (hroom : matching.rowLen + 1 < Size.limit) (hrange : IndexElement.maxPosition ι < matching.rowLen) :
    (sorted.searchLast ι needles right : Stateful β _).run backend =
      (.error (.refused (.indexRange (matching.rowLen + 1) (IndexElement.name ι))), backend) := by
  have hfits : IndexElement.fits ι (matching.rowLen + 1) = false := by
    simp [IndexElement.fits, hrange]
  rw [searchLast_of_matching h hroom]
  refine Stateful.run_bind_of_eq_error ?_ _
  rw [requirePositions, hfits]
  rfl

/-- Any other search returns a place for every needle. -/
theorem exists_searchLast [SearchesRows β] (hsorted : sorted.RowMajor) (hneedles : needles.RowMajor)
    (hcount : needles.elementCount = .ok needles.data.size)
    (h : Matching.ofShapes sorted.shape needles.shape = .ok matching)
    (hmatches : matching.Matches sorted.shape needles.shape) (hroom : matching.rowLen + 1 < Size.limit)
    (hrange : matching.rowLen ≤ IndexElement.maxPosition ι) (right : Bool) (backend : β) :
    ∃ found : Tensor ι, (sorted.searchLast ι needles right : Stateful β _).run backend = (.ok found, backend) ∧
      found.RowMajor ∧ found.shape = needles.shape ∧
      found.data = (matching.places sorted.data needles.data right).map IndexElement.ofPosition := by
  have hfits : IndexElement.fits ι (matching.rowLen + 1) = true := by
    simp [IndexElement.fits, hrange]
  have hpositions : requirePositions ι (matching.rowLen + 1) = .ok () := by rw [requirePositions, if_pos hfits]
  have hsearch := hmatches.search_eq_ok hsorted.size_eq hneedles.size_eq hsorted.size_lt right
  have hsize : ((matching.places sorted.data needles.data right).map (IndexElement.ofPosition : Nat → ι)).size =
      needles.data.size := by rw [Array.size_map, Matching.size_places]
  obtain ⟨found, hfound⟩ := hneedles.exists_ofShape hcount hsize
  obtain ⟨hmajor, hdata, hshape⟩ := RowMajor.of_ofShape hfound
  refine ⟨found, ?_, hmajor, hshape, hdata⟩
  rw [searchLast_of_matching h hroom, Stateful.run_bind_of_eq_ok (Stateful.run_ofOutcome_of_eq_ok hpositions backend),
    SearchesRows.search_eq, Stateful.run_bind_of_eq_ok (Stateful.run_ofOutcome_of_eq_ok hsearch backend)]
  exact Stateful.run_ofOutcome_of_eq_ok hfound backend

/-- The places that a search returns. -/
theorem placesNeedles_of_search [RankedOrder κ] [FaithfulIndex ι] (hsorted : sorted.RowMajor)
    (hneedles : needles.RowMajor) (hmatches : matching.Matches sorted.shape needles.shape)
    (hrange : matching.rowLen ≤ IndexElement.maxPosition ι) {found : Tensor ι} (hmajor : found.RowMajor)
    (hshape : found.shape = needles.shape)
    (hdata : found.data = (matching.places sorted.data needles.data right).map IndexElement.ofPosition) :
    PlacesNeedles right sorted needles found := by
  refine ⟨hmajor, hshape, fun c hc => ?_⟩
  have hstored := hc.storedAt_lt
  rw [← hneedles.size_eq] at hstored
  have hneedle : needles.data[storedAt c (trailingProducts needles.shape)]? =
      some needles.data[storedAt c (trailingProducts needles.shape)] := Array.getElem?_eq_getElem hstored
  generalize hkey : needles.data[storedAt c (trailingProducts needles.shape)] = needle at hneedle
  refine ⟨needle, _, IndexElement.ofPosition (insertionPoint right (chunk matching.rowLen sorted.data.toList
      (matching.row (storedAt c (trailingProducts needles.shape)))).toArray needle), ?_,
    hmatches.matchingRow_eq hsorted hc, ?_, fun hrow => ?_⟩
  · rw [hneedles.elementAt_eq hc, Buffer.read_eq_ok_iff, hneedle]
  · rw [hmajor.elementAt_eq (hshape ▸ hc), hshape, Buffer.read_eq_ok_iff, hdata, Array.getElem?_map,
      Matching.getElem?_places hneedle, Option.map_some]
  · have hpartitioned := hrow.elim (partitionedBy_of_ascending · right needle) id
    rw [insertionPoint_eq_countP hpartitioned]
    refine FaithfulIndex.toNumber_ofPosition _ (Nat.le_trans (Nat.le_trans List.countP_le_length ?_) hrange)
    rw [length_chunk]
    exact Nat.min_le_left _ _

/-- Searching a row-major tensor on the host. The search is refused for its shapes exactly if they cannot be matched. If
they can, it is refused for its index type exactly if that does not hold the length of a row. Otherwise it returns the
places of all needles. -/
theorem searchLast_places [SearchesRows β] [RankedOrder κ] [FaithfulIndex ι] (hsorted : sorted.RowMajor)
    (hneedles : needles.RowMajor) (hcount : needles.elementCount = .ok needles.data.size)
    (hroom : ∀ rowLen ∈ sorted.shape.getLast?, rowLen + 1 < Size.limit) (right : Bool) (backend : β) :
    ((sorted.searchLast ι needles right : Stateful β _).run backend =
        (.error (.refused (.searchShapeMismatch sorted.shape needles.shape)), backend) ↔
      Matching.Mismatch sorted.shape needles.shape) ∧
    (¬Matching.Mismatch sorted.shape needles.shape → ∃ rowLen, sorted.shape.getLast? = some rowLen ∧
      ((sorted.searchLast ι needles right : Stateful β _).run backend =
          (.error (.refused (.indexRange (rowLen + 1) (IndexElement.name ι))), backend) ↔
        IndexElement.maxPosition ι < rowLen) ∧
      (rowLen ≤ IndexElement.maxPosition ι → ∃ found : Tensor ι,
        (sorted.searchLast ι needles right : Stateful β _).run backend = (.ok found, backend) ∧
        PlacesNeedles right sorted needles found)) := by
  have hproduct : needles.elementCount = .ok needles.shape.prod := hneedles.size_eq ▸ hcount
  by_cases hmatch : Matching.Mismatch sorted.shape needles.shape
  · exact ⟨⟨fun _ => hmatch, searchLast_of_mismatch hproduct⟩, fun hnot => absurd hmatch hnot⟩
  obtain ⟨matching, hshapes, hmatches⟩ := Matching.exists_ofShapes hproduct hmatch
  have hplaces := hroom _ hmatches.getLast?_eq
  rcases Nat.lt_or_ge (IndexElement.maxPosition ι) matching.rowLen with hrange | hrange
  · have hrun : (sorted.searchLast ι needles right : Stateful β _).run backend =
        (.error (.refused (.indexRange (matching.rowLen + 1) (IndexElement.name ι))), backend) :=
      searchLast_of_indexRange hshapes hplaces hrange
    refine ⟨⟨fun hrefused => ?_, fun h => absurd h hmatch⟩, fun _ => ⟨matching.rowLen, hmatches.getLast?_eq,
      ⟨fun _ => hrange, fun _ => hrun⟩, fun hle => absurd hle (Nat.not_le_of_lt hrange)⟩⟩
    rw [hrun] at hrefused
    cases hrefused
  · obtain ⟨found, hrun, hmajor, hshape, hdata⟩ :=
      exists_searchLast hsorted hneedles hcount hshapes hmatches hplaces hrange right backend
    refine ⟨⟨fun hrefused => ?_, fun h => absurd h hmatch⟩, fun _ => ⟨matching.rowLen, hmatches.getLast?_eq,
      ⟨fun hrefused => ?_, fun hlt => absurd hlt (Nat.not_lt_of_le hrange)⟩, fun _ => ⟨found, hrun,
        placesNeedles_of_search hsorted hneedles hmatches hrange hmajor hshape hdata⟩⟩⟩
    · rw [hrun] at hrefused
      cases hrefused
    · rw [hrun] at hrefused
      cases hrefused

end Search

/-- Two rows of three keys, with two needles for each, searched from the right on both backends. The needles of the second
row are searched for in the second row only. -/
theorem searchLast_two_rows :
    ((⟨#[1, 2, 3, 10, 20, 30], [3, 1], [2, 3]⟩ : Tensor UInt8).searchLast Int32 ⟨#[2, 4, 10, 31], [2, 1], [2, 2]⟩ true :
        Stateful HostBackend _).run {} = (.ok ⟨#[2, 3, 1, 3], [2, 1], [2, 2]⟩, {}) ∧
      ((⟨#[1, 2, 3, 10, 20, 30], [3, 1], [2, 3]⟩ : Tensor UInt8).searchLast Int32 ⟨#[2, 4, 10, 31], [2, 1], [2, 2]⟩ true :
        Stateful SliceBackend _).run {} = (.ok ⟨#[2, 3, 1, 3], [2, 1], [2, 2]⟩, {}) ∧
      PlacesNeedles true (⟨#[1, 2, 3, 10, 20, 30], [3, 1], [2, 3]⟩ : Tensor UInt8) ⟨#[2, 4, 10, 31], [2, 1], [2, 2]⟩
        (⟨#[2, 3, 1, 3], [2, 1], [2, 2]⟩ : Tensor Int32) := by
  have hsorted : (⟨#[1, 2, 3, 10, 20, 30], [3, 1], [2, 3]⟩ : Tensor UInt8).RowMajor := ⟨rfl, rfl, by decide⟩
  have hneedles : (⟨#[2, 4, 10, 31], [2, 1], [2, 2]⟩ : Tensor UInt8).RowMajor := ⟨rfl, rfl, by decide⟩
  have hmatch : ¬Matching.Mismatch [2, 3] [2, 2] := by simp [Matching.Mismatch]
  have hhost : ((⟨#[1, 2, 3, 10, 20, 30], [3, 1], [2, 3]⟩ : Tensor UInt8).searchLast Int32
      ⟨#[2, 4, 10, 31], [2, 1], [2, 2]⟩ true : Stateful HostBackend _).run {} =
      (.ok ⟨#[2, 3, 1, 3], [2, 1], [2, 2]⟩, {}) := Prod.ext (by cbv) rfl
  refine ⟨hhost, Prod.ext (by cbv) rfl, ?_⟩
  obtain ⟨_, hlast, -, hplaces⟩ := (searchLast_places (ι := Int32) hsorted hneedles rfl (by simp [Size.limit]) true
    ({} : HostBackend)).2 hmatch
  cases hlast
  obtain ⟨found, hrun, hfound⟩ := hplaces (by decide)
  rw [hhost] at hrun
  cases hrun
  exact hfound

end Tensor

end MergePathSort
