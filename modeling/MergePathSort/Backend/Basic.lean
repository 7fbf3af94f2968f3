import MergePathSort.Key.Element
import MergePathSort.Outcome
import MergePathSort.Search

/-!
# Backends

A backend sorts and searches rows that are stored one after the other. Whatever its means, the rows that it
returns are sorted in the direction that is asked for, and equal keys keep their order, so that the source
positions are the same for every backend.

## Main definitions

* `Backend` : what a backend does.
* `splitRows` : cuts data into rows, or refuses to.
-/

namespace MergePathSort

/-- What a backend of type `β` does. Sorting and searching may change it. -/
class Backend (β : Type) where
  /-- The backend's name. -/
  name : String
  /-- Sorts every row of a given length. -/
  sort {κ : Type} [Element κ] : Array κ → Nat → Direction → Stateful β (Array κ)
  /-- Sorts every row of a given length, and says where along its row each key came from. -/
  argsort {κ : Type} (ι : Type) [Element κ] [IndexElement ι] :
    Array κ → Nat → Direction → Stateful β (Array κ × Array ι)
  /-- Places needles, the second list of keys, into sorted rows, as a matching says, from the left or the right. -/
  search {κ : Type} [Element κ] : Array κ → Array κ → Matching → Bool → Stateful β (Array Nat)

/-- The number of rows and their length, if the data is a whole number of rows that are not empty. -/
def splitRows (len axisLen : Nat) : Outcome (List Nat) :=
  if axisLen = 0 ∨ len % axisLen ≠ 0 then .refuse (.shapeMismatch [axisLen] len)
  else .ok [len / axisLen, axisLen]

end MergePathSort
