import MergePathSort.Backend.Basic
import MergePathSort.Device.Engine

/-!
# The device backend

The device backend lowers the rows to a program and runs it on a device. Source positions are words there and
become index elements afterwards.
-/

namespace MergePathSort

/-- Lowers rows to a program and runs it on the device. -/
def DeviceEngine.runRows {κ : Type} [Element κ] (data : Array κ) (axisLen : Nat) (direction : Direction)
    (indexed : Bool) : Stateful DeviceEngine (Array κ × Option (Array UInt32)) := do
  let shape ← Stateful.ofOutcome (splitRows data.size axisLen)
  let program ← Stateful.ofOutcome (Program.lower shape 1 direction indexed (← get).config)
  DeviceEngine.execute program data

instance : Backend DeviceEngine where
  name := "cube-mergepath"
  sort data axisLen direction := do
    if data.isEmpty then return #[]
    let (values, _) ← DeviceEngine.runRows data axisLen direction false
    return values
  argsort _ _ _ data axisLen direction := do
    if data.isEmpty then return (#[], #[])
    match ← DeviceEngine.runRows data axisLen direction true with
    | (values, some words) => return (values, words.map fun word => IndexElement.ofPosition word.toNat)
    | (_, none) => Stateful.ofOutcome (.refuse (.bufferMismatch data.size 0))
  search sorted values matching right := do
    let places ← DeviceEngine.search sorted values matching.rowLen matching.perRow matching.batched right
    return places.map UInt32.toNat

end MergePathSort
