import MergePathSort.Device.Pool
import MergePathSort.Proofs.Chunk
import MergePathSort.Proofs.Outcome

/-!
# Elements as bytes

A device stores the bytes of elements and takes bytes back as elements. For every element type that is the element which
was stored: the number of an element, modulo the range of its bytes, is enough to tell which one it is.

## Main definitions

* `LawfulElement` : the number of an element, modulo the range of its bytes, tells which element it is.

## Main results

* `Element.ofBytes_toBytes` : an element from its bytes.
* `Pool.decode_encode` : elements from their bytes, one after the other.
-/

namespace MergePathSort

/-- The number of an element, modulo the range of its bytes, tells which element it is. -/
class LawfulElement (κ : Type) [Element κ] : Prop where
  /-- An element has bytes. -/
  width_pos : 0 < Element.width κ
  /-- An element is at most as large as a machine word. -/
  width_le : Element.width κ ≤ 8
  /-- An element from its number. -/
  ofNumber_mod (x : κ) : Element.ofNumber (Element.toNumber x % (Nat.pow 256 (Element.width κ) : Nat)) = x

/-! ### The element types -/

/-- An unsigned number from its remainder. -/
theorem toNat_emod {n bound : Nat} (h : n < bound) : ((n : Int) % (bound : Nat) % (bound : Nat)).toNat = n := by
  rw [Int.emod_emod, Int.emod_eq_of_lt (by omega) (by omega), Int.toNat_natCast]

instance : LawfulElement UInt8 where
  width_pos := by decide
  width_le := by decide
  ofNumber_mod x := (congrArg UInt8.ofNat (toNat_emod x.toNat_lt)).trans UInt8.ofNat_toNat

instance : LawfulElement UInt16 where
  width_pos := by decide
  width_le := by decide
  ofNumber_mod x := (congrArg UInt16.ofNat (toNat_emod x.toNat_lt)).trans UInt16.ofNat_toNat

instance : LawfulElement UInt32 where
  width_pos := by decide
  width_le := by decide
  ofNumber_mod x := (congrArg UInt32.ofNat (toNat_emod x.toNat_lt)).trans UInt32.ofNat_toNat

instance : LawfulElement UInt64 where
  width_pos := by decide
  width_le := by decide
  ofNumber_mod x := (congrArg UInt64.ofNat (toNat_emod x.toNat_lt)).trans UInt64.ofNat_toNat

instance : LawfulElement Int8 where
  width_pos := by decide
  width_le := by decide
  ofNumber_mod x := by
    change Int8.ofInt (x.toInt % (Int8.size : Nat)) = x
    rw [← Int8.toInt_inj, Int8.toInt_ofInt, Int.emod_bmod, ← Int8.toInt_ofInt, Int8.ofInt_toInt]

instance : LawfulElement Int16 where
  width_pos := by decide
  width_le := by decide
  ofNumber_mod x := by
    change Int16.ofInt (x.toInt % (Int16.size : Nat)) = x
    rw [← Int16.toInt_inj, Int16.toInt_ofInt, Int.emod_bmod, ← Int16.toInt_ofInt, Int16.ofInt_toInt]

instance : LawfulElement Int32 where
  width_pos := by decide
  width_le := by decide
  ofNumber_mod x := by
    change Int32.ofInt (x.toInt % (Int32.size : Nat)) = x
    rw [← Int32.toInt_inj, Int32.toInt_ofInt, Int.emod_bmod, ← Int32.toInt_ofInt, Int32.ofInt_toInt]

instance : LawfulElement Int64 where
  width_pos := by decide
  width_le := by decide
  ofNumber_mod x := by
    change Int64.ofInt (x.toInt % (Int64.size : Nat)) = x
    rw [← Int64.toInt_inj, Int64.toInt_ofInt, Int.emod_bmod, ← Int64.toInt_ofInt, Int64.ofInt_toInt]

instance : LawfulElement Binary32 where
  width_pos := by decide
  width_le := by decide
  ofNumber_mod x := congrArg Binary32.mk (LawfulElement.ofNumber_mod x.bits)

instance : LawfulElement Binary64 where
  width_pos := by decide
  width_le := by decide
  ofNumber_mod x := congrArg Binary64.mk (LawfulElement.ofNumber_mod x.bits)

/-! ### One element -/

namespace Element

@[simp]
theorem length_lowBytes (n bits : Nat) : (lowBytes n bits).length = n := by
  induction n generalizing bits with
  | zero => rfl
  | succ n ih => rw [lowBytes, List.length_cons, ih]

/-- The number of the lowest bytes of a number. -/
theorem bytesNumber_lowBytes (n bits : Nat) : bytesNumber (lowBytes n bits) = bits % Nat.pow 256 n := by
  induction n generalizing bits with
  | zero => exact (Nat.mod_one bits).symm
  | succ n ih =>
    have hlow : (UInt8.ofNat bits).toNat = bits % 256 := UInt8.toNat_ofNat'
    rw [lowBytes, bytesNumber, ih, hlow, show Nat.pow 256 (n + 1) = 256 * Nat.pow 256 n from Nat.pow_succ',
      Nat.mod_mul]

variable {κ : Type} [Element κ]

@[simp]
theorem length_toBytes (x : κ) : (toBytes x).length = width κ := length_lowBytes _ _

/-- An element from its bytes. -/
theorem ofBytes_toBytes [LawfulElement κ] (x : κ) : ofBytes (toBytes x) = x := by
  have hpos : (0 : Int) < (Nat.pow 256 (width κ) : Nat) :=
    Int.natCast_pos.mpr (Nat.pow_pos (by decide : 0 < 256))
  have hlow := Int.emod_nonneg (toNumber x) (Int.ne_of_gt hpos)
  have hhigh := Int.emod_lt_of_pos (toNumber x) hpos
  rw [ofBytes, toBytes, bytesNumber_lowBytes, Nat.mod_eq_of_lt (by omega), Int.toNat_of_nonneg hlow]
  exact LawfulElement.ofNumber_mod x

end Element

/-! ### Elements one after the other -/

namespace Pool

variable {κ : Type} [Element κ]

/-- The bytes of elements, as a list. -/
theorem toList_encode (data : Array κ) : (encode data).toList = data.toList.flatMap Element.toBytes := by
  have hfold : ∀ (xs : List κ) (bytes : Array UInt8),
      (xs.foldl (fun (bytes : Array UInt8) x => bytes ++ Element.toBytes x) bytes).toList =
        bytes.toList ++ xs.flatMap Element.toBytes := by
    intro xs
    induction xs with
    | nil => simp
    | cons x xs ih =>
      intro bytes
      rw [List.foldl_cons, ih, List.flatMap_cons, ← List.append_assoc]
      simp
  rw [encode, ← Array.foldl_toList, hfold]
  rfl

/-- Bytes that are put together from the bytes of as many elements are taken as those elements. -/
theorem decode_eq_ok (hpos : 0 < Element.width κ) {bytes : Array UInt8} {parts : List (List UInt8)}
    (hparts : ∀ part ∈ parts, part.length = Element.width κ) (hbytes : bytes.toList = parts.flatten) :
    decode κ bytes = .ok (parts.map Element.ofBytes).toArray := by
  have hsize : bytes.size = parts.length * Element.width κ := by
    rw [← Array.length_toList, hbytes, List.length_flatten, List.map_congr_left hparts, List.map_const',
      List.sum_replicate_nat]
  have hcount : bytes.size / Element.width κ = parts.length := by rw [hsize, Nat.mul_div_cancel _ hpos]
  have hwhole : bytes.size % Element.width κ = 0 := by rw [hsize, Nat.mul_mod_left]
  simp only [decode, hwhole, if_true, hcount]
  congr 1
  refine Array.ext (by simp) fun n hn _ => ?_
  have hnumber : n < parts.length := by simpa using hn
  simp only [Array.getElem_map, Array.getElem_range, extract_eq_chunk, hbytes, List.getElem_toArray, List.getElem_map]
  rw [chunk_flatten hparts hnumber]

/-- Elements from their bytes. -/
theorem decode_encode [LawfulElement κ] (data : Array κ) : decode κ (encode data) = .ok data := by
  have hbytes : (encode data).toList = (data.toList.map Element.toBytes).flatten := by
    rw [toList_encode, List.flatMap_def]
  rw [decode_eq_ok LawfulElement.width_pos (by simp) hbytes]
  simp [Function.comp_def, Element.ofBytes_toBytes]

end Pool

end MergePathSort
