import Mathlib.Data.List.Basic
import MergePathSort.Proofs.Json.Strings

/-!
# Written numbers are read back

A natural number is written in decimal digits without a leading zero. Read back it is a significand that is never cut
short, since it stays below `2 ^ 64`, and a value that a 64-bit float can hold, since rounding at most doubles it. What
follows the number must not go on with it: in an object a comma or the closing bracket does.

The digits are looked at from the last one: a number of at least ten is its tenth, followed by one more digit.

## Main definitions

* `decimal` : the digits of a number as they are written.
* `EndsValue` : what may follow a value.

## Main results

* `digitsValue_decimal`, `takeSignificant_decimal` : what is read off the digits.
* `isFinite_decimal` : the number lies in the range of a 64-bit float.
* `scanNatural_decimal` : a number below the limit is read back.
-/

namespace MergePathSort.Json

/-! ### Digits -/

/-- A number as it is written. -/
def decimal (n : Nat) : Text := bytes (toString n)

theorem decimal_eq_map (n : Nat) : decimal n = (Nat.toDigits 10 n).map fun c => UInt8.ofNat c.toNat := by
  rw [decimal, Nat.toString_eq_ofList_toDigits, bytes_ofList, List.map_eq_flatMap]
  refine List.flatMap_congr fun c hc => utf8EncodeChar_of_lt ?_
  obtain ⟨-, hle⟩ := Char.isDigit_iff_toNat.mp (Nat.isDigit_of_mem_toDigits (by decide) (by decide) hc)
  exact Nat.lt_of_le_of_lt hle (by decide)

/-- The only digit of a small number. -/
theorem decimal_of_lt {n : Nat} (h : n < 10) : decimal n = [UInt8.ofNat (0x30 + n)] := by
  rw [decimal_eq_map, Nat.toDigits_of_lt_base h, List.map_singleton, Nat.toNat_digitChar_of_lt_ten h]

/-- The last digit of a number. -/
theorem decimal_of_le {n : Nat} (h : 10 ≤ n) : decimal n = decimal (n / 10) ++ [UInt8.ofNat (0x30 + n % 10)] := by
  have hlast : n % 10 < 10 := Nat.mod_lt n (by decide)
  rw [decimal_eq_map, decimal_eq_map, Nat.toDigits_of_base_le (by decide) h, List.map_append, List.map_singleton,
    Nat.toNat_digitChar_of_lt_ten hlast]

/-- What holds of the digits of small numbers, and of a number if it holds of its tenth. -/
theorem decimal_induction {motive : Nat → Prop} (small : ∀ n < 10, motive n)
    (tenth : ∀ n, 10 ≤ n → motive (n / 10) → motive n) (n : Nat) : motive n := by
  induction n using Nat.strongRecOn with
  | ind n ih =>
    rcases Nat.lt_or_ge n 10 with h | h
    · exact small n h
    · exact tenth n h (ih (n / 10) (by omega))

/-- The byte of a digit. -/
theorem toNat_digit {d : Nat} (h : d < 10) : (UInt8.ofNat (0x30 + d)).toNat = 0x30 + d :=
  UInt8.toNat_ofNat_of_lt' (Nat.lt_trans (Nat.add_lt_add_left h 0x30) (by decide))

theorem isDigit_digit {d : Nat} (h : d < 10) : isDigit (UInt8.ofNat (0x30 + d)) = true := by
  revert d
  decide

theorem isBlank_of_isDigit {b : UInt8} (h : isDigit b = true) : isBlank b = false := by
  simp only [isDigit, Bool.and_eq_true, decide_eq_true_eq] at h
  simp only [isBlank, Bool.or_eq_false_iff, beq_eq_false_iff_ne]
  refine ⟨⟨⟨?_, ?_⟩, ?_⟩, ?_⟩ <;> rintro rfl <;> exact absurd h.1 (by decide)

theorem isDigit_of_mem_decimal {n : Nat} {b : UInt8} (hb : b ∈ decimal n) : isDigit b = true := by
  induction n using decimal_induction with
  | small n h =>
    rw [decimal_of_lt h, List.mem_singleton] at hb
    exact hb ▸ isDigit_digit h
  | tenth n h ih =>
    rw [decimal_of_le h, List.mem_append, List.mem_singleton] at hb
    rcases hb with hb | rfl
    · exact ih hb
    · exact isDigit_digit (Nat.mod_lt n (by decide))

/-- A number starts with a digit, which is zero only for the number zero. -/
theorem exists_decimal_eq_cons (n : Nat) :
    ∃ b rest, decimal n = b :: rest ∧ isDigit b = true ∧ (b = 0x30 → n = 0) := by
  induction n using decimal_induction with
  | small n h =>
    refine ⟨_, [], decimal_of_lt h, isDigit_digit h, fun hzero => ?_⟩
    have hvalue := toNat_digit h
    rw [hzero] at hvalue
    exact (Nat.add_left_cancel hvalue).symm
  | tenth n h ih =>
    obtain ⟨b, rest, hdigits, hdigit, hzero⟩ := ih
    refine ⟨b, _, by rw [decimal_of_le h, hdigits, List.cons_append], hdigit, fun hb => ?_⟩
    have := hzero hb
    omega

theorem digitsValue_append (digits : List UInt8) (b : UInt8) :
    digitsValue (digits ++ [b]) = 10 * digitsValue digits + (b.toNat - 0x30) := by
  rw [digitsValue, List.foldl_append]
  rfl

/-- The digits of a number have its value. -/
theorem digitsValue_decimal (n : Nat) : digitsValue (decimal n) = n := by
  induction n using decimal_induction with
  | small n h =>
    rw [decimal_of_lt h, digitsValue, List.foldl_cons, toNat_digit h]
    simp
  | tenth n h ih =>
    rw [decimal_of_le h, digitsValue_append, ih, toNat_digit (Nat.mod_lt n (by decide))]
    omega

/-- Digits that leave none over, followed by others. -/
theorem takeSignificant_append {start value : Nat} {digits : List UInt8}
    (h : Numeral.takeSignificant start digits = (value, [])) (more : List UInt8) :
    Numeral.takeSignificant start (digits ++ more) = Numeral.takeSignificant value more := by
  induction digits generalizing start with
  | nil =>
    cases h
    rfl
  | cons b digits ih =>
    rw [Numeral.takeSignificant] at h
    rw [List.cons_append, Numeral.takeSignificant]
    split at h
    · rw [if_pos ‹_›]
      exact ih h
    · cases h

/-- All digits of a number below `2 ^ 64` are significant. -/
theorem takeSignificant_decimal {n : Nat} (h : n < Numeral.significandLimit) :
    Numeral.takeSignificant 0 (decimal n) = (n, []) := by
  induction n using decimal_induction with
  | small n hsmall =>
    rw [decimal_of_lt hsmall, Numeral.takeSignificant, toNat_digit hsmall]
    have hvalue : 10 * 0 + (0x30 + n - 0x30) = n := by omega
    rw [hvalue, if_pos h]
    rfl
  | tenth n hle ih =>
    rw [decimal_of_le hle, takeSignificant_append (ih (by omega)), Numeral.takeSignificant,
      toNat_digit (Nat.mod_lt n (by decide))]
    have hvalue : 10 * (n / 10) + (0x30 + n % 10 - 0x30) = n := by omega
    rw [hvalue, if_pos h]
    rfl

/-! ### The range of a float -/

/-- Rounding at most doubles a number. -/
theorem nearestBinary64_le {n : Nat} (h : n ≠ 0) : Decimal.nearestBinary64 n ≤ 2 * n := by
  have hunit : Nat.pow 2 (n.log2 - 52) ≤ n :=
    Nat.le_trans (Nat.pow_le_pow_right (by decide) (Nat.sub_le _ _)) (Nat.log2_self_le h)
  have hround : ∀ unit, Decimal.roundDiv n unit ≤ n / unit + 1 := by
    intro unit
    simp only [Decimal.roundDiv]
    split
    · omega
    · split
      · omega
      · split <;> omega
  calc Decimal.nearestBinary64 n ≤ (n / Nat.pow 2 (n.log2 - 52) + 1) * Nat.pow 2 (n.log2 - 52) :=
      Nat.mul_le_mul_right _ (hround _)
    _ = n / Nat.pow 2 (n.log2 - 52) * Nat.pow 2 (n.log2 - 52) + Nat.pow 2 (n.log2 - 52) := Nat.succ_mul _ _
    _ ≤ n + n := Nat.add_le_add (Nat.div_mul_le_self _ _) hunit
    _ = 2 * n := (Nat.two_mul n).symm

/-- A number below `2 ^ 64` lies in the range of a 64-bit float. -/
theorem isFinite_decimal {n : Nat} (h : n < Numeral.significandLimit) :
    (Numeral.mk false (decimal n) none none).isFinite = true := by
  have hscientific : (Numeral.mk false (decimal n) none none).scientific = (n, 0) := by
    simp [Numeral.scientific, takeSignificant_decimal h, Numeral.takeSignificant]
  rw [Numeral.isFinite, hscientific]
  rcases Nat.eq_zero_or_pos n with rfl | hpos
  · rfl
  · have hone : Decimal.nearestBinary64 (Nat.pow 10 0) = 1 := by decide
    have hround := nearestBinary64_le (Nat.ne_of_gt hpos)
    have hrange : 2 * Numeral.significandLimit < Nat.pow 2 1024 - Nat.pow 2 970 := by decide +kernel
    obtain ⟨m, rfl⟩ := Nat.exists_eq_add_one_of_ne_zero (Nat.ne_of_gt hpos)
    change (decide (0 ≤ 308) && decide (Decimal.nearestBinary64 (m + 1) * Decimal.nearestBinary64 (Nat.pow 10 0) <
      Nat.pow 2 1024 - Nat.pow 2 970)) = true
    rw [hone, Nat.mul_one, Bool.and_eq_true, decide_eq_true_iff, decide_eq_true_iff]
    exact ⟨Nat.zero_le _, by omega⟩

/-! ### Numbers in a text -/

/-- What follows a value: nothing, or a comma or a bracket of an object. -/
def EndsValue (text : Text) : Prop := ∀ b ∈ text.head?, b = 0x2c ∨ b = 0x7d

theorem EndsValue.cases {text : Text} (h : EndsValue text) :
    text = [] ∨ ∃ b rest, text = b :: rest ∧ (b = 0x2c ∨ b = 0x7d) := by
  cases text with
  | nil => exact .inl rfl
  | cons b rest => exact .inr ⟨b, rest, rfl, h b rfl⟩

/-- The digits of a number end where the number does. -/
theorem scanDigits_decimal (missing : Category) (n : Nat) {text : Text} (h : EndsValue text) :
    scanDigits missing (decimal n ++ text) = .ok (decimal n, text) := by
  have hend : text.takeWhile isDigit = [] ∧ text.dropWhile isDigit = text := by
    rcases h.cases with rfl | ⟨b, rest, rfl, rfl | rfl⟩ <;> exact ⟨rfl, rfl⟩
  have hall : ∀ b ∈ decimal n, isDigit b = true := fun b => isDigit_of_mem_decimal
  have htake : (decimal n ++ text).takeWhile isDigit = decimal n := by
    rw [List.takeWhile_append_of_pos hall, hend.1, List.append_nil]
  have hdrop : (decimal n ++ text).dropWhile isDigit = text := by
    rw [List.dropWhile_append_of_pos hall, hend.2]
  obtain ⟨b, rest, hdigits, hdigit, -⟩ := exists_decimal_eq_cons n
  rw [hdigits, List.cons_append] at htake hdrop ⊢
  rw [scanDigits, if_pos hdigit, htake, hdrop]

/-- A number has no leading zero, so all of its digits stand before the point. -/
theorem scanWhole_decimal (missing : Category) (n : Nat) {text : Text} (h : EndsValue text) :
    scanWhole missing (decimal n ++ text) = .ok (decimal n, text) := by
  rw [scanWhole, scanDigits_decimal missing n h, ok_bind]
  obtain ⟨b, rest, hdigits, -, hzero⟩ := exists_decimal_eq_cons n
  dsimp only
  split
  · rename_i c more hleading
    rw [hdigits] at hleading
    obtain ⟨hb, hrest⟩ := List.cons.inj hleading
    rw [hzero hb, decimal_of_lt (by decide), hrest] at hdigits
    cases hdigits
  · rfl

/-- A number is scanned up to its end. -/
theorem scanNumeral_decimal (missing : Category) (n : Nat) {text : Text} (h : EndsValue text) :
    scanNumeral missing (decimal n ++ text) = .ok (⟨false, decimal n, none, none⟩, text) := by
  have hsign : ∀ rest, decimal n ++ text = 0x2d :: rest → False := by
    intro rest hminus
    obtain ⟨b, more, hdigits, hdigit, -⟩ := exists_decimal_eq_cons n
    rw [hdigits, List.cons_append] at hminus
    obtain ⟨rfl, -⟩ := List.cons.inj hminus
    exact absurd hdigit (by decide)
  have hfraction : scanFraction missing text = .ok (none, text) := by
    rcases h.cases with rfl | ⟨b, rest, rfl, rfl | rfl⟩ <;> rfl
  have hexponent : scanExponent missing text = .ok (none, text) := by
    rcases h.cases with rfl | ⟨b, rest, rfl, rfl | rfl⟩ <;> rfl
  rw [scanNumeral]
  · simp only [scanWhole_decimal missing n h, hfraction, hexponent, ok_bind]
    rfl
  · exact hsign

/-- A number below `2 ^ 64` is scanned, and in range. -/
theorem scanNumber_decimal {n : Nat} (hn : n < Numeral.significandLimit) {text : Text} (h : EndsValue text) :
    scanNumber (decimal n ++ text) = .ok (⟨false, decimal n, none, none⟩, text) := by
  rw [scanNumber, scanNumeral_decimal .truncated n h]
  exact if_pos (isFinite_decimal hn)

/-- A number below the limit is read back. -/
theorem scanNatural_decimal {limit n : Nat} (hn : n < limit) (hlimit : limit ≤ Numeral.significandLimit) {text : Text}
    (h : EndsValue text) : scanNatural limit (decimal n ++ text) = .ok (n, text) := by
  have hscan := scanNumber_decimal (Nat.lt_of_lt_of_le hn hlimit) h
  have hnatural : (Numeral.mk false (decimal n) none none).natural? = some n := by
    rw [Numeral.natural?, digitsValue_decimal]
    exact if_pos (Nat.lt_of_lt_of_le hn hlimit)
  obtain ⟨b, rest, hdigits, hdigit, -⟩ := exists_decimal_eq_cons n
  rw [hdigits, List.cons_append] at hscan ⊢
  have hblank : isBlank b = false := isBlank_of_isDigit hdigit
  have hskip : skipBlanks (b :: (rest ++ text)) = b :: (rest ++ text) :=
    List.dropWhile_cons_of_neg (by rw [hblank]; exact Bool.false_ne_true)
  rw [scanNatural, hskip]
  simp only [if_pos (Or.inr hdigit : b = 0x2d ∨ isDigit b = true), hscan, ok_bind, ← hdigits, hnatural]
  exact if_pos hn

end MergePathSort.Json
