import Mathlib.Data.List.Basic
import MergePathSort.Bench.Size
import MergePathSort.Proofs.Outcome

/-!
# Spellings of sizes

A size is spelled by digits, with or without a plus sign in front, and behind them the letter of a unit, a mark `b`,
both or neither. Reading takes the letters off the end one after the other, so it meets the parts of a spelling from the
last to the first; that every text that is read has a spelling is shown by putting back what was taken off.

A unit makes the number one of bytes, four of which are an element. The mark alone does not: without a unit the number is
one of elements, with a mark and without. A number of bytes that no size can hold is a fault.

## Main definitions

* `ByteUnit`, `Spelling`, `Spelling.text` : the spellings of sizes.
* `Spelling.reading`, `Spelling.denoted` : what reading a spelling gives, and the elements that it denotes.

## Main results

* `Spelling.readSize_eq` : the text of a spelling is read as the spelling says.
* `exists_spelling` : a text that is not spelled asks for nothing.
* `readSize_by_spelling` : which texts ask for how many elements, which ask for nothing, and which are a fault.
-/

namespace MergePathSort.Bench

/-! ### Letters -/

/-- The number of a letter in lower case. -/
theorem toNat_lowerCase (c : Char) : (lowerCase c).toNat =
    if c.toNat = 0x212a then 107 else if 65 ≤ c.toNat ∧ c.toNat ≤ 90 then c.toNat + 32 else c.toNat := by
  have hletter : c.val ≥ 'A'.val ∧ c.val ≤ 'Z'.val ↔ 65 ≤ c.toNat ∧ c.toNat ≤ 90 := Iff.rfl
  unfold lowerCase
  split
  · rfl
  · unfold Char.toLower
    rw [dite_congr (propext hletter) (fun _ => rfl) (fun _ => rfl)]
    split
    · rename_i hc
      change (c.val + ('a'.val - 'A'.val)).toNat = c.toNat + 32
      rw [UInt32.toNat_add]
      change (c.toNat + 32) % 4294967296 = c.toNat + 32
      omega
    · rfl

/-- Signs and digits are in lower case, and nothing else has them as its lower case. -/
theorem lowerCase_eq_iff {c d : Char} (h : d.toNat < 65) : lowerCase c = d ↔ c = d := by
  rw [← Char.toNat_inj, ← Char.toNat_inj, toNat_lowerCase]
  split
  · omega
  · split <;> omega

theorem toNat_lt_of_isDigit {c : Char} (h : c.isDigit = true) : c.toNat < 65 := by
  obtain ⟨-, hle⟩ := Char.isDigit_iff_toNat.mp h
  exact Nat.lt_of_le_of_lt hle (by decide)

/-- A unit of bytes. -/
inductive ByteUnit where
  /-- 1024 bytes. -/
  | kilo
  /-- 1024 kilobytes. -/
  | mega
  /-- 1024 megabytes. -/
  | giga
  deriving DecidableEq

namespace ByteUnit

/-- The bytes of a unit. -/
def bytes : ByteUnit → Nat
  | kilo => 1024
  | mega => 1024 * 1024
  | giga => 1024 * 1024 * 1024

/-- The letters that stand for a unit, the lower case first. The Kelvin sign is a third form of `k`. -/
def letters : ByteUnit → List Char
  | kilo => ['k', 'K', '\u212a']
  | mega => ['m', 'M']
  | giga => ['g', 'G']

/-- The letter of a unit in lower case. -/
def letter : ByteUnit → Char
  | kilo => 'k'
  | mega => 'm'
  | giga => 'g'

theorem mem_letters_iff {unit : ByteUnit} {c : Char} : c ∈ unit.letters ↔ lowerCase c = unit.letter := by
  rw [← Char.toNat_inj, toNat_lowerCase]
  cases unit <;> simp only [letters, letter, List.mem_cons, List.not_mem_nil, or_false, ← Char.toNat_inj,
    Char.reduceToNat]
  all_goals
    split
    · omega
    · split <;> omega

end ByteUnit

/-- The forms of the mark of bytes. -/
theorem mem_mark_iff {c : Char} : c ∈ ['b', 'B'] ↔ lowerCase c = 'b' := by
  rw [← Char.toNat_inj, toNat_lowerCase]
  simp only [List.mem_cons, List.not_mem_nil, or_false, ← Char.toNat_inj, Char.reduceToNat]
  split
  · omega
  · split <;> omega

/-! ### Spellings -/

/-- A size as it is spelled. -/
structure Spelling where
  /-- There is a plus sign in front. -/
  plus : Bool
  /-- The digits. -/
  digits : List Char
  /-- The unit with the letter that stands for it, if there is one. -/
  unit : Option (ByteUnit × Char)
  /-- The mark of bytes, if there is one. -/
  mark : Option Char
  /-- There are digits. -/
  digits_ne_nil : digits ≠ []
  /-- They are decimal digits. -/
  isDigit_of_mem : ∀ c ∈ digits, c.isDigit = true
  /-- The letter is one of the unit. -/
  letter_mem : ∀ entry ∈ unit, entry.2 ∈ entry.1.letters
  /-- The mark is a `b` in either case. -/
  mark_mem : ∀ c ∈ mark, c ∈ ['b', 'B']

namespace Spelling

variable (s : Spelling)

/-- The sign and the digits. -/
def front : List Char := (if s.plus then ['+'] else []) ++ s.digits

/-- The text that is spelled. -/
def text : List Char := s.front ++ (s.unit.map Prod.snd).toList ++ s.mark.toList

/-- The number that the digits write. -/
def number : Nat := digitsNumber s.digits

/-- The number of bytes, if the number is one of bytes. -/
def bytes : Nat := s.number * (s.unit.map (·.1.bytes)).getD 1

/-- What reading a spelling gives: nothing if the number is no size, the number itself without a unit, and the elements
of its bytes with one. -/
def reading : Outcome (Option Nat) :=
  if s.number < Size.limit then
    match s.unit with
    | none => .ok (some s.number)
    | some _ => do return some ((← Size.fit s.bytes) / elementBytes)
  else .ok none

end Spelling

/-! ### Taking letters off the end -/

/-- A character taken off a text that ends in it, or in another one. -/
theorem withoutLast_concat (letter c : Char) (rest : List Char) :
    withoutLast letter (rest ++ [c]) = if c = letter then some rest else none := by
  rw [withoutLast, List.getLast?_concat, List.dropLast_concat]
  simp only [Option.some.injEq]

/-- A letter is taken off a text in lower case if the text ends in a form of it. -/
theorem withoutLast_map_eq_some {letter : Char} {raw rest : List Char}
    (h : withoutLast letter (raw.map lowerCase) = some rest) :
    ∃ front c, raw = front ++ [c] ∧ lowerCase c = letter ∧ rest = front.map lowerCase := by
  rcases List.eq_nil_or_concat' raw with rfl | ⟨front, c, rfl⟩
  · cases h
  · rw [List.map_append, List.map_singleton, withoutLast_concat] at h
    split at h
    · rename_i hc
      exact ⟨front, c, rfl, hc, (Option.some.inj h).symm⟩
    · cases h

/-! ### A spelling is read -/

namespace Spelling

variable (s : Spelling)

/-- The sign and the digits are in lower case. -/
theorem map_lowerCase_front : s.front.map lowerCase = s.front := by
  have hsame : ∀ c ∈ s.front, lowerCase c = c := by
    intro c hc
    rcases List.mem_append.mp hc with hsign | hdigit
    · obtain rfl : c = '+' := by
        split at hsign
        · exact List.mem_singleton.mp hsign
        · cases hsign
      rfl
    · exact (lowerCase_eq_iff (toNat_lt_of_isDigit (s.isDigit_of_mem c hdigit))).mpr rfl
  rw [List.map_congr_left hsame, List.map_id']

/-- The sign and the digits end in a digit. -/
theorem exists_front_eq : ∃ rest c, s.front = rest ++ [c] ∧ c.isDigit = true := by
  obtain ⟨rest, c, hdigits⟩ := (List.eq_nil_or_concat' s.digits).resolve_left s.digits_ne_nil
  refine ⟨_ ++ rest, c, by rw [front, hdigits, List.append_assoc], s.isDigit_of_mem c ?_⟩
  rw [hdigits]
  exact List.mem_append_right _ (List.mem_singleton.mpr rfl)

/-- No letter is taken off the sign and the digits. -/
theorem withoutLast_front {letter : Char} (h : letter.isDigit = false) : withoutLast letter s.front = none := by
  obtain ⟨rest, c, hfront, hc⟩ := s.exists_front_eq
  rw [hfront, withoutLast_concat, if_neg]
  rintro rfl
  rw [hc] at h
  cases h

/-- The number that the digits write is read if it is a size. -/
theorem parseNatural_front : parseNatural s.front = if s.number < Size.limit then some s.number else none := by
  have hdigits : withoutPlus s.front = s.digits := by
    obtain ⟨c, rest, hc⟩ := List.exists_cons_of_ne_nil s.digits_ne_nil
    have hnoSign : c ≠ '+' := by
      rintro rfl
      have hdigit := s.isDigit_of_mem '+' (by rw [hc]; exact List.mem_cons_self)
      cases hdigit
    cases hplus : s.plus
    · rw [front, hplus, hc]
      simp [withoutPlus, hnoSign]
    · rw [front, hplus]
      rfl
  have hsome : s.digits.isEmpty = false := by simpa using s.digits_ne_nil
  have hall : s.digits.all Char.isDigit = true := List.all_eq_true.mpr s.isDigit_of_mem
  rw [parseNatural, hdigits]
  simp only [hsome, hall, Bool.not_true, Bool.or_self, Bool.false_eq_true, if_false]
  rfl

/-- The text of a spelling without its mark, in lower case. -/
theorem withoutLast_mark : (withoutLast 'b' (s.text.map lowerCase)).getD (s.text.map lowerCase) =
    s.front ++ (s.unit.map (·.1.letter)).toList := by
  have hunit : (s.unit.map Prod.snd).toList.map lowerCase = (s.unit.map (·.1.letter)).toList := by
    cases hentry : s.unit with
    | none => rfl
    | some entry => exact congrArg (· :: []) (ByteUnit.mem_letters_iff.mp (s.letter_mem entry hentry))
  rw [text, List.map_append, List.map_append, map_lowerCase_front, hunit]
  cases hmark : s.mark with
  | some c =>
    have hc : lowerCase c = 'b' := mem_mark_iff.mp (s.mark_mem c hmark)
    rw [Option.toList_some, List.map_singleton, hc, withoutLast_concat, if_pos rfl, Option.getD_some]
  | none =>
    have hnone : withoutLast 'b' (s.front ++ (s.unit.map (·.1.letter)).toList) = none := by
      cases s.unit with
      | none => simpa using s.withoutLast_front rfl
      | some entry =>
        rw [Option.map_some, Option.toList_some, withoutLast_concat]
        cases entry.1 <;> rfl
    rw [Option.toList_none, List.map_nil, List.append_nil, hnone, Option.getD_none]

/-- The unit is taken off the text without its mark. -/
theorem findSome?_units : (units.findSome? fun (letter, unit) =>
      (withoutLast letter (s.front ++ (s.unit.map (·.1.letter)).toList)).map (·, unit)) =
    s.unit.map fun entry => (s.front, entry.1.bytes) := by
  cases s.unit with
  | none =>
    have hg : withoutLast 'g' s.front = none := s.withoutLast_front rfl
    have hm : withoutLast 'm' s.front = none := s.withoutLast_front rfl
    have hk : withoutLast 'k' s.front = none := s.withoutLast_front rfl
    simp only [Option.map_none, Option.toList_none, List.append_nil, units, List.findSome?_cons, hg, hm, hk,
      List.findSome?_nil]
  | some entry =>
    simp only [Option.map_some, Option.toList_some, units, List.findSome?_cons, withoutLast_concat]
    cases entry.1 <;> rfl

/-- The text of a spelling is read as the spelling says. -/
theorem readSize_eq {text : String} (h : s.text = text.toList) : readSize text = s.reading := by
  rw [readSize, ← h]
  simp only [s.withoutLast_mark, s.findSome?_units, reading]
  cases hunit : s.unit with
  | none =>
    simp only [Option.map_none, Option.toList_none, List.append_nil, s.parseNatural_front]
    by_cases hsize : s.number < Size.limit
    · rw [if_pos hsize, if_pos hsize]
    · rw [if_neg hsize, if_neg hsize]
  | some entry =>
    simp only [Option.map_some, s.parseNatural_front, bytes, hunit, Option.getD_some]
    by_cases hsize : s.number < Size.limit
    · rw [if_pos hsize, if_pos hsize]
      rfl
    · rw [if_neg hsize, if_neg hsize]

end Spelling

/-! ### What is read is spelled -/

/-- Text in lower case that writes a number is a sign and digits. -/
theorem exists_front_of_parseNatural {raw : List Char} {n : Nat} (h : parseNatural (raw.map lowerCase) = some n) :
    ∃ (plus : Bool) (digits : List Char), raw = (if plus then ['+'] else []) ++ digits ∧ digits ≠ [] ∧
      ∀ c ∈ digits, c.isDigit = true := by
  have hread : withoutPlus (raw.map lowerCase) ≠ [] ∧ ∀ c ∈ withoutPlus (raw.map lowerCase), c.isDigit = true := by
    rw [parseNatural] at h
    split at h
    · cases h
    · rename_i hdigits
      simpa using hdigits
  obtain ⟨hne, hall⟩ := hread
  have hdigits : ∀ digits : List Char, digits.map lowerCase ≠ [] → (∀ c ∈ digits.map lowerCase, c.isDigit = true) →
      digits ≠ [] ∧ ∀ c ∈ digits, c.isDigit = true := by
    refine fun digits hne hall => ⟨fun hnil => hne (by rw [hnil, List.map_nil]), fun c hc => ?_⟩
    have hdigit := hall (lowerCase c) (List.mem_map_of_mem hc)
    have hsame := (lowerCase_eq_iff (toNat_lt_of_isDigit hdigit)).mp rfl
    rwa [← hsame] at hdigit
  cases raw with
  | nil => exact absurd rfl hne
  | cons c rest =>
    rw [List.map_cons] at hne hall
    by_cases hplus : lowerCase c = '+'
    · rw [hplus, withoutPlus] at hne hall
      obtain rfl : c = '+' := (lowerCase_eq_iff (by decide)).mp hplus
      exact ⟨true, rest, rfl, hdigits rest hne hall⟩
    · rw [withoutPlus.eq_2 _ (by simpa using hplus)] at hne hall
      exact ⟨false, c :: rest, rfl, hdigits (c :: rest) hne hall⟩

/-- The mark put back. -/
theorem exists_mark (raw : List Char) : ∃ (body : List Char) (mark : Option Char), raw = body ++ mark.toList ∧
    (∀ c ∈ mark, c ∈ ['b', 'B']) ∧
      (withoutLast 'b' (raw.map lowerCase)).getD (raw.map lowerCase) = body.map lowerCase := by
  cases hlast : withoutLast 'b' (raw.map lowerCase) with
  | none => exact ⟨raw, none, (List.append_nil raw).symm, by simp, rfl⟩
  | some rest =>
    obtain ⟨body, c, rfl, hc, rfl⟩ := withoutLast_map_eq_some hlast
    refine ⟨body, some c, rfl, fun d hd => ?_, rfl⟩
    obtain rfl := Option.mem_some_iff.mp hd
    exact mem_mark_iff.mpr hc

/-- The letter of the unit put back. -/
theorem exists_unit_of_findSome? {body digits : List Char} {size : Nat} (h : (units.findSome? fun (letter, unit) =>
      (withoutLast letter (body.map lowerCase)).map (·, unit)) = some (digits, size)) :
    ∃ (front : List Char) (entry : ByteUnit × Char), body = front ++ [entry.2] ∧ entry.2 ∈ entry.1.letters ∧
      digits = front.map lowerCase := by
  obtain ⟨⟨letter, bytes⟩, hmem, htaken⟩ := List.exists_of_findSome?_eq_some h
  obtain ⟨rest, hrest, hpair⟩ := Option.map_eq_some_iff.mp htaken
  obtain ⟨front, c, hbody, hc, hfront⟩ := withoutLast_map_eq_some hrest
  obtain ⟨unit, hunit⟩ : ∃ unit : ByteUnit, unit.letter = letter := by
    simp only [units, List.mem_cons, List.not_mem_nil, or_false, Prod.mk.injEq] at hmem
    rcases hmem with ⟨rfl, -⟩ | ⟨rfl, -⟩ | ⟨rfl, -⟩
    · exact ⟨.giga, rfl⟩
    · exact ⟨.mega, rfl⟩
    · exact ⟨.kilo, rfl⟩
  refine ⟨front, (unit, c), hbody, ByteUnit.mem_letters_iff.mpr (hc.trans hunit.symm), ?_⟩
  cases hpair
  exact hfront

/-- A text that is not spelled asks for nothing. -/
theorem exists_spelling {text : String} (h : readSize text ≠ .ok none) : ∃ s : Spelling, s.text = text.toList := by
  obtain ⟨body, mark, hraw, hmark, hbody⟩ := exists_mark text.toList
  rw [readSize] at h
  simp only [hbody] at h
  rw [hraw]
  cases htaken : (units.findSome? fun (letter, unit) => (withoutLast letter (body.map lowerCase)).map (·, unit)) with
  | none =>
    rw [htaken] at h
    obtain ⟨n, hn⟩ := Option.ne_none_iff_exists'.mp fun hnone => h (congrArg Except.ok hnone)
    obtain ⟨plus, digits, rfl, hne, hall⟩ := exists_front_of_parseNatural hn
    exact ⟨⟨plus, digits, none, mark, hne, hall, by simp, hmark⟩, by simp [Spelling.text, Spelling.front]⟩
  | some taken =>
    obtain ⟨letters, size⟩ := taken
    obtain ⟨front, entry, rfl, hentry, rfl⟩ := exists_unit_of_findSome? htaken
    rw [htaken] at h
    simp only at h
    cases hread : parseNatural (front.map lowerCase) with
    | none =>
      rw [hread] at h
      exact absurd rfl h
    | some n =>
      obtain ⟨plus, digits, rfl, hne, hall⟩ := exists_front_of_parseNatural hread
      refine ⟨⟨plus, digits, some entry, mark, hne, hall, fun other hother => ?_, hmark⟩, by
        simp [Spelling.text, Spelling.front]⟩
      obtain rfl := Option.mem_some_iff.mp hother
      exact hentry

/-- Any other answer is that of a spelling. -/
theorem readSize_eq_iff {text : String} {answer : Outcome (Option Nat)} (h : answer ≠ .ok none) :
    readSize text = answer ↔ ∃ s : Spelling, s.text = text.toList ∧ s.reading = answer := by
  constructor
  · rintro rfl
    obtain ⟨s, hs⟩ := exists_spelling h
    exact ⟨s, hs, (s.readSize_eq hs).symm⟩
  · rintro ⟨s, hs, rfl⟩
    exact s.readSize_eq hs

/-! ### Reading -/

/-- What a spelling is read as, by its parts. -/
theorem Spelling.reading_cases (s : Spelling) :
    (Size.limit ≤ s.number ∧ s.reading = .ok none) ∨
      (s.number < Size.limit ∧ s.unit = none ∧ s.reading = .ok (some s.number)) ∨
      (s.number < Size.limit ∧ s.unit ≠ none ∧ s.bytes < Size.limit ∧ s.reading = .ok (some (s.bytes / 4))) ∨
      (s.number < Size.limit ∧ s.unit ≠ none ∧ Size.limit ≤ s.bytes ∧ s.reading = .fault .arithmetic) := by
  rw [reading]
  rcases Nat.lt_or_ge s.number Size.limit with hsize | hsize
  · rw [if_pos hsize]
    cases s.unit with
    | none => exact .inr (.inl ⟨hsize, rfl, rfl⟩)
    | some entry =>
      rcases Nat.lt_or_ge s.bytes Size.limit with hbytes | hbytes
      · rw [Size.fit, if_pos hbytes]
        exact .inr (.inr (.inl ⟨hsize, by simp, hbytes, rfl⟩))
      · rw [Size.fit, if_neg (Nat.not_lt.mpr hbytes)]
        exact .inr (.inr (.inr ⟨hsize, by simp, hbytes, rfl⟩))
  · rw [if_neg (Nat.not_lt.mpr hsize)]
    exact .inl ⟨hsize, rfl⟩

/-- Without a unit the bytes are as many as the number. -/
theorem Spelling.bytes_of_bare (s : Spelling) (h : s.unit = none) : s.bytes = s.number := by
  rw [bytes, h, Option.map_none, Option.getD_none, Nat.mul_one]

/-- A spelling asks for elements if its number and its bytes are sizes. -/
theorem Spelling.reading_eq_some_iff (s : Spelling) {n : Nat} : s.reading = .ok (some n) ↔
    s.number < Size.limit ∧ s.bytes < Size.limit ∧ n = if s.unit = none then s.number else s.bytes / 4 := by
  rcases s.reading_cases with ⟨hsize, hread⟩ | ⟨hsize, hunit, hread⟩ | ⟨hsize, hunit, hbytes, hread⟩ |
    ⟨hsize, hunit, hbytes, hread⟩
  · simp [hread, Nat.not_lt.mpr hsize]
  · simp [hread, hunit, s.bytes_of_bare hunit, hsize, eq_comm]
  · simp [hread, hunit, hsize, hbytes, eq_comm]
  · simp [hread, Nat.not_lt.mpr hbytes, Outcome.fault]

theorem Spelling.reading_eq_none_iff (s : Spelling) : s.reading = .ok none ↔ Size.limit ≤ s.number := by
  rcases s.reading_cases with ⟨hsize, hread⟩ | ⟨hsize, -, hread⟩ | ⟨hsize, -, -, hread⟩ | ⟨hsize, -, -, hread⟩
  · simp [hread, hsize]
  · simp [hread, hsize]
  · simp [hread, hsize]
  · simp [hread, hsize, Outcome.fault]

theorem Spelling.reading_eq_fault_iff (s : Spelling) :
    s.reading = .fault .arithmetic ↔ s.number < Size.limit ∧ Size.limit ≤ s.bytes := by
  rcases s.reading_cases with ⟨hsize, hread⟩ | ⟨hsize, hunit, hread⟩ | ⟨-, -, hbytes, hread⟩ |
    ⟨hsize, -, hbytes, hread⟩
  · simp [hread, Nat.not_lt.mpr hsize, Outcome.fault]
  · simp [hread, s.bytes_of_bare hunit, hsize, Outcome.fault]
  · simp [hread, hbytes, Outcome.fault]
  · simp [hread, hsize, hbytes]

/-- The elements that a spelling denotes: bare digits are elements, and any letter behind them makes the number one of
bytes. Reading departs from this where a mark stands alone. -/
def Spelling.denoted (s : Spelling) : Nat := if s.unit = none ∧ s.mark = none then s.number else s.bytes / 4

/-- A unit has at least as many elements as the number. -/
theorem Spelling.number_le_bytes_div (s : Spelling) (h : s.unit ≠ none) : s.number ≤ s.bytes / 4 := by
  obtain ⟨entry, hentry⟩ := Option.ne_none_iff_exists'.mp h
  have hunit : 1024 ≤ entry.1.bytes := by cases entry.1 <;> decide
  have hmul := Nat.mul_le_mul_left s.number hunit
  rw [bytes, hentry, Option.map_some, Option.getD_some]
  omega

/-- Reading keeps to what a spelling denotes, unless a mark stands alone behind a number to which it makes a difference,
or the bytes of a number that is a size are more than a size can hold. -/
theorem Spelling.reading_eq_denoted_iff (s : Spelling) :
    s.reading = .ok (if s.denoted < Size.limit then some s.denoted else none) ↔
      (s.unit = none → s.mark ≠ none → s.number = 0 ∨ 4 * Size.limit ≤ s.number) ∧
        (s.unit ≠ none → s.number < Size.limit → s.bytes < Size.limit) := by
  have hlimit : 0 < Size.limit := by decide
  rcases s.reading_cases with ⟨hsize, hread⟩ | ⟨hsize, hunit, hread⟩ | ⟨hsize, hunit, hbytes, hread⟩ |
    ⟨hsize, hunit, hbytes, hread⟩
  · -- The number is no size, so nothing is asked for; only a mark alone can denote a size then.
    rw [hread]
    by_cases hunit : s.unit = none
    · by_cases hmark : s.mark = none
      · simp [denoted, hunit, hmark, Nat.not_lt.mpr hsize]
      · have hfits : s.number / 4 < Size.limit ↔ ¬4 * Size.limit ≤ s.number := by omega
        have hpos : s.number ≠ 0 := by omega
        simp only [denoted, hunit, hmark, and_false, if_false, s.bytes_of_bare hunit, hfits]
        by_cases hbig : 4 * Size.limit ≤ s.number <;> simp [hbig, hpos, hmark]
    · have hbig := s.number_le_bytes_div hunit
      have hnot : ¬s.bytes / 4 < Size.limit := by omega
      simp [denoted, hunit, hnot, Nat.not_lt.mpr hsize]
  · rw [hread]
    by_cases hmark : s.mark = none
    · simp [denoted, hunit, hmark, hsize]
    · have hfits : s.number / 4 < Size.limit := by omega
      have hsmall : ¬4 * Size.limit ≤ s.number := by omega
      have hsame : s.number = s.number / 4 ↔ s.number = 0 := by omega
      simp [denoted, hunit, hmark, s.bytes_of_bare hunit, hfits, hsmall, hsame]
  · have hfits : s.bytes / 4 < Size.limit := by omega
    simp [hread, denoted, hunit, hfits, hbytes]
  · simp [hread, hunit, hsize, Nat.not_lt.mpr hbytes, Outcome.fault]

/-- How a text is read, by its spelling. -/
structure ReadBySpelling (text : String) : Prop where
  /-- A text asks for a number of elements if it is spelled so that its number and its bytes are sizes; these elements are
  a quarter of the bytes with a unit, and the number itself without one. -/
  asks_iff : ∀ n, readSize text = .ok (some n) ↔ ∃ s : Spelling, s.text = text.toList ∧ s.number < Size.limit ∧
    s.bytes < Size.limit ∧ n = if s.unit = none then s.number else s.bytes / 4
  /-- It asks for nothing if it is not spelled, or if the number is no size. -/
  asks_nothing_iff : readSize text = .ok none ↔ ∀ s : Spelling, s.text = text.toList → Size.limit ≤ s.number
  /-- It is a fault if the number is a size and its bytes are not. -/
  faults_iff : readSize text = .fault .arithmetic ↔
    ∃ s : Spelling, s.text = text.toList ∧ s.number < Size.limit ∧ Size.limit ≤ s.bytes
  /-- The answer is what is denoted, unless a mark stands alone behind a number to which it makes a difference, or the
  bytes of a number that is a size are none. -/
  denoted_iff : ∀ s : Spelling, s.text = text.toList →
    (readSize text = .ok (if s.denoted < Size.limit then some s.denoted else none) ↔
      (s.unit = none → s.mark ≠ none → s.number = 0 ∨ 4 * Size.limit ≤ s.number) ∧
        (s.unit ≠ none → s.number < Size.limit → s.bytes < Size.limit))

/-- Every text is read by its spelling, and one that has none asks for nothing: which texts are accepted, what they ask
for, which are a fault, and where the answer departs from what the spelling denotes. -/
theorem readSize_by_spelling (text : String) : ReadBySpelling text where
  asks_iff n := by
    rw [readSize_eq_iff (by simp)]
    exact exists_congr fun s => and_congr_right fun _ => s.reading_eq_some_iff
  asks_nothing_iff := by
    constructor
    · intro h s hs
      rw [s.readSize_eq hs] at h
      exact s.reading_eq_none_iff.mp h
    · intro h
      by_contra hread
      obtain ⟨s, hs⟩ := exists_spelling hread
      rw [s.readSize_eq hs] at hread
      exact hread (s.reading_eq_none_iff.mpr (h s hs))
  faults_iff := by
    rw [readSize_eq_iff (by simp [Outcome.fault])]
    exact exists_congr fun s => and_congr_right fun _ => s.reading_eq_fault_iff
  denoted_iff s hs := by
    rw [s.readSize_eq hs]
    exact s.reading_eq_denoted_iff

/-- A mark alone says nothing, although 64 bytes are sixteen elements. -/
example : readSize "64b" = .ok (some 64) := by cbv

/-- The least number of gigabytes that is a fault denotes `2 ^ 62` elements, which are a size. -/
example : readSize "17179869184gb" = .fault .arithmetic := by cbv

end MergePathSort.Bench
