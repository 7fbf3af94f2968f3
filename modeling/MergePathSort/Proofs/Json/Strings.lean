import Mathlib.Tactic.SplitIfs
import MergePathSort.Json.Quoted
import MergePathSort.Json.Scanner

/-!
# Written strings are read back

A string is written between quotes, with an escape for the quote, the backslash and the control characters, and its text
is kept as UTF-8 bytes. The scanner reads bytes and never sees characters. That it finds the string again rests on the
encoding: the bytes of a character beyond ASCII are all at least `0x80`, so none of them is taken for a quote, a backslash
or a control character.

## Main definitions

* `bytes` : the contents of a file that holds a text.

## Main results

* `scanString_escape` : the bytes of one character as it is written.
* `scanCharacters_quoted` : a whole string, whatever characters it has.
-/

namespace MergePathSort.Json

/-- A scan that succeeds, followed by another one. -/
@[simp]
theorem ok_bind {α β : Type} (a : α) (f : α → Except Category β) : (.ok a >>= f : Except Category β) = f a := rfl

/-- The contents of a file that holds a text. -/
def bytes (s : String) : Text := s.toUTF8.data.toList

theorem bytes_append (s t : String) : bytes (s ++ t) = bytes s ++ bytes t := by
  simp [bytes]

/-- A text is kept character by character. -/
theorem bytes_eq_flatMap (s : String) : bytes s = s.toList.flatMap String.utf8EncodeChar := by
  have hbytes : s.toUTF8 = s.toList.utf8Encode := String.utf8Encode_toList.symm
  rw [bytes, hbytes, List.utf8Encode]
  simp

theorem bytes_ofList (cs : List Char) : bytes (String.ofList cs) = cs.flatMap String.utf8EncodeChar := by
  rw [bytes_eq_flatMap, String.toList_ofList]

/-- The bytes of a text are read as the text. -/
theorem fromUTF8?_bytes (s : String) : String.fromUTF8? ⟨(bytes s).toArray⟩ = some s := by
  have hbytes : (⟨(bytes s).toArray⟩ : ByteArray) = s.toByteArray := by
    rw [bytes, Array.toArray_toList]
    rfl
  rw [hbytes, String.fromUTF8?, dif_pos s.isValidUTF8]
  rfl

/-! ### Characters -/

/-- A character of ASCII is one byte. -/
theorem utf8EncodeChar_of_lt {c : Char} (h : c.toNat < 0x80) : String.utf8EncodeChar c = [UInt8.ofNat c.toNat] :=
  if_pos (Nat.le_of_lt_succ h)

/-- The bytes of any other character are beyond ASCII. -/
theorem le_of_mem_utf8EncodeChar {c : Char} (h : 0x80 ≤ c.toNat) {b : UInt8} (hb : b ∈ String.utf8EncodeChar c) :
    0x80 ≤ b.toNat := by
  have hone : ¬c.val.toNat ≤ 0x7f := Nat.not_le.mpr h
  have hbyte : ∀ n, 0x80 ≤ n → n < 0x100 → 0x80 ≤ (UInt8.ofNat n).toNat := by
    intro n hlow hhigh
    rw [UInt8.toNat_ofNat_of_lt' hhigh]
    exact hlow
  -- Every byte has its highest bit set: the first one says how many follow, the others carry six bits each.
  simp only [String.utf8EncodeChar, if_neg hone] at hb
  split_ifs at hb <;> simp only [List.mem_cons, List.not_mem_nil, or_false] at hb
  · rcases hb with rfl | rfl <;> exact hbyte _ (by omega) (by omega)
  · rcases hb with rfl | rfl | rfl <;> exact hbyte _ (by omega) (by omega)
  · rcases hb with rfl | rfl | rfl | rfl <;> exact hbyte _ (by omega) (by omega)

/-- A byte that stands for itself in a string. -/
def IsPlain (b : UInt8) : Prop := 0x20 ≤ b.toNat ∧ b ≠ 0x22 ∧ b ≠ 0x5c

/-- Bytes that stand for themselves. -/
theorem scanString_plain {decoded : Bool} {plain : List UInt8} (h : ∀ b ∈ plain, IsPlain b) (done : List UInt8)
    (text : Text) : scanString decoded .plain done (plain ++ text) =
      scanString decoded .plain (plain.reverse ++ done) text := by
  induction plain generalizing done with
  | nil => rfl
  | cons b plain ih =>
    obtain ⟨hle, hquote, hslash⟩ := h b (by simp)
    have hctrl : ¬b < 0x20 := by
      rw [UInt8.lt_iff_toNat_lt]
      exact Nat.not_lt.mpr hle
    rw [List.cons_append, scanString, if_neg hquote, if_neg hslash, if_neg hctrl, ih fun x hx => h x (by simp [hx])]
    simp

/-- The four digits of a control character. -/
theorem hexValue?_control {n : Nat} (h : n < 0x20) :
    hexValue? [0x30, 0x30, UInt8.ofNat (hexDigit (n / 16)).toNat, UInt8.ofNat (hexDigit (n % 16)).toNat] = some n := by
  revert n
  decide

/-- A character without an escape. -/
theorem isPlain_of_mem_utf8EncodeChar {c : Char} (hspace : 0x20 ≤ c.toNat) (hquote : c.toNat ≠ 0x22)
    (hslash : c.toNat ≠ 0x5c) {b : UInt8} (hb : b ∈ String.utf8EncodeChar c) : IsPlain b := by
  rcases Nat.lt_or_ge c.toNat 0x80 with hascii | hbeyond
  · rw [utf8EncodeChar_of_lt hascii, List.mem_singleton] at hb
    subst hb
    have hvalue : (UInt8.ofNat c.toNat).toNat = c.toNat := UInt8.toNat_ofNat_of_lt' (Nat.lt_trans hascii (by decide))
    refine ⟨by rw [hvalue]; exact hspace, fun heq => hquote ?_, fun heq => hslash ?_⟩
    · rw [← hvalue, heq]
      rfl
    · rw [← hvalue, heq]
      rfl
  · have hle := le_of_mem_utf8EncodeChar hbeyond hb
    refine ⟨Nat.le_trans (by decide) hle, ?_, ?_⟩
    · rintro rfl
      exact absurd hle (by decide)
    · rintro rfl
      exact absurd hle (by decide)

/-- A control character that is written by its number. -/
theorem scanString_control {c : Char} (h : c.toNat < 0x20) (done : List UInt8) (text : Text) :
    scanString true .plain done
        (['\\', 'u', '0', '0', hexDigit (c.toNat / 16), hexDigit (c.toNat % 16)].flatMap String.utf8EncodeChar ++ text) =
      scanString true .plain ((String.utf8EncodeChar c).reverse ++ done) text := by
  have hdigit : ∀ n, n < 0x10 → String.utf8EncodeChar (hexDigit n) = [UInt8.ofNat (hexDigit n).toNat] := by
    decide
  have hsurrogate : ¬(0xdc00 ≤ c.toNat ∧ c.toNat ≤ 0xdfff) := by omega
  have hlead : ¬(0xd800 ≤ c.toNat ∧ c.toNat ≤ 0xdbff) := by omega
  have hunit : acceptUnit true none c.toNat = .ok (.plain, String.utf8EncodeChar c) := by
    simp only [acceptUnit, Bool.not_true, Bool.false_eq_true, if_false, if_neg hsurrogate, if_neg hlead, codePointBytes,
      Char.ofNat_toNat]
  have hhigh := hdigit (c.toNat / 16) (by omega)
  have hlow := hdigit (c.toNat % 16) (by omega)
  simp only [List.flatMap_cons, List.flatMap_nil, hhigh, hlow]
  have hvalue := hexValue?_control h
  generalize UInt8.ofNat (hexDigit (c.toNat / 16)).toNat = high at hvalue
  generalize UInt8.ofNat (hexDigit (c.toNat % 16)).toNat = low at hvalue
  change scanString true .plain done (0x5c :: 0x75 :: 0x30 :: 0x30 :: high :: low :: text) = _
  simp [scanString, hvalue, hunit]

/-- A character as it is written, read on from the middle of a string. -/
theorem scanString_escape (c : Char) (done : List UInt8) (text : Text) :
    scanString true .plain done ((escape c).flatMap String.utf8EncodeChar ++ text) =
      scanString true .plain ((String.utf8EncodeChar c).reverse ++ done) text := by
  have hc : Char.ofNat c.toNat = c := Char.ofNat_toNat c
  rw [escape]
  split_ifs with hself hback hfeed hline hreturn htab hcontrol
  · rcases hself with h | h <;> rw [← hc, h] <;> rfl
  · rw [← hc, hback]; rfl
  · rw [← hc, hfeed]; rfl
  · rw [← hc, hline]; rfl
  · rw [← hc, hreturn]; rfl
  · rw [← hc, htab]; rfl
  · exact scanString_control hcontrol done text
  · rw [List.flatMap_singleton]
    exact scanString_plain (fun b hb => isPlain_of_mem_utf8EncodeChar (by omega) (by omega) (by omega) hb) done text

/-! ### Strings -/

/-- The characters of a string as they are written. -/
theorem scanString_flatMap_escape (cs : List Char) (done : List UInt8) (text : Text) :
    scanString true .plain done ((cs.flatMap escape).flatMap String.utf8EncodeChar ++ text) =
      scanString true .plain ((cs.flatMap String.utf8EncodeChar).reverse ++ done) text := by
  induction cs generalizing done with
  | nil => rfl
  | cons c cs ih =>
    rw [List.flatMap_cons, List.flatMap_append, List.append_assoc, scanString_escape, ih, List.flatMap_cons,
      List.reverse_append, List.append_assoc]

/-- A string as it is written, from its opening quote on. -/
theorem bytes_quoted (s : String) :
    bytes (quoted s) = 0x22 :: ((s.toList.flatMap escape).flatMap String.utf8EncodeChar ++ [0x22]) := by
  have hquote : bytes "\"" = [0x22] := by decide
  rw [quoted, bytes_append, bytes_append, hquote, bytes_ofList]
  rfl

/-- A string is read back, whatever characters it has. -/
theorem scanCharacters_escape (s : String) (text : Text) :
    scanCharacters ((s.toList.flatMap escape).flatMap String.utf8EncodeChar ++ 0x22 :: text) = .ok (s, text) := by
  have hstring : scanString true .plain [] ((s.toList.flatMap escape).flatMap String.utf8EncodeChar ++ 0x22 :: text) =
      .ok (bytes s, text) := by
    rw [scanString_flatMap_escape, List.append_nil, scanString, if_pos rfl, List.reverse_reverse, bytes_eq_flatMap]
  simp only [scanCharacters, hstring, ok_bind, fromUTF8?_bytes]
  rfl

end MergePathSort.Json
