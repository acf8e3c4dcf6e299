/-
# UTF-8

Texts and their bytes. A byte string need not be a text: `Replaces bytes text`
reads it with each byte that starts no character's sequence as one U+FFFD and
keeps every sequence. A sequence of several bytes is its mark and the leading
bits of the code point, then six bits of it a byte.

Key definitions: `encode`, `Valid`, `Starts`, `Replaces`, `tail`.
Key theorems: `encodeChar_injective`, `Replaces.unique`, `replaces_encode`, `Replaces.encode_eq`,
`encodeChar_ascii`, `encodeChar_multibyte`.
-/
import Mathlib.Data.Char
import Mathlib.Data.List.Basic
import Mathlib.Tactic.IntervalCases

namespace Utf8

open String (utf8EncodeChar)

def encode (text : List Char) : List UInt8 := text.flatMap utf8EncodeChar

def Valid (bytes : List UInt8) : Prop := ∃ text, bytes = encode text

@[simp] theorem encode_nil : encode [] = [] := rfl

@[simp] theorem encode_cons (c : Char) (text : List Char) : encode (c :: text) = utf8EncodeChar c ++ encode text := rfl

theorem encode_append (s t : List Char) : encode (s ++ t) = encode s ++ encode t := List.flatMap_append

/-! ### Sequences -/

/-- No sequence is the start of another. -/
theorem encodeChar_injective {c d : Char} {s t : List UInt8} (h : utf8EncodeChar c ++ s = utf8EncodeChar d ++ t) :
    c = d ∧ s = t := by
  have hc := @ByteArray.utf8DecodeChar?_utf8EncodeChar_append s.toByteArray c
  rw [← List.toByteArray_append, h, List.toByteArray_append, ByteArray.utf8DecodeChar?_utf8EncodeChar_append] at hc
  obtain rfl := Option.some.inj hc
  exact ⟨rfl, List.append_cancel_left h⟩

theorem encodeChar_ne_nil (c : Char) : utf8EncodeChar c ≠ [] := by
  intro h
  have := String.length_utf8EncodeChar c
  rw [h, List.length_nil] at this
  exact absurd c.utf8Size_pos (by omega)

/-- A character's sequence stands at the front of `bytes`. -/
def Starts (bytes : List UInt8) : Prop := ∃ c rest, bytes = utf8EncodeChar c ++ rest

/-! ### Reading what may not be valid -/

/-- `text` is `bytes` with each byte that starts no sequence replaced. -/
inductive Replaces : List UInt8 → List Char → Prop
  | nil : Replaces [] []
  | kept (c) {bytes text} (h : Replaces bytes text) : Replaces (utf8EncodeChar c ++ bytes) (c :: text)
  | replaced {b bytes text} (hb : ¬ Starts (b :: bytes)) (h : Replaces bytes text) :
      Replaces (b :: bytes) ('\uFFFD' :: text)

theorem Replaces.unique {bytes : List UInt8} {s t : List Char} (hs : Replaces bytes s) (ht : Replaces bytes t) :
    s = t := by
  induction hs generalizing t with
  | nil =>
    generalize he : ([] : List UInt8) = bytes at ht
    cases ht with
    | nil => rfl
    | kept c _ => exact absurd (List.append_eq_nil_iff.mp he.symm).1 (encodeChar_ne_nil c)
    | replaced => cases he
  | @kept c bytes text _ ih =>
    generalize he : utf8EncodeChar c ++ bytes = whole at ht
    cases ht with
    | nil => exact absurd (List.append_eq_nil_iff.mp he).1 (encodeChar_ne_nil c)
    | kept d h =>
      obtain ⟨rfl, rfl⟩ := encodeChar_injective he
      rw [ih h]
    | replaced hb _ => exact absurd ⟨c, bytes, he.symm⟩ hb
  | @replaced b bytes text hb _ ih =>
    generalize he : b :: bytes = whole at ht
    cases ht with
    | nil => cases he
    | kept c _ => exact absurd ⟨c, _, he⟩ hb
    | replaced _ h =>
      obtain ⟨rfl, rfl⟩ := List.cons.inj he
      rw [ih h]

theorem replaces_encode : ∀ text : List Char, Replaces (encode text) text
  | [] => .nil
  | c :: text => .kept c (replaces_encode text)

/-- Of a valid byte string nothing is replaced. -/
theorem Replaces.encode_eq {bytes : List UInt8} {text : List Char} (h : Replaces bytes text) (hv : Valid bytes) :
    encode text = bytes := by
  obtain ⟨s, rfl⟩ := hv
  rw [h.unique (replaces_encode s)]

/-! ### The bytes of a sequence -/

/-- The last `n` bytes of a sequence for the code point `v`: six bits each. -/
def tail : (n v : ℕ) → List UInt8
  | 0, _ => []
  | n + 1, v => UInt8.ofNat (0x80 + v / 64 ^ n % 64) :: tail n v

/-- What is added to the leading bits when `n` bytes follow. -/
def mark (n : ℕ) : ℕ := 256 - 2 ^ (7 - n)

/-- The least code point that `n` bytes follow the first byte of; with 4, the end of all. -/
def least (n : ℕ) : ℕ := if n = 4 then 0x110000 else if n = 1 then 0x80 else 2 ^ (5 * n + 1)

theorem le_least {n : ℕ} (hn : 1 ≤ n ∧ n ≤ 3) : 0x80 ≤ least n := by
  obtain ⟨h1, h3⟩ := hn
  interval_cases n <;> decide

theorem length_tail (n v : ℕ) : (tail n v).length = n := by
  induction n with
  | zero => rfl
  | succ n ih => rw [tail, List.length_cons, ih]

theorem encodeChar_ascii {c : Char} (h : c.toNat < 0x80) : utf8EncodeChar c = [UInt8.ofNat c.toNat] :=
  if_pos (show c.val.toNat ≤ 0x7F by exact Nat.le_of_lt_succ h)

theorem encodeChar_multibyte {c : Char} {n : ℕ} (hn : 1 ≤ n ∧ n ≤ 3) (hl : least n ≤ c.toNat)
    (hu : c.toNat < least (n + 1)) : utf8EncodeChar c = UInt8.ofNat (mark n + c.toNat / 64 ^ n) :: tail n c.toNat := by
  have hbyte : ∀ {a b : ℕ}, a = b → UInt8.ofNat a = UInt8.ofNat b := fun h => congrArg UInt8.ofNat h
  have hval : c.val.toNat = c.toNat := rfl
  obtain ⟨h1, h3⟩ := hn
  interval_cases n <;> simp only [least, Nat.reduceEqDiff, reduceIte, Nat.reduceMul, Nat.reduceAdd,
    Nat.reducePow] at hl hu
  · rw [utf8EncodeChar, if_neg (by omega), if_pos (by omega)]
    simp only [tail, mark, List.cons.injEq, and_true, hval]
    exact ⟨hbyte (by omega), hbyte (by omega)⟩
  · rw [utf8EncodeChar, if_neg (by omega), if_neg (by omega), if_pos (by omega)]
    simp only [tail, mark, List.cons.injEq, and_true, hval]
    exact ⟨hbyte (by omega), hbyte (by omega), hbyte (by omega)⟩
  · rw [utf8EncodeChar, if_neg (by omega), if_neg (by omega), if_neg (by omega)]
    simp only [tail, mark, List.cons.injEq, and_true, hval]
    exact ⟨hbyte (by omega), hbyte (by omega), hbyte (by omega), hbyte (by omega)⟩

theorem toNat_lt (c : Char) : c.toNat < 0x110000 := by
  have h : c.val.isValidChar := c.valid
  rcases h with h | ⟨-, h⟩
  · exact h.trans (by decide)
  · exact h

/-- How many bytes follow the first one. -/
theorem exists_follow {c : Char} (h : 0x80 ≤ c.toNat) :
    ∃ n, (1 ≤ n ∧ n ≤ 3) ∧ least n ≤ c.toNat ∧ c.toNat < least (n + 1) := by
  have hu := toNat_lt c
  by_cases h2 : c.toNat < least 2
  · exact ⟨1, by decide, h, h2⟩
  by_cases h3 : c.toNat < least 3
  · exact ⟨2, by decide, not_lt.mp h2, h3⟩
  · exact ⟨3, by decide, not_lt.mp h3, hu⟩

theorem le_ofNat {a n : ℕ} (ha : a < 256) (hn : n < 256) (h : a ≤ n) : UInt8.ofNat a ≤ UInt8.ofNat n := by
  rw [UInt8.le_iff_toNat_le, UInt8.toNat_ofNat', UInt8.toNat_ofNat']
  omega

theorem ge_of_mem_tail {n v : ℕ} : ∀ b ∈ tail n v, 0x80 ≤ b := by
  induction n with
  | zero => simp [tail]
  | succ n ih =>
    intro b hb
    rcases List.mem_cons.mp hb with rfl | hb
    · exact le_ofNat (a := 0x80) (by decide) (by omega) (by omega)
    · exact ih b hb

/-- The bits of a code point that its first byte holds. -/
theorem lead_lt {v n : ℕ} (hn : 1 ≤ n ∧ n ≤ 3) (hu : v < least (n + 1)) : v / 64 ^ n < 2 ^ (6 - n) := by
  obtain ⟨h1, h3⟩ := hn
  interval_cases n <;> simp only [least, Nat.reduceEqDiff, reduceIte, Nat.reduceMul, Nat.reduceAdd, Nat.reducePow,
    Nat.reduceSub] at hu ⊢ <;> omega

theorem first_lt {v n : ℕ} (hn : 1 ≤ n ∧ n ≤ 3) (hu : v < least (n + 1)) : mark n + v / 64 ^ n < 256 := by
  have hlead := lead_lt hn hu
  obtain ⟨h1, h3⟩ := hn
  interval_cases n <;> simp only [mark, Nat.reducePow, Nat.reduceSub] at hlead ⊢ <;> omega

/-- A control byte in an encoded text is a control character. -/
theorem ge_of_mem_encodeChar {c : Char} (h : 0x20 ≤ c.toNat) : ∀ b ∈ utf8EncodeChar c, 0x20 ≤ b := by
  intro b hb
  by_cases ha : c.toNat < 0x80
  · rw [encodeChar_ascii ha, List.mem_singleton] at hb
    rw [hb]
    exact le_ofNat (a := 0x20) (by decide) (by omega) h
  · obtain ⟨n, hn, hl, hu⟩ := exists_follow (not_lt.mp ha)
    rw [encodeChar_multibyte hn hl hu] at hb
    rcases List.mem_cons.mp hb with rfl | hb
    · have hmark : 0x20 ≤ mark n := by
        obtain ⟨h1, h3⟩ := hn
        interval_cases n <;> decide
      exact le_ofNat (a := 0x20) (by decide) (first_lt hn hu) (hmark.trans (Nat.le_add_right _ _))
    · exact UInt8.le_trans (show (0x20 : UInt8) ≤ 0x80 by decide) (ge_of_mem_tail b hb)

theorem ge_of_mem_encode {text : List Char} (h : ∀ c ∈ text, 0x20 ≤ c.toNat) : ∀ b ∈ encode text, 0x20 ≤ b := by
  intro b hb
  obtain ⟨c, hc, hb⟩ := List.mem_flatMap.mp hb
  exact ge_of_mem_encodeChar (h c hc) b hb

end Utf8
