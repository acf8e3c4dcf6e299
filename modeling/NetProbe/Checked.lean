/-
# Computations that can fault

C++ gives no value to a read outside an array, and wraps an unsigned
subtraction or addition silently. `Checked` makes each of these a `Fault`, and
a loop or a recursion that passes its bound one more, so that a program
written in it is safe exactly when it ends in `.ok`.

Key definitions: `Checked`, `Checked.Safe`, `Checked.Extends`, `Bytes.readU8`, `Bytes.window`.
Key theorems: `Checked.Safe.bind`, `Checked.Extends.bind`, `Bytes.readU8_eq`,
`Bytes.readU16_eq`, `Bytes.readU32_eq`, `Bytes.window_eq`.
-/
import Mathlib.Data.List.Basic
import Mathlib.Tactic.Linarith
import Mathlib.Tactic.Ring

/-- What the language leaves undefined or wraps. -/
inductive Fault
  | outOfBounds
  | underflow
  | overflow
  | outOfFuel
  deriving DecidableEq, Repr

/-- A computation that ends in a value or in a fault. -/
abbrev Checked := Except Fault

namespace Checked

variable {α β : Type}

@[simp] theorem ok_bind (a : α) (f : α → Checked β) : ((.ok a : Checked α) >>= f) = f a := rfl

@[simp] theorem error_bind (e : Fault) (f : α → Checked β) :
    ((.error e : Checked α) >>= f) = .error e := rfl

@[simp] theorem pure_eq (a : α) : (pure a : Checked α) = .ok a := rfl

@[simp] theorem map_ok (a : α) (f : α → β) : (f <$> (.ok a : Checked α)) = .ok (f a) := rfl

theorem bind_eq_ok {x : Checked α} {f : α → Checked β} {b : β} :
    (x >>= f) = .ok b ↔ ∃ a, x = .ok a ∧ f a = .ok b := by
  cases x <;> simp

/-- Unsigned subtraction. -/
def sub (a b : ℕ) : Checked ℕ := if b ≤ a then .ok (a - b) else .error .underflow

/-- Addition of 64-bit sizes. -/
def add (a b : ℕ) : Checked ℕ := if a + b < 2 ^ 64 then .ok (a + b) else .error .overflow

theorem sub_eq {a b : ℕ} (h : b ≤ a) : sub a b = .ok (a - b) := if_pos h

theorem add_eq {a b : ℕ} (h : a + b < 2 ^ 64) : add a b = .ok (a + b) := if_pos h

/-- `x` ends without a fault, in a value of which `Q` holds. -/
def Safe (x : Checked α) (Q : α → Prop) : Prop := ∃ a, x = .ok a ∧ Q a

namespace Safe

variable {x : Checked α} {P : α → Prop} {Q : β → Prop}

theorem ok {a : α} (h : P a) : Safe (.ok a) P := ⟨a, rfl, h⟩

theorem of_eq {a : α} (hx : x = .ok a) (h : P a) : Safe x P := ⟨a, hx, h⟩

theorem bind {f : α → Checked β} (hx : Safe x P) (hf : ∀ a, P a → Safe (f a) Q) :
    Safe (x >>= f) Q := by
  obtain ⟨a, rfl, ha⟩ := hx
  exact hf a ha

theorem map {f : α → β} (hx : Safe x P) (hf : ∀ a, P a → Q (f a)) : Safe (f <$> x) Q := by
  obtain ⟨a, rfl, ha⟩ := hx
  exact ⟨f a, rfl, hf a ha⟩

theorem mono {P' : α → Prop} (hx : Safe x P) (h : ∀ a, P a → P' a) : Safe x P' := by
  obtain ⟨a, rfl, ha⟩ := hx
  exact ⟨a, rfl, h a ha⟩

theorem ite {c : Prop} [Decidable c] {y : Checked α} (hx : c → Safe x P) (hy : ¬ c → Safe y P) :
    Safe (if c then x else y) P := by
  split
  · exact hx ‹_›
  · exact hy ‹_›

/-- An early return. -/
theorem guard {c : Prop} [Decidable c] {a : α} (ha : P a) (hx : ¬ c → Safe x P) :
    Safe (if c then pure a else x) P := .ite (fun _ => .ok ha) hx

/-- What holds of the value that `x` ends in. -/
theorem elim {a : α} (hx : Safe x P) (h : x = .ok a) : P a := by
  obtain ⟨b, hb, hp⟩ := hx
  obtain rfl := Except.ok.inj (h.symm.trans hb)
  exact hp

theorem and {P' : α → Prop} (hx : Safe x P) (h : ∀ a, x = .ok a → P' a) :
    Safe x fun a => P a ∧ P' a := by
  obtain ⟨a, rfl, ha⟩ := hx
  exact ⟨a, rfl, ha, h a rfl⟩

end Safe

/-- `y` ends in every value that `x` ends in. -/
def Extends (x y : Checked α) : Prop := ∀ a, x = .ok a → y = .ok a

namespace Extends

variable {x y : Checked α}

theorem refl (x : Checked α) : Extends x x := fun _ h => h

theorem bind {f g : α → Checked β} (h : Extends x y) (hf : ∀ a, Extends (f a) (g a)) :
    Extends (x >>= f) (y >>= g) := by
  intro b hb
  obtain ⟨a, ha, hb⟩ := bind_eq_ok.mp hb
  rw [h a ha, ok_bind]
  exact hf a b hb

theorem ite {c : Prop} [Decidable c] {x' y' : Checked α} (h : Extends x y) (h' : Extends x' y') :
    Extends (if c then x else x') (if c then y else y') := by
  split
  · exact h
  · exact h'

/-- Where `x` does end in a value, `y` ends in the same. -/
theorem eq_of_safe {P : α → Prop} (h : Extends x y) (hx : Safe x P) : y = x := by
  obtain ⟨a, ha, -⟩ := hx
  rw [ha, h a ha]

end Extends

theorem safe_sub {a b : ℕ} (h : b ≤ a) : Safe (sub a b) (· = a - b) := ⟨_, sub_eq h, rfl⟩

theorem safe_add {a b : ℕ} (h : a + b < 2 ^ 64) : Safe (add a b) (· = a + b) := ⟨_, add_eq h, rfl⟩

end Checked

/-- An array of bytes. -/
abbrev Bytes := List UInt8

namespace Bytes

open Checked

/-! ### Total reads

The value of a field, 0 past the end of the array. -/

/-- The byte at `i`. -/
def u8 (b : Bytes) (i : ℕ) : ℕ := (b.getD i 0).toNat

/-- The big-endian 16-bit field at `i`. -/
def u16 (b : Bytes) (i : ℕ) : ℕ := u8 b i * 256 + u8 b (i + 1)

/-- The big-endian 32-bit field at `i`. -/
def u32 (b : Bytes) (i : ℕ) : ℕ := u16 b i * 65536 + u16 b (i + 2)

/-- The `n` bytes from `i` on. -/
def slice (b : Bytes) (i n : ℕ) : Bytes := (b.drop i).take n

theorem u8_lt (b : Bytes) (i : ℕ) : u8 b i < 256 := (b.getD i 0).toNat_lt

theorem u16_lt (b : Bytes) (i : ℕ) : u16 b i < 65536 := by
  have h0 := u8_lt b i
  have h1 := u8_lt b (i + 1)
  unfold u16; omega

theorem u32_lt (b : Bytes) (i : ℕ) : u32 b i < 2 ^ 32 := by
  have h0 := u16_lt b i
  have h1 := u16_lt b (i + 2)
  unfold u32; omega

theorem length_slice (b : Bytes) {i n : ℕ} (h : i + n ≤ b.length) : (slice b i n).length = n := by
  simp [slice]; omega

theorem slice_zero (b : Bytes) (n : ℕ) : slice b 0 n = b.take n := by simp [slice]

/-! ### Checked reads -/

/-- `buffer[i]`. -/
def readU8 (b : Bytes) (i : ℕ) : Checked ℕ :=
  match b[i]? with
  | some x => .ok x.toNat
  | none => .error .outOfBounds

/-- `readU16(buffer + i)`. -/
def readU16 (b : Bytes) (i : ℕ) : Checked ℕ := do
  let b0 ← readU8 b i
  let b1 ← readU8 b (i + 1)
  return b0 <<< 8 ||| b1

/-- `readU32(buffer + i)`. -/
def readU32 (b : Bytes) (i : ℕ) : Checked ℕ := do
  let b0 ← readU8 b i
  let b1 ← readU8 b (i + 1)
  let b2 ← readU8 b (i + 2)
  let b3 ← readU8 b (i + 3)
  return b0 <<< 24 ||| b1 <<< 16 ||| b2 <<< 8 ||| b3

/-- The pair `(buffer + i, n)` handed to a callee: the `n` bytes from `i` on. -/
def window (b : Bytes) (i n : ℕ) : Checked Bytes :=
  if i + n ≤ b.length then .ok (slice b i n) else .error .outOfBounds

/-- Overwrites `dest` from `offset` on with `src`: `memcpy`, `std::copy`. -/
def copyTo {α : Type} (dest : List α) (offset : ℕ) (src : List α) : Checked (List α) :=
  if offset + src.length ≤ dest.length then
    .ok (dest.take offset ++ src ++ dest.drop (offset + src.length))
  else .error .outOfBounds

theorem readU8_eq {b : Bytes} {i : ℕ} (h : i < b.length) : readU8 b i = .ok (u8 b i) := by
  simp [readU8, u8, List.getD_eq_getElem?_getD, List.getElem?_eq_getElem h]

theorem shiftLeft_or {a b n : ℕ} (h : b < 2 ^ n) : a <<< n ||| b = a * 2 ^ n + b := by
  rw [← Nat.shiftLeft_add_eq_or_of_lt h, Nat.shiftLeft_eq]

theorem readU16_eq {b : Bytes} {i : ℕ} (h : i + 1 < b.length) : readU16 b i = .ok (u16 b i) := by
  have h1 := u8_lt b (i + 1)
  rw [readU16, readU8_eq (by omega), readU8_eq h]
  simp only [ok_bind, pure_eq, u16]
  exact congrArg Except.ok (shiftLeft_or h1)

theorem readU32_eq {b : Bytes} {i : ℕ} (h : i + 3 < b.length) : readU32 b i = .ok (u32 b i) := by
  have h1 := u8_lt b (i + 1)
  have h2 := u8_lt b (i + 2)
  have h3 := u8_lt b (i + 3)
  rw [readU32, readU8_eq (by omega), readU8_eq (by omega), readU8_eq (by omega), readU8_eq h]
  simp only [ok_bind, pure_eq, u32, u16, Nat.add_assoc, Nat.reduceAdd]
  have e1 : u8 b i <<< 24 ||| u8 b (i + 1) <<< 16 = (u8 b i * 256 + u8 b (i + 1)) <<< 16 := by
    rw [@shiftLeft_or _ _ 24 (by simp only [Nat.shiftLeft_eq]; omega)]
    simp only [Nat.shiftLeft_eq]; ring
  have e2 : (u8 b i * 256 + u8 b (i + 1)) <<< 16 ||| u8 b (i + 2) <<< 8 =
      ((u8 b i * 256 + u8 b (i + 1)) * 256 + u8 b (i + 2)) <<< 8 := by
    rw [@shiftLeft_or _ _ 16 (by simp only [Nat.shiftLeft_eq]; omega)]
    simp only [Nat.shiftLeft_eq]; ring
  rw [e1, e2]
  refine congrArg Except.ok ((shiftLeft_or h3).trans ?_)
  omega

theorem window_eq {b : Bytes} {i n : ℕ} (h : i + n ≤ b.length) : window b i n = .ok (slice b i n) :=
  if_pos h

theorem length_of_window {b w : Bytes} {i n : ℕ} (h : window b i n = .ok w) : w.length = n := by
  unfold window at h
  split at h
  · obtain rfl := Except.ok.inj h
    exact length_slice b ‹_›
  · simp at h

theorem safe_readU8 {b : Bytes} {i : ℕ} (h : i < b.length) :
    Safe (readU8 b i) fun x => x = u8 b i ∧ x < 256 := ⟨_, readU8_eq h, rfl, u8_lt _ _⟩

theorem safe_readU16 {b : Bytes} {i : ℕ} (h : i + 1 < b.length) :
    Safe (readU16 b i) fun x => x = u16 b i ∧ x < 65536 := ⟨_, readU16_eq h, rfl, u16_lt _ _⟩

theorem safe_readU32 {b : Bytes} {i : ℕ} (h : i + 3 < b.length) :
    Safe (readU32 b i) fun x => x = u32 b i ∧ x < 2 ^ 32 := ⟨_, readU32_eq h, rfl, u32_lt _ _⟩

theorem safe_window {b : Bytes} {i n : ℕ} (h : i + n ≤ b.length) :
    Safe (window b i n) fun w => w = slice b i n ∧ w.length = n :=
  ⟨_, window_eq h, rfl, length_slice b h⟩

theorem safe_copyTo {α : Type} {dest src : List α} {offset : ℕ} (h : offset + src.length ≤ dest.length) :
    Safe (copyTo dest offset src) fun r => r.length = dest.length := by
  refine ⟨_, if_pos h, ?_⟩
  simp only [List.length_append, List.length_take, List.length_drop]
  omega

/-! ### Reads in a longer array -/

theorem u8_append_left {b post : Bytes} {i : ℕ} (h : i < b.length) : u8 (b ++ post) i = u8 b i := by
  simp [u8, List.getD_eq_getElem?_getD, List.getElem?_append_left h]

theorem readU8_extends {b post : Bytes} {i : ℕ} : Extends (readU8 b i) (readU8 (b ++ post) i) := by
  intro x h
  unfold readU8 at h ⊢
  split at h
  · rename_i y hy
    rw [List.getElem?_append_left (List.getElem?_eq_some_iff.mp hy).1, hy]
    exact h
  · cases h

theorem readU16_extends {b post : Bytes} {i : ℕ} : Extends (readU16 b i) (readU16 (b ++ post) i) :=
  readU8_extends.bind fun _ => readU8_extends.bind fun _ => .refl _

theorem window_extends {b post : Bytes} {i n : ℕ} : Extends (window b i n) (window (b ++ post) i n) := by
  intro w h
  unfold window at h ⊢
  split at h
  · rename_i hl
    rw [if_pos (by rw [List.length_append]; omega), slice, List.drop_append_of_le_length (by omega),
      List.take_append_of_le_length (by rw [List.length_drop]; omega)]
    exact h
  · cases h

theorem u8_take {b : Bytes} {n i : ℕ} (h : i < n) : u8 (b.take n) i = u8 b i := by
  simp [u8, List.getD_eq_getElem?_getD, h]

theorem u8_drop (b : Bytes) (n i : ℕ) : u8 (b.drop n) i = u8 b (n + i) := by
  simp [u8, List.getD_eq_getElem?_getD]

theorem u8_slice {b : Bytes} {i n j : ℕ} (h : j < n) : u8 (slice b i n) j = u8 b (i + j) := by
  rw [slice, u8_take h, u8_drop]

theorem u16_slice {b : Bytes} {i n j : ℕ} (h : j + 1 < n) : u16 (slice b i n) j = u16 b (i + j) := by
  rw [u16, u16, u8_slice (by omega), u8_slice h, Nat.add_assoc]

theorem slice_append_right (pre b : Bytes) (i n : ℕ) :
    slice (pre ++ b) (pre.length + i) n = slice b i n := by
  rw [slice, slice, List.drop_append, List.drop_eq_nil_of_le (by omega), List.nil_append,
    Nat.add_sub_cancel_left]

theorem slice_append_left {b post : Bytes} {i n : ℕ} (h : i + n ≤ b.length) :
    slice (b ++ post) i n = slice b i n := by
  rw [slice, slice, List.drop_append_of_le_length (by omega), List.take_append_of_le_length (by simp; omega)]

theorem slice_slice {b : Bytes} {i n j m : ℕ} (h : j + m ≤ n) :
    slice (slice b i n) j m = slice b (i + j) m := by
  rw [slice, slice, slice, List.drop_take, List.drop_drop, List.take_take]
  congr 1
  omega

theorem drop_slice (b : Bytes) (i n m : ℕ) : (slice b i n).drop m = slice b (i + m) (n - m) := by
  rw [slice, slice, List.drop_take, List.drop_drop]

end Bytes
