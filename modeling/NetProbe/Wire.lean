/-
# Bytes on the wire

How fields and length-prefixed vectors are written, and the assertion
`At b i xs`: the values `xs` stand at position `i` of `b`. A decoder that reads
by position is followed through a message by splitting `At` along the parts the
message is written in (`at_append`, `at_cons`) and reading each part where it
stands (`At.readU8`, `At.readU16`, `At.window`).

Key theorems: `Wire.at_append`, `Wire.At.readU8`, `Wire.At.readU16`,
`Wire.at_vec8`, `Wire.at_vec16`.
-/
import NetProbe.Checked

namespace Wire

open Checked Bytes

/-! ### Where values stand -/

section At

variable {α : Type} {b xs ys : List α} {i j : ℕ}

/-- `xs` stands at position `i` of `b`. -/
def At (b : List α) (i : ℕ) (xs : List α) : Prop := ∃ pre post, b = pre ++ xs ++ post ∧ pre.length = i

theorem At.le (h : At b i xs) : i + xs.length ≤ b.length := by
  obtain ⟨pre, post, rfl, rfl⟩ := h
  simp

theorem At.ne_nil (h : At b i xs) (hxs : xs ≠ []) : b ≠ [] := by
  rintro rfl
  have hle := h.le
  have hpos := List.length_pos_of_ne_nil hxs
  rw [List.length_nil] at hle
  omega

theorem at_iff : At b i xs ↔ (b.drop i).take xs.length = xs ∧ i + xs.length ≤ b.length := by
  constructor
  · intro h
    refine ⟨?_, h.le⟩
    obtain ⟨pre, post, rfl, rfl⟩ := h
    simp
  · rintro ⟨hx, hle⟩
    refine ⟨b.take i, b.drop (i + xs.length), ?_, by simp; omega⟩
    have hrest : b.drop i = xs ++ b.drop (i + xs.length) := by
      nth_rewrite 1 [← List.take_append_drop xs.length (b.drop i)]
      rw [hx, List.drop_drop]
    rw [List.append_assoc, ← hrest, List.take_append_drop]

instance [DecidableEq α] (b : List α) (i : ℕ) (xs : List α) : Decidable (At b i xs) :=
  decidable_of_iff _ at_iff.symm

theorem At.refl (b : List α) : At b 0 b := ⟨[], [], by simp, rfl⟩

theorem At.getElem? (h : At b i xs) (hj : j < xs.length) : b[i + j]? = xs[j]? := by
  obtain ⟨pre, post, rfl, rfl⟩ := h
  rw [List.append_assoc, List.getElem?_append_right (by omega), Nat.add_sub_cancel_left,
    List.getElem?_append_left hj]

theorem At.trans (h : At b i xs) (h' : At xs j ys) : At b (i + j) ys := by
  obtain ⟨pre, post, rfl, rfl⟩ := h
  obtain ⟨pre', post', rfl, rfl⟩ := h'
  exact ⟨pre ++ pre', post' ++ post, by simp, by simp⟩

theorem at_append : At b i (xs ++ ys) ↔ At b i xs ∧ At b (i + xs.length) ys := by
  constructor
  · intro h
    exact ⟨h.trans ⟨[], ys, by simp, rfl⟩, h.trans ⟨xs, [], by simp, rfl⟩⟩
  · rintro ⟨hx, hy⟩
    rw [at_iff] at hx hy ⊢
    rw [List.length_append, List.take_add, hx.1, List.drop_drop, hy.1]
    exact ⟨rfl, by omega⟩

theorem at_cons {x : α} : At b i (x :: xs) ↔ At b i [x] ∧ At b (i + 1) xs := by
  rw [← List.singleton_append, at_append]
  rfl

theorem at_cons_cons {x y : α} : At b i (x :: y :: xs) ↔ At b i [x] ∧ At b (i + 1) (y :: xs) := at_cons

theorem At.append_right (h : At b i xs) (post : List α) : At (b ++ post) i xs := by
  obtain ⟨p, q, rfl, rfl⟩ := h
  exact ⟨p, q ++ post, by simp, rfl⟩

theorem at_take_drop {n : ℕ} (h : i + n ≤ b.length) : At b i ((b.drop i).take n) := by
  have hlen : ((b.drop i).take n).length = n := by simp; omega
  rw [at_iff, hlen]
  exact ⟨rfl, h⟩

theorem At.eq_append (h : At b 0 xs) : b = xs ++ b.drop xs.length := by
  obtain ⟨pre, post, rfl, hpre⟩ := h
  obtain rfl := List.length_eq_zero_iff.mp hpre
  simp

end At

/-! ### Fields -/

/-- A 16-bit field, big-endian. -/
def be16 (n : ℕ) : Bytes := [UInt8.ofNat (n / 256), UInt8.ofNat n]

/-- A 24-bit field, big-endian. -/
def be24 (n : ℕ) : Bytes := UInt8.ofNat (n / 65536) :: be16 n

/-- A 32-bit field, big-endian. -/
def be32 (n : ℕ) : Bytes := be16 (n / 65536) ++ be16 n

/-- A vector prefixed by its length as one byte. -/
def vec8 (xs : Bytes) : Bytes := UInt8.ofNat xs.length :: xs

/-- A vector prefixed by its length as a 16-bit field. -/
def vec16 (xs : Bytes) : Bytes := be16 xs.length ++ xs

@[simp] theorem length_be16 (n : ℕ) : (be16 n).length = 2 := rfl

@[simp] theorem length_be24 (n : ℕ) : (be24 n).length = 3 := rfl

@[simp] theorem length_be32 (n : ℕ) : (be32 n).length = 4 := rfl

@[simp] theorem length_vec8 (xs : Bytes) : (vec8 xs).length = 1 + xs.length := by
  simp [vec8]; omega

@[simp] theorem length_vec16 (xs : Bytes) : (vec16 xs).length = 2 + xs.length := by
  simp [vec16]

section Reads

variable {b xs : Bytes} {i n : ℕ} {x y : UInt8}

theorem At.u8 (h : At b i (x :: xs)) : u8 b i = x.toNat := by
  have := (at_cons.mp h).1.getElem? (j := 0) (by simp)
  rw [Bytes.u8, List.getD_eq_getElem?_getD, ← Nat.add_zero i, this]
  rfl

theorem At.readU8 (h : At b i (x :: xs)) : readU8 b i = .ok x.toNat := by
  have hle := h.le
  rw [List.length_cons] at hle
  rw [readU8_eq (by omega), h.u8]

theorem toNat_ofNat (n : ℕ) : (UInt8.ofNat n).toNat = n % 256 := by simp

theorem At.u16 (h : At b i (be16 n)) (hn : n < 65536) : u16 b i = n := by
  have h0 := h.u8
  have h1 := (at_cons.mp h).2.u8
  rw [toNat_ofNat] at h0 h1
  rw [Bytes.u16, h0, h1]
  omega

theorem At.readU16 (h : At b i (be16 n)) (hn : n < 65536) : readU16 b i = .ok n := by
  have hle := h.le
  rw [length_be16] at hle
  rw [readU16_eq (by omega), h.u16 hn]

theorem At.u32 (h : At b i (be32 n)) (hn : n < 2 ^ 32) : u32 b i = n := by
  obtain ⟨h0, h1⟩ := at_append.mp h
  have e0 := h0.u16 (by omega)
  have e1 : Bytes.u16 b (i + 2) = n % 65536 := by
    have h' : be16 n = be16 (n % 65536) := by
      have e : UInt8.ofNat (n / 256) = UInt8.ofNat (n % 65536 / 256) :=
        UInt8.toNat.inj (by rw [toNat_ofNat, toNat_ofNat]; omega)
      have e' : UInt8.ofNat n = UInt8.ofNat (n % 65536) :=
        UInt8.toNat.inj (by rw [toNat_ofNat, toNat_ofNat]; omega)
      simp only [be16, ← e, ← e']
    rw [h'] at h1
    exact h1.u16 (by omega)
  rw [Bytes.u32, e0, e1]
  omega

theorem At.readU32 (h : At b i (be32 n)) (hn : n < 2 ^ 32) : readU32 b i = .ok n := by
  have hle := h.le
  rw [length_be32] at hle
  rw [readU32_eq (by omega), h.u32 hn]

theorem At.slice (h : At b i xs) : slice b i xs.length = xs := (at_iff.mp h).1

theorem At.window (h : At b i xs) : window b i xs.length = .ok xs := by
  rw [window_eq h.le, h.slice]

/-- The byte at `i` stands there. -/
theorem at_u8 (h : i < b.length) : At b i [UInt8.ofNat (u8 b i)] := by
  have e : (b.drop i).take 1 = [UInt8.ofNat (Bytes.u8 b i)] := by
    rw [List.drop_eq_getElem_cons h, List.take_succ_cons, List.take_zero, Bytes.u8,
      List.getD_eq_getElem?_getD, List.getElem?_eq_getElem h]
    simp
  exact e ▸ at_take_drop (n := 1) h

/-- The 16-bit field at `i` stands there. -/
theorem at_u16 (h : i + 1 < b.length) : At b i (be16 (u16 b i)) := by
  have h0 := at_u8 (b := b) (i := i) (by omega)
  have h1 := at_u8 h
  have l0 := u8_lt b i
  have l1 := u8_lt b (i + 1)
  have e0 : UInt8.ofNat (Bytes.u16 b i / 256) = UInt8.ofNat (Bytes.u8 b i) :=
    UInt8.toNat.inj (by rw [toNat_ofNat, toNat_ofNat, Bytes.u16]; omega)
  have e1 : UInt8.ofNat (Bytes.u16 b i) = UInt8.ofNat (Bytes.u8 b (i + 1)) :=
    UInt8.toNat.inj (by rw [toNat_ofNat, toNat_ofNat, Bytes.u16]; omega)
  rw [be16, e0, e1]
  exact at_cons.mpr ⟨h0, h1⟩

/-- A length byte and as many bytes are a vector. -/
theorem at_vec8 (h : i < b.length) (h' : i + 1 + u8 b i ≤ b.length) :
    At b i (vec8 (Bytes.slice b (i + 1) (u8 b i))) := by
  rw [vec8, length_slice b h', at_cons]
  exact ⟨at_u8 h, at_take_drop h'⟩

/-- A 16-bit length and as many bytes are a vector. -/
theorem at_vec16 (h : i + 2 + u16 b i ≤ b.length) :
    At b i (vec16 (Bytes.slice b (i + 2) (u16 b i))) := by
  rw [vec16, length_slice b h, at_append]
  exact ⟨at_u16 (by omega), at_take_drop h⟩

theorem exists_vec8 (h : i + 1 + u8 b i ≤ b.length) :
    ∃ xs, At b i (vec8 xs) ∧ xs.length = u8 b i :=
  ⟨_, at_vec8 (by omega) h, length_slice _ h⟩

theorem exists_vec16 (h : i + 2 + u16 b i ≤ b.length) :
    ∃ xs, At b i (vec16 xs) ∧ xs.length = u16 b i :=
  ⟨_, at_vec16 h, length_slice _ h⟩

end Reads

end Wire
