/-
# Window

The last `n` of a sequence that grows at its end, kept in two ways: in a queue
that lets its front go when it is full (`keep`), and in an array of `n` places
that is written round and round (`put`, `next`).

Key definitions: `keep`, `put`, `next`, `Wraps`.
Key theorems: `keep_rtake`, `Wraps.put`, `Wraps.unroll`.
-/
import Mathlib.Data.List.DropRight
import Mathlib.Data.List.Rotate

namespace Window

variable {α : Type} {n : ℕ}

/-! ### The end of a sequence -/

theorem length_rtake (xs : List α) (n : ℕ) : (xs.rtake n).length = min n xs.length := by
  rw [List.rtake, List.length_drop]
  omega

theorem rtake_of_length_le {xs : List α} (h : xs.length ≤ n) : xs.rtake n = xs := by
  rw [List.rtake, Nat.sub_eq_zero_of_le h, List.drop_zero]

/-- What comes in drives the first one out, once there are `n`. -/
theorem rtake_concat (hn : 0 < n) (xs : List α) (x : α) :
    (xs ++ [x]).rtake n = (if n ≤ xs.length then (xs.rtake n).tail else xs) ++ [x] := by
  obtain ⟨m, rfl⟩ := Nat.exists_eq_succ_of_ne_zero hn.ne'
  rw [List.rtake_concat_succ]
  congr 1
  split
  · rename_i h
    rw [List.rtake, List.rtake, List.tail_drop]
    congr 1
    omega
  · rename_i h
    exact rtake_of_length_le (by omega)

theorem getElem?_rtake (xs : List α) (n i : ℕ) :
    (xs.rtake n)[i]? = xs[xs.length - (xs.rtake n).length + i]? := by
  rw [length_rtake, List.rtake, List.getElem?_drop]
  congr 1
  omega

/-! ### A queue -/

/-- A full queue lets its front go. -/
def keep (n : ℕ) (kept : List α) (x : α) : List α := if kept.length ≥ n then kept.tail ++ [x] else kept ++ [x]

theorem keep_rtake (hn : 0 < n) (xs : List α) (x : α) : keep n (xs.rtake n) x = (xs ++ [x]).rtake n := by
  rw [keep, length_rtake, rtake_concat hn]
  split_ifs with h h' h'
  · rfl
  · omega
  · omega
  · rw [rtake_of_length_le (by omega)]

/-! ### An array -/

/-- The next element goes to a new place while there is one, then over the oldest. -/
def put (n offset : ℕ) (data : List α) (x : α) : List α := if data.length < n then data ++ [x] else data.set offset x

/-- The place of the oldest element after that. -/
def next (n offset length : ℕ) : ℕ := if length < n then offset else (offset + 1) % n

/-- The array holds the last `n` of `xs`, the oldest at `offset`. -/
structure Wraps (n offset : ℕ) (data xs : List α) : Prop where
  unroll : data.rotate offset = xs.rtake n
  fresh : data.length < n → offset = 0

namespace Wraps

variable {offset : ℕ} {data xs : List α}

theorem empty (n : ℕ) : Wraps n 0 ([] : List α) [] := ⟨by simp, fun _ => rfl⟩

theorem length_eq (h : Wraps n offset data xs) : data.length = min n xs.length := by
  rw [← List.length_rotate data offset, h.unroll, length_rtake]

theorem put_room (h : Wraps n offset data xs) (hroom : data.length < n) (x : α) :
    Wraps n offset (data ++ [x]) (xs ++ [x]) := by
  have hlength := h.length_eq
  obtain rfl := h.fresh hroom
  refine ⟨?_, fun _ => rfl⟩
  have hunroll := h.unroll
  rw [List.rotate_zero, rtake_of_length_le (by omega)] at hunroll
  rw [List.rotate_zero, hunroll, rtake_of_length_le]
  rw [List.length_append, List.length_singleton]
  omega

/-- The oldest element is at `offset`, and goes. -/
theorem put_full (h : Wraps data.length offset data xs) (hlt : offset < data.length) (x : α) :
    Wraps data.length ((offset + 1) % data.length) (data.set offset x) (xs ++ [x]) := by
  have hlength := h.length_eq
  refine ⟨?_, fun hroom => by rw [List.length_set] at hroom; omega⟩
  rw [rtake_concat (by omega), if_pos (by omega), ← h.unroll]
  refine List.ext_getElem (by simp; omega) fun i hi hi' => ?_
  simp only [List.length_rotate, List.length_set] at hi
  simp only [List.getElem_rotate, List.getElem_set, List.length_set, Nat.add_mod_mod]
  by_cases hlast : i + 1 = data.length
  · have hplace : (i + (offset + 1)) % data.length = offset := by
      rw [show i + (offset + 1) = offset + data.length by omega, Nat.add_mod_right, Nat.mod_eq_of_lt hlt]
    rw [if_pos hplace.symm, List.getElem_append_right (by simp; omega)]
    simp
  · have hplace : (i + (offset + 1)) % data.length ≠ offset := by
      by_cases hwrap : i + (offset + 1) < data.length
      · rw [Nat.mod_eq_of_lt hwrap]
        omega
      · rw [Nat.mod_eq_sub_mod (by omega), Nat.mod_eq_of_lt (by omega)]
        omega
    rw [if_neg hplace.symm, List.getElem_append_left (by simp; omega), List.getElem_tail, List.getElem_rotate]
    congr 2
    omega

/-- The array keeps holding the last `n`. -/
theorem put (hn : 0 < n) (h : Wraps n offset data xs) (hlt : offset < n) (x : α) :
    Wraps n (next n offset data.length) (Window.put n offset data x) (xs ++ [x]) := by
  have hlength := h.length_eq
  rw [next, Window.put]
  split
  · exact h.put_room ‹_› x
  · obtain rfl : n = data.length := by omega
    exact h.put_full hlt x

end Wraps

theorem next_lt (hn : 0 < n) {offset : ℕ} (h : offset < n) (length : ℕ) : next n offset length < n := by
  rw [next]
  split
  · exact h
  · exact Nat.mod_lt _ hn

end Window
