/-
# Serial numbers

A `w`-bit sequence number is the residue of an unbounded one. The signed
difference of two residues orders the numbers they stand for as long as these
are less than `2 ^ (w - 1)` apart (`Serial.toInt_sub`), across any number of
wraps. Over the unbounded numbers, a stream of segments has a high-water mark,
the furthest end so far, and a segment starts behind, at or ahead of it.

Key theorems: `Serial.toInt_sub`, `Serial.countAgainst_concat`.
-/
import Mathlib.Data.Int.Basic
import Mathlib.Data.List.Basic
import Mathlib.Algebra.Order.Group.Unbundled.Int
import Mathlib.Data.List.Induction
import Mathlib.Data.List.Chain

namespace Serial

theorem sub_ofInt (w : ℕ) (a b : ℤ) : BitVec.ofInt w a - BitVec.ofInt w b = BitVec.ofInt w (a - b) := by
  apply BitVec.eq_of_toInt_eq
  rw [BitVec.toInt_sub, BitVec.toInt_ofInt, BitVec.toInt_ofInt, BitVec.toInt_ofInt,
    Int.sub_bmod_bmod, Int.bmod_sub_bmod]

/-- The signed difference of residues is the difference of the numbers. -/
theorem toInt_sub {w : ℕ} (hw : 0 < w) {a b : ℤ} (h : |a - b| < 2 ^ (w - 1)) :
    (BitVec.ofInt w a - BitVec.ofInt w b).toInt = a - b := by
  rw [sub_ofInt, BitVec.toInt_ofInt]
  have hp : ((2 ^ w : ℕ) : ℤ) = 2 * 2 ^ (w - 1) := by
    push_cast
    rw [← pow_succ']
    congr 1
    omega
  rw [abs_lt] at h
  apply Int.bmod_eq_of_le_mul_two <;> rw [hp] <;> omega

/-! ### The high-water mark -/

/-- A data segment at its absolute position. -/
structure Segment where
  start : ℤ
  length : ℕ

namespace Segment

/-- The position after its last byte. -/
def stop (s : Segment) : ℤ := s.start + s.length

end Segment

/-- The furthest end among `segs`; none before the first segment. -/
def highWater? : List Segment → Option ℤ
  | [] => none
  | s :: segs => some (segs.foldl (fun m t => max m t.stop) s.stop)

/-- The furthest end among `segs`, 0 for the empty list. -/
def highWater (segs : List Segment) : ℤ := (highWater? segs).getD 0

theorem highWater_concat {segs : List Segment} (h : segs ≠ []) (s : Segment) :
    highWater (segs ++ [s]) = max (highWater segs) s.stop := by
  obtain ⟨t, segs, rfl⟩ := List.exists_cons_of_ne_nil h
  simp [highWater, highWater?, List.foldl_append]

theorem highWater_singleton (s : Segment) : highWater [s] = s.stop := rfl

/-- How many segments after the first satisfy `p` of their start and the mark
before them. -/
def countAgainst (p : ℤ → ℤ → Bool) (segs : List Segment) : ℕ :=
  ((List.range segs.length).filter fun i =>
    0 < i && p (segs.getD i ⟨0, 0⟩).start (highWater (segs.take i))).length

/-- The segments that start before the mark: they repeat bytes. -/
def countBehind : List Segment → ℕ := countAgainst fun start mark => start < mark

/-- The segments that start past the mark: they leave a gap. -/
def countAhead : List Segment → ℕ := countAgainst fun start mark => start > mark

theorem countAgainst_nil (p : ℤ → ℤ → Bool) : countAgainst p [] = 0 := rfl

theorem countAgainst_concat (p : ℤ → ℤ → Bool) (segs : List Segment) (s : Segment) :
    countAgainst p (segs ++ [s]) = countAgainst p segs +
      if segs ≠ [] ∧ p s.start (highWater segs) then 1 else 0 := by
  have hold : (List.range segs.length).filter (fun i =>
        0 < i && p ((segs ++ [s]).getD i ⟨0, 0⟩).start (highWater ((segs ++ [s]).take i))) =
      (List.range segs.length).filter (fun i =>
        0 < i && p (segs.getD i ⟨0, 0⟩).start (highWater (segs.take i))) := by
    refine List.filter_congr fun i hi => ?_
    have hi := List.mem_range.mp hi
    rw [List.take_append_of_le_length hi.le, List.getD_eq_getElem?_getD, List.getD_eq_getElem?_getD,
      List.getElem?_append_left hi]
  simp only [countAgainst, List.length_append, List.length_singleton, List.range_succ,
    List.filter_append, hold]
  congr 1
  have hlast : (segs ++ [s]).getD segs.length ⟨0, 0⟩ = s := by simp
  have hpos : (0 < segs.length) ↔ segs ≠ [] := List.length_pos_iff
  simp only [List.filter_cons, List.filter_nil, hlast, List.take_left']
  by_cases hs : segs ≠ [] <;> by_cases hp : p s.start (highWater segs) = true <;>
    simp [hs, hp, hpos]

/-- Each segment starts where the one before it ends. -/
def InOrder (segs : List Segment) : Prop := segs.IsChain fun s t => t.start = s.stop

theorem InOrder.concat {segs : List Segment} {s : Segment} (h : InOrder (segs ++ [s])) :
    InOrder segs ∧ ∀ t ∈ segs.getLast?, s.start = t.stop := by
  rw [InOrder, List.isChain_append] at h
  exact ⟨h.1, fun t ht => h.2.2 t ht s (by simp)⟩

/-- In an in-order stream the mark is the end of the last segment. -/
theorem InOrder.highWater_eq {segs : List Segment} (h : InOrder segs) :
    ∀ t ∈ segs.getLast?, highWater segs = t.stop := by
  induction segs using List.reverseRecOn with
  | nil => simp
  | append_singleton segs s ih =>
    obtain ⟨h1, h2⟩ := h.concat
    intro t ht
    obtain rfl : s = t := by simpa using ht
    rcases List.eq_nil_or_concat' segs with rfl | ⟨segs, u, rfl⟩
    · rfl
    · have hu : s.start = u.stop := h2 u (by simp)
      have hm : highWater (segs ++ [u]) = u.stop := ih h1 u (by simp)
      rw [highWater_concat (by simp), hm, ← hu]
      have : (0 : ℤ) ≤ s.length := Int.natCast_nonneg _
      exact max_eq_right (by unfold Segment.stop; omega)

/-- In an in-order stream no segment repeats bytes or leaves a gap. -/
theorem InOrder.countAgainst_eq {p : ℤ → ℤ → Bool} (hp : ∀ n, p n n = false) {segs : List Segment}
    (h : InOrder segs) : countAgainst p segs = 0 := by
  induction segs using List.reverseRecOn with
  | nil => rfl
  | append_singleton segs s ih =>
    obtain ⟨h1, h2⟩ := h.concat
    rw [countAgainst_concat, ih h1, if_neg]
    rintro ⟨hne, hps⟩
    have hu := List.getLast?_eq_some_getLast hne
    rw [h2 _ hu, h1.highWater_eq _ hu, hp] at hps
    cases hps

/-- Each segment lies within half the `w`-bit number space of the mark before it. -/
def WithinWindow (w : ℕ) (segs : List Segment) : Prop :=
  ∀ pre s post, segs = pre ++ s :: post → pre ≠ [] →
    |s.start - highWater pre| < 2 ^ (w - 1) ∧ |s.stop - highWater pre| < 2 ^ (w - 1)

/-- Each segment starts at the mark before it or lies within half the `w`-bit
number space of it, so that its residue tells on which side it starts. -/
def Comparable (w : ℕ) (segs : List Segment) : Prop :=
  ∀ pre s post, segs = pre ++ s :: post → pre ≠ [] → s.start = highWater pre ∨
    (|s.start - highWater pre| < 2 ^ (w - 1) ∧ |s.stop - highWater pre| < 2 ^ (w - 1))

theorem WithinWindow.comparable {w : ℕ} {segs : List Segment} (h : WithinWindow w segs) :
    Comparable w segs := fun pre s post he hne => Or.inr (h pre s post he hne)

theorem InOrder.comparable (w : ℕ) {segs : List Segment} (h : InOrder segs) : Comparable w segs := by
  rintro pre s post rfl hne
  have hp : InOrder (pre ++ [s]) := by
    have h' : InOrder ((pre ++ [s]) ++ post) := by simpa using h
    exact (List.isChain_append.mp h').1
  have hu := List.getLast?_eq_some_getLast hne
  exact Or.inl ((hp.concat.2 _ hu).trans (hp.concat.1.highWater_eq _ hu).symm)

theorem Comparable.concat {w : ℕ} {segs : List Segment} {s : Segment}
    (h : Comparable w (segs ++ [s])) : Comparable w segs ∧
      (segs ≠ [] → s.start = highWater segs ∨
        (|s.start - highWater segs| < 2 ^ (w - 1) ∧ |s.stop - highWater segs| < 2 ^ (w - 1))) :=
  ⟨fun pre t post he => h pre t (post ++ [s]) (by simp [he]), h segs s [] rfl⟩

end Serial
