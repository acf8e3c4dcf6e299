/-
# Ranking

A list split into classes by a key: the sums of the classes make up the sum of
the whole (`sum_classes`), a table filled element by element holds a fold over
each class (`lookup_tally`), and what a sorted list loses when it is cut short
is nowhere before what is left (`mem_take_or`).

Key definitions: `tally`.
Key theorems: `sum_classes`, `lookup_tally`, `mem_take_or`.
-/
import Mathlib.Algebra.BigOperators.Group.List.Basic
import Mathlib.Data.List.AList
import Mathlib.Data.List.Induction

namespace Ranking

variable {α κ β M : Type} [DecidableEq κ]

/-! ### Sums -/

/-- The elements without a key are in no class. -/
theorem sum_classes [AddCommMonoid M] {key : α → Option κ} {keys : List κ} (hn : keys.Nodup) (w : α → M) {xs : List α}
    (hkeys : ∀ x ∈ xs, ∀ k, key x = some k → k ∈ keys) :
    (keys.map fun k => ((xs.filter fun x => key x = some k).map w).sum).sum =
      ((xs.filter fun x => (key x).isSome).map w).sum := by
  induction xs with
  | nil => simp
  | cons x xs ih =>
    have hclass : ∀ k, (((x :: xs).filter fun x => key x = some k).map w).sum =
        (if key x = some k then w x else 0) + ((xs.filter fun x => key x = some k).map w).sum := fun k => by
      rw [List.filter_cons]
      split_ifs <;> simp_all
    -- `x` is in the class of its key and in no other
    have hone : (keys.map fun k => if key x = some k then w x else 0).sum = if (key x).isSome then w x else 0 := by
      cases hx : key x with
      | none => simp
      | some k₀ =>
        have hcount : keys.count k₀ = 1 := List.count_eq_one_of_mem hn (hkeys x List.mem_cons_self k₀ hx)
        rw [List.sum_map_eq_nsmul_single k₀ _ fun k hk _ => if_neg fun h => hk (Option.some.inj h).symm, hcount,
          one_nsmul]
        simp
    rw [List.map_congr_left fun k _ => hclass k, List.sum_map_add, hone,
      ih fun y hy => hkeys y (List.mem_cons_of_mem _ hy), List.filter_cons]
    split_ifs <;> simp

/-! ### Tables -/

/-- The value under a key grows with each element that has it. -/
def tally (key : α → κ) (step : Option β → α → β) (xs : List α) : AList fun _ : κ => β :=
  xs.foldl (fun table x => table.insert (key x) (step (table.lookup (key x)) x)) ∅

variable {key : α → κ} {step : Option β → α → β} {xs : List α}

theorem lookup_tally (k : κ) : (tally key step xs).lookup k =
    (xs.filter fun x => key x = k).foldl (fun old x => some (step old x)) none := by
  induction xs using List.reverseRecOn with
  | nil => rfl
  | append_singleton xs x ih =>
    rw [tally, List.foldl_append, List.filter_append, List.foldl_append, ← ih]
    by_cases h : key x = k
    · subst h
      rw [List.filter_singleton, decide_eq_true rfl]
      exact AList.lookup_insert _
    · rw [List.filter_singleton, decide_eq_false h]
      exact AList.lookup_insert_ne (Ne.symm h)

theorem mem_tally {k : κ} : k ∈ tally key step xs ↔ ∃ x ∈ xs, key x = k := by
  rw [← AList.lookup_isSome, lookup_tally]
  cases hclass : xs.filter fun x => key x = k with
  | nil =>
    rw [List.filter_eq_nil_iff] at hclass
    simpa using hclass
  | cons x class' =>
    have hx : x ∈ xs ∧ key x = k := by
      have hmem : x ∈ xs.filter fun x => key x = k := hclass ▸ List.mem_cons_self
      simpa using hmem
    refine iff_of_true ?_ ⟨x, hx⟩
    rw [List.foldl_cons]
    generalize step none x = y
    clear hclass hx
    induction class' generalizing y with
    | nil => rfl
    | cons z class' ih => exact ih (step (some y) z)

/-! ### The first of a sorted list -/

/-- What is cut off comes before nothing that is left. -/
theorem mem_take_or {before : α → α → Prop} {sorted : List α} (h : sorted.Pairwise fun a b => ¬ before b a) (n : ℕ)
    {x : α} (hx : x ∈ sorted) :
    x ∈ sorted.take n ∨ (sorted.take n).length = n ∧ ∀ y ∈ sorted.take n, ¬ before x y := by
  rw [← List.take_append_drop n sorted, List.mem_append] at hx
  refine hx.imp_right fun hdrop => ⟨?_, fun y hy => ?_⟩
  · have hlt : n < sorted.length := by
      by_contra hle
      rw [List.drop_eq_nil_of_le (by omega)] at hdrop
      cases hdrop
    rw [List.length_take]
    omega
  · rw [← List.take_append_drop n sorted, List.pairwise_append] at h
    exact h.2.2 y hy x hdrop

end Ranking
