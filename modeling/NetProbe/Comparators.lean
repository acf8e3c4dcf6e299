/-
# Sorting by a comparator

Three-way comparisons, the strict weak orders made of them, and what a sort
promises: for a strict weak order, the elements in some order in which none
comes after one it is less than; for any other comparator, nothing.

Key definitions: `Sorting.threeWay`, `Sorting.Sorts`.
Key theorems: `Sorting.isStrictWeakOrder_lt`, `Sorting.isStrictWeakOrder_gt`,
`Sorting.exists_sorts`, `Sorting.forall_sorts_iff`.
-/
import Mathlib.Data.List.Perm.Basic
import Mathlib.Logic.Function.Basic
import Mathlib.Order.Compare
import Mathlib.Order.Lattice

namespace Sorting

variable {α κ : Type}

/-! ### Three-way comparisons -/

/-- `a < b ? -1 : a > b ? 1 : 0`. -/
def threeWay [LT κ] [DecidableLT κ] (a b : κ) : Ordering :=
  if a < b then .lt else if a > b then .gt else .eq

section Compare

variable [LinearOrder κ] {a b : κ}

theorem threeWay_eq_compare : (threeWay : κ → κ → Ordering) = compare := by
  funext a b
  unfold threeWay
  rcases lt_trichotomy a b with h | h | h
  · rw [if_pos h, compare_lt_iff_lt.mpr h]
  · rw [if_neg h.not_lt, if_neg h.not_gt, compare_eq_iff_eq.mpr h]
  · rw [if_neg h.not_gt, if_pos h, compare_gt_iff_gt.mpr h]

instance : Std.TransCmp (threeWay : κ → κ → Ordering) := by
  rw [threeWay_eq_compare]
  infer_instance

@[simp] theorem threeWay_eq_lt : threeWay a b = .lt ↔ a < b := by rw [threeWay_eq_compare, compare_lt_iff_lt]

@[simp] theorem threeWay_eq_gt : threeWay a b = .gt ↔ b < a := by rw [threeWay_eq_compare, compare_gt_iff_gt]

@[simp] theorem threeWay_eq_eq : threeWay a b = .eq ↔ a = b := by rw [threeWay_eq_compare, compare_eq_iff_eq]

end Compare

/-- The comparison of what `key` gives. -/
theorem transCmp_on (cmp : κ → κ → Ordering) [Std.TransCmp cmp] (key : α → κ) :
    Std.TransCmp fun a b => cmp (key a) (key b) where
  eq_swap := Std.OrientedCmp.eq_swap
  isLE_trans := Std.TransCmp.isLE_trans

/-- The comparison that tells nothing apart. -/
theorem transCmp_eq : Std.TransCmp fun _ _ : α => Ordering.eq where
  eq_swap := rfl
  isLE_trans _ _ := rfl

section StrictWeakOrder

variable (cmp : α → α → Ordering) [Std.TransCmp cmp]

theorem isStrictWeakOrder_lt : IsStrictWeakOrder α fun a b => cmp a b = .lt where
  irrefl a h := by
    have hself : cmp a a = .eq := Std.ReflCmp.compare_self
    rw [hself] at h
    exact Ordering.noConfusion h
  trans _ _ _ := Std.TransCmp.lt_trans
  incomp_trans a b c hab hbc := by
    have heq : ∀ {x y : α}, ¬ cmp x y = .lt ∧ ¬ cmp y x = .lt → cmp x y = .eq := by
      rintro x y ⟨hxy, hyx⟩
      rw [← Std.OrientedCmp.gt_iff_lt] at hyx
      cases h : cmp x y with
      | lt => exact absurd h hxy
      | eq => rfl
      | gt => exact absurd h hyx
    have hac := Std.TransCmp.eq_trans (heq hab) (heq hbc)
    have hca := Std.OrientedCmp.eq_comm.mp hac
    rw [hac, hca]
    exact ⟨Ordering.noConfusion, Ordering.noConfusion⟩

theorem isStrictWeakOrder_gt : IsStrictWeakOrder α fun a b => cmp a b = .gt := by
  have := isStrictWeakOrder_lt cmp
  have hswap : (fun a b => cmp a b = .gt) = Function.swap fun a b => cmp a b = .lt := by
    funext a b
    exact propext Std.OrientedCmp.gt_iff_lt
  rw [hswap]
  infer_instance

end StrictWeakOrder

/-! ### Sorts -/

/-- `ys` is what sorting `xs` by `less` may leave. -/
def Sorts (less : α → α → Bool) (xs ys : List α) : Prop :=
  IsStrictWeakOrder α (fun a b => less a b = true) → ys.Perm xs ∧ ys.Pairwise fun a b => less b a = false

section Sorts

variable {less : α → α → Bool} {xs ys : List α} {a b : α}

theorem not_less_trans (hless : IsStrictWeakOrder α fun a b => less a b = true) (a b c : α)
    (hba : less b a = false) (hcb : less c b = false) : less c a = false := by
  rw [← Bool.not_eq_true] at hba hcb ⊢
  intro hca
  have hab : ¬ less a b = true := fun hab => hcb (hless.trans _ _ _ hca hab)
  have hbc : ¬ less b c = true := fun hbc => hba (hless.trans _ _ _ hbc hca)
  exact (hless.incomp_trans a b c ⟨hab, hba⟩ ⟨hbc, hcb⟩).2 hca

theorem not_less_total (hless : IsStrictWeakOrder α fun a b => less a b = true) (a b : α) :
    less b a = false ∨ less a b = false := by
  rw [← Bool.not_eq_true, ← Bool.not_eq_true, ← not_and_or]
  rintro ⟨hba, hab⟩
  exact hless.irrefl a (hless.trans _ _ _ hab hba)

/-- A stable sort, which leaves `a` before `b` where it finds them so and `b` is not less. -/
theorem exists_sorts (hless : IsStrictWeakOrder α fun a b => less a b = true) {zs : List α} (hperm : zs.Perm xs)
    (hpair : [a, b].Sublist zs) (hba : less b a = false) : ∃ ys, Sorts less xs ys ∧ [a, b].Sublist ys := by
  have htrans : ∀ a b c, (!less b a) = true → (!less c b) = true → (!less c a) = true := by
    intro a b c hba hcb
    rw [Bool.not_eq_true'] at *
    exact not_less_trans hless a b c hba hcb
  have htotal : ∀ a b, (!less b a || !less a b) = true := by
    intro a b
    rw [Bool.or_eq_true, Bool.not_eq_true', Bool.not_eq_true']
    exact not_less_total hless a b
  refine ⟨zs.mergeSort fun a b => !less b a, fun _ => ⟨(List.mergeSort_perm _ _).trans hperm, ?_⟩, ?_⟩
  · refine (List.pairwise_mergeSort htrans htotal zs).imp fun h => ?_
    rwa [Bool.not_eq_true'] at h
  · exact List.pair_sublist_mergeSort htrans htotal (by rw [hba]; rfl) hpair

/-- Those with `p` come first, whatever the sort does with equals, exactly when
each of them is less than each of the rest. -/
theorem forall_sorts_iff (hless : IsStrictWeakOrder α fun a b => less a b = true) (p : α → Prop) :
    (∀ ys, Sorts less xs ys → ys.Pairwise fun a b => p b → p a) ↔
      ∀ a ∈ xs, ∀ b ∈ xs, p a → ¬ p b → less a b = true := by
  constructor
  · intro h a ha b hb hpa hpb
    by_contra hab
    rw [Bool.not_eq_true] at hab
    have hne : a ≠ b := fun heq => hpb (heq ▸ hpa)
    classical
    have hperm : (b :: a :: (xs.erase b).erase a).Perm xs := by
      have haerase : a ∈ xs.erase b := (List.mem_erase_of_ne hne).mpr ha
      exact ((List.perm_cons_erase haerase).symm.cons b).trans (List.perm_cons_erase hb).symm
    have hpair : [b, a].Sublist (b :: a :: (xs.erase b).erase a) :=
      ((List.nil_sublist _).cons_cons a).cons_cons b
    obtain ⟨ys, hys, hsub⟩ := exists_sorts hless hperm hpair hab
    exact hpb (List.pairwise_pair.mp ((h ys hys).sublist hsub) hpa)
  · intro h ys hys
    obtain ⟨hperm, hpairwise⟩ := hys hless
    refine hpairwise.imp_of_mem fun {a b} ha hb hba hpb => ?_
    by_contra hpa
    rw [h b (hperm.subset hb) a (hperm.subset ha) hpb hpa] at hba
    exact Bool.noConfusion hba

end Sorts

end Sorting
