/-
# Recently used keys

The keys of a run of uses by their last use, the latest first, and the first
`n` of them, which are what a store of `n` places holds that gives up the key
unused for longest.

Key definition: `Recency.recent`.
Key theorems: `Recency.recent_concat`, `Recency.take_touch_of_mem`,
`Recency.take_touch_of_notMem`.
-/
import Mathlib.Data.List.Dedup

namespace Recency

variable {K : Type} [DecidableEq K]

/-- The keys used, each once, the latest first. -/
def recent (uses : List K) : List K := uses.dedup.reverse

theorem nodup_recent (uses : List K) : (recent uses).Nodup := List.nodup_reverse.mpr (List.nodup_dedup uses)

theorem dedup_concat (uses : List K) (k : K) : (uses ++ [k]).dedup = uses.dedup.erase k ++ [k] := by
  induction uses with
  | nil => rfl
  | cons a uses ih =>
    rw [List.cons_append]
    by_cases ha : a ∈ uses
    · rw [List.dedup_cons_of_mem (List.mem_append_left _ ha), List.dedup_cons_of_mem ha, ih]
    · by_cases hk : a = k
      · subst hk
        have hnot : a ∉ uses.dedup := fun h => ha (List.mem_dedup.mp h)
        rw [List.dedup_cons_of_mem (by simp), List.dedup_cons_of_notMem ha, ih, List.erase_cons_head,
          List.erase_of_not_mem hnot]
      · rw [List.dedup_cons_of_notMem (by simp [ha, hk]), List.dedup_cons_of_notMem ha, ih,
          List.erase_cons_tail (by simpa using hk), List.cons_append]

/-- The key used last comes first. -/
theorem recent_concat (uses : List K) (k : K) : recent (uses ++ [k]) = k :: (recent uses).erase k := by
  rw [recent, dedup_concat, List.reverse_append, List.reverse_singleton, List.singleton_append,
    (List.nodup_dedup uses).erase_eq_filter, (nodup_recent uses).erase_eq_filter, recent, List.filter_reverse]

variable {l : List K} {k : K} {n : ℕ}

/-- A key among the first `n` moves to their front. -/
theorem take_touch_of_mem (h : k ∈ l.take n) : (k :: l.erase k).take n = k :: (l.take n).erase k := by
  obtain ⟨n, rfl⟩ : ∃ m, n = m + 1 := by
    cases n with
    | zero => simp at h
    | succ m => exact ⟨m, rfl⟩
  have hsplit : l.erase k = (l.take (n + 1)).erase k ++ l.drop (n + 1) := by
    rw [← List.erase_append_left _ h, List.take_append_drop]
  have hlen := List.length_erase_of_mem h
  rw [List.length_take] at hlen
  rw [List.take_succ_cons, hsplit]
  congr 1
  by_cases hl : n + 1 ≤ l.length
  · rw [List.take_append_of_le_length (by omega), List.take_of_length_le (by omega)]
  · rw [List.drop_eq_nil_of_le (by omega), List.append_nil, List.take_of_length_le (by omega)]

/-- Any other key takes a place of its own at the front. -/
theorem take_touch_of_notMem (h : k ∉ l.take n) : (k :: l.erase k).take n = (k :: l.take n).take n := by
  cases n with
  | zero => rfl
  | succ n =>
    rw [List.take_succ_cons, List.take_succ_cons, List.take_take, Nat.min_eq_left (Nat.le_succ n)]
    congr 1
    by_cases hl : n + 1 ≤ l.length
    · have hsplit : l.erase k = l.take (n + 1) ++ (l.drop (n + 1)).erase k := by
        rw [← List.erase_append_right _ h, List.take_append_drop]
      rw [hsplit, List.take_append_of_le_length (by rw [List.length_take]; omega), List.take_take,
        Nat.min_eq_left (Nat.le_succ n)]
    · rw [List.take_of_length_le (by omega)] at h
      rw [List.erase_of_not_mem h]

end Recency
