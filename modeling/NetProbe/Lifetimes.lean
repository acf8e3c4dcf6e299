/-
# The lives of the entries of a table

A table under a run of events that make, change and remove entries. The life of
an entry is the part of the run from the event that made it on (`Lives`); what
holds of an entry and its life is shown by what one event does to it
(`Lives.rule`). An event spares an entry when it leaves it, or removes it where
the table was full and the entry stale (`Spared`).

Key definitions: `Lifetime.run`, `Lifetime.Lives`, `Lifetime.Spared`.
Key theorems: `Lifetime.safe_run`, `Lifetime.existsUnique_lives`,
`Lifetime.Lives.rule`.
-/
import Mathlib.Data.List.Induction
import NetProbe.Checked
import NetProbe.Table

namespace Lifetime

open Checked

variable {K V E : Type}

section Run

variable (step : Table K V → E → Checked (Table K V))

/-- The table after a run from the empty one. -/
def run (events : List E) : Checked (Table K V) := events.foldlM step ∅

variable {step}

theorem run_concat (events : List E) (e : E) :
    run step (events ++ [e]) = run step events >>= fun t => step t e := by
  rw [run, List.foldlM_append]
  refine bind_congr fun t => ?_
  rw [List.foldlM_cons]
  exact bind_pure _

/-- What the start satisfies and every event keeps holds of every run. -/
theorem safe_run {Inv : Table K V → Prop} (hstart : Inv ∅) (hstep : ∀ t e, Inv t → Safe (step t e) Inv)
    (events : List E) : Safe (run step events) Inv := by
  induction events using List.reverseRecOn with
  | nil => exact .ok hstart
  | append_singleton events e ih =>
    rw [run_concat]
    exact ih.bind fun t ht => hstep t e ht

end Run

section Lives

variable [DecidableEq K] (step : Table K V → E → Checked (Table K V))

/-- After the run `events` the entry of `k` is `v`, and `life` is what has
happened since it was made, by the first event of `life`. -/
inductive Lives (k : K) : List E → List E → V → Prop
  | made {events e t t' v} (hrun : run step events = .ok t) (hnone : t.lookup k = none)
    (hstep : step t e = .ok t') (hv : t'.lookup k = some v) : Lives k (events ++ [e]) [e] v
  | kept {events life e t t' v v'} (h : Lives k events life v) (hrun : run step events = .ok t)
    (hstep : step t e = .ok t') (hv : t'.lookup k = some v') : Lives k (events ++ [e]) (life ++ [e]) v'

variable {step} {k : K} {events life : List E} {t : Table K V} {v : V}

theorem Lives.lookup (h : Lives step k events life v) : ∃ t, run step events = .ok t ∧ t.lookup k = some v := by
  cases h with
  | made hrun _ hstep hv => exact ⟨_, by rw [run_concat, hrun, ok_bind, hstep], hv⟩
  | kept _ hrun hstep hv => exact ⟨_, by rw [run_concat, hrun, ok_bind, hstep], hv⟩

/-- The entry in a table that a run has left. -/
theorem Lives.eq (h : Lives step k events life v) (hrun : run step events = .ok t) : t.lookup k = some v := by
  obtain ⟨u, hu, hv⟩ := h.lookup
  obtain rfl := Except.ok.inj (hrun.symm.trans hu)
  exact hv

theorem Lives.unique (h : Lives step k events life v) {life' : List E} {v' : V} (h' : Lives step k events life' v') :
    life = life' := by
  induction h generalizing life' v' with
  | @made events e t _ _ hrun hnone _ _ =>
    generalize hrest : events ++ [e] = rest at h'
    cases h' with
    | made =>
      obtain ⟨-, he⟩ := List.append_inj' hrest rfl
      exact he
    | kept h' =>
      obtain ⟨rfl, -⟩ := List.append_inj' hrest rfl
      rw [h'.eq hrun] at hnone
      cases hnone
  | @kept events life e t _ _ _ h hrun _ _ ih =>
    generalize hrest : events ++ [e] = rest at h'
    cases h' with
    | made hrun' hnone =>
      obtain ⟨rfl, -⟩ := List.append_inj' hrest rfl
      rw [h.eq hrun'] at hnone
      cases hnone
    | kept h' =>
      obtain ⟨rfl, he⟩ := List.append_inj' hrest rfl
      rw [ih h', he]

/-- Every entry has one life. -/
theorem existsUnique_lives (hrun : run step events = .ok t) (hv : t.lookup k = some v) :
    ∃! life, Lives step k events life v := by
  refine existsUnique_of_exists_of_unique ?_ fun _ _ h h' => h.unique h'
  induction events using List.reverseRecOn generalizing t v with
  | nil =>
    obtain rfl := Except.ok.inj hrun
    simp at hv
  | append_singleton events e ih =>
    rw [run_concat] at hrun
    obtain ⟨u, hu, hstep⟩ := bind_eq_ok.mp hrun
    cases hw : u.lookup k with
    | none => exact ⟨[e], .made hu hw hstep hv⟩
    | some w =>
      obtain ⟨life, hlife⟩ := ih hu hw
      exact ⟨life ++ [e], .kept hlife hu hstep hv⟩

/-- What the event that makes an entry brings about, and every later event
keeps, holds of the entry and its life. -/
theorem Lives.rule {I : List E → V → Prop} (h : Lives step k events life v)
    (hmade : ∀ events t e t' v, run step events = .ok t → t.lookup k = none → step t e = .ok t' →
      t'.lookup k = some v → I [e] v)
    (hkept : ∀ events t life v e t' v', run step events = .ok t → t.lookup k = some v → I life v →
      step t e = .ok t' → t'.lookup k = some v' → I (life ++ [e]) v') : I life v := by
  induction h with
  | made hrun hnone hstep hv => exact hmade _ _ _ _ _ hrun hnone hstep hv
  | kept h hrun hstep hv ih => exact hkept _ _ _ _ _ _ _ hrun (h.eq hrun) ih hstep hv

end Lives

/-! ### The entries an event is not about -/

/-- The entry of `k` is as it was, or it was `stale` and is gone, where the
table was `full`. -/
def Spared [DecidableEq K] (full : Prop) (stale : V → Prop) (t t' : Table K V) (k : K) : Prop :=
  t'.lookup k = t.lookup k ∨ t'.lookup k = none ∧ full ∧ ∃ v, t.lookup k = some v ∧ stale v

section Spared

variable [DecidableEq K] {full : Prop} {stale : V → Prop} {t t' : Table K V} {k k' : K}

theorem Spared.refl : Spared full stale t t k := .inl rfl

theorem Spared.insert (h : Spared full stale t t' k) (hk : k ≠ k') (v : V) :
    Spared full stale t (t'.insert k' v) k := by
  rw [Spared, AList.lookup_insert_ne hk]
  exact h

theorem Spared.erase (h : Spared full stale t t' k) (hk : k ≠ k') : Spared full stale t (t'.erase k') k := by
  rw [Spared, AList.lookup_erase_ne hk]
  exact h

/-- The stale entries of a full table dropped. -/
theorem Spared.keep (hfull : full) (p : V → Bool) (hp : ∀ v, p v = false → stale v) :
    Spared full stale t (t.keep p) k := by
  rw [Spared, Table.lookup_keep]
  cases hv : t.lookup k with
  | none => exact .inl rfl
  | some v =>
    cases hpv : p v with
    | true => exact .inl (by rw [Option.filter_some, hpv, if_pos rfl])
    | false => exact .inr ⟨by rw [Option.filter_some, hpv, if_neg (by simp)], hfull, v, rfl, hp v hpv⟩

/-- An entry that is not stale stays. -/
theorem Spared.lookup_eq (h : Spared full stale t t' k) (hk : ∀ v, t.lookup k = some v → ¬ stale v) :
    t'.lookup k = t.lookup k := by
  rcases h with h | ⟨-, -, v, hv, hstale⟩
  · exact h
  · exact absurd hstale (hk v hv)

end Spared

end Lifetime
