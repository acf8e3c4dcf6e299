/-
# Overlays

A buffer assembled from patches that arrive in any order: a later patch
overwrites an earlier one, and what no patch covers keeps a fill value. The
buffer is determined position by position (`getElem?_writeAll`), so two buffers
written by the same patches agree however they were grown.

Key definitions: `Overlay.Patch`, `Overlay.writeAll`, `Overlay.value?`,
`Overlay.Covers`.
Key theorems: `Overlay.getElem?_writeAll`, `Overlay.le_length_takeWhile_marks`,
`Overlay.take_writeAll_slices`.
-/
import NetProbe.Wire

/-- `vector::resize(n, fill)`. -/
def resize {α : Type} (xs : List α) (n : ℕ) (fill : α) : List α :=
  xs.take n ++ List.replicate (n - xs.length) fill

/-- A run of values and the position of its first. -/
structure Overlay.Patch (α : Type) where
  offset : ℕ
  data : List α

namespace Overlay

variable {α : Type}

namespace Patch

/-- The position after the last value. -/
def stop (p : Patch α) : ℕ := p.offset + p.data.length

/-- The value at position `i`, if `p` has one. -/
def at? (p : Patch α) (i : ℕ) : Option α := if p.offset ≤ i then p.data[i - p.offset]? else none

/-- `p` with every value replaced by `a`. -/
def mark {β : Type} (a : β) (p : Patch α) : Patch β := ⟨p.offset, List.replicate p.data.length a⟩

@[simp] theorem stop_mark {β : Type} (a : β) (p : Patch α) : (p.mark a).stop = p.stop := by
  simp [mark, stop]

theorem at?_isSome {p : Patch α} {i : ℕ} : (p.at? i).isSome ↔ p.offset ≤ i ∧ i < p.stop := by
  unfold at? stop
  split
  · simp; omega
  · simp; omega

theorem at?_mark {β : Type} (a : β) (p : Patch α) (i : ℕ) :
    (p.mark a).at? i = (p.at? i).map fun _ => a := by
  unfold at? mark
  split
  · simp only [List.getElem?_replicate]
    split
    · simp [List.getElem?_eq_getElem ‹_›]
    · simp [List.getElem?_eq_none (Nat.le_of_not_lt ‹_›)]
  · rfl

end Patch

/-! ### What a list of patches says -/

/-- The value the last patch covering `i` has there. -/
def value? : List (Patch α) → ℕ → Option α
  | [], _ => none
  | p :: ps, i => (value? ps i).or (p.at? i)

/-- The furthest end of a patch. -/
def reach (ps : List (Patch α)) : ℕ := (ps.map Patch.stop).foldr max 0

/-- Every position below `n` lies in a patch. -/
def Covers (ps : List (Patch α)) (n : ℕ) : Prop :=
  ∀ i < n, ∃ p ∈ ps, p.offset ≤ i ∧ i < p.stop

instance (ps : List (Patch α)) (n : ℕ) : Decidable (Covers ps n) :=
  inferInstanceAs (Decidable (∀ i < n, ∃ p ∈ ps, p.offset ≤ i ∧ i < p.stop))

@[simp] theorem reach_nil : reach ([] : List (Patch α)) = 0 := rfl

@[simp] theorem reach_cons (p : Patch α) (ps : List (Patch α)) :
    reach (p :: ps) = max p.stop (reach ps) := rfl

theorem reach_map_mark {β : Type} (a : β) (ps : List (Patch α)) :
    reach (ps.map (·.mark a)) = reach ps := by
  induction ps with
  | nil => rfl
  | cons p ps ih => simp [ih]

theorem stop_le_reach {ps : List (Patch α)} {p : Patch α} (h : p ∈ ps) : p.stop ≤ reach ps := by
  induction ps with
  | nil => simp at h
  | cons q ps ih =>
    rcases List.mem_cons.mp h with rfl | h
    · exact le_max_left ..
    · exact (ih h).trans (le_max_right ..)

theorem reach_le {ps : List (Patch α)} {n : ℕ} (h : ∀ p ∈ ps, p.stop ≤ n) : reach ps ≤ n := by
  induction ps with
  | nil => simp
  | cons q ps ih =>
    exact max_le (h q (List.mem_cons_self ..)) (ih fun p hp => h p (List.mem_cons_of_mem _ hp))

theorem value?_isSome {ps : List (Patch α)} {i : ℕ} :
    (value? ps i).isSome ↔ ∃ p ∈ ps, p.offset ≤ i ∧ i < p.stop := by
  induction ps with
  | nil => simp [value?]
  | cons p ps ih => simp [value?, Option.isSome_or, ih, Patch.at?_isSome, or_comm]

theorem value?_map_mark {β : Type} (a : β) (ps : List (Patch α)) (i : ℕ) :
    value? (ps.map (·.mark a)) i = (value? ps i).map fun _ => a := by
  induction ps with
  | nil => rfl
  | cons p ps ih =>
    simp only [List.map_cons, value?, ih, Patch.at?_mark]
    cases value? ps i <;> simp

theorem covers_iff {ps : List (Patch α)} {n : ℕ} :
    Covers ps n ↔ ∀ i < n, (value? ps i).isSome := by
  simp only [Covers, value?_isSome]

theorem Covers.mono {ps qs : List (Patch α)} {n : ℕ} (h : Covers ps n) (hs : ∀ p ∈ ps, p ∈ qs) :
    Covers qs n := fun i hi => by
  obtain ⟨p, hp, hpi⟩ := h i hi
  exact ⟨p, hs p hp, hpi⟩

theorem Covers.le_reach {ps : List (Patch α)} {n : ℕ} (h : Covers ps n) : n ≤ reach ps := by
  rcases Nat.eq_zero_or_pos n with rfl | hn
  · exact Nat.zero_le _
  · obtain ⟨p, hp, -, hlt⟩ := h (n - 1) (by omega)
    have := stop_le_reach hp
    omega

/-! ### Writing patches -/

/-- Grows `xs` to the end of `p` where it is shorter, and copies `p` in. -/
def write (fill : α) (xs : List α) (p : Patch α) : List α :=
  let ys := if xs.length < p.stop then resize xs p.stop fill else xs
  ys.take p.offset ++ p.data ++ ys.drop p.stop

/-- The patches written in order. -/
def writeAll (fill : α) (xs : List α) (ps : List (Patch α)) : List α := ps.foldl (write fill) xs

theorem length_resize (xs : List α) (n : ℕ) (fill : α) : (resize xs n fill).length = n := by
  simp [resize]; omega

theorem getElem?_resize {xs : List α} {n : ℕ} (fill : α) (h : xs.length ≤ n) (i : ℕ) :
    (resize xs n fill)[i]? = if i < n then some (xs.getD i fill) else none := by
  unfold resize
  rw [List.take_of_length_le h, List.getElem?_append, List.getD_eq_getElem?_getD]
  split
  · rw [if_pos (by omega), List.getElem?_eq_getElem ‹_›, Option.getD_some]
  · rw [List.getElem?_replicate, List.getElem?_eq_none (by omega), Option.getD_none]
    exact if_congr (by omega) rfl rfl

/-- `p` copied over a buffer it lies within. -/
theorem getElem?_splice {ys : List α} {p : Patch α} (h : p.stop ≤ ys.length) (i : ℕ) :
    (ys.take p.offset ++ p.data ++ ys.drop p.stop)[i]? = (p.at? i).or ys[i]? := by
  have hstop : p.offset + p.data.length = p.stop := rfl
  have htake : (ys.take p.offset).length = p.offset := by
    rw [List.length_take]; omega
  rcases Nat.lt_or_ge i p.offset with hi | hi
  · have hat : p.at? i = none := if_neg (by omega)
    rw [List.append_assoc, List.getElem?_append_left (by omega), List.getElem?_take_of_lt hi, hat,
      Option.none_or]
  · rcases Nat.lt_or_ge i p.stop with hi' | hi'
    · have hdata : i - p.offset < p.data.length := by omega
      have hat : p.at? i = some p.data[i - p.offset] := by
        rw [Patch.at?, if_pos hi, List.getElem?_eq_getElem]
      rw [List.getElem?_append_left (by simp only [List.length_append]; omega),
        List.getElem?_append_right (by omega), htake, hat, List.getElem?_eq_getElem (by omega),
        Option.some_or]
    · have hat : p.at? i = none := by
        rw [Patch.at?, if_pos hi, List.getElem?_eq_none (by omega)]
      rw [List.getElem?_append_right (by simp only [List.length_append]; omega),
        List.length_append, htake, hstop, List.getElem?_drop, Nat.add_sub_cancel' hi', hat,
        Option.none_or]

theorem length_write (fill : α) (xs : List α) (p : Patch α) :
    (write fill xs p).length = max xs.length p.stop := by
  have hstop : p.offset + p.data.length = p.stop := rfl
  unfold write
  split
  · simp only [List.length_append, List.length_take, List.length_drop, length_resize]; omega
  · simp only [List.length_append, List.length_take, List.length_drop]; omega

/-- What a write leaves at each position. -/
theorem getElem?_write (fill : α) (xs : List α) (p : Patch α) (i : ℕ) :
    (write fill xs p)[i]? =
      if i < max xs.length p.stop then some ((p.at? i).getD (xs.getD i fill)) else none := by
  have hat : ¬ i < p.stop → p.at? i = none := fun h => by
    rw [← Option.not_isSome_iff_eq_none, Patch.at?_isSome]; omega
  unfold write
  split
  · rw [getElem?_splice (by rw [length_resize]), getElem?_resize fill (by omega),
      max_eq_right (by omega)]
    split
    · cases p.at? i <;> rfl
    · rw [hat ‹_›, Option.none_or]
  · rw [getElem?_splice (by omega), max_eq_left (by omega), List.getD_eq_getElem?_getD]
    split
    · rw [List.getElem?_eq_getElem ‹_›, Option.getD_some]
      cases p.at? i <;> rfl
    · rw [hat (by omega), List.getElem?_eq_none (by omega), Option.none_or]

/-- What the writes leave at each position: the last patch there, else what
was there before. -/
theorem getElem?_writeAll (fill : α) (xs : List α) (ps : List (Patch α)) (i : ℕ) :
    (writeAll fill xs ps)[i]? =
      if i < max xs.length (reach ps) then some ((value? ps i).getD (xs.getD i fill)) else none := by
  induction ps generalizing xs with
  | nil =>
    simp only [writeAll, List.foldl_nil, reach_nil, value?, Option.getD_none, Nat.max_zero,
      List.getD_eq_getElem?_getD]
    split
    · rw [List.getElem?_eq_getElem ‹_›, Option.getD_some]
    · rw [List.getElem?_eq_none (by omega)]
  | cons p ps ih =>
    have hstep : writeAll fill xs (p :: ps) = writeAll fill (write fill xs p) ps := rfl
    rw [hstep, ih, length_write, reach_cons, max_assoc]
    split
    · rw [value?, List.getD_eq_getElem?_getD, getElem?_write]
      cases hv : value? ps i with
      | some v => simp
      | none =>
        simp only [Option.getD_none, Option.none_or]
        split
        · rfl
        · have hat : p.at? i = none := by
            rw [← Option.not_isSome_iff_eq_none, Patch.at?_isSome]; omega
          rw [hat, List.getD_eq_getElem?_getD, List.getElem?_eq_none (by omega)]
          rfl
    · rfl

theorem length_writeAll (fill : α) (xs : List α) (ps : List (Patch α)) :
    (writeAll fill xs ps).length = max xs.length (reach ps) := by
  induction ps generalizing xs with
  | nil => simp [writeAll]
  | cons p ps ih =>
    have hstep : writeAll fill xs (p :: ps) = writeAll fill (write fill xs p) ps := rfl
    rw [hstep, ih, length_write, reach_cons, max_assoc]

theorem writeAll_append (fill : α) (xs : List α) (ps qs : List (Patch α)) :
    writeAll fill xs (ps ++ qs) = writeAll fill (writeAll fill xs ps) qs := List.foldl_append ..

/-- A buffer made long enough first takes the patches as one that grows. -/
theorem writeAll_replicate (fill : α) (ps : List (Patch α)) :
    writeAll fill (List.replicate (reach ps) fill) ps = writeAll fill [] ps := by
  refine List.ext_getElem? fun i => ?_
  rw [getElem?_writeAll, getElem?_writeAll]
  simp only [List.length_replicate, max_self, List.length_nil, Nat.zero_max]
  split
  · congr 2
    simp [List.getD_eq_getElem?_getD, *]
  · rfl

/-- A patch of the buffer that lies within it is copied in without growing it. -/
theorem write_of_le {fill : α} {xs : List α} {p : Patch α} (h : p.stop ≤ xs.length) :
    write fill xs p = xs.take p.offset ++ p.data ++ xs.drop p.stop := by
  simp [write, Nat.not_lt.mpr h]

/-! ### The covered prefix -/

theorem le_length_takeWhile_id {xs : List Bool} {n : ℕ} :
    n ≤ (xs.takeWhile id).length ↔ ∀ i < n, xs[i]? = some true := by
  induction xs generalizing n with
  | nil =>
    simp only [List.takeWhile_nil, List.length_nil, List.getElem?_nil, reduceCtorEq, imp_false]
    exact ⟨fun h i => by omega, fun h => Nat.le_zero.mpr (Nat.eq_zero_of_not_pos (h 0))⟩
  | cons b xs ih =>
    cases b with
    | false =>
      simp only [List.takeWhile_cons, id, Bool.false_eq_true, if_false, List.length_nil]
      constructor
      · intro h i hi
        omega
      · intro h
        refine Nat.le_of_not_lt fun hn => ?_
        simpa using h 0 hn
    | true =>
      simp only [List.takeWhile_cons, id, if_true, List.length_cons]
      cases n with
      | zero => simp
      | succ n =>
        rw [Nat.succ_le_succ_iff, ih]
        constructor
        · intro h i hi
          cases i with
          | zero => rfl
          | succ i => simpa using h i (by omega)
        · intro h i hi
          simpa using h (i + 1) (by omega)

/-- A position is marked exactly when a patch covers it. -/
theorem getElem?_marks {ps : List (Patch α)} {i : ℕ} :
    (writeAll false [] (ps.map (·.mark true)))[i]? = some true ↔ (value? ps i).isSome := by
  rw [getElem?_writeAll, value?_map_mark, reach_map_mark]
  cases hv : value? ps i with
  | none => simp
  | some v =>
    have hlt : i < reach ps := by
      obtain ⟨p, hp, -, hlt⟩ := value?_isSome.mp (Option.isSome_iff_exists.mpr ⟨v, hv⟩)
      exact hlt.trans_le (stop_le_reach hp)
    simp [hlt]

/-- What the patches leave at a position that one of them covers. -/
theorem getElem?_writeAll_of_isSome (fill : α) {ps : List (Patch α)} {i : ℕ} (h : (value? ps i).isSome) :
    (writeAll fill [] ps)[i]? = value? ps i := by
  obtain ⟨v, hv⟩ := Option.isSome_iff_exists.mp h
  obtain ⟨p, hp, -, hlt⟩ := value?_isSome.mp h
  have hreach : i < max ([] : List α).length (reach ps) := lt_max_of_lt_right (hlt.trans_le (stop_le_reach hp))
  rw [getElem?_writeAll, if_pos hreach, hv, Option.getD_some]

/-- The marks the patches leave start with `n` trues exactly when the patches
cover the first `n` positions. -/
theorem le_length_takeWhile_marks {ps : List (Patch α)} {n : ℕ} :
    n ≤ ((writeAll false [] (ps.map (·.mark true))).takeWhile id).length ↔ Covers ps n := by
  rw [le_length_takeWhile_id, covers_iff]
  exact forall₂_congr fun i _ => getElem?_marks

/-! ### The last patch at a position -/

/-- `p` is the last of the patches that covers `i`. -/
def LastAt (ps : List (Patch α)) (i : ℕ) (p : Patch α) : Prop :=
  ∃ before after, ps = before ++ p :: after ∧ (p.at? i).isSome ∧ ∀ q ∈ after, q.at? i = none

theorem exists_lastAt {ps : List (Patch α)} {i : ℕ} (h : (value? ps i).isSome) :
    ∃ p, LastAt ps i p ∧ value? ps i = p.at? i := by
  induction ps with
  | nil => simp [value?] at h
  | cons q ps ih =>
    cases hv : value? ps i with
    | some v =>
      obtain ⟨p, ⟨before, after, rfl, hat, hafter⟩, hp⟩ := ih (by rw [hv]; rfl)
      exact ⟨p, ⟨q :: before, after, rfl, hat, hafter⟩, by rw [value?, hp, Option.or_of_isSome hat]⟩
    | none =>
      rw [value?, hv, Option.none_or] at h
      refine ⟨q, ⟨[], ps, rfl, h, fun p hp => ?_⟩, by rw [value?, hv, Option.none_or]⟩
      by_contra hat
      have hsome : (value? ps i).isSome :=
        value?_isSome.mpr ⟨p, hp, Patch.at?_isSome.mp (Option.isSome_iff_ne_none.mpr hat)⟩
      rw [hv] at hsome
      cases hsome

/-! ### Slices of one message -/

/-- The values of `p` are those of `xs` at its positions. -/
def Patch.SliceOf (p : Patch α) (xs : List α) : Prop := Wire.At xs p.offset p.data

theorem Patch.SliceOf.stop_le {p : Patch α} {xs : List α} (h : p.SliceOf xs) :
    p.stop ≤ xs.length := Wire.At.le h

theorem Patch.SliceOf.at?_eq {p : Patch α} {xs : List α} (h : p.SliceOf xs) {i : ℕ} {a : α}
    (ha : p.at? i = some a) : xs[i]? = some a := by
  obtain ⟨hle, hlt⟩ := Patch.at?_isSome.mp (Option.isSome_iff_exists.mpr ⟨a, ha⟩)
  have hstop : p.stop = p.offset + p.data.length := rfl
  rw [Patch.at?, if_pos hle] at ha
  have hi := Wire.At.getElem? h (j := i - p.offset) (by omega)
  rw [ha, Nat.add_sub_cancel' hle] at hi
  exact hi

theorem value?_slices {ps : List (Patch α)} {xs : List α} (h : ∀ p ∈ ps, p.SliceOf xs) {i : ℕ} {a : α}
    (ha : value? ps i = some a) : xs[i]? = some a := by
  induction ps with
  | nil => simp [value?] at ha
  | cons p ps ih =>
    rw [value?, Option.or_eq_some_iff] at ha
    rcases ha with ha | ⟨-, ha⟩
    · exact ih (fun q hq => h q (List.mem_cons_of_mem _ hq)) ha
    · exact (h p (List.mem_cons_self ..)).at?_eq ha

/-- As far as slices of a message cover it, the buffer they leave is the message. -/
theorem take_writeAll_slices (fill : α) {ps : List (Patch α)} {xs : List α}
    (h : ∀ p ∈ ps, p.SliceOf xs) {n : ℕ} (hc : Covers ps n) :
    (writeAll fill [] ps).take n = xs.take n := by
  refine List.ext_getElem? fun i => ?_
  rw [List.getElem?_take, List.getElem?_take]
  split
  · have hi := (covers_iff.mp hc) i ‹_›
    obtain ⟨a, ha⟩ := Option.isSome_iff_exists.mp hi
    have hreach : i < reach ps := lt_of_lt_of_le ‹_› hc.le_reach
    rw [getElem?_writeAll, if_pos (by simpa using hreach), ha, value?_slices h ha]
    rfl
  · rfl

end Overlay
