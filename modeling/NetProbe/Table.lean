/-
# Keyed tables

`std::unordered_map` as an association list with distinct keys (Mathlib's
`AList`), with the two bulk operations the trackers use: dropping the entries
that fail a test and changing every value.

Key theorems: `Table.lookup_keep`, `Table.lookup_mapValues`, `Table.lookup_eq_find?`,
`Table.size_insert_le`, `Table.size_erase`, `Table.mapValues_insert`.
-/
import Mathlib.Data.List.AList
import Mathlib.Data.List.Induction

/-- A finite map from `K` to `V`. -/
abbrev Table (K V : Type) := AList fun _ : K => V

namespace Table

variable {K V : Type}

/-- The number of entries. -/
def size (t : Table K V) : ℕ := t.entries.length

/-- The entries that pass `p`. -/
def keep (p : V → Bool) (t : Table K V) : Table K V :=
  ⟨t.entries.filter fun e => p e.2, t.nodupKeys.sublist List.filter_sublist⟩

/-- Every value changed by `f`. -/
def mapValues (f : K → V → V) (t : Table K V) : Table K V :=
  ⟨t.entries.map fun e => ⟨e.1, f e.1 e.2⟩, by
    have h : (t.entries.map fun e : (_ : K) × V => (⟨e.1, f e.1 e.2⟩ : (_ : K) × V)).keys = t.entries.keys := by
      simp [List.keys, Function.comp_def]
    rw [List.NodupKeys, h]
    exact t.nodupKeys⟩

theorem size_eq_length_keys (t : Table K V) : t.size = t.keys.length := (List.length_map _).symm

theorem size_keep_le (p : V → Bool) (t : Table K V) : (t.keep p).size ≤ t.size := List.length_filter_le ..

variable [DecidableEq K]

theorem lookup_keep (p : V → Bool) (t : Table K V) (k : K) :
    (t.keep p).lookup k = (t.lookup k).filter p := by
  ext v
  rw [Option.filter_eq_some_iff]
  have h := (AList.mem_lookup_iff (a := k) (b := v) (s := t.keep p))
  have h' := (AList.mem_lookup_iff (a := k) (b := v) (s := t))
  simp only [Option.mem_def] at h h'
  rw [h, h']
  simp [keep]

theorem lookup_mapValues (f : K → V → V) (t : Table K V) (k : K) :
    (t.mapValues f).lookup k = (t.lookup k).map (f k) := by
  ext v
  rw [Option.map_eq_some_iff]
  have h := (AList.mem_lookup_iff (a := k) (b := v) (s := t.mapValues f))
  simp only [Option.mem_def] at h
  rw [h]
  simp only [mapValues, List.mem_map]
  constructor
  · rintro ⟨⟨k', w⟩, hw, he⟩
    obtain ⟨rfl, h2⟩ := Sigma.mk.inj he
    exact ⟨w, AList.mem_lookup_iff.mpr hw, eq_of_heq h2⟩
  · rintro ⟨w, hw, rfl⟩
    exact ⟨⟨k, w⟩, AList.mem_lookup_iff.mp hw, rfl⟩

theorem lookup_eq_find? (t : Table K V) (k : K) :
    t.lookup k = (t.entries.find? fun e => e.1 = k).map (·.2) := by
  unfold AList.lookup
  induction t.entries with
  | nil => rfl
  | cons e entries ih =>
    obtain ⟨k', v⟩ := e
    by_cases h : k' = k
    · subst h
      rw [List.dlookup_cons_eq, List.find?_cons_of_pos (by simp)]
      rfl
    · rw [List.dlookup_cons_ne _ _ (Ne.symm h), List.find?_cons_of_neg (by simpa using h), ih]

variable {t : Table K V} {k : K} {v w : V}

theorem size_erase (h : t.lookup k = some v) : size (t.erase k) + 1 = t.size := by
  have hk : k ∈ t.keys := AList.lookup_isSome.mp (by rw [h]; rfl)
  rw [size_eq_length_keys, size_eq_length_keys, AList.keys_erase, List.length_erase_of_mem hk]
  exact Nat.sub_add_cancel (List.length_pos_of_mem hk)

theorem size_erase_le : size (t.erase k) ≤ t.size := by
  rw [size_eq_length_keys, size_eq_length_keys, AList.keys_erase]
  exact List.length_erase_le

theorem size_insert_le : size (t.insert k w) ≤ t.size + 1 := by
  rw [size_eq_length_keys, size_eq_length_keys, AList.keys_insert, List.length_cons]
  exact Nat.add_le_add_right List.length_erase_le 1

/-- A value replaced. -/
theorem size_insert_of_lookup (h : t.lookup k = some v) : size (t.insert k w) = t.size := by
  rw [← size_erase h, size_eq_length_keys, AList.keys_insert, size_eq_length_keys, AList.keys_erase, List.length_cons]

/-- After a run of insertions a key has the last value it was given. -/
theorem lookup_insertAll (rows : List (K × V)) (k : K) (t : Table K V) :
    (rows.foldl (fun t row => t.insert row.1 row.2) t).lookup k =
      (((rows.filter (·.1 = k)).getLast?).map (·.2)).or (t.lookup k) := by
  induction rows using List.reverseRecOn with
  | nil => rfl
  | append_singleton rows row ih =>
    rw [List.foldl_append, List.foldl_cons, List.foldl_nil, List.filter_append]
    by_cases h : row.1 = k
    · subst h
      rw [AList.lookup_insert]
      simp
    · rw [AList.lookup_insert_ne (Ne.symm h), ih]
      simp [h]

theorem kerase_map (f : K → V → V) (k : K) (entries : List ((_ : K) × V)) :
    (entries.map fun e => (⟨e.1, f e.1 e.2⟩ : (_ : K) × V)).kerase k =
      (entries.kerase k).map fun e => ⟨e.1, f e.1 e.2⟩ := by
  induction entries with
  | nil => rfl
  | cons e entries ih =>
    obtain ⟨k', v⟩ := e
    by_cases h : k = k'
    · subst h
      simp
    · rw [List.map_cons, List.kerase_cons_ne h, List.kerase_cons_ne h, ih, List.map_cons]

theorem mapValues_insert (f : K → V → V) (t : Table K V) (k : K) (v : V) :
    mapValues f (t.insert k v) = (mapValues f t).insert k (f k v) := by
  apply AList.ext
  show _ :: (t.entries.kerase k).map _ = _ :: (t.entries.map _).kerase k
  rw [kerase_map]

end Table
