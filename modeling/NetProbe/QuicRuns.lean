/-
# Whole flights through the QuicTracker

A run of the tracker over Initials of many connections. For one connection
whose fragments are slices of a ClientHello, the tracker holds exactly the
fragments fed so far (`feedAll_tracks`), however they are cut, ordered,
repeated or interleaved with other connections, and answers on the packet that
completes the message.

Key definitions: `Arrival`, `feedAll`, `Flight`.
Key theorems: `feed_frame`, `feedAll_tracks`, `feed_reassembles`.
-/
import NetProbe.Lifetimes
import NetProbe.QuicReassembly
import Mathlib.Data.List.Induction

namespace NetProbe
namespace QuicTracker

open Checked Bytes Overlay QuicParser

/-- One UDP payload and when it was captured. -/
structure Arrival where
  payload : Bytes
  timestamp : ℤ

section Run

variable (parseInitial : Bytes → Option InitialPacket)

/-- `feed`, over a parser given as a function. -/
def feedArrival (t : Tracker) (a : Arrival) : Checked (Option String × Tracker) :=
  feed (fun payload => .ok (parseInitial payload)) t a.payload a.timestamp

/-- The answers to a run of arrivals, and the tracker after it. -/
def feedAll (t : Tracker) (run : List Arrival) : Checked (List (Option String) × Tracker) :=
  run.foldlM (fun s a => do
    let (r, t) ← feedArrival parseInitial s.2 a
    return (s.1 ++ [r], t)) ([], t)

/-- An Initial of connection `d`. -/
def IsInitialOf (d : Bytes) (a : Arrival) : Prop :=
  ∃ initial, parseInitial a.payload = some initial ∧ initial.destinationConnectionId = d

/-- The fragments an arrival brings connection `d`. -/
def fragmentsOf (d : Bytes) (a : Arrival) : List CryptoFragment :=
  match parseInitial a.payload with
  | some initial => if initial.destinationConnectionId = d then initial.crypto else []
  | none => []

/-- The fragments a run brings connection `d`. -/
def slicesOf (d : Bytes) (run : List Arrival) : List CryptoFragment :=
  run.flatMap (fragmentsOf parseInitial d)

/-- When a run last brought connection `d` a fragment. -/
def lastSeenOf (d : Bytes) (run : List Arrival) : Option ℤ :=
  ((run.filter fun a => fragmentsOf parseInitial d a ≠ []).getLast?).map (·.timestamp)

end Run

/-- A connection can be admitted at `now`. -/
def HasRoom (t : Tracker) (now : ℤ) : Prop :=
  t.size < kMaxTrackedConnections ∨ (expireStale t now).size < kMaxTrackedConnections

/-- Every connection's marks are as many as its bytes. -/
def Aligned (t : Tracker) : Prop := ∀ k c, t.lookup k = some c → c.Aligned

/-- A run from `t` that brings connection `d` slices of `H`: `t` has room for
`d` when its first fragment arrives, and no arrival finds it idle too long. -/
structure Flight (parseInitial : Bytes → Option InitialPacket) (H d : Bytes) (t : Tracker)
    (run : List Arrival) : Prop where
  slices : ∀ f ∈ slicesOf parseInitial d run, f.patch.SliceOf H
  admitted : ∀ before a, before ++ [a] <+: run → lastSeenOf parseInitial d before = none →
    fragmentsOf parseInitial d a ≠ [] →
    ∀ outs t', feedAll parseInitial t before = .ok (outs, t') → HasRoom t' a.timestamp
  punctual : ∀ before a, before ++ [a] <+: run →
    ∀ seen, lastSeenOf parseInitial d before = some seen →
      a.timestamp - seen ≤ kConnectionTimeoutMicroseconds

/-! ### Runs -/

section Lemmas

variable {parseInitial : Bytes → Option InitialPacket} {H d : Bytes} {t : Tracker}

theorem feedAll_concat (run : List Arrival) (a : Arrival) :
    feedAll parseInitial t (run ++ [a]) = do
      let (outs, t) ← feedAll parseInitial t run
      let (r, t) ← feedArrival parseInitial t a
      return (outs ++ [r], t) := by
  unfold feedAll
  rw [List.foldlM_append]
  refine bind_congr fun s => ?_
  rw [List.foldlM_cons]
  simp only [List.foldlM_nil, bind_pure]

theorem slicesOf_concat (run : List Arrival) (a : Arrival) :
    slicesOf parseInitial d (run ++ [a]) = slicesOf parseInitial d run ++ fragmentsOf parseInitial d a := by
  simp [slicesOf]

theorem lastSeenOf_concat_of_nil {run : List Arrival} {a : Arrival}
    (h : fragmentsOf parseInitial d a = []) :
    lastSeenOf parseInitial d (run ++ [a]) = lastSeenOf parseInitial d run := by
  simp [lastSeenOf, List.filter_append, h]

theorem lastSeenOf_concat_of_ne {run : List Arrival} {a : Arrival}
    (h : fragmentsOf parseInitial d a ≠ []) :
    lastSeenOf parseInitial d (run ++ [a]) = some a.timestamp := by
  simp [lastSeenOf, List.filter_append, h]

theorem slicesOf_of_lastSeenOf {run : List Arrival} (h : lastSeenOf parseInitial d run = none) :
    slicesOf parseInitial d run = [] := by
  rw [lastSeenOf, Option.map_eq_none_iff, List.getLast?_eq_none_iff, List.filter_eq_nil_iff] at h
  rw [slicesOf, List.flatMap_eq_nil_iff]
  intro a ha
  simpa using h a ha

theorem Flight.of_prefix {run run' : List Arrival} (h : Flight parseInitial H d t run)
    (hp : run' <+: run) : Flight parseInitial H d t run' := by
  refine ⟨fun f hf => h.slices f ?_, fun before a hb => h.admitted before a (hb.trans hp),
    fun before a hb => h.punctual before a (hb.trans hp)⟩
  obtain ⟨rest, rfl⟩ := hp
  rw [slicesOf, List.flatMap_append]
  exact List.mem_append_left _ hf

end Lemmas

/-! ### What an arrival leaves alone -/

theorem aligned_empty : Aligned ∅ := fun k c h => by simp at h

theorem Aligned.insert {t : Tracker} (h : Aligned t) {d : Bytes} {c : Connection} (hc : c.Aligned) :
    Aligned (t.insert d c) := fun k c' hk => by
  by_cases hkd : k = d
  · subst hkd
    rw [AList.lookup_insert] at hk
    obtain rfl := Option.some.inj hk
    exact hc
  · rw [AList.lookup_insert_ne hkd] at hk
    exact h k c' hk

theorem Aligned.erase {t : Tracker} (h : Aligned t) (d : Bytes) : Aligned (t.erase d) := fun k c hk => by
  by_cases hkd : k = d
  · subst hkd
    simp at hk
  · rw [AList.lookup_erase_ne hkd] at hk
    exact h k c hk

theorem Aligned.expireStale {t : Tracker} (h : Aligned t) (now : ℤ) : Aligned (expireStale t now) :=
  fun k c hk => by
    rw [QuicTracker.expireStale, Table.lookup_keep, Option.filter_eq_some_iff] at hk
    exact h k c hk.1

/-- What `feedConnection` leaves: no entry, or the fragments written into it. -/
theorem feedConnection_leaves (u : Tracker) (d : Bytes) {c : Connection} (hc : c.Aligned)
    {fs : List CryptoFragment} (ha : Addressable fs) (now : ℤ) :
    Safe (feedConnection u d c fs now) fun r =>
      (WithinLimit fs →
        r.2 = u.erase d ∨ r.2 = u.insert d (fs.foldl Connection.write { c with lastSeen := now })) ∧
      (¬ WithinLimit fs → r = (none, u.erase d)) := by
  have hadd := addFragments_eq ha (c := { c with lastSeen := now }) hc
  unfold feedConnection
  dsimp only
  rw [hadd, ok_bind]
  by_cases hw : WithinLimit fs
  swap
  · rw [if_neg hw]
    exact .ok ⟨fun h => absurd h hw, fun _ => rfl⟩
  rw [if_pos hw]
  dsimp only
  have hc' : (fs.foldl Connection.write { c with lastSeen := now }).Aligned :=
    Connection.Aligned.foldl_write (c := { c with lastSeen := now }) hc fs
  generalize fs.foldl Connection.write { c with lastSeen := now } = c' at hc'
  have hle := contiguousPrefix_le hc'
  refine .guard ⟨fun _ => .inr rfl, fun h => absurd hw h⟩ fun _ => ?_
  rw [window_eq (by omega), ok_bind]
  obtain ⟨r, hr, -⟩ := sniFromClientHello_iff (slice c'.stream 0 (contiguousPrefix c'))
  rw [hr, ok_bind]
  cases r with
  | none => exact .ok ⟨fun _ => .inr rfl, fun h => absurd hw h⟩
  | some sni => exact .ok ⟨fun _ => .inl rfl, fun h => absurd hw h⟩

/-- `r` is what `feedInitial` on `t` may give: the other connections are spared,
and the one of the Initial takes all its fragments or is gone. -/
structure Fed (t : Tracker) (initial : InitialPacket) (now : ℤ) (r : Option String × Tracker) : Prop where
  aligned : Aligned r.2
  size : t.size ≤ kMaxTrackedConnections → r.2.size ≤ kMaxTrackedConnections
  spares : ∀ k, k ≠ initial.destinationConnectionId →
    Lifetime.Spared (t.size ≥ kMaxTrackedConnections)
      (fun c => now - c.lastSeen > kConnectionTimeoutMicroseconds) t r.2 k
  idle : initial.crypto = [] → r = (none, t)
  own : ∀ c, r.2.lookup initial.destinationConnectionId = some c →
    initial.crypto = [] ∧ t.lookup initial.destinationConnectionId = some c ∨
      WithinLimit initial.crypto ∧ c = initial.crypto.foldl Connection.write
        { (t.lookup initial.destinationConnectionId).getD {} with lastSeen := now }
  refused : ¬ WithinLimit initial.crypto → r.1 = none ∧ r.2.lookup initial.destinationConnectionId = none

section Fed

variable {t u : Tracker} {initial : InitialPacket} {now : ℤ}

/-- The connection of the Initial removed from the table `u` that is left of `t`. -/
theorem fed_erase (hcrypto : initial.crypto ≠ []) (haligned : Aligned u)
    (hu : ∀ k, Lifetime.Spared (t.size ≥ kMaxTrackedConnections)
      (fun c => now - c.lastSeen > kConnectionTimeoutMicroseconds) t u k)
    (hsize : t.size ≤ kMaxTrackedConnections → u.size ≤ kMaxTrackedConnections) {out : Option String}
    (hout : ¬ WithinLimit initial.crypto → out = none) :
    Fed t initial now (out, u.erase initial.destinationConnectionId) where
  aligned := haligned.erase _
  size ht := Table.size_erase_le.trans (hsize ht)
  spares k hk := (hu k).erase hk
  idle h := absurd h hcrypto
  own c hlookup := by
    rw [AList.lookup_erase] at hlookup
    cases hlookup
  refused hw := ⟨hout hw, AList.lookup_erase _ _⟩

/-- The connection of the Initial, `c` in the table `u` that is left of `t`. -/
theorem fed_connection (hcrypto : initial.crypto ≠ []) (ha : Addressable initial.crypto) {c : Connection}
    (hc : c.Aligned) (hget : (t.lookup initial.destinationConnectionId).getD {} = c) (haligned : Aligned u)
    (hu : ∀ k, Lifetime.Spared (t.size ≥ kMaxTrackedConnections)
      (fun c => now - c.lastSeen > kConnectionTimeoutMicroseconds) t u k)
    (hroom : u.size < kMaxTrackedConnections ∨
      u.size ≤ t.size ∧ ∃ c, u.lookup initial.destinationConnectionId = some c) :
    Safe (feedConnection u initial.destinationConnectionId c initial.crypto now) (Fed t initial now) := by
  refine (feedConnection_leaves u initial.destinationConnectionId hc ha now).mono fun r hr => ?_
  have hsize : t.size ≤ kMaxTrackedConnections → u.size ≤ kMaxTrackedConnections := fun ht => by
    rcases hroom with hlt | ⟨hle, -⟩ <;> omega
  by_cases hw : WithinLimit initial.crypto
  · obtain ⟨out, v⟩ := r
    rcases hr.1 hw with hr | hr
    · dsimp only at hr
      subst hr
      exact fed_erase hcrypto haligned hu hsize fun h => absurd hw h
    · dsimp only at hr
      subst hr
      have hwritten := Connection.Aligned.foldl_write (c := { c with lastSeen := now }) hc initial.crypto
      refine ⟨haligned.insert hwritten, fun ht => ?_, fun k hk => (hu k).insert hk _, fun h => absurd h hcrypto,
        fun c hlookup => ?_, fun h => absurd hw h⟩
      · rcases hroom with hlt | ⟨hle, c, hl⟩
        · exact Table.size_insert_le.trans hlt
        · exact (Table.size_insert_of_lookup hl).trans_le (hle.trans ht)
      · rw [AList.lookup_insert] at hlookup
        rw [hget]
        exact .inr ⟨hw, (Option.some.inj hlookup).symm⟩
  · obtain rfl := hr.2 hw
    exact fed_erase hcrypto haligned hu hsize fun _ => rfl

theorem spared_expireStale (hfull : t.size ≥ kMaxTrackedConnections) (k : Bytes) :
    Lifetime.Spared (t.size ≥ kMaxTrackedConnections)
      (fun c => now - c.lastSeen > kConnectionTimeoutMicroseconds) t (expireStale t now) k :=
  .keep hfull _ fun _ hc => not_not.mp (of_decide_eq_false hc)

theorem feedInitial_fed (ht : Aligned t) (ha : Addressable initial.crypto) (now : ℤ) :
    Safe (feedInitial t initial now) (Fed t initial now) := by
  refine .ite (fun hc => .ok ⟨ht, id, fun _ _ => .refl, fun _ => rfl, fun c hl => .inl ⟨hc, hl⟩,
    fun h => ?_⟩) fun hc => ?_
  · rw [hc] at h
    exact absurd (fun f hf => absurd hf List.not_mem_nil) h
  dsimp only
  cases hl : t.lookup initial.destinationConnectionId with
  | some c =>
    exact fed_connection hc ha (ht _ c hl) (by rw [hl]; rfl) ht (fun _ => .refl) (.inr ⟨le_rfl, c, hl⟩)
  | none =>
    have hget : (t.lookup initial.destinationConnectionId).getD {} = {} := by rw [hl]; rfl
    refine .ite (fun hfull => .guard ?_ fun hroom => ?_) fun hroom => ?_
    · refine ⟨ht.expireStale now, (Table.size_keep_le _ t).trans, fun k _ => spared_expireStale hfull k,
        fun h => absurd h hc,
        fun c hlookup => ?_, fun _ => ⟨rfl, ?_⟩⟩
      · rw [expireStale, Table.lookup_keep, hl] at hlookup
        cases hlookup
      · rw [expireStale, Table.lookup_keep, hl]
        rfl
    · exact fed_connection hc ha rfl hget (ht.expireStale now) (spared_expireStale hfull) (.inl (not_le.mp hroom))
    · exact fed_connection hc ha rfl hget ht (fun _ => .refl) (.inl (not_le.mp hroom))

/-- An Initial is always answered, and leaves the entry of every other
connection that has not been idle too long. -/
theorem feedInitial_frame (ht : Aligned t) (ha : Addressable initial.crypto) (now : ℤ) :
    ∃ r t', feedInitial t initial now = .ok (r, t') ∧ Aligned t' ∧
      (initial.crypto = [] → r = none ∧ t' = t) ∧
      ∀ k, k ≠ initial.destinationConnectionId →
        (∀ c, t.lookup k = some c → now - c.lastSeen ≤ kConnectionTimeoutMicroseconds) →
        t'.lookup k = t.lookup k := by
  obtain ⟨⟨r, t'⟩, h, hfed⟩ := feedInitial_fed ht ha now
  exact ⟨r, t', h, hfed.aligned, fun hc => Prod.mk.inj (hfed.idle hc),
    fun k hk hidle => (hfed.spares k hk).lookup_eq fun c hc => not_lt.mpr (hidle c hc)⟩

end Fed

/-- An Initial of `d`, where `d` is held or can be admitted. -/
theorem feedInitial_own {t : Tracker} {initial : InitialPacket} {fs : List CryptoFragment} {now : ℤ}
    (ha : Addressable initial.crypto) (hc : initial.crypto ≠ []) (hw : WithinLimit initial.crypto)
    (hl : (∃ seen, t.lookup initial.destinationConnectionId = some (received fs seen)) ∨
      t.lookup initial.destinationConnectionId = none ∧ fs = [] ∧ HasRoom t now) :
    ∃ u, (Aligned t → Aligned u) ∧
      feedInitial t initial now =
        (fun r => (r, if r = none then
          u.insert initial.destinationConnectionId (received (fs ++ initial.crypto) now)
        else u.erase initial.destinationConnectionId)) <$> answer (fs ++ initial.crypto) := by
  have step : ∀ (u : Tracker) (seen : ℤ),
      feedConnection u initial.destinationConnectionId (received fs seen) initial.crypto now =
        (fun r => (r, if r = none then
          u.insert initial.destinationConnectionId (received (fs ++ initial.crypto) now)
        else u.erase initial.destinationConnectionId)) <$> answer (fs ++ initial.crypto) := fun u seen => by
    rw [feedConnection_received ha, if_pos hw]
  unfold feedInitial
  rw [if_neg hc]
  dsimp only
  rcases hl with ⟨seen, hl⟩ | ⟨hl, rfl, hroom⟩
  · rw [hl]
    exact ⟨t, id, step t seen⟩
  · rw [hl]
    dsimp only
    by_cases hfull : t.size ≥ kMaxTrackedConnections
    · have hroom' : (expireStale t now).size < kMaxTrackedConnections := hroom.resolve_left (by omega)
      rw [if_pos hfull, if_neg (by omega)]
      exact ⟨_, fun h => h.expireStale now, step _ 0⟩
    · rw [if_neg hfull]
      exact ⟨t, id, step t 0⟩

/-! ### Slices of a ClientHello -/

/-- A ClientHello message: as long as its header declares, within the stream limit. -/
structure Message (H : Bytes) : Prop where
  declared : 4 + declaredLength H = H.length
  bounded : H.length ≤ kMaxStreamBytes

theorem declaredLength_eq_of_take {a b : Bytes} (h : a.take 4 = b.take 4) :
    declaredLength a = declaredLength b := by
  rw [← declaredLength_take (le_refl 4), h, declaredLength_take (le_refl 4)]

section Slices

variable {H : Bytes} {fs : List CryptoFragment}

theorem slices_patches (h : ∀ f ∈ fs, f.patch.SliceOf H) : ∀ p ∈ patches fs, p.SliceOf H := by
  intro p hp
  obtain ⟨f, hf, rfl⟩ := List.mem_map.mp hp
  exact h f hf

theorem slices_withinLimit (hH : Message H) (h : ∀ f ∈ fs, f.patch.SliceOf H) : WithinLimit fs :=
  fun f hf => (h f hf).stop_le.trans hH.bounded

/-- Slices of a message make up the message exactly when they cover it. -/
theorem complete_iff_covers (hH : Message H) (h : ∀ f ∈ fs, f.patch.SliceOf H) :
    Complete fs ↔ Covers (patches fs) H.length := by
  have hsame : ∀ {n : ℕ}, 4 ≤ n → Covers (patches fs) n → declaredLength (assembled fs) = declaredLength H := by
    intro n hn hc
    refine declaredLength_eq_of_take (take_writeAll_slices 0 (slices_patches h) fun i hi => ?_)
    exact hc i (by omega)
  have hd := hH.declared
  constructor
  · intro hc
    have := hsame (by omega) hc
    rw [← hd, ← this]
    exact hc
  · intro hc
    unfold Complete
    rw [hsame (by omega) hc, hd]
    exact hc

theorem answer_slices (hH : Message H) (h : ∀ f ∈ fs, f.patch.SliceOf H) :
    answer fs = if Covers (patches fs) H.length then sniFromClientHello H else .ok none := by
  unfold answer
  by_cases hc : Covers (patches fs) H.length
  · have hreach : reach (patches fs) = H.length :=
      le_antisymm (reach_le fun p hp => (slices_patches h p hp).stop_le) hc.le_reach
    have heq : assembled fs = H := by
      have htake := take_writeAll_slices 0 (slices_patches h) hc
      rw [List.take_of_length_le (by rw [← hreach, ← length_assembled]; exact le_refl _),
        List.take_length] at htake
      exact htake
    rw [if_pos ((complete_iff_covers hH h).mpr hc), if_pos hc, heq]
  · rw [if_neg (mt (complete_iff_covers hH h).mp hc), if_neg hc]

end Slices

/-! ### A flight -/

section Flights

variable {parseInitial : Bytes → Option InitialPacket} {H d : Bytes} {t₀ : Tracker} {s : String}

theorem fragmentsOf_eq_crypto {a : Arrival} {initial : InitialPacket}
    (hp : parseInitial a.payload = some initial) :
    fragmentsOf parseInitial d a = if initial.destinationConnectionId = d then initial.crypto else [] := by
  rw [fragmentsOf, hp]

theorem feedArrival_eq (t : Tracker) (a : Arrival) :
    feedArrival parseInitial t a =
      match parseInitial a.payload with
      | some initial => feedInitial t initial a.timestamp
      | none => .ok (none, t) := by
  unfold feedArrival feed
  rw [ok_bind]
  cases parseInitial a.payload <;> rfl

/-- Every tracker a run reaches has its marks aligned with its bytes. -/
theorem feedAll_aligned
    (haddr : ∀ payload initial, parseInitial payload = some initial → Addressable initial.crypto)
    (ht : Aligned t₀) (run : List Arrival) :
    ∃ outs t, feedAll parseInitial t₀ run = .ok (outs, t) ∧ Aligned t := by
  induction run using List.reverseRecOn with
  | nil => exact ⟨[], t₀, rfl, ht⟩
  | append_singleton before a ih =>
    obtain ⟨outs, t, hfed, hal⟩ := ih
    have hstep : ∃ r t', feedArrival parseInitial t a = .ok (r, t') ∧ Aligned t' := by
      rw [feedArrival_eq]
      cases hp : parseInitial a.payload with
      | none => exact ⟨none, t, rfl, hal⟩
      | some initial =>
        obtain ⟨r, t', hfeed, hal', -⟩ := feedInitial_frame hal (haddr _ _ hp) a.timestamp
        exact ⟨r, t', hfeed, hal'⟩
    obtain ⟨r, t', hfeed, hal'⟩ := hstep
    refine ⟨outs ++ [r], t', ?_, hal'⟩
    rw [feedAll_concat, hfed, ok_bind]
    dsimp only
    rw [hfeed]
    rfl

/-- What the tracker holds of `d` after `run`: the fragments it brought. -/
structure Tracks (parseInitial : Bytes → Option InitialPacket) (d : Bytes) (t₀ : Tracker)
    (run : List Arrival) (outs : List (Option String)) (t : Tracker) : Prop where
  fed : feedAll parseInitial t₀ run = .ok (outs, t)
  length : outs.length = run.length
  aligned : Aligned t
  held : t.lookup d = (lastSeenOf parseInitial d run).map (received (slicesOf parseInitial d run))
  silent : ∀ x ∈ run.zip outs, IsInitialOf parseInitial d x.1 → x.2 = none

theorem answer_total (fs : List CryptoFragment) : ∃ r, answer fs = .ok r := by
  unfold answer
  split
  · obtain ⟨r, hr, -⟩ := sniFromClientHello_iff (assembled fs)
    exact ⟨r, hr⟩
  · exact ⟨none, rfl⟩

/-- An arrival that brings `d` nothing leaves it alone. -/
theorem Tracks.feedArrival_of_nil {before : List Arrival} {outs : List (Option String)} {t : Tracker}
    (h : Tracks parseInitial d t₀ before outs t)
    (haddr : ∀ payload initial, parseInitial payload = some initial → Addressable initial.crypto)
    {a : Arrival} (hf : Flight parseInitial H d t₀ (before ++ [a])) (hnil : fragmentsOf parseInitial d a = []) :
    ∃ r t', feedArrival parseInitial t a = .ok (r, t') ∧ Aligned t' ∧ t'.lookup d = t.lookup d ∧
      (IsInitialOf parseInitial d a → r = none) := by
  rw [feedArrival_eq]
  cases hp : parseInitial a.payload with
  | none => exact ⟨none, t, rfl, h.aligned, rfl, fun _ => rfl⟩
  | some initial =>
    have hd : initial.destinationConnectionId = d → initial.crypto = [] := fun hd => by
      rw [fragmentsOf_eq_crypto hp, if_pos hd] at hnil
      exact hnil
    have hidle : ∀ c, t.lookup d = some c →
        a.timestamp - c.lastSeen ≤ kConnectionTimeoutMicroseconds := fun c hc => by
      rw [h.held, Option.map_eq_some_iff] at hc
      obtain ⟨seen, hseen, rfl⟩ := hc
      exact hf.punctual before a (List.prefix_refl _) seen hseen
    obtain ⟨r, t', hfeed, hal, hown, hframe⟩ := feedInitial_frame h.aligned (haddr _ _ hp) a.timestamp
    refine ⟨r, t', hfeed, hal, ?_, fun hinit => ?_⟩
    · by_cases hdi : initial.destinationConnectionId = d
      · rw [(hown (hd hdi)).2]
      · exact hframe d (Ne.symm hdi) hidle
    · obtain ⟨initial', hp', hd'⟩ := hinit
      rw [hp] at hp'
      obtain rfl := Option.some.inj hp'
      exact (hown (hd hd')).1

/-- One that brings `d` fragments is answered by all the fragments so far. -/
theorem Tracks.feedArrival_of_ne {before : List Arrival} {outs : List (Option String)} {t : Tracker}
    (h : Tracks parseInitial d t₀ before outs t) (hH : Message H)
    (haddr : ∀ payload initial, parseInitial payload = some initial → Addressable initial.crypto)
    {a : Arrival} (hf : Flight parseInitial H d t₀ (before ++ [a])) (hne : fragmentsOf parseInitial d a ≠ []) :
    ∃ r t', feedArrival parseInitial t a = .ok (r, t') ∧ Aligned t' ∧
      answer (slicesOf parseInitial d (before ++ [a])) = .ok r ∧
      t'.lookup d = if r = none then
        some (received (slicesOf parseInitial d (before ++ [a])) a.timestamp) else none := by
  rw [feedArrival_eq]
  cases hp : parseInitial a.payload with
  | none => exact absurd (by rw [fragmentsOf, hp]) hne
  | some initial =>
    have hfrag := fragmentsOf_eq_crypto (d := d) hp
    obtain rfl : initial.destinationConnectionId = d := by
      by_contra hd
      exact hne (by rw [hfrag, if_neg hd])
    rw [if_pos rfl] at hfrag
    have hslices : ∀ f ∈ initial.crypto, f.patch.SliceOf H := fun f hfm => by
      refine hf.slices f ?_
      rw [slicesOf_concat, hfrag]
      exact List.mem_append_right _ hfm
    have hl : (∃ seen, t.lookup initial.destinationConnectionId =
        some (received (slicesOf parseInitial initial.destinationConnectionId before) seen)) ∨
        t.lookup initial.destinationConnectionId = none ∧
          slicesOf parseInitial initial.destinationConnectionId before = [] ∧ HasRoom t a.timestamp := by
      rw [h.held]
      cases hlast : lastSeenOf parseInitial initial.destinationConnectionId before with
      | some seen => exact .inl ⟨seen, rfl⟩
      | none =>
        exact .inr ⟨rfl, slicesOf_of_lastSeenOf hlast,
          hf.admitted before a (List.prefix_refl _) hlast hne outs t h.fed⟩
    obtain ⟨u, hal, hfeed⟩ := feedInitial_own (haddr _ _ hp) (hfrag ▸ hne) (slices_withinLimit hH hslices) hl
    rw [← hfrag, ← slicesOf_concat] at hfeed
    obtain ⟨r, hr⟩ := answer_total (slicesOf parseInitial initial.destinationConnectionId (before ++ [a]))
    rw [hr] at hfeed
    refine ⟨r, _, hfeed, ?_, hr, ?_⟩
    · split
      · exact (hal h.aligned).insert (received_aligned ..)
      · exact (hal h.aligned).erase _
    · split
      · exact AList.lookup_insert _
      · exact AList.lookup_erase ..

/-- One more arrival, after which `d` is held as its fragments say. -/
theorem Tracks.concat {before : List Arrival} {outs : List (Option String)} {t t' : Tracker} {a : Arrival}
    {r : Option String} (h : Tracks parseInitial d t₀ before outs t)
    (hfeed : feedArrival parseInitial t a = .ok (r, t')) (hal : Aligned t')
    (hheld : t'.lookup d =
      (lastSeenOf parseInitial d (before ++ [a])).map (received (slicesOf parseInitial d (before ++ [a]))))
    (hr : IsInitialOf parseInitial d a → r = none) : Tracks parseInitial d t₀ (before ++ [a]) (outs ++ [r]) t' where
  fed := by
    rw [feedAll_concat, h.fed, ok_bind]
    dsimp only
    rw [hfeed]
    rfl
  length := by simp [h.length]
  aligned := hal
  held := hheld
  silent := by
    intro x hx hinit
    rw [List.zip_append h.length.symm, List.mem_append] at hx
    rcases hx with hx | hx
    · exact h.silent x hx hinit
    · obtain rfl := List.mem_singleton.mp hx
      exact hr hinit

/-- As long as its fragments do not cover the message, `d` is answered nothing
and the tracker holds the fragments so far. -/
theorem feedAll_tracks (hH : Message H)
    (haddr : ∀ payload initial, parseInitial payload = some initial → Addressable initial.crypto)
    (ht : Aligned t₀) (hd : t₀.lookup d = none) :
    ∀ run : List Arrival, Flight parseInitial H d t₀ run →
      ¬ Covers (patches (slicesOf parseInitial d run)) H.length →
      ∃ outs t, Tracks parseInitial d t₀ run outs t := by
  intro run
  induction run using List.reverseRecOn with
  | nil =>
    intro _ _
    exact ⟨[], t₀, rfl, rfl, ht, by rw [hd]; rfl, by simp⟩
  | append_singleton before a ih =>
    intro hf hopen
    have hopen' : ¬ Covers (patches (slicesOf parseInitial d before)) H.length := fun hc => hopen <| by
      rw [slicesOf_concat, patches_append]
      exact hc.mono fun p hp => List.mem_append_left _ hp
    obtain ⟨outs, t, h⟩ := ih (hf.of_prefix ⟨_, rfl⟩) hopen'
    by_cases hnil : fragmentsOf parseInitial d a = []
    · obtain ⟨r, t', hfeed, hal, hlook, hr⟩ := h.feedArrival_of_nil haddr hf hnil
      refine ⟨outs ++ [r], t', h.concat hfeed hal ?_ hr⟩
      rw [hlook, h.held, lastSeenOf_concat_of_nil hnil, slicesOf_concat, hnil, List.append_nil]
    · obtain ⟨r, t', hfeed, hal, hans, hlook⟩ := h.feedArrival_of_ne hH haddr hf hnil
      rw [answer_slices hH hf.slices, if_neg hopen] at hans
      obtain rfl := Except.ok.inj hans
      refine ⟨outs ++ [none], t', h.concat hfeed hal ?_ fun _ => rfl⟩
      rw [hlook, if_pos rfl, lastSeenOf_concat_of_ne hnil]
      rfl

/-- `feed` names the host on exactly the packet of `d` that completes the
message, says nothing on an earlier one, and then forgets `d`. -/
theorem feed_reassembles (hH : Message H) (hs : sniFromClientHello H = .ok (some s))
    (haddr : ∀ payload initial, parseInitial payload = some initial → Addressable initial.crypto)
    (ht : Aligned t₀) (hd : t₀.lookup d = none) (before : List Arrival) (a : Arrival)
    (ha : IsInitialOf parseInitial d a) (hf : Flight parseInitial H d t₀ (before ++ [a]))
    (hopen : ¬ Covers (patches (slicesOf parseInitial d before)) H.length) :
    ∃ outs t r t', feedAll parseInitial t₀ before = .ok (outs, t) ∧ outs.length = before.length ∧
      (∀ x ∈ before.zip outs, IsInitialOf parseInitial d x.1 → x.2 = none) ∧
      feedArrival parseInitial t a = .ok (r, t') ∧
      (r = if Covers (patches (slicesOf parseInitial d (before ++ [a]))) H.length then some s else none) ∧
      (Covers (patches (slicesOf parseInitial d (before ++ [a]))) H.length → t'.lookup d = none) := by
  obtain ⟨outs, t, h⟩ := feedAll_tracks hH haddr ht hd before (hf.of_prefix ⟨_, rfl⟩) hopen
  by_cases hnil : fragmentsOf parseInitial d a = []
  · obtain ⟨r, t', hfeed, -, -, hr⟩ := h.feedArrival_of_nil haddr hf hnil
    refine ⟨outs, t, r, t', h.fed, h.length, h.silent, hfeed, ?_⟩
    have hopen' : ¬ Covers (patches (slicesOf parseInitial d (before ++ [a]))) H.length := by
      rwa [slicesOf_concat, hnil, List.append_nil]
    rw [if_neg hopen']
    exact ⟨hr ha, fun hc => (hopen' hc).elim⟩
  · obtain ⟨r, t', hfeed, -, hans, hlook⟩ := h.feedArrival_of_ne hH haddr hf hnil
    refine ⟨outs, t, r, t', h.fed, h.length, h.silent, hfeed, ?_⟩
    rw [answer_slices hH hf.slices, hs] at hans
    by_cases hc : Covers (patches (slicesOf parseInitial d (before ++ [a]))) H.length
    · rw [if_pos hc] at hans
      obtain rfl := Except.ok.inj hans
      rw [if_pos hc]
      exact ⟨rfl, fun _ => hlook⟩
    · rw [if_neg hc] at hans
      obtain rfl := Except.ok.inj hans
      rw [if_neg hc]
      exact ⟨rfl, fun h' => (hc h').elim⟩

end Flights

/-- A ClientHello for the host a.io. -/
def helloForAIo : Bytes :=
  [0x01, 0x00, 0x00, 0x38, 0x03, 0x03] ++ List.replicate 32 0x5a ++
    [0x00, 0x00, 0x02, 0x13, 0x01, 0x01, 0x00, 0x00, 0x0d, 0x00, 0x00, 0x00, 0x09, 0x00, 0x07, 0x00,
      0x00, 0x04, 0x61, 0x2e, 0x69, 0x6f]

/-- A parser that knows three payloads: the two halves of a ClientHello, in
Initials of the connection 7, and an Initial of the connection 8. -/
def threeInitials (payload : Bytes) : Option InitialPacket :=
  if payload = [1] then some ⟨[7], [⟨0, helloForAIo.take 40⟩]⟩
  else if payload = [2] then some ⟨[7], [⟨30, helloForAIo.drop 30⟩]⟩
  else if payload = [3] then some ⟨[8], [⟨0, [1]⟩]⟩
  else none

/-- The halves as fragments, the second one first. -/
def halves : List CryptoFragment := [⟨30, helloForAIo.drop 30⟩, ⟨0, helloForAIo.take 40⟩]

theorem halves_slices : ∀ f ∈ halves, f.patch.SliceOf helloForAIo := by
  intro f hf
  rcases List.mem_cons.mp hf with rfl | hf
  · exact ⟨helloForAIo.take 30, [], by decide, by decide⟩
  · obtain rfl := List.mem_singleton.mp hf
    exact ⟨[], helloForAIo.drop 40, by decide, by decide⟩

/-- The second half first, then the other connection, then the first half. -/
theorem threeInitials_flight :
    Flight threeInitials helloForAIo [7] ∅ ([⟨[2], 0⟩, ⟨[3], 5⟩] ++ [⟨[1], 9⟩]) := by
  have hsplit : ∀ {before a}, before ++ [a] <+: [(⟨[2], 0⟩ : Arrival), ⟨[3], 5⟩] ++ [⟨[1], 9⟩] →
      before = [] ∧ a = ⟨[2], 0⟩ ∨ before = [⟨[2], 0⟩] ∧ a = ⟨[3], 5⟩ ∨
        before = [⟨[2], 0⟩, ⟨[3], 5⟩] ∧ a = ⟨[1], 9⟩ := by
    intro before a h
    rcases before with _ | ⟨x, _ | ⟨y, _ | ⟨z, rest⟩⟩⟩
    · simpa using h
    · simpa [and_assoc] using h
    · simpa [and_assoc] using h
    · simp at h
  refine ⟨?_, ?_, ?_⟩
  · have h : slicesOf threeInitials [7] ([⟨[2], 0⟩, ⟨[3], 5⟩] ++ [⟨[1], 9⟩]) = halves := by decide
    rw [h]
    exact halves_slices
  · intro before a hp hlast hne outs t' hfed
    rcases hsplit hp with ⟨rfl, rfl⟩ | ⟨rfl, rfl⟩ | ⟨rfl, rfl⟩
    · obtain ⟨-, rfl⟩ := Prod.mk.inj (Except.ok.inj hfed)
      exact .inl (by decide)
    · exact absurd hlast (by decide)
    · exact absurd hlast (by decide)
  · intro before a hp seen hseen
    rcases hsplit hp with ⟨rfl, rfl⟩ | ⟨rfl, rfl⟩ | ⟨rfl, rfl⟩
    · simp [lastSeenOf] at hseen
    · have h : lastSeenOf threeInitials [7] [⟨[2], 0⟩] = some 0 := by decide
      obtain rfl := Option.some.inj (h.symm.trans hseen)
      decide
    · have h : lastSeenOf threeInitials [7] [⟨[2], 0⟩, ⟨[3], 5⟩] = some 0 := by decide
      obtain rfl := Option.some.inj (h.symm.trans hseen)
      decide

theorem feed_reassembles_swapped :
    ∃ outs t r t', feedAll threeInitials ∅ [⟨[2], 0⟩, ⟨[3], 5⟩] = .ok (outs, t) ∧ outs.length = 2 ∧
      (∀ x ∈ [(⟨[2], 0⟩ : Arrival), ⟨[3], 5⟩].zip outs, IsInitialOf threeInitials [7] x.1 → x.2 = none) ∧
      feedArrival threeInitials t ⟨[1], 9⟩ = .ok (r, t') ∧ r = some "a.io" ∧ t'.lookup [7] = none := by
  have haddr : ∀ payload initial, threeInitials payload = some initial → Addressable initial.crypto := by
    intro payload initial h
    unfold threeInitials at h
    split at h
    · obtain rfl := Option.some.inj h
      decide
    split at h
    · obtain rfl := Option.some.inj h
      decide
    split at h
    · obtain rfl := Option.some.inj h
      decide
    · simp at h
  have hcovers : Covers (patches (slicesOf threeInitials [7] ([⟨[2], 0⟩, ⟨[3], 5⟩] ++ [⟨[1], 9⟩])))
      helloForAIo.length := by decide
  obtain ⟨outs, t, r, t', hfed, hlen, hsilent, hfeed, hr, hgone⟩ :=
    feed_reassembles (s := "a.io") ⟨by decide, by decide⟩ (by decide) haddr aligned_empty rfl
      [⟨[2], 0⟩, ⟨[3], 5⟩] ⟨[1], 9⟩ ⟨_, rfl, rfl⟩ threeInitials_flight (by decide)
  rw [if_pos hcovers] at hr
  exact ⟨outs, t, r, t', hfed, hlen, hsilent, hfeed, hr, hgone hcovers⟩

/-! Room at the start of a run, and packets of `d` in time, are not enough. -/

/-- The id of one of up to 65536 connections. -/
def strangerId (n : ℕ) : Bytes := [UInt8.ofNat (n / 256), UInt8.ofNat (n % 256)]

theorem strangerId_inj {m n : ℕ} (hm : m < 65536) (hn : n < 65536)
    (h : strangerId m = strangerId n) : m = n := by
  simp only [strangerId, List.cons.injEq, and_true, ← UInt8.toNat_inj, UInt8.toNat_ofNat'] at h
  omega

/-- A tracker with one free place: each of 1023 connections has sent a byte. -/
def crowd : Tracker where
  entries := (List.range 1023).map fun n =>
    ⟨strangerId n, { stream := [1], present := [true], lastSeen := 0 }⟩
  nodupKeys := by
    rw [List.NodupKeys, List.keys, List.map_map]
    refine List.nodup_range.map_on fun m hm n hn h => ?_
    rw [List.mem_range] at hm hn
    exact strangerId_inj (by omega) (by omega) h

/-- `threeInitials`, an Initial of the connection 7 without CRYPTO frames, and
one with the whole ClientHello. -/
def fiveInitials (payload : Bytes) : Option InitialPacket :=
  if payload = [4] then some ⟨[7], []⟩
  else if payload = [5] then some ⟨[7], [⟨0, helloForAIo⟩]⟩
  else threeInitials payload

/-- The connection 8 takes the last place before the whole message arrives. -/
def crowdedRun : List Arrival := [⟨[3], 1000000⟩, ⟨[5], 2000000⟩]

/-- The halves 15 s apart, with an Initial without CRYPTO frames in between. -/
def pausedRun : List Arrival :=
  [⟨[2], 1000000⟩, ⟨[4], 9000000⟩, ⟨[3], 15000000⟩, ⟨[1], 16000000⟩]

/-- A whole message goes unanswered when other connections take the last place
before it; so does one in halves when the tracker, full, drops the first half:
an Initial without CRYPTO frames does not count against the idle time. -/
theorem feed_reassembles_crowded :
    Message helloForAIo ∧ sniFromClientHello helloForAIo = .ok (some "a.io") ∧
      crowd.lookup [7] = none ∧ crowd.size < kMaxTrackedConnections ∧
      (slicesOf fiveInitials [7] crowdedRun = [⟨0, helloForAIo⟩] ∧
        (feedAll fiveInitials crowd crowdedRun).map (·.1) = .ok [none, none]) ∧
      (slicesOf fiveInitials [7] pausedRun = halves ∧ (∀ f ∈ halves, f.patch.SliceOf helloForAIo) ∧
        Covers (patches halves) helloForAIo.length ∧
        (feedAll fiveInitials crowd pausedRun).map (·.1) = .ok [none, none, none, none]) :=
  ⟨⟨by decide, by decide⟩, by decide, by decide +kernel, by decide +kernel,
    ⟨by decide, by decide +kernel⟩, by decide, halves_slices, by decide, by decide +kernel⟩

end QuicTracker
end NetProbe
