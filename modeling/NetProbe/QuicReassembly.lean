/-
# The CRYPTO stream as an overlay of fragments

`QuicTracker` keeps a connection's bytes and which of them have arrived; the
single-packet path stitches the fragments into a zero-filled buffer. Both are
overlays of the fragments as patches, so one statement covers them: the tracker
answers exactly when the fragments cover the ClientHello its first bytes
declare (`feedConnection_received`), the single-packet path whenever the
zero-filled overlay parses (`extractInitialSni_eq`).

Key theorems: `addFragments_eq`, `feedConnection_received`,
`extractInitialSni_eq`, `extractInitialSni_agrees_iff`.
-/
import NetProbe.ClientHello
import NetProbe.QuicProtection
import NetProbe.Reassembly

namespace NetProbe

open Checked Bytes Overlay

namespace QuicParser

/-- A fragment as a patch of the handshake stream. -/
def CryptoFragment.patch (f : CryptoFragment) : Patch UInt8 := ⟨f.offset, f.data⟩

def patches (fs : List CryptoFragment) : List (Patch UInt8) := fs.map CryptoFragment.patch

@[simp] theorem patches_append (fs gs : List CryptoFragment) :
    patches (fs ++ gs) = patches fs ++ patches gs := List.map_append

/-- The bytes of the fragments at their offsets, zero where none arrived. -/
def assembled (fs : List CryptoFragment) : Bytes := writeAll 0 [] (patches fs)

theorem length_assembled (fs : List CryptoFragment) : (assembled fs).length = reach (patches fs) := by
  rw [assembled, length_writeAll, List.length_nil, Nat.zero_max]

/-- The fragments cover, from offset 0, the message its first bytes declare. -/
def Complete (fs : List CryptoFragment) : Prop :=
  Covers (patches fs) (4 + declaredLength (assembled fs))

instance (fs : List CryptoFragment) : Decidable (Complete fs) :=
  inferInstanceAs (Decidable (Covers _ _))

/-- No fragment ends past what a 64-bit size can hold. -/
def Addressable (fs : List CryptoFragment) : Prop := ∀ f ∈ fs, f.offset + f.data.length < 2 ^ 64

instance (fs : List CryptoFragment) : Decidable (Addressable fs) :=
  inferInstanceAs (Decidable (∀ f ∈ fs, f.offset + f.data.length < 2 ^ 64))

/-! ### The single-packet path -/

theorem furthestEnd_eq : ∀ {fs : List CryptoFragment}, Addressable fs → ∀ reached,
    furthestEnd fs reached = .ok (max reached (reach (patches fs)))
  | [], _, reached => by simp [furthestEnd, patches]
  | f :: fs, h, reached => by
    have hf := h f (List.mem_cons_self ..)
    have ih := furthestEnd_eq (fun g hg => h g (List.mem_cons_of_mem _ hg) : Addressable fs)
    rw [furthestEnd, add_eq hf, ok_bind, ih, max_assoc]
    rfl

theorem copyTo_eq_write {α : Type} {l : List α} (fill : α) {p : Patch α} (h : p.stop ≤ l.length) :
    copyTo l p.offset p.data = .ok (write fill l p) := by
  rw [write_of_le h]
  exact if_pos h

theorem stitch_eq : ∀ {fs : List CryptoFragment} {stream : Bytes},
    reach (patches fs) ≤ stream.length → stitch fs stream = .ok (writeAll 0 stream (patches fs))
  | [], _, _ => rfl
  | f :: fs, stream, h => by
    have hr : reach (patches (f :: fs)) = max f.patch.stop (reach (patches fs)) := rfl
    have hcopy := copyTo_eq_write (l := stream) 0 (p := f.patch) (by omega)
    have ih : stitch fs (write 0 stream f.patch) = _ := stitch_eq (by rw [length_write]; omega)
    rw [stitch]
    exact (congrArg (· >>= stitch fs) hcopy).trans ih

/-- The single-packet path parses the zero-filled overlay of the fragments. -/
theorem extractInitialSni_eq {m : Mbedtls} {payload : Bytes} {initial : InitialPacket}
    (hp : parseInitial m payload = .ok (some initial)) (ha : Addressable initial.crypto) :
    extractInitialSni m payload = sniFromClientHello (assembled initial.crypto) := by
  have hempty : reach (patches initial.crypto) = 0 → assembled initial.crypto = [] := fun h => by
    rw [← List.length_eq_zero_iff, length_assembled, h]
  have hnil : sniFromClientHello [] = .ok none := rfl
  unfold extractInitialSni
  rw [hp, ok_bind]
  dsimp only
  by_cases hc : initial.crypto = []
  · rw [if_pos hc, hempty (by rw [hc]; rfl), hnil, pure_eq]
  rw [if_neg hc, furthestEnd_eq ha, ok_bind, Nat.zero_max]
  by_cases hr : reach (patches initial.crypto) = 0
  · rw [if_pos hr, hempty hr, hnil, pure_eq]
  rw [if_neg hr, stitch_eq (by simp), ok_bind, writeAll_replicate, assembled]

theorem readCrypto_bounded {plaintext : Bytes} {pos : ℕ} {r : CryptoFragment × ℕ}
    (h : readCrypto plaintext pos = .ok (some r)) :
    r.1.offset ≤ 2 ^ 24 ∧ r.1.data.length ≤ 2 ^ 24 := by
  unfold readCrypto at h
  obtain ⟨v, -, h⟩ := bind_eq_ok.mp h
  rcases v with _ | ⟨offset, pos⟩
  · simp at h
  obtain ⟨v, -, h⟩ := bind_eq_ok.mp h
  rcases v with _ | ⟨dataLen, pos⟩
  · simp at h
  obtain ⟨room, -, h⟩ := bind_eq_ok.mp h
  split at h
  · simp at h
  split at h
  · simp at h
  rename_i hsane
  obtain ⟨data, hdata, h⟩ := bind_eq_ok.mp h
  obtain ⟨stop, -, h⟩ := bind_eq_ok.mp h
  obtain rfl := Option.some.inj (Except.ok.inj h)
  have hlen := length_of_window hdata
  have hk : kSaneCryptoBound = 2 ^ 24 := rfl
  simp only [not_or, hk] at hsane
  exact ⟨by dsimp only; omega, by dsimp only; omega⟩

/-- The frame walk bounds every fragment it collects. -/
theorem cryptoFrameLoop_bounded {plaintext : Bytes} : ∀ {fuel pos : ℕ} {out fs : List CryptoFragment},
    cryptoFrameLoop plaintext fuel pos out = .ok (some fs) →
    (∀ f ∈ out, f.offset ≤ 2 ^ 24 ∧ f.data.length ≤ 2 ^ 24) →
    ∀ f ∈ fs, f.offset ≤ 2 ^ 24 ∧ f.data.length ≤ 2 ^ 24 := by
  intro fuel
  induction fuel with
  | zero =>
    intro pos out fs h hout
    unfold cryptoFrameLoop at h
    split at h
    · simp at h
    · obtain rfl := Option.some.inj (Except.ok.inj h)
      exact hout
  | succ fuel ih =>
    intro pos out fs h hout
    unfold cryptoFrameLoop at h
    split at h
    · obtain rfl := Option.some.inj (Except.ok.inj h)
      exact hout
    obtain ⟨type, -, h⟩ := bind_eq_ok.mp h
    dsimp only at h
    split at h
    · exact ih h hout
    split at h
    · obtain ⟨pos', -, h⟩ := bind_eq_ok.mp h
      cases pos' with
      | none => simp at h
      | some pos' => exact ih h hout
    split at h
    · obtain ⟨r, hr, h⟩ := bind_eq_ok.mp h
      cases r with
      | none => simp at h
      | some r =>
        refine ih h fun f hf => ?_
        rcases List.mem_append.mp hf with hf | hf
        · exact hout f hf
        · obtain rfl := List.mem_singleton.mp hf
          exact readCrypto_bounded hr
    · simp at h

theorem openInitial_bounded {m : Mbedtls} {data : Bytes} {h : InitialHeader} {initial : InitialPacket}
    (hi : openInitial m data h = .ok (some initial)) :
    ∀ f ∈ initial.crypto, f.offset ≤ 2 ^ 24 ∧ f.data.length ≤ 2 ^ 24 := by
  unfold openInitial at hi
  obtain ⟨_, -, hi⟩ := bind_eq_ok.mp hi
  split at hi
  · simp at hi
  obtain ⟨_, -, hi⟩ := bind_eq_ok.mp hi
  split at hi
  swap
  · simp at hi
  obtain ⟨_, -, hi⟩ := bind_eq_ok.mp hi
  obtain ⟨_, -, hi⟩ := bind_eq_ok.mp hi
  split at hi
  swap
  · simp at hi
  split at hi
  · simp at hi
  split at hi
  · simp at hi
  iterate 7 obtain ⟨_, -, hi⟩ := bind_eq_ok.mp hi
  split at hi
  · simp at hi
  iterate 5 obtain ⟨_, -, hi⟩ := bind_eq_ok.mp hi
  split at hi
  swap
  · simp at hi
  obtain ⟨crypto, hc, hi⟩ := bind_eq_ok.mp hi
  cases crypto with
  | none => simp at hi
  | some crypto =>
    obtain rfl := Option.some.inj (Except.ok.inj hi)
    exact cryptoFrameLoop_bounded hc (by simp)

theorem parseInitial_bounded {m : Mbedtls} {payload : Bytes} {initial : InitialPacket}
    (hp : parseInitial m payload = .ok (some initial)) :
    ∀ f ∈ initial.crypto, f.offset ≤ 2 ^ 24 ∧ f.data.length ≤ 2 ^ 24 := by
  unfold parseInitial at hp
  obtain ⟨h, -, hp⟩ := bind_eq_ok.mp hp
  cases h with
  | none => simp at hp
  | some h => exact openInitial_bounded hp

theorem parseInitial_addressable {m : Mbedtls} {payload : Bytes} {initial : InitialPacket}
    (hp : parseInitial m payload = .ok (some initial)) : Addressable initial.crypto := fun f hf => by
  have := parseInitial_bounded hp f hf
  omega

end QuicParser

namespace QuicTracker

open QuicParser

/-! ### A connection's buffers -/

/-- Every stream byte has its mark. -/
def Connection.Aligned (c : Connection) : Prop := c.stream.length = c.present.length

/-- One turn of the fragment loop. -/
def Connection.write (c : Connection) (f : CryptoFragment) : Connection :=
  { c with
    stream := Overlay.write 0 c.stream f.patch
    present := Overlay.write false c.present (f.patch.mark true) }

/-- A connection that has seen the fragments `fs`, last at `seen`. -/
def received (fs : List CryptoFragment) (seen : ℤ) : Connection :=
  ⟨assembled fs, writeAll false [] ((patches fs).map (·.mark true)), seen⟩

theorem Connection.Aligned.write {c : Connection} (h : c.Aligned) (f : CryptoFragment) :
    (c.write f).Aligned := by
  unfold Connection.Aligned Connection.write
  simp only [length_write, Patch.stop_mark]
  rw [h]

theorem Connection.Aligned.foldl_write {c : Connection} (h : c.Aligned) :
    ∀ fs : List CryptoFragment, (fs.foldl Connection.write c).Aligned := by
  intro fs
  induction fs generalizing c with
  | nil => exact h
  | cons f fs ih => exact ih (h.write f)

theorem received_aligned (fs : List CryptoFragment) (seen : ℤ) : (received fs seen).Aligned := by
  simp only [Connection.Aligned, received, assembled, length_writeAll, reach_map_mark, List.length_nil]

theorem foldl_write_received (fs gs : List CryptoFragment) (seen : ℤ) :
    gs.foldl Connection.write (received fs seen) = received (fs ++ gs) seen := by
  induction gs generalizing fs with
  | nil => simp
  | cons g gs ih =>
    have h : (received fs seen).write g = received (fs ++ [g]) seen := by
      simp only [Connection.write, received, assembled, patches_append, List.map_append, writeAll_append]
      rfl
    rw [List.foldl_cons, h, ih, List.append_assoc, List.singleton_append]

/-- No fragment ends past the stream limit. -/
def WithinLimit (fs : List CryptoFragment) : Prop := ∀ f ∈ fs, f.patch.stop ≤ kMaxStreamBytes

instance (fs : List CryptoFragment) : Decidable (WithinLimit fs) :=
  inferInstanceAs (Decidable (∀ f ∈ fs, f.patch.stop ≤ kMaxStreamBytes))

/-- The fragment loop writes every fragment, or gives up at one past the limit. -/
theorem addFragments_eq : ∀ {fs : List CryptoFragment} {c : Connection}, Addressable fs → c.Aligned →
    addFragments fs c =
      .ok (if WithinLimit fs then some (fs.foldl Connection.write c) else none)
  | [], c, _, _ => by simp [addFragments, WithinLimit]
  | f :: fs, c, ha, hc => by
    have hf := ha f (List.mem_cons_self ..)
    have hstop : f.patch.stop = f.offset + f.data.length := rfl
    have ih : addFragments fs (c.write f) = _ :=
      addFragments_eq (fun g hg => ha g (List.mem_cons_of_mem _ hg)) (hc.write f)
    have hwithin : WithinLimit (f :: fs) ↔ f.patch.stop ≤ kMaxStreamBytes ∧ WithinLimit fs :=
      List.forall_mem_cons
    unfold addFragments
    rw [add_eq hf, ok_bind, ← hstop]
    dsimp only
    by_cases hk : f.patch.stop > kMaxStreamBytes
    · rw [if_pos hk, if_neg fun h => by have := (hwithin.mp h).1; omega, pure_eq]
    rw [if_neg hk]
    -- Both buffers grow together, so one bound serves both copies.
    have hcopy : ∀ {α : Type} (fill : α) (xs : List α) (p : Patch α), p.stop = f.patch.stop →
        xs.length = c.stream.length →
        copyTo (if c.stream.length < f.patch.stop then resize xs f.patch.stop fill else xs)
          p.offset p.data = .ok (Overlay.write fill xs p) := by
      intro α fill xs p hp hx
      rw [← hp, ← hx]
      unfold Overlay.write
      split
      · exact if_pos (by rw [length_resize]; exact le_refl _)
      · exact if_pos (by have : p.stop = p.offset + p.data.length := rfl; omega)
    have hs := hcopy 0 c.stream f.patch rfl rfl
    have hm := hcopy false c.present (f.patch.mark true) (Patch.stop_mark ..) hc.symm
    have hsplit : (if c.stream.length < f.patch.stop then
        { c with
          stream := resize c.stream f.patch.stop 0
          present := resize c.present f.patch.stop false }
      else c) = (⟨if c.stream.length < f.patch.stop then resize c.stream f.patch.stop 0 else c.stream,
        if c.stream.length < f.patch.stop then resize c.present f.patch.stop false else c.present,
        c.lastSeen⟩ : Connection) := by
      split <;> rfl
    rw [hsplit]
    dsimp only
    rw [show f.offset = f.patch.offset from rfl, show f.data = f.patch.data from rfl, hs, ok_bind]
    rw [show copyTo _ f.patch.offset (List.replicate f.patch.data.length true) = _ from hm, ok_bind]
    refine ih.trans ?_
    by_cases hw : WithinLimit fs
    · rw [if_pos hw, if_pos (hwithin.mpr ⟨by omega, hw⟩), List.foldl_cons]
    · rw [if_neg hw, if_neg fun h => hw (hwithin.mp h).2]

theorem contiguousPrefix_le {c : Connection} (h : c.Aligned) :
    contiguousPrefix c ≤ c.stream.length := by
  rw [h]
  exact (List.takeWhile_sublist _).length_le

/-- The contiguous prefix is as long as the fragments cover the stream. -/
theorem le_contiguousPrefix {fs : List CryptoFragment} {seen : ℤ} {n : ℕ} :
    n ≤ contiguousPrefix (received fs seen) ↔ Covers (patches fs) n := le_length_takeWhile_marks

/-- The name of the message the fragments make up, once they cover it. -/
def answer (fs : List CryptoFragment) : Checked (Option String) :=
  if Complete fs then sniFromClientHello (assembled fs) else .ok none

/-- The tracker reads the answer off its contiguous prefix. -/
theorem sniFromClientHello_prefix (fs : List CryptoFragment) (seen : ℤ) :
    (if contiguousPrefix (received fs seen) < 4 then .ok none
      else sniFromClientHello ((assembled fs).take (contiguousPrefix (received fs seen)))) = answer fs := by
  have hcover : 4 + declaredLength (assembled fs) ≤ contiguousPrefix (received fs seen) ↔ _ :=
    le_contiguousPrefix
  have hle : contiguousPrefix (received fs seen) ≤ (assembled fs).length :=
    contiguousPrefix_le (received_aligned fs seen)
  unfold answer
  by_cases h4 : contiguousPrefix (received fs seen) < 4
  · rw [if_pos h4, if_neg fun h : Complete fs => by have := hcover.mpr h; omega]
  · rw [if_neg h4, sniFromClientHello_take (by omega) hle]
    by_cases hc : Complete fs
    · rw [if_pos hc, if_pos (hcover.mpr hc)]
    · rw [if_neg hc, if_neg fun h => hc (hcover.mp h)]

/-- `feed` on a connection that has seen `fs`: it answers, and forgets the
connection, as soon as the fragments make up a message with a name. -/
theorem feedConnection_received {t : Tracker} {d : Bytes} {fs gs : List CryptoFragment} {seen now : ℤ}
    (ha : Addressable gs) :
    feedConnection t d (received fs seen) gs now =
      if WithinLimit gs then
        (fun r => (r, if r = none then t.insert d (received (fs ++ gs) now) else t.erase d)) <$>
          answer (fs ++ gs)
      else .ok (none, t.erase d) := by
  have hadd : addFragments gs { received fs seen with lastSeen := now } =
      .ok (if WithinLimit gs then some (received (fs ++ gs) now) else none) := by
    have h := addFragments_eq ha (received_aligned fs now)
    rw [foldl_write_received] at h
    exact h
  unfold feedConnection
  dsimp only
  rw [hadd, ok_bind]
  by_cases hw : WithinLimit gs
  · rw [if_pos hw, if_pos hw, ← sniFromClientHello_prefix (fs ++ gs) now]
    have hle : contiguousPrefix (received (fs ++ gs) now) ≤ (received (fs ++ gs) now).stream.length :=
      contiguousPrefix_le (received_aligned (fs ++ gs) now)
    dsimp only
    by_cases h4 : contiguousPrefix (received (fs ++ gs) now) < 4
    · rw [if_pos h4, if_pos h4]
      rfl
    · rw [if_neg h4, if_neg h4, window_eq (by omega), ok_bind, slice_zero]
      rw [← bind_pure_comp]
      exact bind_congr fun r => by cases r <;> rfl
  · rw [if_neg hw, if_neg hw]
    rfl

/-- `feed` on a tracker without connections. -/
theorem feed_empty {m : Mbedtls} {payload : Bytes} {initial : InitialPacket} {now : ℤ}
    (hp : parseInitial m payload = .ok (some initial)) :
    (·.1) <$> feed (parseInitial m) ∅ payload now =
      if WithinLimit initial.crypto then answer initial.crypto else .ok none := by
  have ha := parseInitial_addressable hp
  have hfeed : feed (parseInitial m) ∅ payload now = feedInitial ∅ initial now := by
    rw [feed, hp]
    rfl
  rw [hfeed]
  unfold feedInitial
  by_cases hc : initial.crypto = []
  · have hnone : answer [] = .ok none := by
      unfold answer
      split <;> rfl
    rw [if_pos hc, hc, hnone, ite_self]
    rfl
  · have hr : feedConnection ∅ initial.destinationConnectionId (received [] 0) initial.crypto now = _ :=
      feedConnection_received ha
    rw [if_neg hc]
    dsimp only
    rw [AList.lookup_empty]
    dsimp only
    rw [if_neg (by decide), show ({} : Connection) = received [] 0 from rfl, hr, List.nil_append]
    by_cases hw : WithinLimit initial.crypto
    · rw [if_pos hw, if_pos hw]
      cases answer initial.crypto <;> rfl
    · rw [if_neg hw, if_neg hw]
      rfl

/-! ### The two paths -/

/-- The single-packet path says of `payload` what a tracker without connections
does, and names only hosts of messages the fragments cover. -/
def Agrees (m : Mbedtls) (payload : Bytes) : Prop :=
  (∀ now, extractInitialSni m payload = (·.1) <$> feed (parseInitial m) ∅ payload now) ∧
    ∀ s, extractInitialSni m payload = .ok (some s) →
      ∃ initial name, parseInitial m payload = .ok (some initial) ∧ Complete initial.crypto ∧
        NamedHello (assembled initial.crypto) name ∧ s = ofBytes name

/-- The two paths agree on exactly the payloads whose fragments, if stitched
over zeros they are a ClientHello with a host name, lie within the tracker's
stream limit and cover that message. -/
theorem extractInitialSni_agrees_iff (m : Mbedtls) (payload : Bytes) :
    Agrees m payload ↔ ∀ initial, parseInitial m payload = .ok (some initial) →
      ∀ name, NamedHello (assembled initial.crypto) name →
        WithinLimit initial.crypto ∧ Complete initial.crypto := by
  constructor
  · rintro ⟨hagree, -⟩ initial hp name hn
    have hx := extractInitialSni_eq hp (parseInitial_addressable hp)
    obtain ⟨r, hr, hiff⟩ := sniFromClientHello_iff (assembled initial.crypto)
    have hs := (hiff (ofBytes name)).mpr ⟨name, hn, rfl⟩
    have h := hagree 0
    rw [feed_empty hp, hx, hr, hs] at h
    by_cases hw : WithinLimit initial.crypto
    · rw [if_pos hw, answer] at h
      refine ⟨hw, ?_⟩
      by_contra hc
      simp [if_neg hc] at h
    · simp [if_neg hw] at h
  · intro hcond
    cases hp : parseInitial m payload with
    | error e =>
      have hx : extractInitialSni m payload = .error e := by rw [extractInitialSni, hp]; rfl
      refine ⟨fun now => ?_, fun s h => by simp [hx] at h⟩
      rw [hx, feed, hp]
      rfl
    | ok o =>
      cases o with
      | none =>
        have hx : extractInitialSni m payload = .ok none := by rw [extractInitialSni, hp]; rfl
        refine ⟨fun now => ?_, fun s h => by simp [hx] at h⟩
        rw [hx, feed, hp]
        rfl
      | some initial =>
        have hx := extractInitialSni_eq hp (parseInitial_addressable hp)
        obtain ⟨r, hr, hiff⟩ := sniFromClientHello_iff (assembled initial.crypto)
        refine ⟨fun now => ?_, fun s h => ?_⟩
        · rw [feed_empty hp, hx]
          cases r with
          | none =>
            rw [hr, answer, hr]
            split
            · split <;> rfl
            · rfl
          | some s =>
            obtain ⟨name, hn, -⟩ := (hiff s).mp rfl
            obtain ⟨hw, hc⟩ := hcond initial hp name hn
            rw [if_pos hw, answer, if_pos hc]
        · rw [hx, hr] at h
          obtain ⟨name, hn, hs⟩ := (hiff s).mp (Except.ok.inj h)
          exact ⟨initial, name, hp, (hcond initial hp name hn).2, hn, hs⟩

/-- The recorded Initial brings no byte of the ClientHello's random: the
single-packet path reads its name over zeros, the tracker waits. -/
theorem extractInitialSni_over_hole :
    extractInitialSni Recorded.mbedtls Recorded.datagram = .ok (some "a.io") ∧
      (·.1) <$> feed (parseInitial Recorded.mbedtls) ∅ Recorded.datagram 0 = .ok none ∧
      ¬ Agrees Recorded.mbedtls Recorded.datagram := by
  have hname : extractInitialSni Recorded.mbedtls Recorded.datagram = .ok (some "a.io") := by decide
  have hwait : (·.1) <$> feed (parseInitial Recorded.mbedtls) ∅ Recorded.datagram 0 = .ok none := by decide
  refine ⟨hname, hwait, fun h => ?_⟩
  have := h.1 0
  rw [hname, hwait] at this
  simp at this

end QuicTracker
end NetProbe
