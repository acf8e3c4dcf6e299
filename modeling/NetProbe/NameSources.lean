/-
# Where a reassembled name comes from

A reassembler answers with a name only when packets it was fed spell that name.
For the `TlsReassembler` they are segments of one stream, each starting where
the one before ends, that make up one record (`TlsReassembler.feed_sourced`);
for the `QuicTracker` Initials of one connection id whose fragments cover the
ClientHello (`QuicTracker.feedInitial_sourced`). Both say of the table that each
entry is made of a part of the history, which one step of the table keeps
(`Lifetime.Backed.next`).

Key definitions: `Lifetime.Backed`, `TlsReassembler.Spelled`, `QuicTracker.Spelled`.
Key theorems: `TlsReassembler.feed_sourced`, `QuicTracker.feedInitial_sourced`.
-/
import NetProbe.QuicStates
import NetProbe.TlsStates

namespace Lifetime

/-! ### Entries made of a part of the history -/

section Backed

variable {K V H : Type} [DecidableEq K] {R : K → List H → V → Prop} {history : List H} {t t' : Table K V}
  {k : K} {full : Prop} {stale : V → Prop}

/-- Every entry is related by `R` to some part of the history. -/
def Backed (R : K → List H → V → Prop) (history : List H) (t : Table K V) : Prop :=
  ∀ k v, t.lookup k = some v → ∃ part, part.Sublist history ∧ R k part v

theorem backed_empty : Backed R history ∅ := fun k v hv => by simp at hv

/-- One more event of the history, about the entry of `k`. -/
theorem Backed.next (h : Backed R history t) (x : H) (hspares : ∀ k', k' ≠ k → Spared full stale t t' k')
    (hown : ∀ v, t'.lookup k = some v → ∃ part, part.Sublist (history ++ [x]) ∧ R k part v) :
    Backed R (history ++ [x]) t' := by
  intro k' v hv
  by_cases hk : k' = k
  · subst hk
    exact hown v hv
  · rcases hspares k' hk with hsame | ⟨hgone, -⟩
    · obtain ⟨part, hpart, hr⟩ := h k' v (hsame.symm.trans hv)
      exact ⟨part, hpart.trans (List.sublist_append_left _ _), hr⟩
    · rw [hgone] at hv
      cases hv

end Backed

end Lifetime

namespace NetProbe

open Checked Bytes Lifetime

namespace TlsReassembler

open ProtocolParser

/-! ### Segments of a TCP stream -/

/-- The bytes of the segments, one after the other. -/
def carried (part : List Arrival) : Bytes := part.flatMap (·.payload)

/-- The segments are of the stream `k`, and each starts where the one before ends. -/
def InSequence (k : StreamKey) (part : List Arrival) : Prop :=
  ∃ seq, ∀ before a after, part = before ++ a :: after → SegmentAt k seq (carried before).length a

/-- The segments `part` of the stream `k` make up a record that names the host
`h`: the last one completes what the ones before leave open. -/
structure Spelled (k : StreamKey) (part : List Arrival) (h : String) : Prop where
  sequence : InSequence k part
  opened : OpensRecord (carried part.dropLast)
  completed : 5 + u16 (carried part) 3 ≤ (carried part).length
  bounded : (carried part).length ≤ kMaxBufferedBytes
  hello : parseTlsClientHello (carried part) = .ok (some h)
  named : h ≠ ""

/-- The stream of `k` holds the bytes of the segments. -/
structure Gathered (k : StreamKey) (part : List Arrival) (s : Stream) : Prop where
  sequence : ∃ seq, (∀ before a after, part = before ++ a :: after → SegmentAt k seq (carried before).length a) ∧
    s.nextSeq = seq + BitVec.ofNat 32 (carried part).length
  buffer : s.buffer = carried part

theorem carried_concat (part : List Arrival) (a : Arrival) : carried (part ++ [a]) = carried part ++ a.payload := by
  rw [carried, List.flatMap_append, List.flatMap_singleton]
  rfl

section Step

variable {k : StreamKey} {part history : List Arrival} {s s' : Stream} {a : Arrival} {t : Streams}

theorem split_concat {α : Type} {part before after : List α} {a x : α} (h : part ++ [a] = before ++ x :: after) :
    (before = part ∧ x = a) ∨ ∃ after', part = before ++ x :: after' := by
  rcases List.eq_nil_or_concat after with rfl | ⟨after', y, rfl⟩
  · obtain ⟨rfl, hx⟩ := List.append_inj' h rfl
    exact .inl ⟨rfl, (List.singleton_inj.mp hx).symm⟩
  · rw [List.concat_eq_append, ← List.cons_append, ← List.append_assoc] at h
    obtain ⟨rfl, -⟩ := List.append_inj' h rfl
    exact .inr ⟨after', rfl⟩

/-- The segment that starts where the stream stands. -/
theorem Gathered.sequence_concat (h : Gathered k part s) (hk : keyOf a.packet = k) (hp : a.packet.protocol = "TCP")
    (hseq : a.packet.tcpSeq = s.nextSeq) : ∃ seq,
      (∀ before x after, part ++ [a] = before ++ x :: after → SegmentAt k seq (carried before).length x) ∧
        s.nextSeq = seq + BitVec.ofNat 32 (carried part).length := by
  obtain ⟨seq, hall, hnext⟩ := h.sequence
  refine ⟨seq, fun before x after he => ?_, hnext⟩
  rcases split_concat he with ⟨rfl, rfl⟩ | ⟨after', he⟩
  · exact ⟨hk, hp, hseq.trans hnext⟩
  · exact hall before x after' he

/-- The stream that a segment opens is made of it. -/
theorem gathered_opening (hp : a.packet.protocol = "TCP") : Gathered (keyOf a.packet) [a] (opening a) := by
  have hcarried : carried [a] = a.payload := List.flatMap_singleton ..
  refine ⟨⟨a.packet.tcpSeq, fun before x after he => ?_, by rw [hcarried]; rfl⟩, hcarried.symm⟩
  have hnil : before = [] ∧ x = a := by
    rcases @split_concat _ [] before after a x he with ⟨rfl, rfl⟩ | ⟨after', he⟩
    · exact ⟨rfl, rfl⟩
    · simp at he
  rw [hnil.1, hnil.2]
  exact ⟨rfl, hp, by simp [carried]⟩

theorem Gathered.nextSeq_concat (h : Gathered k part s) (hk : keyOf a.packet = k) (hp : a.packet.protocol = "TCP")
    (hseq : a.packet.tcpSeq = s.nextSeq) (lastSeen : ℤ) : Gathered k (part ++ [a])
      ⟨s.buffer ++ a.payload, s.nextSeq + BitVec.ofNat 32 a.payload.length, s.needed, lastSeen⟩ := by
  obtain ⟨seq, hall, hnext⟩ := h.sequence_concat hk hp hseq
  refine ⟨⟨seq, hall, ?_⟩, by rw [carried_concat, h.buffer]⟩
  rw [hnext, carried_concat, List.length_append, BitVec.ofNat_add, BitVec.add_assoc]

/-- The record that a stream and its last segment make up. -/
theorem Gathered.spelled (h : Gathered k part s) (hs : s.Opened) (hk : keyOf a.packet = k)
    (hp : a.packet.protocol = "TCP") (hseq : a.packet.tcpSeq = s.nextSeq)
    (hfit : s.buffer.length + a.payload.length ≤ kMaxBufferedBytes)
    (hfull : s.needed ≤ s.buffer.length + a.payload.length) {host : String}
    (hhello : parseTlsClientHello (s.buffer ++ a.payload) = .ok (some host)) (hne : host ≠ "") :
    Spelled k (part ++ [a]) host := by
  obtain ⟨seq, hall, -⟩ := h.sequence_concat hk hp hseq
  have hbytes : carried (part ++ [a]) = s.buffer ++ a.payload := by rw [carried_concat, h.buffer]
  have h5 := hs.record.length_ge
  have hlength : u16 (s.buffer ++ a.payload) 3 = u16 s.buffer 3 := by
    rw [u16, u8_append_left (by omega), u8_append_left (by omega), u16]
  refine ⟨⟨seq, hall⟩, ?_, ?_, ?_, ?_, hne⟩
  · rw [List.dropLast_concat, ← h.buffer]
    exact hs.record
  · rw [hbytes, hlength, ← hs.needed, List.length_append]
    exact hfull
  · rw [hbytes, List.length_append]
    exact hfit
  · rw [hbytes]
    exact hhello

/-- A segment of a stream that is not tracked is not answered. -/
theorem feedNew_silent (packet : ParsedPacket) (payload : Bytes) :
    Safe (feedNew t k packet payload) fun r => r.1 = none := by
  by_cases h : OpensRecord payload
  · by_cases hfull : t.size ≥ kMaxTrackedStreams
    · rw [feedNew_full h hfull]
      exact .ite (fun _ => .ok rfl) fun _ => .ok rfl
    · exact .of_eq (feedNew_tracked h (not_le.mp hfull)) rfl
  · exact .of_eq (feedNew_ignored h t packet) rfl

/-- What an answer was read from. -/
theorem feed_answers (ht : Sound t) (hl : t.lookup (keyOf a.packet) = some s) (h : Gathered (keyOf a.packet) part s)
    (hp : a.packet.protocol = "TCP") (hne : a.payload ≠ []) :
    Safe (feedArrival t a) fun r => ∀ host, r.1 = some host → Spelled (keyOf a.packet) (part ++ [a]) host := by
  have hs := ht.opened _ s hl
  by_cases hseq : a.packet.tcpSeq = s.nextSeq
  swap
  · by_cases hend : a.packet.tcpSeq + BitVec.ofNat 32 a.payload.length = s.nextSeq
    · exact .of_eq (feed_repeat hp hne hl hseq hend) fun host hhost => by cases hhost
    · exact .of_eq (feed_astray hp hne hl hseq hend) fun host hhost => by cases hhost
  by_cases hfit : s.buffer.length + a.payload.length ≤ kMaxBufferedBytes
  swap
  · exact .of_eq (feed_overfull hp hne hl hseq (not_le.mp hfit)) fun host hhost => by cases hhost
  by_cases hopen : s.buffer.length + a.payload.length < s.needed
  · exact .of_eq (feed_continued hp hne hl hseq hfit hopen) fun host hhost => by cases hhost
  have hlen : ¬ (s.buffer ++ a.payload).length < s.needed := by rwa [List.length_append]
  rw [feedArrival_eq hp hne, hl]
  dsimp only [feedExisting]
  rw [if_neg (not_not.mpr hseq), if_neg (not_lt.mpr hfit), if_neg hlen]
  obtain ⟨sni, hsni, -⟩ := parseTlsClientHello_safe (s.buffer ++ a.payload)
  rw [hsni, ok_bind]
  cases sni with
  | none => exact .ok fun host hhost => by cases hhost
  | some sni =>
    refine .ok fun host hhost => ?_
    dsimp only at hhost
    by_cases hempty : sni ≠ ""
    · rw [if_pos hempty] at hhost
      obtain rfl := Option.some.inj hhost
      exact h.spelled hs rfl hp hseq hfit (not_lt.mp hopen) hsni hempty
    · rw [if_neg hempty] at hhost
      cases hhost

/-- What a segment leaves of its own stream is made of the segments so far. -/
theorem feed_gathers (h : Backed Gathered history t) (a : Arrival) :
    Safe (feedArrival t a) fun r => ∀ s, r.2.lookup (keyOf a.packet) = some s →
      ∃ part, part.Sublist (history ++ [a]) ∧ Gathered (keyOf a.packet) part s := by
  have hheld : ∀ s, t.lookup (keyOf a.packet) = some s →
      ∃ part, part.Sublist (history ++ [a]) ∧ Gathered (keyOf a.packet) part s := by
    intro s hs
    obtain ⟨part, hpart, hr⟩ := h _ s hs
    exact ⟨part, hpart.trans (List.sublist_append_left _ _), hr⟩
  by_cases hidle : a.packet.protocol ≠ "TCP" ∨ a.payload = []
  · exact .of_eq (feedArrival_idle hidle) hheld
  obtain ⟨hp, hne⟩ := not_or.mp hidle
  have hp := not_not.mp hp
  have herase : ∀ s, (t.erase (keyOf a.packet)).lookup (keyOf a.packet) ≠ some s := by
    intro s
    rw [AList.lookup_erase]
    exact (Option.some_ne_none _).symm
  cases hl : t.lookup (keyOf a.packet) with
  | none =>
    rw [feedArrival_eq hp hne, hl]
    refine (feedNew_leaves hl).mono fun r hr s hs => ⟨[a], List.sublist_append_right _ _, ?_⟩
    rw [hr s hs]
    exact gathered_opening hp
  | some s₀ =>
    obtain ⟨part, hpart, hr⟩ := h _ s₀ hl
    by_cases hseq : a.packet.tcpSeq = s₀.nextSeq
    swap
    · by_cases hend : a.packet.tcpSeq + BitVec.ofNat 32 a.payload.length = s₀.nextSeq
      · refine .of_eq (feed_repeat hp hne hl hseq hend) fun s hs => ?_
        rw [AList.lookup_insert] at hs
        obtain rfl := Option.some.inj hs
        exact ⟨part, hpart.trans (List.sublist_append_left _ _), hr.sequence, hr.buffer⟩
      · exact .of_eq (feed_astray hp hne hl hseq hend) fun s hs => absurd hs (herase s)
    by_cases hfit : s₀.buffer.length + a.payload.length ≤ kMaxBufferedBytes
    swap
    · exact .of_eq (feed_overfull hp hne hl hseq (not_le.mp hfit)) fun s hs => absurd hs (herase s)
    by_cases hopen : s₀.buffer.length + a.payload.length < s₀.needed
    · refine .of_eq (feed_continued hp hne hl hseq hfit hopen) fun s hs => ?_
      rw [AList.lookup_insert] at hs
      obtain rfl := Option.some.inj hs
      exact ⟨part ++ [a], hpart.append_right _, hr.nextSeq_concat rfl hp hseq _⟩
    · refine (feed_completed hp hne hl hseq hfit (not_lt.mp hopen)).mono fun r hr s hs => ?_
      rw [hr.1] at hs
      exact absurd hs (herase s)

/-- **An answer is spelled** by segments of the history and the segment it
answers, and what is held stays made of segments of the history. -/
theorem feed_sourced (ht : Sound t) (h : Backed Gathered history t) (a : Arrival) :
    Safe (feedArrival t a) fun r => Backed Gathered (history ++ [a]) r.2 ∧ ∀ host, r.1 = some host →
      ∃ part, part.Sublist history ∧ Spelled (keyOf a.packet) (part ++ [a]) host := by
  have hbacked : Safe (feedArrival t a) fun r => Backed Gathered (history ++ [a]) r.2 := by
    refine ((feed_spares t a.packet a.payload).and fun r hr => (feed_gathers h a).elim hr).mono fun r hr => ?_
    exact h.next a hr.1 hr.2
  refine hbacked.and fun r hr host hhost => ?_
  by_cases hidle : a.packet.protocol ≠ "TCP" ∨ a.payload = []
  · obtain rfl := Except.ok.inj (hr.symm.trans (feedArrival_idle hidle))
    cases hhost
  obtain ⟨hp, hne⟩ := not_or.mp hidle
  cases hl : t.lookup (keyOf a.packet) with
  | none =>
    rw [feedArrival_eq (not_not.mp hp) hne, hl] at hr
    rw [(feedNew_silent a.packet a.payload).elim hr] at hhost
    cases hhost
  | some s =>
    obtain ⟨part, hpart, hg⟩ := h _ s hl
    exact ⟨part, hpart, (feed_answers ht hl hg (not_not.mp hp) hne).elim hr host hhost⟩

end Step

end TlsReassembler

namespace QuicTracker

open Overlay QuicParser

/-! ### Initials of a QUIC connection -/

/-- The fragments of the Initials, in order. -/
def fragments (part : List InitialPacket) : List CryptoFragment := part.flatMap (·.crypto)

/-- The Initials are those of connection `d`, and their fragments stay within the stream limit. -/
structure InitialsOf (d : Bytes) (part : List InitialPacket) : Prop where
  connection : ∀ initial ∈ part, initial.destinationConnectionId = d
  within : WithinLimit (fragments part)

/-- The fragments of Initials of connection `d` cover a ClientHello that names
the host `h`; where fragments overlap, the later one is read. -/
structure Spelled (d : Bytes) (part : List InitialPacket) (h : String) : Prop extends InitialsOf d part where
  complete : Complete (fragments part)
  hello : ∃ name, NamedHello (assembled (fragments part)) name ∧ h = ofBytes name

/-- The connection `d` is what the fragments of the Initials write. -/
def Gathered (d : Bytes) (part : List InitialPacket) (c : Connection) : Prop :=
  InitialsOf d part ∧ ∃ seen, c = received (fragments part) seen

theorem fragments_concat (part : List InitialPacket) (initial : InitialPacket) :
    fragments (part ++ [initial]) = fragments part ++ initial.crypto := by
  rw [fragments, List.flatMap_append, List.flatMap_singleton]
  rfl

section Step

variable {d : Bytes} {part history : List InitialPacket} {c : Connection} {initial : InitialPacket} {t : Tracker}
  {now : ℤ}

theorem InitialsOf.concat (h : InitialsOf initial.destinationConnectionId part) (hw : WithinLimit initial.crypto) :
    InitialsOf initial.destinationConnectionId (part ++ [initial]) where
  connection i hi := by
    rcases List.mem_append.mp hi with hi | hi
    · exact h.connection i hi
    · rw [List.mem_singleton.mp hi]
  within f hf := by
    rw [fragments_concat] at hf
    rcases List.mem_append.mp hf with hf | hf
    · exact h.within f hf
    · exact hw f hf

/-- The connection an Initial finds, an empty one if there is none, is made of
Initials of the history. -/
theorem gathered_getD (h : Backed Gathered history t) (d : Bytes) :
    ∃ part, part.Sublist history ∧ Gathered d part ((t.lookup d).getD {}) := by
  cases hl : t.lookup d with
  | none => exact ⟨[], List.nil_sublist _, ⟨by simp, by simp [fragments, WithinLimit]⟩, 0, rfl⟩
  | some c => exact h d c hl

/-- What an answer was read from. -/
theorem feedInitial_answers (ha : Addressable initial.crypto)
    (h : Gathered initial.destinationConnectionId part ((t.lookup initial.destinationConnectionId).getD {})) :
    Safe (feedInitial t initial now) fun r => ∀ host, r.1 = some host →
      Spelled initial.destinationConnectionId (part ++ [initial]) host := by
  obtain ⟨hpart, seen, hc⟩ := h
  have hanswer : ∀ u : Tracker, Safe (feedConnection u initial.destinationConnectionId (received (fragments part) seen)
      initial.crypto now) fun r => ∀ host, r.1 = some host →
        Spelled initial.destinationConnectionId (part ++ [initial]) host := by
    intro u
    rw [feedConnection_received ha]
    by_cases hw : WithinLimit initial.crypto
    swap
    · rw [if_neg hw]
      exact .ok fun host hhost => by cases hhost
    rw [if_pos hw, answer, ← fragments_concat]
    by_cases hcomplete : Complete (fragments (part ++ [initial]))
    swap
    · rw [if_neg hcomplete]
      exact .ok fun host hhost => by cases hhost
    rw [if_pos hcomplete]
    refine (sniFromClientHello_iff _).map fun r hr host hhost => ?_
    exact ⟨hpart.concat hw, hcomplete, (hr host).mp hhost⟩
  refine .guard (fun host hhost => by cases hhost) fun _ => ?_
  dsimp only
  cases hl : t.lookup initial.destinationConnectionId with
  | some c =>
    rw [hl, Option.getD_some] at hc
    rw [hc]
    exact hanswer t
  | none =>
    rw [hl, Option.getD_none] at hc
    rw [hc]
    refine .ite (fun _ => .guard (fun host hhost => by cases hhost) fun _ => hanswer _) fun _ => hanswer t

/-- **An answer is spelled** by Initials of the history and the Initial it
answers, and what is held stays made of Initials of the history. -/
theorem feedInitial_sourced (ht : Aligned t) (h : Backed Gathered history t) (ha : Addressable initial.crypto)
    (now : ℤ) :
    Safe (feedInitial t initial now) fun r => Backed Gathered (history ++ [initial]) r.2 ∧ ∀ host, r.1 = some host →
      ∃ part, part.Sublist history ∧ Spelled initial.destinationConnectionId (part ++ [initial]) host := by
  obtain ⟨part, hpart, hgathered⟩ := gathered_getD h initial.destinationConnectionId
  obtain ⟨r, hr, hfed⟩ := feedInitial_fed ht ha now
  refine .of_eq hr ⟨h.next initial hfed.spares fun c hc => ?_, fun host hhost => ?_⟩
  · rcases hfed.own c hc with ⟨-, hheld⟩ | ⟨hw, rfl⟩
    · obtain ⟨part, hpart, hg⟩ := h _ c hheld
      exact ⟨part, hpart.trans (List.sublist_append_left _ _), hg⟩
    · obtain ⟨hinitials, seen, hsame⟩ := hgathered
      refine ⟨part ++ [initial], hpart.append_right _, hinitials.concat hw, now, ?_⟩
      rw [hsame, fragments_concat]
      exact write_received
  · exact ⟨part, hpart, (feedInitial_answers ha hgathered).elim hr host hhost⟩

end Step

end QuicTracker
end NetProbe
