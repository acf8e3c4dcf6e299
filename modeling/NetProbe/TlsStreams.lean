/-
# What the TlsReassembler holds between segments

Between two segments every tracked stream is the start of a handshake record
that it leaves open (`Stream.Opened`), and there are at most as many streams as
the limit allows (`reachable_sound`). On such a state `feed` looks at no clock:
a stream lives until a segment breaks, completes or overfills it, or until the
table is full. So of the bytes sent again only those that end where the stream
stands are ignored (`retransmission_harmless_iff`), and a stream that has gone
quiet still takes the segments of its key (`quiet_forgotten_iff`).

Key definitions: `OpensRecord`, `Stream.Opened`, `Sound`, `Resends`, `Forgets`.
Key theorems: `reachable_sound`, `retransmission_harmless_iff`, `quiet_forgotten_iff`.
-/
import NetProbe.TlsRuns

namespace NetProbe
namespace TlsReassembler

open Checked Bytes ProtocolParser

/-! ### The start of a record -/

/-- The payload opens a handshake record within the limit and leaves it open. -/
structure OpensRecord (payload : Bytes) : Prop where
  looks : looksLikeTlsHandshake payload = .ok true
  unfinished : payload.length < 5 + u16 payload 3
  limit : 5 + u16 payload 3 ≤ kMaxBufferedBytes

/-- The stream holds the start of the record it waits for. -/
structure Stream.Opened (s : Stream) : Prop where
  record : OpensRecord s.buffer
  needed : s.needed = 5 + u16 s.buffer 3

/-- What holds of the streams between two segments. -/
structure Sound (t : Streams) : Prop where
  opened : ∀ k s, t.lookup k = some s → s.Opened
  size : t.size ≤ kMaxTrackedStreams

/-- The streams held after some run from the start. -/
def Reachable (t : Streams) : Prop := ∃ run outs, feedAll ∅ run = .ok (outs, t)

/-- The stream that the segment `a` opens. -/
def opening (a : Arrival) : Stream :=
  ⟨a.payload, a.packet.tcpSeq + BitVec.ofNat 32 a.payload.length, 5 + u16 a.payload 3, a.packet.timestamp⟩

section Record

variable {payload : Bytes}

theorem OpensRecord.length_ge (h : OpensRecord payload) : 5 ≤ payload.length := by
  obtain ⟨looks, hlooks, hlen⟩ := looksLikeTlsHandshake_safe payload
  exact hlen (Except.ok.inj (hlooks.symm.trans h.looks))

theorem OpensRecord.opened (h : OpensRecord payload) (nextSeq : BitVec 32) (lastSeen : ℤ) :
    Stream.Opened ⟨payload, nextSeq, 5 + u16 payload 3, lastSeen⟩ := ⟨h, rfl⟩

/-- More of the record. -/
theorem OpensRecord.append (h : OpensRecord payload) (more : Bytes)
    (hopen : (payload ++ more).length < 5 + u16 payload 3) : OpensRecord (payload ++ more) ∧
      u16 (payload ++ more) 3 = u16 payload 3 := by
  have h5 := h.length_ge
  have hlength : u16 (payload ++ more) 3 = u16 payload 3 := by
    rw [u16, u8_append_left (by omega), u8_append_left (by omega), u16]
  exact ⟨⟨(looksLikeTlsHandshake_append more h5).trans h.looks, by rw [hlength]; exact hopen,
    by rw [hlength]; exact h.limit⟩, hlength⟩

end Record

/-! ### Every state is sound -/

section Sound

variable {t : Streams} {k : StreamKey} {s : Stream}

theorem Sound.erase (h : Sound t) (k : StreamKey) : Sound (t.erase k) where
  opened k' s hs := by
    by_cases hk : k' = k
    · subst hk
      rw [AList.lookup_erase] at hs
      cases hs
    · rw [AList.lookup_erase_ne hk] at hs
      exact h.opened k' s hs
  size := Table.size_erase_le.trans h.size

theorem Sound.expireStale (h : Sound t) (now : ℤ) : Sound (expireStale t now) where
  opened k s hs := by
    rw [TlsReassembler.expireStale, Table.lookup_keep] at hs
    exact h.opened k s (Option.filter_eq_some_iff.mp hs).1
  size := (Table.size_keep_le _ t).trans h.size

theorem Sound.insert (h : Sound t) (hs : s.Opened) (hroom : Table.size (t.insert k s) ≤ kMaxTrackedStreams) :
    Sound (t.insert k s) where
  opened k' s' hs' := by
    by_cases hk : k' = k
    · subst hk
      rw [AList.lookup_insert] at hs'
      obtain rfl := Option.some.inj hs'
      exact hs
    · rw [AList.lookup_insert_ne hk] at hs'
      exact h.opened k' s' hs'
  size := hroom

/-- A stream replaced by what it has become. -/
theorem Sound.update {s' : Stream} (h : Sound t) (hl : t.lookup k = some s) (hs : s'.Opened) :
    Sound (t.insert k s') :=
  h.insert hs (by rw [Table.size_insert_of_lookup hl]; exact h.size)

/-- A stream that finds room. -/
theorem Sound.accept (h : Sound t) (hs : s.Opened) (hroom : t.size < kMaxTrackedStreams) : Sound (t.insert k s) :=
  h.insert hs (Table.size_insert_le.trans hroom)

/-- A segment that opens no record is not tracked. -/
theorem feedNew_ignored {payload : Bytes} (h : ¬ OpensRecord payload) (t : Streams) (packet : ParsedPacket) :
    feedNew t k packet payload = .ok (none, t) := by
  obtain ⟨looks, hlooks, h5⟩ := looksLikeTlsHandshake_safe payload
  unfold feedNew
  rw [hlooks, ok_bind]
  cases looks with
  | false => rfl
  | true =>
    have h5 := h5 rfl
    rw [if_neg (by simp), readU8_eq (by omega), ok_bind, readU8_eq (by omega), ok_bind, shiftLeft_or (u8_lt payload 4)]
    by_cases hopen : 5 + u16 payload 3 ≤ payload.length
    · exact if_pos hopen
    · refine (if_neg hopen).trans (if_pos ?_)
      by_contra hlimit
      exact h ⟨hlooks, not_le.mp hopen, not_lt.mp hlimit⟩

/-- One that does is, where there is room. -/
theorem feedNew_tracked {packet : ParsedPacket} {payload : Bytes} (h : OpensRecord payload)
    (hroom : t.size < kMaxTrackedStreams) :
    feedNew t k packet payload = .ok (none, t.insert k (opening ⟨packet, payload⟩)) := by
  have h5 := h.length_ge
  unfold feedNew
  rw [h.looks, ok_bind, if_neg (by simp), readU8_eq (by omega), ok_bind, readU8_eq (by omega), ok_bind,
    shiftLeft_or (u8_lt payload 4)]
  exact (if_neg (not_le.mpr h.unfinished)).trans ((if_neg (not_lt.mpr h.limit)).trans (if_neg (not_le.mpr hroom)))

theorem feedNew_sound (h : Sound t) (packet : ParsedPacket) (payload : Bytes) :
    Safe (feedNew t k packet payload) fun r => Sound r.2 := by
  obtain ⟨looks, hlooks, h5⟩ := looksLikeTlsHandshake_safe payload
  unfold feedNew
  rw [hlooks, ok_bind]
  refine .guard h fun hl => ?_
  obtain rfl : looks = true := not_not.mp hl
  have h5 := h5 rfl
  rw [readU8_eq (by omega), ok_bind, readU8_eq (by omega), ok_bind, shiftLeft_or (u8_lt payload 4)]
  refine .guard h fun hopen => .guard h fun hlimit => ?_
  have hrecord : OpensRecord payload := ⟨hlooks, not_le.mp hopen, not_lt.mp hlimit⟩
  have hs := hrecord.opened (packet.tcpSeq + BitVec.ofNat 32 payload.length) packet.timestamp
  refine .ite (fun _ => ?_) fun hroom => .ok (h.accept hs (not_le.mp hroom))
  exact .guard (h.expireStale _) fun hroom => .ok ((h.expireStale _).accept hs (not_le.mp hroom))

theorem feedExisting_sound (h : Sound t) (hl : t.lookup k = some s) (packet : ParsedPacket) (payload : Bytes) :
    Safe (feedExisting t k s packet payload) fun r => Sound r.2 := by
  have hs := h.opened k s hl
  have hseen : ∀ lastSeen, Sound (t.insert k { s with lastSeen }) := fun lastSeen =>
    h.update hl ⟨hs.record, hs.needed⟩
  refine .ite (fun _ => .guard (hseen _) fun _ => .ok (h.erase k)) fun _ => ?_
  refine .guard (h.erase k) fun _ => .ite (fun hopen => .ok (h.update hl ?_)) fun _ => ?_
  · dsimp only at hopen
    rw [hs.needed] at hopen
    obtain ⟨hrecord, hlength⟩ := hs.record.append payload hopen
    exact ⟨hrecord, hs.needed.trans (by rw [hlength])⟩
  · refine (parseTlsClientHello_safe _).bind fun sni _ => ?_
    cases sni <;> exact .ok (h.erase k)

/-- What is no segment with a payload leaves everything as it was. -/
theorem feedArrival_idle {a : Arrival} (h : a.packet.protocol ≠ "TCP" ∨ a.payload = []) :
    feedArrival t a = .ok (none, t) := if_pos h

theorem feed_sound (h : Sound t) (a : Arrival) : Safe (feedArrival t a) fun r => Sound r.2 := by
  by_cases hseg : a.packet.protocol = "TCP" ∧ a.payload ≠ []
  · rw [feedArrival_eq hseg.1 hseg.2]
    cases hl : t.lookup (keyOf a.packet) with
    | none => exact feedNew_sound h _ _
    | some s => exact feedExisting_sound h hl _ _
  · exact .of_eq (feedArrival_idle (by tauto)) h

/-- **Whatever is fed**, the reassembler holds starts of records only, and not
too many. -/
theorem reachable_sound (h : Reachable t) : Sound t := by
  obtain ⟨run, outs, hrun⟩ := h
  induction run using List.reverseRecOn generalizing outs t with
  | nil =>
    obtain ⟨-, rfl⟩ := Prod.mk.inj (Except.ok.inj hrun)
    exact ⟨fun k s hs => by simp at hs, Nat.zero_le _⟩
  | append_singleton run a ih =>
    rw [feedAll_concat] at hrun
    obtain ⟨⟨outs, u⟩, hbefore, hrun⟩ := bind_eq_ok.mp hrun
    obtain ⟨⟨r, v⟩, hfeed, hrun⟩ := bind_eq_ok.mp hrun
    obtain ⟨-, rfl⟩ := Prod.mk.inj (Except.ok.inj hrun)
    obtain ⟨x, hx, hsound⟩ := feed_sound (ih outs hbefore) a
    obtain rfl : x = (r, v) := Except.ok.inj (hx.symm.trans hfeed)
    exact hsound

end Sound

/-! ### A segment of a tracked stream -/

/-- The bytes of a stream name a host. -/
def NamesHost (stream : Bytes) : Prop := ∃ sni, parseTlsClientHello stream = .ok (some sni) ∧ sni ≠ ""

section Tracked

variable {t : Streams} {s : Stream} {a : Arrival} (hp : a.packet.protocol = "TCP") (hne : a.payload ≠ [])
  (hl : t.lookup (keyOf a.packet) = some s)

include hp hne hl

/-- The bytes held last, sent again. -/
theorem feed_repeat (hseq : a.packet.tcpSeq ≠ s.nextSeq)
    (hend : a.packet.tcpSeq + BitVec.ofNat 32 a.payload.length = s.nextSeq) :
    feedArrival t a = .ok (none, t.insert (keyOf a.packet) { s with lastSeen := a.packet.timestamp }) := by
  rw [feedArrival_eq hp hne, hl]
  exact (if_pos hseq).trans (if_pos hend)

/-- Bytes that neither start nor end where the stream stands. -/
theorem feed_astray (hseq : a.packet.tcpSeq ≠ s.nextSeq)
    (hend : a.packet.tcpSeq + BitVec.ofNat 32 a.payload.length ≠ s.nextSeq) :
    feedArrival t a = .ok (none, t.erase (keyOf a.packet)) := by
  rw [feedArrival_eq hp hne, hl]
  exact (if_pos hseq).trans (if_neg hend)

variable (hseq : a.packet.tcpSeq = s.nextSeq)

include hseq

/-- More bytes than a record may have. -/
theorem feed_overfull (hfull : s.buffer.length + a.payload.length > kMaxBufferedBytes) :
    feedArrival t a = .ok (none, t.erase (keyOf a.packet)) := by
  rw [feedArrival_eq hp hne, hl]
  exact (if_neg (not_not.mpr hseq)).trans (if_pos hfull)

variable (hfit : s.buffer.length + a.payload.length ≤ kMaxBufferedBytes)

include hfit

/-- Bytes that leave the record open. -/
theorem feed_continued (hopen : s.buffer.length + a.payload.length < s.needed) :
    feedArrival t a = .ok (none, t.insert (keyOf a.packet) ⟨s.buffer ++ a.payload,
      s.nextSeq + BitVec.ofNat 32 a.payload.length, s.needed, a.packet.timestamp⟩) := by
  rw [← List.length_append] at hopen
  rw [feedArrival_eq hp hne, hl]
  exact (if_neg (not_not.mpr hseq)).trans ((if_neg (not_lt.mpr hfit)).trans (if_pos hopen))

/-- Bytes that complete the record. -/
theorem feed_completed (hfull : s.needed ≤ s.buffer.length + a.payload.length) :
    Safe (feedArrival t a) fun r => r.2 = t.erase (keyOf a.packet) ∧
      (r.1 = none ↔ ¬ NamesHost (s.buffer ++ a.payload)) := by
  have hlen : ¬ (s.buffer ++ a.payload).length < s.needed := by rw [List.length_append]; omega
  rw [feedArrival_eq hp hne, hl]
  dsimp only [feedExisting]
  rw [if_neg (not_not.mpr hseq), if_neg (not_lt.mpr hfit), if_neg hlen]
  obtain ⟨sni, hsni, -⟩ := parseTlsClientHello_safe (s.buffer ++ a.payload)
  rw [hsni, ok_bind]
  cases sni with
  | none => exact .ok ⟨rfl, by simp [NamesHost, hsni]⟩
  | some sni => exact .ok ⟨rfl, by simp [NamesHost, hsni]⟩

end Tracked

/-! ### Bytes sent again -/

/-- The segment `a` brings bytes that the stream `s` holds: its range starts
`off` bytes into the buffer and does not leave it. -/
def Resends (s : Stream) (a : Arrival) : Prop :=
  ∃ off, off + a.payload.length ≤ s.buffer.length ∧
    a.packet.tcpSeq = s.nextSeq - BitVec.ofNat 32 s.buffer.length + BitVec.ofNat 32 off

/-- No answer, the stream `s` of `k` as it was but for the time, and every other
stream untouched. -/
structure Harmless (k : StreamKey) (s : Stream) (t : Streams) (r : Option String × Streams) : Prop where
  silent : r.1 = none
  kept : ∃ lastSeen, r.2.lookup k = some { s with lastSeen }
  others : ∀ k', k' ≠ k → r.2.lookup k' = t.lookup k'

section Resent

variable {t : Streams} {s : Stream} {a : Arrival}

/-- Bytes held already do not continue the stream. -/
theorem Resends.not_next (h : Resends s a) (hs : s.Opened) (hne : a.payload ≠ []) : a.packet.tcpSeq ≠ s.nextSeq := by
  obtain ⟨off, hoff, hseq⟩ := h
  have hpos := List.length_pos_of_ne_nil hne
  have hopen := hs.record.unfinished
  have hlimit := hs.record.limit
  have hmax : kMaxBufferedBytes < 2 ^ 32 := by decide
  intro hnext
  -- the range would start where the stream stands, a whole buffer behind its own start
  rw [hnext] at hseq
  have hback : BitVec.ofNat 32 off = BitVec.ofNat 32 s.buffer.length := by bv_omega
  have hlen := congrArg BitVec.toNat hback
  rw [BitVec.toNat_ofNat, BitVec.toNat_ofNat, Nat.mod_eq_of_lt (by omega), Nat.mod_eq_of_lt (by omega)] at hlen
  omega

/-- Of the bytes a stream holds, **only those that end where it stands** are
ignored when they come again; any others drop the stream. -/
theorem retransmission_harmless_iff (ht : Reachable t) (hl : t.lookup (keyOf a.packet) = some s) (hin : Resends s a) :
    Safe (feedArrival t a) fun r => Harmless (keyOf a.packet) s t r ↔
      a.packet.protocol ≠ "TCP" ∨ a.payload = [] ∨
        a.packet.tcpSeq + BitVec.ofNat 32 a.payload.length = s.nextSeq := by
  have hs := (reachable_sound ht).opened _ s hl
  by_cases hidle : a.packet.protocol ≠ "TCP" ∨ a.payload = []
  · exact .of_eq (feedArrival_idle hidle) (iff_of_true ⟨rfl, ⟨s.lastSeen, hl⟩, fun _ _ => rfl⟩ (by tauto))
  · obtain ⟨hp, hne⟩ := not_or.mp hidle
    have hseq := hin.not_next hs hne
    by_cases hend : a.packet.tcpSeq + BitVec.ofNat 32 a.payload.length = s.nextSeq
    · refine .of_eq (feed_repeat (not_not.mp hp) hne hl hseq hend) (iff_of_true ⟨rfl, ?_, ?_⟩ (.inr (.inr hend)))
      · exact ⟨_, AList.lookup_insert _⟩
      · exact fun k' hk' => AList.lookup_insert_ne hk'
    · refine .of_eq (feed_astray (not_not.mp hp) hne hl hseq hend) (iff_of_false (fun h => ?_) (by tauto))
      obtain ⟨_, hkept⟩ := h.kept
      rw [AList.lookup_erase] at hkept
      cases hkept

end Resent

/-- Two segments of a record. -/
def twoSegments : List Arrival :=
  [clientSegment 50000 0xfffffff0#32 0 (recordForAIo.take 20),
    clientSegment 50000 4#32 5 ((recordForAIo.drop 20).take 20)]

/-- What is held after them. -/
def twoSegmentsHeld : Stream := ⟨recordForAIo.take 40, 24#32, 65, 5⟩

def twoSegmentsStreams : Streams := (∅ : Streams).insert ⟨"10.0.0.2", "10.0.0.1", 50000, 443⟩ twoSegmentsHeld

theorem twoSegmentsStreams_reachable : Reachable twoSegmentsStreams := ⟨twoSegments, [none, none], rfl⟩

/-- The second segment again. -/
theorem retransmission_harmless_twoSegments :
    Safe (feedArrival twoSegmentsStreams (clientSegment 50000 4#32 9 ((recordForAIo.drop 20).take 20))) fun r =>
      Harmless ⟨"10.0.0.2", "10.0.0.1", 50000, 443⟩ twoSegmentsHeld twoSegmentsStreams r ↔
        "TCP" ≠ "TCP" ∨ (recordForAIo.drop 20).take 20 = [] ∨
          4#32 + BitVec.ofNat 32 ((recordForAIo.drop 20).take 20).length = 24#32 :=
  retransmission_harmless_iff (a := clientSegment 50000 4#32 9 ((recordForAIo.drop 20).take 20))
    twoSegmentsStreams_reachable rfl ⟨20, by decide, by decide⟩

/-- The first segment again drops the stream. -/
theorem retransmission_drops_stream :
    ∃ t s a r, Reachable t ∧ t.lookup (keyOf a.packet) = some s ∧ Resends s a ∧ feedArrival t a = .ok r ∧
      ¬ Harmless (keyOf a.packet) s t r := by
  refine ⟨twoSegmentsStreams, twoSegmentsHeld, clientSegment 50000 0xfffffff0#32 9 (recordForAIo.take 20), _,
    twoSegmentsStreams_reachable, rfl, ⟨0, by decide, by decide⟩, rfl, fun h => ?_⟩
  obtain ⟨_, hkept⟩ := h.kept
  cases hkept

/-! ### Segments of a quiet stream -/

/-- The segment `a` ends the stream `s` without a name: it leaves a gap, overfills
the buffer, or completes a record that names no host. -/
def Abandons (s : Stream) (a : Arrival) : Prop :=
  if a.packet.tcpSeq = s.nextSeq then
    s.buffer.length + a.payload.length > kMaxBufferedBytes ∨
      s.needed ≤ s.buffer.length + a.payload.length ∧ ¬ NamesHost (s.buffer ++ a.payload)
  else a.packet.tcpSeq + BitVec.ofNat 32 a.payload.length ≠ s.nextSeq

/-- The stream `s` might as well not be tracked when `a` arrives. A segment that
opens a record has to be the whole of what `s` holds, any other has to end `s`
without a name. -/
def Forgets (s : Stream) (a : Arrival) : Prop :=
  a.payload ≠ [] ∧
    (OpensRecord a.payload ∧ a.payload = s.buffer ∧
        a.packet.tcpSeq + BitVec.ofNat 32 a.payload.length = s.nextSeq ∨
      ¬ OpensRecord a.payload ∧ Abandons s a)

section Quiet

variable {t : Streams} {s : Stream} {a : Arrival}

/-- Without its stream, a segment opens one or leaves none. -/
theorem feed_erased (ht : Sound t) (hl : t.lookup (keyOf a.packet) = some s) (hp : a.packet.protocol = "TCP")
    (hne : a.payload ≠ []) :
    Safe (feedArrival (t.erase (keyOf a.packet)) a) fun r => r.1 = none ∧
      (OpensRecord a.payload → r.2.lookup (keyOf a.packet) = some (opening a)) ∧
      (¬ OpensRecord a.payload → r.2.lookup (keyOf a.packet) = none) := by
  have hroom : Table.size (t.erase (keyOf a.packet)) < kMaxTrackedStreams := by
    have hsize := Table.size_erase hl
    have hmax := ht.size
    omega
  rw [feedArrival_eq hp hne, AList.lookup_erase]
  by_cases h : OpensRecord a.payload
  · exact .of_eq (feedNew_tracked h hroom) ⟨rfl, fun _ => AList.lookup_insert _, fun hno => (hno h).elim⟩
  · exact .of_eq (feedNew_ignored h _ _) ⟨rfl, fun hyes => (h hyes).elim, fun _ => AList.lookup_erase _ _⟩

/-- With its stream, a segment that opens a record leaves what it would open only
where it is all that the stream holds. -/
theorem feed_tracked_opening (hs : s.Opened) (hl : t.lookup (keyOf a.packet) = some s)
    (hp : a.packet.protocol = "TCP") (h : OpensRecord a.payload) :
    Safe (feedArrival t a) fun r => r.1 = none ∧ r.2.lookup (keyOf a.packet) = some (opening a) ↔
      a.payload = s.buffer ∧ a.packet.tcpSeq + BitVec.ofNat 32 a.payload.length = s.nextSeq := by
  have h5 := h.length_ge
  have hne : a.payload ≠ [] := List.ne_nil_of_length_pos (by omega)
  have hgone : (t.erase (keyOf a.packet)).lookup (keyOf a.packet) ≠ some (opening a) := by
    rw [AList.lookup_erase]
    exact (Option.some_ne_none _).symm
  by_cases hseq : a.packet.tcpSeq = s.nextSeq
  · -- a record has fewer than 2^32 bytes, so it does not end where it starts
    have hmoved : a.packet.tcpSeq + BitVec.ofNat 32 a.payload.length ≠ s.nextSeq := by
      have hopen := h.unfinished
      have hlimit := h.limit
      have hmax : kMaxBufferedBytes = 65536 := rfl
      rw [hseq]
      bv_omega
    by_cases hfit : s.buffer.length + a.payload.length ≤ kMaxBufferedBytes
    · by_cases hopen : s.buffer.length + a.payload.length < s.needed
      · refine .of_eq (feed_continued hp hne hl hseq hfit hopen) (iff_of_false (fun hr => ?_) fun hr => hmoved hr.2)
        have hheld := hr.2
        rw [AList.lookup_insert] at hheld
        have hbuffer : s.buffer ++ a.payload = a.payload := congrArg Stream.buffer (Option.some.inj hheld)
        have hlen := congrArg List.length hbuffer
        have h5' := hs.record.length_ge
        rw [List.length_append] at hlen
        omega
      · refine (feed_completed hp hne hl hseq hfit (not_lt.mp hopen)).mono fun r hr => ?_
        rw [hr.1]
        exact iff_of_false (fun hr => hgone hr.2) fun hr => hmoved hr.2
    · exact .of_eq (feed_overfull hp hne hl hseq (not_le.mp hfit))
        (iff_of_false (fun hr => hgone hr.2) fun hr => hmoved hr.2)
  · by_cases hend : a.packet.tcpSeq + BitVec.ofNat 32 a.payload.length = s.nextSeq
    · refine .of_eq (feed_repeat hp hne hl hseq hend) ?_
      rw [AList.lookup_insert, hend]
      constructor
      · intro hr
        have hbuffer : s.buffer = a.payload := congrArg Stream.buffer (Option.some.inj hr.2)
        exact ⟨hbuffer.symm, rfl⟩
      · rintro ⟨hbuffer, -⟩
        rw [opening, hend, hbuffer, ← hs.needed]
        exact ⟨rfl, rfl⟩
    · exact .of_eq (feed_astray hp hne hl hseq hend) (iff_of_false (fun hr => hgone hr.2) fun hr => hend hr.2)

/-- Any other segment leaves no stream and no name only where it ends the stream. -/
theorem feed_tracked_abandons (hl : t.lookup (keyOf a.packet) = some s) (hp : a.packet.protocol = "TCP")
    (hne : a.payload ≠ []) :
    Safe (feedArrival t a) fun r => r.1 = none ∧ r.2.lookup (keyOf a.packet) = none ↔ Abandons s a := by
  have hgone : (t.erase (keyOf a.packet)).lookup (keyOf a.packet) = none := AList.lookup_erase _ _
  have hheld : ∀ s', (t.insert (keyOf a.packet) s').lookup (keyOf a.packet) ≠ none := fun s' => by
    rw [AList.lookup_insert]
    exact Option.some_ne_none _
  unfold Abandons
  by_cases hseq : a.packet.tcpSeq = s.nextSeq
  · rw [if_pos hseq]
    by_cases hfit : s.buffer.length + a.payload.length ≤ kMaxBufferedBytes
    · by_cases hopen : s.buffer.length + a.payload.length < s.needed
      · exact .of_eq (feed_continued hp hne hl hseq hfit hopen) (iff_of_false (fun hr => hheld _ hr.2) (by omega))
      · refine (feed_completed hp hne hl hseq hfit (not_lt.mp hopen)).mono fun r hr => ?_
        have hfull := not_lt.mp hopen
        rw [hr.1, hr.2]
        simp only [hgone, and_true, not_lt.mpr hfit, hfull, true_and, false_or]
    · exact .of_eq (feed_overfull hp hne hl hseq (not_le.mp hfit)) (iff_of_true ⟨rfl, hgone⟩ (.inl (not_le.mp hfit)))
  · rw [if_neg hseq]
    by_cases hend : a.packet.tcpSeq + BitVec.ofNat 32 a.payload.length = s.nextSeq
    · exact .of_eq (feed_repeat hp hne hl hseq hend) (iff_of_false (fun hr => hheld _ hr.2) (not_not.mpr hend))
    · exact .of_eq (feed_astray hp hne hl hseq hend) (iff_of_true ⟨rfl, hgone⟩ hend)

/-- However long a stream has been quiet, a segment of its key is taken as if it
were not tracked **exactly when the segment ends it or repeats all of it**. -/
theorem quiet_forgotten_iff (ht : Reachable t) (hl : t.lookup (keyOf a.packet) = some s)
    (hp : a.packet.protocol = "TCP") :
    ∃ r r', feedArrival t a = .ok r ∧ feedArrival (t.erase (keyOf a.packet)) a = .ok r' ∧
      (r.1 = r'.1 ∧ r.2.lookup (keyOf a.packet) = r'.2.lookup (keyOf a.packet) ↔ Forgets s a) := by
  have hsound := reachable_sound ht
  by_cases hne : a.payload = []
  · refine ⟨_, _, feedArrival_idle (.inr hne), feedArrival_idle (.inr hne), iff_of_false (fun h => ?_) fun h => h.1 hne⟩
    have hlookup := h.2
    rw [hl, AList.lookup_erase] at hlookup
    cases hlookup
  · obtain ⟨r', hr', hsilent, hopening, hnone⟩ := feed_erased hsound hl hp hne
    by_cases h : OpensRecord a.payload
    · obtain ⟨r, hr, hiff⟩ := feed_tracked_opening (hsound.opened _ s hl) hl hp h
      refine ⟨r, r', hr, hr', ?_⟩
      rw [hsilent, hopening h, hiff]
      exact ⟨fun hrep => ⟨hne, .inl ⟨h, hrep⟩⟩, fun hf => (hf.2.resolve_right fun hno => hno.1 h).2⟩
    · obtain ⟨r, hr, hiff⟩ := feed_tracked_abandons hl hp hne
      refine ⟨r, r', hr, hr', ?_⟩
      rw [hsilent, hnone h, hiff]
      exact ⟨fun hend => ⟨hne, .inr ⟨h, hend⟩⟩, fun hf => (hf.2.resolve_left fun hyes => h hyes.1).2⟩

end Quiet

/-- A minute later the client's port opens another record. -/
def reopening : Arrival := clientSegment 50000 1000#32 60000000 (recordForAIo.take 30)

theorem quiet_forgotten_reopening :
    ∃ r r', feedArrival twoSegmentsStreams reopening = .ok r ∧
      feedArrival (twoSegmentsStreams.erase (keyOf reopening.packet)) reopening = .ok r' ∧
      (r.1 = r'.1 ∧ r.2.lookup (keyOf reopening.packet) = r'.2.lookup (keyOf reopening.packet) ↔
        Forgets twoSegmentsHeld reopening) :=
  quiet_forgotten_iff twoSegmentsStreams_reachable rfl rfl

/-- The record that the port opens is lost with the quiet stream. -/
theorem quiet_stream_loses_record :
    ∃ t s a r r', Reachable t ∧ t.lookup (keyOf a.packet) = some s ∧ a.packet.protocol = "TCP" ∧
      a.packet.timestamp - s.lastSeen > kStreamTimeoutMicroseconds ∧ feedArrival t a = .ok r ∧
      feedArrival (t.erase (keyOf a.packet)) a = .ok r' ∧ r.2.lookup (keyOf a.packet) = none ∧
      r'.2.lookup (keyOf a.packet) = some (opening a) :=
  ⟨twoSegmentsStreams, twoSegmentsHeld, reopening, _, _, twoSegmentsStreams_reachable, rfl, rfl, by decide, rfl,
    rfl, rfl, rfl⟩

end TlsReassembler
end NetProbe
