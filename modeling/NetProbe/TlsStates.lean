/-
# The states of the TlsReassembler

Runs of `feed` and `clear`. In every state reached, a tracked stream is the
start of the record that one segment of the run opened, in sequence from that
segment on, and there are at most as many streams as the limit allows; and a
segment spares the streams of other keys (`reachable_streams`).

Key definitions: `Event`, `step`, `Tracked`.
Key theorem: `reachable_streams`.
-/
import NetProbe.TlsStreams

namespace NetProbe
namespace TlsReassembler

open Checked Bytes ProtocolParser Lifetime

def clear (_ : Streams) : Streams := ∅

/-- A call of the reassembler. -/
inductive Event
  | feed (a : Arrival)
  | clear

def step (t : Streams) : Event → Checked Streams
  | .feed a => Prod.snd <$> feedArrival t a
  | .clear => .ok (clear t)

/-- The stream of `k` that the segment `first` opened. -/
structure Tracked (k : StreamKey) (first : Arrival) (s : Stream) : Prop where
  key : keyOf first.packet = k
  opens : first.payload <+: s.buffer
  header : looksLikeTlsHandshake s.buffer = .ok true
  needed : s.needed = 5 + u16 s.buffer 3
  started : 5 ≤ s.buffer.length
  unfinished : s.buffer.length < s.needed
  limit : s.needed ≤ kMaxBufferedBytes
  nextSeq : s.nextSeq = first.packet.tcpSeq + BitVec.ofNat 32 s.buffer.length

section

variable {t : Streams} {k : StreamKey} {s : Stream} {a : Arrival}

/-! ### The stream a segment belongs to -/

/-- A segment that opens a record, in a full table. -/
theorem feedNew_full {packet : ParsedPacket} {payload : Bytes} (h : OpensRecord payload)
    (hfull : t.size ≥ kMaxTrackedStreams) :
    feedNew t k packet payload =
      if (expireStale t packet.timestamp).size ≥ kMaxTrackedStreams then
        .ok (none, expireStale t packet.timestamp)
      else .ok (none, (expireStale t packet.timestamp).insert k (opening ⟨packet, payload⟩)) := by
  have h5 := h.length_ge
  unfold feedNew
  rw [h.looks, ok_bind, if_neg (by simp), readU8_eq (by omega), ok_bind, readU8_eq (by omega), ok_bind,
    shiftLeft_or (u8_lt payload 4)]
  exact (if_neg (not_le.mpr h.unfinished)).trans ((if_neg (not_lt.mpr h.limit)).trans (if_pos hfull))

/-- A stream made is that of the segment. -/
theorem feedNew_leaves {packet : ParsedPacket} {payload : Bytes} (hl : t.lookup k = none) :
    Safe (feedNew t k packet payload) fun r => ∀ s, r.2.lookup k = some s → s = opening ⟨packet, payload⟩ := by
  have hinsert : ∀ (u : Streams) s, (u.insert k (opening ⟨packet, payload⟩)).lookup k = some s →
      s = opening ⟨packet, payload⟩ := by
    intro u s hs
    rw [AList.lookup_insert] at hs
    exact (Option.some.inj hs).symm
  have hexpired : (expireStale t packet.timestamp).lookup k = none := by
    rw [expireStale, Table.lookup_keep, hl]
    rfl
  by_cases h : OpensRecord payload
  · by_cases hfull : t.size ≥ kMaxTrackedStreams
    · rw [feedNew_full h hfull]
      refine .ite (fun _ => .ok fun s hs => ?_) fun _ => .ok (hinsert _)
      rw [hexpired] at hs
      cases hs
    · exact .of_eq (feedNew_tracked h (not_le.mp hfull)) (hinsert t)
  · refine .of_eq (feedNew_ignored h t packet) fun s hs => ?_
    rw [hl] at hs
    cases hs

/-- `s'` is `s` with the payload of the segment behind it, or without. -/
def Grows (a : Arrival) (s s' : Stream) : Prop :=
  s'.buffer = s.buffer ∧ s'.nextSeq = s.nextSeq ∨
    s'.buffer = s.buffer ++ a.payload ∧ s'.nextSeq = s.nextSeq + BitVec.ofNat 32 a.payload.length

/-- A stream kept is the one held. -/
theorem feed_keeps (hp : a.packet.protocol = "TCP") (hne : a.payload ≠ []) (hl : t.lookup (keyOf a.packet) = some s) :
    Safe (feedArrival t a) fun r => ∀ s', r.2.lookup (keyOf a.packet) = some s' → Grows a s s' := by
  have hinsert : ∀ s₀ s', (t.insert (keyOf a.packet) s₀).lookup (keyOf a.packet) = some s' → s₀ = s' := by
    intro s₀ s' hs
    rw [AList.lookup_insert] at hs
    exact Option.some.inj hs
  have hgone : ∀ s', (t.erase (keyOf a.packet)).lookup (keyOf a.packet) ≠ some s' := by
    intro s'
    rw [AList.lookup_erase]
    exact (Option.some_ne_none _).symm
  by_cases hseq : a.packet.tcpSeq = s.nextSeq
  · by_cases hfit : s.buffer.length + a.payload.length ≤ kMaxBufferedBytes
    · by_cases hopen : s.buffer.length + a.payload.length < s.needed
      · refine .of_eq (feed_continued hp hne hl hseq hfit hopen) fun s' hs => ?_
        obtain rfl := hinsert _ _ hs
        exact .inr ⟨rfl, rfl⟩
      · refine (feed_completed hp hne hl hseq hfit (not_lt.mp hopen)).mono fun r hr s' hs => ?_
        rw [hr.1] at hs
        exact absurd hs (hgone s')
    · exact .of_eq (feed_overfull hp hne hl hseq (not_le.mp hfit)) fun s' hs => absurd hs (hgone s')
  · by_cases hend : a.packet.tcpSeq + BitVec.ofNat 32 a.payload.length = s.nextSeq
    · refine .of_eq (feed_repeat hp hne hl hseq hend) fun s' hs => ?_
      obtain rfl := hinsert _ _ hs
      exact .inl ⟨rfl, rfl⟩
    · exact .of_eq (feed_astray hp hne hl hseq hend) fun s' hs => absurd hs (hgone s')

/-- What a segment leaves of its own stream was opened by it, or was held before. -/
theorem feed_leaves (t : Streams) (a : Arrival) :
    Safe (feedArrival t a) fun r => ∀ s, r.2.lookup (keyOf a.packet) = some s →
      t.lookup (keyOf a.packet) = none ∧ s = opening a ∨
        ∃ s₀, t.lookup (keyOf a.packet) = some s₀ ∧ Grows a s₀ s := by
  by_cases hseg : a.packet.protocol ≠ "TCP" ∨ a.payload = []
  · exact .of_eq (feedArrival_idle hseg) fun s hs => .inr ⟨s, hs, .inl ⟨rfl, rfl⟩⟩
  · obtain ⟨hp, hne⟩ := not_or.mp hseg
    cases hl : t.lookup (keyOf a.packet) with
    | none =>
      rw [feedArrival_eq (not_not.mp hp) hne, hl]
      exact (feedNew_leaves hl).mono fun r hr s hs => .inl ⟨rfl, hr s hs⟩
    | some s₀ => exact (feed_keeps (not_not.mp hp) hne hl).mono fun r hr s hs => .inr ⟨s₀, rfl, hr s hs⟩

/-! ### Runs -/

theorem sound_empty : Sound ∅ := ⟨fun k s hs => by simp at hs, Nat.zero_le _⟩

theorem step_sound (t : Streams) (e : Event) (h : Sound t) : Safe (step t e) Sound := by
  cases e with
  | feed a => exact (feed_sound h a).map fun r hr => hr
  | clear => exact .ok sound_empty

/-- What an event leaves: nothing, or a stream the segment opened, or one held before. -/
theorem step_leaves {e : Event} {t' : Streams} (hstep : step t e = .ok t') (hs : t'.lookup k = some s) :
    (∃ a, e = .feed a ∧ keyOf a.packet = k ∧ t.lookup k = none ∧ s = opening a) ∨
      ∃ a s₀, t.lookup k = some s₀ ∧ Grows a s₀ s := by
  cases e with
  | clear =>
    obtain rfl := Except.ok.inj hstep
    rw [clear, AList.lookup_empty] at hs
    cases hs
  | feed a =>
    obtain ⟨r, hr, hspares⟩ := feed_spares t a.packet a.payload
    have hfeed : feedArrival t a = .ok r := hr
    rw [step, hfeed, map_ok] at hstep
    obtain rfl := Except.ok.inj hstep
    by_cases hk : keyOf a.packet = k
    · subst hk
      rcases (feed_leaves t a).elim hfeed s hs with ⟨hnone, rfl⟩ | ⟨s₀, hs₀, hgrows⟩
      · exact .inl ⟨a, rfl, rfl, hnone, rfl⟩
      · exact .inr ⟨a, s₀, hs₀, hgrows⟩
    · rcases hspares k (Ne.symm hk) with hsame | ⟨hgone, -⟩
      · exact .inr ⟨a, s, hsame.symm.trans hs, .inl ⟨rfl, rfl⟩⟩
      · rw [hgone] at hs
        cases hs

/-- The stream of `k` goes on from the segment that opened it, the first of its life. -/
def Follows (k : StreamKey) (life : List Event) (s : Stream) : Prop :=
  ∃ first rest, life = .feed first :: rest ∧ keyOf first.packet = k ∧ first.payload <+: s.buffer ∧
    s.nextSeq = first.packet.tcpSeq + BitVec.ofNat 32 s.buffer.length

theorem Follows.grows {life : List Event} {s' : Stream} (h : Follows k life s) (hs : Grows a s s') (e : Event) :
    Follows k (life ++ [e]) s' := by
  obtain ⟨first, rest, rfl, hk, hopens, hseq⟩ := h
  refine ⟨first, rest ++ [e], rfl, hk, ?_⟩
  rcases hs with ⟨hbuffer, hnext⟩ | ⟨hbuffer, hnext⟩
  · rw [hbuffer, hnext]
    exact ⟨hopens, hseq⟩
  · rw [hbuffer, hnext, hseq]
    exact ⟨hopens.trans (List.prefix_append _ _), by rw [List.length_append, BitVec.ofNat_add, BitVec.add_assoc]⟩

theorem lives_follows {events life : List Event} (h : Lives step k events life s) : Follows k life s := by
  refine h.rule ?_ ?_
  · intro _ t e t' s _ hnone hstep hs
    rcases step_leaves hstep hs with ⟨a, rfl, hk, -, rfl⟩ | ⟨_, s₀, hs₀, -⟩
    · exact ⟨a, [], rfl, hk, List.prefix_refl _, rfl⟩
    · rw [hnone] at hs₀
      cases hs₀
  · intro _ t life s e t' s' _ hl hfollows hstep hs
    rcases step_leaves hstep hs with ⟨_, -, -, hnone, -⟩ | ⟨_, s₀, hs₀, hgrows⟩
    · rw [hnone] at hl
      cases hl
    · obtain rfl := Option.some.inj (hs₀.symm.trans hl)
      exact hfollows.grows hgrows e

end

/-- **Whatever is fed and cleared**, a tracked stream is the open start of the
record its first segment opened, not too many are tracked, and a segment leaves
every other stream alone, but for idle ones that a full table gives up. -/
theorem reachable_streams (events : List Event) :
    Safe (run step events) fun t =>
      t.size ≤ kMaxTrackedStreams ∧
      (∀ k s, t.lookup k = some s → ∃ first rest, Lives step k events (.feed first :: rest) s ∧ Tracked k first s) ∧
      ∀ a, Safe (feedArrival t a) fun r => Spares (keyOf a.packet) a.packet.timestamp t r.2 := by
  obtain ⟨t, hrun, hsound⟩ := safe_run sound_empty step_sound events
  refine ⟨t, hrun, hsound.size, fun k s hs => ?_, fun a => feed_spares t a.packet a.payload⟩
  obtain ⟨life, hlife, -⟩ := existsUnique_lives hrun hs
  obtain ⟨first, rest, rfl, hk, hopens, hseq⟩ := lives_follows hlife
  have hopened := hsound.opened k s hs
  refine ⟨first, rest, hlife, hk, hopens, hopened.record.looks, hopened.needed, hopened.record.length_ge, ?_, ?_, hseq⟩
  · rw [hopened.needed]
    exact hopened.record.unfinished
  · rw [hopened.needed]
    exact hopened.record.limit

end TlsReassembler
end NetProbe
