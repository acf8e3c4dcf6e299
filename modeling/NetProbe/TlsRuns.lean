/-
# Whole handshakes through the TlsReassembler

A run of the reassembler over segments of many TCP streams. For one stream that
carries a handshake record in sequence, the reassembler holds exactly the bytes
sent so far (`feedAll_holds`), however the record is cut, repeated or
interleaved with other streams, and names the host on the segment that completes
the record.

Key definitions: `Arrival`, `feedAll`, `Sends`, `Handshake`.
Key theorems: `parseTlsClientHello_append`, `feed_frame`, `feedAll_holds`,
`feed_names_host`.
-/
import NetProbe.Lifetimes
import NetProbe.ParserSafety
import NetProbe.Reassembly
import Mathlib.Data.List.Induction

namespace NetProbe

open Checked Bytes

namespace ProtocolParser

/-! ### A record and what follows it -/

theorem nameListLoop_extends (payload post : Bytes) (stop : ℕ) : ∀ {fuel fuel' pos : ℕ}, fuel ≤ fuel' →
    Extends (nameListLoop payload stop fuel pos) (nameListLoop (payload ++ post) stop fuel' pos) := by
  intro fuel
  induction fuel with
  | zero => intro fuel' pos _ a h; cases h
  | succ fuel ih =>
    intro fuel' pos hf
    obtain ⟨fuel', rfl⟩ : ∃ n, fuel' = n + 1 := ⟨fuel' - 1, by omega⟩
    refine (Extends.refl _).bind fun left => .ite (.refl _) ?_
    refine readU8_extends.bind fun nameType => readU16_extends.bind fun nameLength => ?_
    refine (Extends.refl _).bind fun left' => .ite (.refl _) (.ite ?_ (ih (by omega)))
    exact window_extends.bind fun name => .refl _

theorem extensionLoop_extends (payload post : Bytes) (stop : ℕ) : ∀ {fuel fuel' pos : ℕ}, fuel ≤ fuel' →
    Extends (extensionLoop payload stop fuel pos) (extensionLoop (payload ++ post) stop fuel' pos) := by
  intro fuel
  induction fuel with
  | zero => intro fuel' pos _ a h; cases h
  | succ fuel ih =>
    intro fuel' pos hf
    obtain ⟨fuel', rfl⟩ : ∃ n, fuel' = n + 1 := ⟨fuel' - 1, by omega⟩
    refine (Extends.refl _).bind fun left => .ite (.refl _) ?_
    refine readU16_extends.bind fun type => readU16_extends.bind fun length => ?_
    refine (Extends.refl _).bind fun left' => .ite (.refl _) (.ite ?_ (ih (by omega)))
    refine (Extends.refl _).bind fun room => .ite (.refl _) ?_
    refine readU16_extends.bind fun listLength => (Extends.refl _).bind fun room' => .ite (.refl _) ?_
    exact nameListLoop_extends payload post _ (by simp)

theorem looksLikeTlsHandshake_append {payload : Bytes} (post : Bytes) (h : 5 ≤ payload.length) :
    looksLikeTlsHandshake (payload ++ post) = looksLikeTlsHandshake payload := by
  refine Extends.eq_of_safe ?_ (looksLikeTlsHandshake_safe payload)
  unfold looksLikeTlsHandshake
  rw [if_neg (by omega), if_neg (by simp only [List.length_append]; omega)]
  refine readU8_extends.bind fun type => readU8_extends.bind fun major => ?_
  exact readU8_extends.bind fun minor => .refl _

/-- The walk of a ClientHello does not leave its record. -/
theorem parseTlsClientHello_append {record : Bytes} (post : Bytes) (h : record.length = 5 + u16 record 3) :
    parseTlsClientHello (record ++ post) = parseTlsClientHello record := by
  have hrec : readU16 (record ++ post) 3 = .ok (u16 record 3) ∧ readU16 record 3 = .ok (u16 record 3) := by
    have hr := readU16_eq (b := record) (i := 3) (by omega)
    exact ⟨readU16_extends _ hr, hr⟩
  refine Extends.eq_of_safe ?_ (parseTlsClientHello_safe record)
  unfold parseTlsClientHello
  rw [looksLikeTlsHandshake_append post (by omega), hrec.1, hrec.2]
  refine (Extends.refl _).bind fun looks => .ite (.refl _) ?_
  simp only [ok_bind]
  have hfit : ¬ 5 + u16 record 3 > record.length := by omega
  have hfit' : ¬ 5 + u16 record 3 > (record ++ post).length := by rw [List.length_append]; omega
  rw [if_neg hfit, if_neg hfit']
  refine .ite (.refl _) (readU8_extends.bind fun type => .ite (.refl _) ?_)
  refine readU8_extends.bind fun l0 => readU8_extends.bind fun l1 => readU8_extends.bind fun l2 => ?_
  refine .ite (.refl _) (.ite (.refl _) (.ite (.refl _) (readU8_extends.bind fun sidLength => ?_)))
  refine (Extends.refl _).bind fun left1 => .ite (.refl _) ((Extends.refl _).bind fun left2 => .ite (.refl _) ?_)
  refine readU16_extends.bind fun csLength => (Extends.refl _).bind fun left3 => .ite (.refl _) ?_
  refine .ite (.refl _) (readU8_extends.bind fun cmLength => (Extends.refl _).bind fun left4 => ?_)
  refine .ite (.refl _) ((Extends.refl _).bind fun left5 => .ite (.refl _) ?_)
  refine readU16_extends.bind fun extLength => (Extends.refl _).bind fun left6 => .ite (.refl _) ?_
  exact extensionLoop_extends record post _ (by simp)

end ProtocolParser

namespace TlsReassembler

open ProtocolParser

/-! ### Runs -/

/-- One TCP payload and what was parsed of its packet. -/
structure Arrival where
  packet : ParsedPacket
  payload : Bytes

/-- The stream of a packet. -/
def keyOf (packet : ParsedPacket) : StreamKey :=
  ⟨packet.srcIP, packet.dstIP, packet.srcPort, packet.dstPort⟩

def feedArrival (t : Streams) (a : Arrival) : Checked (Option String × Streams) := feed t a.packet a.payload

/-- The answers to a run of arrivals, and the streams held after it. -/
def feedAll (t : Streams) (run : List Arrival) : Checked (List (Option String) × Streams) :=
  run.foldlM (fun s a => do
    let (r, t) ← feedArrival s.2 a
    return (s.1 ++ [r], t)) ([], t)

/-- When a run last brought a segment of the stream `k`. -/
def lastSeenOf (k : StreamKey) (run : List Arrival) : Option ℤ :=
  ((run.filter fun a => keyOf a.packet = k).getLast?).map (·.packet.timestamp)

/-- A stream can be admitted at `now`. -/
def HasRoom (t : Streams) (now : ℤ) : Prop :=
  t.size < kMaxTrackedStreams ∨ (expireStale t now).size < kMaxTrackedStreams

/-- The arrival is a segment of the stream `k` whose payload starts `sent` bytes
behind `seq`. -/
structure SegmentAt (k : StreamKey) (seq : BitVec 32) (sent : ℕ) (a : Arrival) : Prop where
  key : keyOf a.packet = k
  protocol : a.packet.protocol = "TCP"
  tcpSeq : a.packet.tcpSeq = seq + BitVec.ofNat 32 sent

/-- The run sends `payloads` in sequence over the stream `k`, each as often as
it likes before the next, among segments of other streams. -/
inductive Sends (k : StreamKey) (seq : BitVec 32) : List Arrival → List Bytes → Prop
  | start : Sends k seq [] []
  | other {run payloads a} (h : Sends k seq run payloads) (hk : keyOf a.packet ≠ k) :
    Sends k seq (run ++ [a]) payloads
  | next {run payloads a} (h : Sends k seq run payloads) (ha : SegmentAt k seq payloads.flatten.length a)
    (hne : a.payload ≠ []) : Sends k seq (run ++ [a]) (payloads ++ [a.payload])
  | again {run payloads a} (h : Sends k seq run (payloads ++ [a.payload]))
    (ha : SegmentAt k seq payloads.flatten.length a) : Sends k seq (run ++ [a]) (payloads ++ [a.payload])

/-- A handshake record: as long as its header declares, within the limit. -/
structure Handshake (record : Bytes) : Prop where
  declared : record.length = 5 + u16 record 3
  limit : record.length ≤ kMaxBufferedBytes

/-- From `t` the run finds room for the stream `k` when its first segment
arrives, and no arrival finds the stream idle too long. -/
structure Timely (k : StreamKey) (t : Streams) (run : List Arrival) : Prop where
  admitted : ∀ before a, before ++ [a] <+: run → lastSeenOf k before = none → keyOf a.packet = k →
    ∀ outs t', feedAll t before = .ok (outs, t') → HasRoom t' a.packet.timestamp
  punctual : ∀ before a, before ++ [a] <+: run → ∀ seen, lastSeenOf k before = some seen →
    a.packet.timestamp - seen ≤ kStreamTimeoutMicroseconds

section Lemmas

variable {t : Streams} {k : StreamKey}

theorem feedAll_concat (run : List Arrival) (a : Arrival) :
    feedAll t (run ++ [a]) = do
      let (outs, t) ← feedAll t run
      let (r, t) ← feedArrival t a
      return (outs ++ [r], t) := by
  unfold feedAll
  rw [List.foldlM_append]
  refine bind_congr fun s => ?_
  rw [List.foldlM_cons]
  simp only [List.foldlM_nil, bind_pure]

theorem lastSeenOf_concat_self {run : List Arrival} {a : Arrival} (h : keyOf a.packet = k) :
    lastSeenOf k (run ++ [a]) = some a.packet.timestamp := by
  simp [lastSeenOf, List.filter_append, h]

theorem lastSeenOf_concat_ne {run : List Arrival} {a : Arrival} (h : keyOf a.packet ≠ k) :
    lastSeenOf k (run ++ [a]) = lastSeenOf k run := by
  simp [lastSeenOf, List.filter_append, h]

theorem Timely.nil : Timely k t [] :=
  ⟨fun before a hb => by simp at hb, fun before a hb => by simp at hb⟩

theorem Timely.concat {run : List Arrival} {a : Arrival} (h : Timely k t run)
    (hroom : lastSeenOf k run = none → keyOf a.packet = k →
      ∀ outs t', feedAll t run = .ok (outs, t') → HasRoom t' a.packet.timestamp)
    (htime : ∀ seen, lastSeenOf k run = some seen → a.packet.timestamp - seen ≤ kStreamTimeoutMicroseconds) :
    Timely k t (run ++ [a]) := by
  constructor
  · intro before x hb
    rcases List.prefix_concat_iff.mp hb with heq | hb
    · obtain ⟨rfl, hx⟩ := List.append_inj' heq rfl
      obtain rfl := List.singleton_inj.mp hx
      exact hroom
    · exact h.admitted before x hb
  · intro before x hb
    rcases List.prefix_concat_iff.mp hb with heq | hb
    · obtain ⟨rfl, hx⟩ := List.append_inj' heq rfl
      obtain rfl := List.singleton_inj.mp hx
      exact htime
    · exact h.punctual before x hb

theorem Timely.of_prefix {run run' : List Arrival} (h : Timely k t run) (hp : run' <+: run) : Timely k t run' :=
  ⟨fun before a hb => h.admitted before a (hb.trans hp), fun before a hb => h.punctual before a (hb.trans hp)⟩

/-- A stream is seen as soon as it has sent something. -/
theorem Sends.lastSeenOf_eq_none {seq : BitVec 32} {run : List Arrival} {payloads : List Bytes}
    (h : Sends k seq run payloads) : lastSeenOf k run = none ↔ payloads = [] := by
  induction h with
  | start => simp [lastSeenOf]
  | other _ hk ih => rw [lastSeenOf_concat_ne hk, ih]
  | next _ ha => simp [lastSeenOf_concat_self ha.key]
  | again _ ha => simp [lastSeenOf_concat_self ha.key]

end Lemmas

/-! ### What a segment leaves alone -/

/-- `t'` holds what `t` holds of every stream but `k` that has not been idle too
long at `now`. -/
def Frame (k : StreamKey) (now : ℤ) (t t' : Streams) : Prop :=
  ∀ k', k' ≠ k → (∀ s, t.lookup k' = some s → now - s.lastSeen ≤ kStreamTimeoutMicroseconds) →
    t'.lookup k' = t.lookup k'

/-- Of every stream but `k`, `t'` holds what `t` holds, but for streams idle too
long at `now` that a full table gives up. -/
def Spares (k : StreamKey) (now : ℤ) (t t' : Streams) : Prop :=
  ∀ k', k' ≠ k → Lifetime.Spared (t.size ≥ kMaxTrackedStreams)
    (fun s => now - s.lastSeen > kStreamTimeoutMicroseconds) t t' k'

theorem Spares.frame {k : StreamKey} {now : ℤ} {t t' : Streams} (h : Spares k now t t') : Frame k now t t' :=
  fun k' hk hidle => (h k' hk).lookup_eq fun s hs => not_lt.mpr (hidle s hs)

theorem spares_self {k : StreamKey} {now : ℤ} {t : Streams} : Spares k now t t := fun _ _ => .refl

theorem Spares.insert {k : StreamKey} {now : ℤ} {t u : Streams} (h : Spares k now t u) (s : Stream) :
    Spares k now t (u.insert k s) := fun k' hk => (h k' hk).insert hk s

theorem spares_erase {k : StreamKey} {now : ℤ} {t : Streams} : Spares k now t (t.erase k) :=
  fun _ hk => Lifetime.Spared.refl.erase hk

theorem spares_expireStale {k : StreamKey} {now : ℤ} {t : Streams} (hfull : t.size ≥ kMaxTrackedStreams) :
    Spares k now t (expireStale t now) := fun _ _ => .keep hfull _ fun _ hs => not_not.mp (of_decide_eq_false hs)

theorem feedNew_spares (t : Streams) (packet : ParsedPacket) (payload : Bytes) :
    Safe (feedNew t (keyOf packet) packet payload) fun r => Spares (keyOf packet) packet.timestamp t r.2 := by
  refine (looksLikeTlsHandshake_safe payload).bind fun looks hlooks => .guard spares_self fun hl => ?_
  have h5 := hlooks (not_not.mp hl)
  refine (safe_readU8 (by omega)).bind fun high _ => (safe_readU8 (by omega)).bind fun low _ => ?_
  refine .guard spares_self fun _ => .guard spares_self fun _ => ?_
  refine .ite (fun hfull => ?_) fun _ => .ok (spares_self.insert _)
  exact .guard (spares_expireStale hfull) fun _ => .ok ((spares_expireStale hfull).insert _)

theorem feedExisting_spares (t : Streams) (stream : Stream) (packet : ParsedPacket) (payload : Bytes) :
    Safe (feedExisting t (keyOf packet) stream packet payload)
      fun r => Spares (keyOf packet) packet.timestamp t r.2 := by
  refine .ite (fun _ => .guard (spares_self.insert _) fun _ => .ok spares_erase) fun _ => ?_
  refine .guard spares_erase fun _ => .guard (spares_self.insert _) fun _ => ?_
  refine (parseTlsClientHello_safe _).bind fun sni _ => ?_
  cases sni <;> exact .ok spares_erase

/-- A segment is always answered, and spares the other streams. -/
theorem feed_spares (t : Streams) (packet : ParsedPacket) (payload : Bytes) :
    Safe (feed t packet payload) fun r => Spares (keyOf packet) packet.timestamp t r.2 := by
  refine .guard spares_self fun _ => ?_
  dsimp only
  split
  · exact feedNew_spares t packet payload
  · exact feedExisting_spares t _ packet payload

theorem feed_frame (t : Streams) (packet : ParsedPacket) (payload : Bytes) :
    Safe (feed t packet payload) fun r => Frame (keyOf packet) packet.timestamp t r.2 :=
  (feed_spares t packet payload).mono fun _ h => h.frame

/-! ### Segments of one stream -/

section Stream

variable {t : Streams} {k : StreamKey} {seq : BitVec 32} {record : Bytes} {payloads : List Bytes} {a : Arrival}
  {seen : ℤ} {n : ℕ} {s : String}

/-- What is held of a stream that has sent `payloads` of `record`. -/
def held (record : Bytes) (seq : BitVec 32) (payloads : List Bytes) (seen : ℤ) : Stream where
  buffer := payloads.flatten
  nextSeq := seq + BitVec.ofNat 32 payloads.flatten.length
  needed := record.length
  lastSeen := seen

theorem held_concat (p : Bytes) : held record seq (payloads ++ [p]) seen =
    ⟨payloads.flatten ++ p, seq + BitVec.ofNat 32 payloads.flatten.length + BitVec.ofNat 32 p.length,
      record.length, seen⟩ := by
  simp only [held, List.flatten_append, List.flatten_singleton, List.length_append, BitVec.ofNat_add,
    BitVec.add_assoc]

theorem feedArrival_eq (hp : a.packet.protocol = "TCP") (hne : a.payload ≠ []) : feedArrival t a =
    match t.lookup (keyOf a.packet) with
    | none => feedNew t (keyOf a.packet) a.packet a.payload
    | some stream => feedExisting t (keyOf a.packet) stream a.packet a.payload := by
  unfold feedArrival feed
  rw [if_neg (by simp [hp, hne])]
  rfl

theorem feed_own (ha : SegmentAt k seq n a) (hne : a.payload ≠ []) : feedArrival t a =
    match t.lookup k with
    | none => feedNew t k a.packet a.payload
    | some stream => feedExisting t k stream a.packet a.payload := by
  rw [← ha.key]
  exact feedArrival_eq ha.protocol hne

/-- The segment that opens the record is kept. -/
theorem feed_first (hrecord : Handshake record) (hlooks : looksLikeTlsHandshake record = .ok true)
    (ha : SegmentAt k seq 0 a) (h5 : 5 ≤ a.payload.length) (hpre : a.payload <+: record)
    (hlt : a.payload.length < record.length) (hl : t.lookup k = none) (hroom : HasRoom t a.packet.timestamp) :
    ∃ t', feedArrival t a = .ok (none, t') ∧
      t'.lookup k = some (held record seq [a.payload] a.packet.timestamp) := by
  obtain ⟨rest, hrest⟩ := hpre
  have hne : a.payload ≠ [] := List.ne_nil_of_length_pos (by omega)
  have hstart : looksLikeTlsHandshake a.payload = .ok true := by
    rw [← looksLikeTlsHandshake_append rest h5, hrest, hlooks]
  have hneeded : 5 + (u8 a.payload 3 <<< 8 ||| u8 a.payload 4) = record.length := by
    rw [shiftLeft_or (u8_lt a.payload 4), hrecord.declared, u16, ← hrest, u8_append_left (by omega),
      u8_append_left (by omega)]
    rfl
  have hlimit := hrecord.limit
  have hstream : held record seq [a.payload] a.packet.timestamp =
      ⟨a.payload, a.packet.tcpSeq + BitVec.ofNat 32 a.payload.length, record.length, a.packet.timestamp⟩ := by
    rw [ha.tcpSeq]
    simp [held]
  have hnew : ∀ u : Streams, (u.insert k (held record seq [a.payload] a.packet.timestamp)).lookup k =
      some (held record seq [a.payload] a.packet.timestamp) := fun u => AList.lookup_insert u
  rw [feed_own ha hne, hl]
  dsimp only
  unfold feedNew
  rw [hstart, readU8_eq (by omega), readU8_eq (by omega)]
  simp only [ok_bind, hneeded, not_true_eq_false, if_false, if_neg (show ¬ record.length ≤ a.payload.length by omega),
    if_neg (show ¬ record.length > kMaxBufferedBytes by omega), ← hstream]
  by_cases hfull : t.size ≥ kMaxTrackedStreams
  · have hroom' : (expireStale t a.packet.timestamp).size < kMaxTrackedStreams := hroom.resolve_left (by omega)
    rw [if_pos hfull, if_neg (by omega)]
    exact ⟨_, rfl, hnew _⟩
  · rw [if_neg hfull]
    exact ⟨_, rfl, hnew _⟩

/-- A segment in sequence that leaves the record open is kept. -/
theorem feed_next (hlimit : record.length ≤ kMaxBufferedBytes) (ha : SegmentAt k seq payloads.flatten.length a)
    (hne : a.payload ≠ []) (hopen : payloads.flatten.length + a.payload.length < record.length)
    (hl : t.lookup k = some (held record seq payloads seen)) :
    feedArrival t a = .ok (none, t.insert k (held record seq (payloads ++ [a.payload]) a.packet.timestamp)) := by
  have hseq : ¬ a.packet.tcpSeq ≠ seq + BitVec.ofNat 32 payloads.flatten.length := not_not.mpr ha.tcpSeq
  rw [feed_own ha hne, hl, held_concat]
  dsimp only [held]
  unfold feedExisting
  dsimp only
  rw [if_neg hseq, if_neg (by omega), if_pos (by rw [List.length_append]; exact hopen)]
  rfl

/-- A repeat of the segment held last is ignored. -/
theorem feed_again (hp : a.payload.length < 2 ^ 32) (ha : SegmentAt k seq payloads.flatten.length a)
    (hne : a.payload ≠ []) (hl : t.lookup k = some (held record seq (payloads ++ [a.payload]) seen)) :
    feedArrival t a = .ok (none, t.insert k (held record seq (payloads ++ [a.payload]) a.packet.timestamp)) := by
  have hmoved : a.packet.tcpSeq ≠ a.packet.tcpSeq + BitVec.ofNat 32 a.payload.length := by
    intro h
    have h0 : BitVec.ofNat 32 a.payload.length = 0#32 := by simpa using h.symm
    have hlen := congrArg BitVec.toNat h0
    rw [BitVec.toNat_ofNat, Nat.mod_eq_of_lt hp] at hlen
    exact hne (List.eq_nil_of_length_eq_zero hlen)
  rw [feed_own ha hne, hl, held_concat, held_concat, ← ha.tcpSeq]
  dsimp only
  unfold feedExisting
  dsimp only
  rw [if_pos hmoved, if_pos rfl]
  rfl

/-- The segment that completes the record names the host. -/
theorem feed_last (hrecord : Handshake record) (hs : parseTlsClientHello record = .ok (some s)) (hname : s ≠ "")
    (ha : SegmentAt k seq payloads.flatten.length a) (hopen : payloads.flatten.length < record.length)
    (hpre : record <+: payloads.flatten ++ a.payload)
    (hlimit : payloads.flatten.length + a.payload.length ≤ kMaxBufferedBytes)
    (hl : t.lookup k = some (held record seq payloads seen)) :
    feedArrival t a = .ok (some s, t.erase k) := by
  have hlen := hpre.length_le
  rw [List.length_append] at hlen
  have hne : a.payload ≠ [] := List.ne_nil_of_length_pos (by omega)
  obtain ⟨post, hpost⟩ := hpre
  have hparse : parseTlsClientHello (payloads.flatten ++ a.payload) = .ok (some s) := by
    rw [← hpost, parseTlsClientHello_append post hrecord.declared, hs]
  have hseq : ¬ a.packet.tcpSeq ≠ seq + BitVec.ofNat 32 payloads.flatten.length := not_not.mpr ha.tcpSeq
  rw [feed_own ha hne, hl]
  dsimp only [held]
  unfold feedExisting
  dsimp only
  rw [if_neg hseq, if_neg (by omega), if_neg (by rw [List.length_append]; omega), hparse]
  simp only [ok_bind, ne_eq, hname, not_false_eq_true, if_true, pure_eq]

end Stream

/-! ### The run as a whole -/

section Run

variable {t₀ t : Streams} {k : StreamKey} {seq : BitVec 32} {record : Bytes} {payloads : List Bytes}
  {run : List Arrival} {a : Arrival} {outs : List (Option String)} {r : Option String} {s : String}

theorem Sends.ne_nil (h : Sends k seq run payloads) : ∀ p ∈ payloads, p ≠ [] := by
  induction h with
  | start => simp
  | other _ _ ih => exact ih
  | next _ _ hne ih =>
    intro p hp
    rcases List.mem_append.mp hp with hp | hp
    · exact ih p hp
    · rw [List.mem_singleton.mp hp]
      exact hne
  | again _ _ ih => exact ih

/-- After `run` the reassembler holds what `k` has sent of `record`, and has
answered none of its segments. -/
structure Holds (k : StreamKey) (seq : BitVec 32) (record : Bytes) (t₀ : Streams) (run : List Arrival)
    (payloads : List Bytes) (outs : List (Option String)) (t : Streams) : Prop where
  fed : feedAll t₀ run = .ok (outs, t)
  length : outs.length = run.length
  stream : t.lookup k = (lastSeenOf k run).map (held record seq payloads)
  silent : ∀ x ∈ run.zip outs, keyOf x.1.packet = k → x.2 = none

theorem Holds.concat {payloads' : List Bytes} {t' : Streams} (h : Holds k seq record t₀ run payloads outs t)
    (hfeed : feedArrival t a = .ok (r, t')) (hr : keyOf a.packet = k → r = none)
    (hstream : t'.lookup k = (lastSeenOf k (run ++ [a])).map (held record seq payloads')) :
    Holds k seq record t₀ (run ++ [a]) payloads' (outs ++ [r]) t' where
  fed := by
    rw [feedAll_concat, h.fed, ok_bind]
    dsimp only
    rw [hfeed]
    rfl
  length := by rw [List.length_append, List.length_append, h.length]; rfl
  stream := hstream
  silent := by
    intro x hx hkey
    rw [List.zip_append h.length.symm, List.mem_append] at hx
    rcases hx with hx | hx
    · exact h.silent x hx hkey
    · obtain rfl := List.mem_singleton.mp hx
      exact hr hkey

/-- While the record is open, the reassembler holds what the stream has sent. -/
theorem feedAll_holds (hrecord : Handshake record) (hlooks : looksLikeTlsHandshake record = .ok true)
    (hk : t₀.lookup k = none) (hs : Sends k seq run payloads) (ht : Timely k t₀ run)
    (h5 : ∀ p ∈ payloads.head?, 5 ≤ p.length) (hpre : payloads.flatten <+: record)
    (hopen : payloads.flatten.length < record.length) :
    ∃ outs t, Holds k seq record t₀ run payloads outs t := by
  induction hs with
  | start => exact ⟨[], t₀, rfl, rfl, hk, by simp⟩
  | @other run payloads a hs hka ih =>
    obtain ⟨outs, t, h⟩ := ih (ht.of_prefix ⟨_, rfl⟩) h5 hpre hopen
    obtain ⟨⟨r, t'⟩, hfeed, hframe⟩ := feed_frame t a.packet a.payload
    have hidle : ∀ s, t.lookup k = some s → a.packet.timestamp - s.lastSeen ≤ kStreamTimeoutMicroseconds := by
      intro s hl
      rw [h.stream] at hl
      obtain ⟨seen, hseen, rfl⟩ := Option.map_eq_some_iff.mp hl
      exact ht.punctual run a (List.prefix_refl _) seen hseen
    refine ⟨_, _, h.concat hfeed (fun hkey => (hka hkey).elim) ?_⟩
    rw [hframe k (Ne.symm hka) hidle, h.stream, lastSeenOf_concat_ne hka]
  | @next run payloads a hs ha hne ih =>
    rw [List.flatten_append, List.flatten_singleton] at hpre
    rw [List.flatten_append, List.flatten_singleton, List.length_append] at hopen
    have h5' : ∀ p ∈ payloads.head?, 5 ≤ p.length := fun p hp => h5 p (by
      rw [List.head?_append, Option.mem_def.mp hp]
      rfl)
    obtain ⟨outs, t, h⟩ := ih (ht.of_prefix ⟨_, rfl⟩) h5' ((List.prefix_append _ _).trans hpre) (by omega)
    cases hseen : lastSeenOf k run with
    | none =>
      obtain rfl := hs.lastSeenOf_eq_none.mp hseen
      have hroom := ht.admitted run a (List.prefix_refl _) hseen ha.key outs t h.fed
      have hl : t.lookup k = none := by rw [h.stream, hseen]; rfl
      obtain ⟨t', hfeed, hl'⟩ := feed_first hrecord hlooks ha (h5 _ rfl) hpre (by simpa using hopen) hl hroom
      refine ⟨_, t', h.concat hfeed (fun _ => rfl) ?_⟩
      rw [hl', lastSeenOf_concat_self ha.key]
      rfl
    | some seen =>
      have hl : t.lookup k = some (held record seq payloads seen) := by rw [h.stream, hseen]; rfl
      refine ⟨_, _, h.concat (feed_next hrecord.limit ha hne hopen hl) (fun _ => rfl) ?_⟩
      rw [AList.lookup_insert, lastSeenOf_concat_self ha.key]
      rfl
  | @again run payloads a hs ha ih =>
    obtain ⟨outs, t, h⟩ := ih (ht.of_prefix ⟨_, rfl⟩) h5 hpre hopen
    have hne : a.payload ≠ [] := hs.ne_nil _ (List.mem_append_right _ (List.mem_singleton_self _))
    have hlen : a.payload.length < 2 ^ 32 := by
      have hlimit := hrecord.limit
      rw [List.flatten_append, List.flatten_singleton, List.length_append] at hopen
      have : kMaxBufferedBytes < 2 ^ 32 := by decide
      omega
    cases hseen : lastSeenOf k run with
    | none => simpa using hs.lastSeenOf_eq_none.mp hseen
    | some seen =>
      have hl : t.lookup k = some (held record seq (payloads ++ [a.payload]) seen) := by rw [h.stream, hseen]; rfl
      refine ⟨_, _, h.concat (feed_again hlen ha hne hl) (fun _ => rfl) ?_⟩
      rw [AList.lookup_insert, lastSeenOf_concat_self ha.key]
      rfl

/-- `feed` says nothing on a segment before the one that completes the record,
names the host on that one, and then forgets the stream. -/
theorem feed_names_host (hrecord : Handshake record) (hparse : parseTlsClientHello record = .ok (some s))
    (hname : s ≠ "") (hk : t₀.lookup k = none) (hs : Sends k seq run payloads)
    (ht : Timely k t₀ (run ++ [a])) (hne : payloads ≠ []) (h5 : ∀ p ∈ payloads.head?, 5 ≤ p.length)
    (hopen : payloads.flatten.length < record.length) (ha : SegmentAt k seq payloads.flatten.length a)
    (hpre : record <+: payloads.flatten ++ a.payload)
    (hlimit : payloads.flatten.length + a.payload.length ≤ kMaxBufferedBytes) :
    ∃ outs t t', feedAll t₀ run = .ok (outs, t) ∧ outs.length = run.length ∧
      (∀ x ∈ run.zip outs, keyOf x.1.packet = k → x.2 = none) ∧
      feedArrival t a = .ok (some s, t') ∧ t'.lookup k = none := by
  have hlooks : looksLikeTlsHandshake record = .ok true := by
    obtain ⟨looks, hlooks, -⟩ := looksLikeTlsHandshake_safe record
    cases looks with
    | true => exact hlooks
    | false =>
      unfold parseTlsClientHello at hparse
      rw [hlooks] at hparse
      cases hparse
  have hheld : payloads.flatten <+: record :=
    List.prefix_of_prefix_length_le (List.prefix_append _ _) hpre (Nat.le_of_lt hopen)
  obtain ⟨outs, t, h⟩ := feedAll_holds hrecord hlooks hk hs (ht.of_prefix ⟨_, rfl⟩) h5 hheld hopen
  cases hseen : lastSeenOf k run with
  | none => exact (hne (hs.lastSeenOf_eq_none.mp hseen)).elim
  | some seen =>
    have hl : t.lookup k = some (held record seq payloads seen) := by rw [h.stream, hseen]; rfl
    exact ⟨outs, t, _, h.fed, h.length, h.silent, feed_last hrecord hparse hname ha hopen hpre hlimit hl,
      AList.lookup_erase _ _⟩

end Run

/-- A handshake record with a ClientHello for the host a.io. -/
def recordForAIo : Bytes :=
  [0x16, 0x03, 0x01, 0x00, 0x3c, 0x01, 0x00, 0x00, 0x38, 0x03, 0x03] ++ List.replicate 32 0x5a ++
    [0x00, 0x00, 0x02, 0x13, 0x01, 0x01, 0x00, 0x00, 0x0d, 0x00, 0x00, 0x00, 0x09, 0x00, 0x07, 0x00,
      0x00, 0x04, 0x61, 0x2e, 0x69, 0x6f]

/-- A segment from `srcPort` of a client. -/
def clientSegment (srcPort : ℕ) (tcpSeq : BitVec 32) (timestamp : ℤ) (payload : Bytes) : Arrival where
  packet := { srcIP := "10.0.0.2", dstIP := "10.0.0.1", protocol := "TCP", srcPort, dstPort := 443, tcpSeq, timestamp }
  payload := payload

/-- The start of the record twice, with another stream in between; the sequence
numbers wrap. -/
def openingRun : List Arrival :=
  [clientSegment 50000 0xfffffff0#32 0 (recordForAIo.take 40), clientSegment 50001 7#32 5 (recordForAIo.take 10),
    clientSegment 50000 0xfffffff0#32 9 (recordForAIo.take 40)]

theorem openingRun_sends :
    Sends ⟨"10.0.0.2", "10.0.0.1", 50000, 443⟩ 0xfffffff0#32 openingRun [recordForAIo.take 40] := by
  have h0 : Sends ⟨"10.0.0.2", "10.0.0.1", 50000, 443⟩ 0xfffffff0#32 [] [] := .start
  have h1 := h0.next (a := clientSegment 50000 0xfffffff0#32 0 (recordForAIo.take 40)) ⟨rfl, rfl, rfl⟩ (by decide)
  have h2 := h1.other (a := clientSegment 50001 7#32 5 (recordForAIo.take 10)) (by decide)
  exact h2.again (a := clientSegment 50000 0xfffffff0#32 9 (recordForAIo.take 40)) ⟨rfl, rfl, rfl⟩

/-- The segment that completes the record, with the start of the next one. -/
def closingSegment : Arrival := clientSegment 50000 24#32 12 (recordForAIo.drop 40 ++ [0x16, 0x03])

theorem openingRun_timely : Timely ⟨"10.0.0.2", "10.0.0.1", 50000, 443⟩ ∅ (openingRun ++ [closingSegment]) := by
  have hseen : ∀ {run now seen}, lastSeenOf ⟨"10.0.0.2", "10.0.0.1", 50000, 443⟩ run = some now →
      lastSeenOf ⟨"10.0.0.2", "10.0.0.1", 50000, 443⟩ run = some seen → seen = now :=
    fun h h' => Option.some.inj (h'.symm.trans h)
  have h1 := Timely.nil.concat (k := ⟨"10.0.0.2", "10.0.0.1", 50000, 443⟩) (t := ∅)
    (a := clientSegment 50000 0xfffffff0#32 0 (recordForAIo.take 40))
    (by
      intro _ _ outs t' hfed
      obtain ⟨-, rfl⟩ := Prod.mk.inj (Except.ok.inj hfed)
      exact .inl (by decide))
    (fun _ h => nomatch h)
  have h2 := h1.concat (a := clientSegment 50001 7#32 5 (recordForAIo.take 10)) (fun h => nomatch h)
    fun seen h => by rw [hseen rfl h]; decide
  have h3 := h2.concat (a := clientSegment 50000 0xfffffff0#32 9 (recordForAIo.take 40)) (fun h => nomatch h)
    fun seen h => by rw [hseen rfl h]; decide
  exact h3.concat (fun h => nomatch h) fun seen h => by rw [hseen rfl h]; decide

theorem feed_names_host_openingRun :
    ∃ outs t t', feedAll ∅ openingRun = .ok (outs, t) ∧ outs.length = 3 ∧
      (∀ x ∈ openingRun.zip outs, keyOf x.1.packet = ⟨"10.0.0.2", "10.0.0.1", 50000, 443⟩ → x.2 = none) ∧
      feedArrival t closingSegment = .ok (some "a.io", t') ∧
      t'.lookup ⟨"10.0.0.2", "10.0.0.1", 50000, 443⟩ = none :=
  have hrecord : Handshake recordForAIo := ⟨by decide, by decide⟩
  feed_names_host hrecord (by decide) (by decide) rfl openingRun_sends
    openingRun_timely (by decide) (by decide) (by decide) ⟨rfl, rfl, by decide⟩ (by decide) (by decide)

/-- A reassembler with one free place: 2047 streams have sent the start of a
record. -/
def crowd : Streams where
  entries := (List.range 2047).map fun n =>
    ⟨⟨"10.0.0.2", "10.0.0.1", n, 443⟩, ⟨recordForAIo.take 10, 17#32, 65, 0⟩⟩
  nodupKeys := by
    rw [List.NodupKeys, List.keys, List.map_map]
    exact List.nodup_range.map_on fun m _ n _ h => (StreamKey.mk.inj h).2.2.1

/-- Another stream takes the last place before the record arrives in two
segments. -/
def crowdedRun : List Arrival :=
  [clientSegment 50001 7#32 1000000 (recordForAIo.take 10),
    clientSegment 50000 0xfffffff0#32 2000000 (recordForAIo.take 40),
    clientSegment 50000 24#32 3000000 (recordForAIo.drop 40)]

theorem crowdedRun_sends : Sends ⟨"10.0.0.2", "10.0.0.1", 50000, 443⟩ 0xfffffff0#32 crowdedRun
    [recordForAIo.take 40, recordForAIo.drop 40] := by
  have h0 : Sends ⟨"10.0.0.2", "10.0.0.1", 50000, 443⟩ 0xfffffff0#32 [] [] := .start
  have h1 := h0.other (a := clientSegment 50001 7#32 1000000 (recordForAIo.take 10)) (by decide)
  have h2 := h1.next (a := clientSegment 50000 0xfffffff0#32 2000000 (recordForAIo.take 40)) ⟨rfl, rfl, rfl⟩
    (by decide)
  exact h2.next (a := clientSegment 50000 24#32 3000000 (recordForAIo.drop 40)) ⟨rfl, rfl, by decide⟩ (by decide)

/-- A stream of a whole record, never idle, is never answered when another takes
the last place before its first segment. -/
theorem feed_names_host_crowded :
    Handshake recordForAIo ∧ parseTlsClientHello recordForAIo = .ok (some "a.io") ∧
      crowd.lookup ⟨"10.0.0.2", "10.0.0.1", 50000, 443⟩ = none ∧ crowd.size < kMaxTrackedStreams ∧
      Sends ⟨"10.0.0.2", "10.0.0.1", 50000, 443⟩ 0xfffffff0#32 crowdedRun
        [recordForAIo.take 40, recordForAIo.drop 40] ∧
      (∀ a ∈ crowdedRun, ∀ b ∈ crowdedRun, b.packet.timestamp - a.packet.timestamp ≤ kStreamTimeoutMicroseconds) ∧
      (feedAll crowd crowdedRun).map (·.1) = .ok [none, none, none] :=
  ⟨⟨by decide, by decide⟩, by decide, by decide +kernel, by decide +kernel, crowdedRun_sends, by decide,
    by decide +kernel⟩

end TlsReassembler
end NetProbe
