/-
# Runs of AnalysisSession

`feed` never faults on a session the program can reach, so every sequence of
packets has a run. A run is at the same time a run of the flow aggregator: the
packets as analysed, one update each, with the hostnames learned from DNS in
between (`feedAll_safe`).

Key definitions: `Arrival`, `feedAll`, `Analyses`, `flowOf`.
Key theorems: `feed_safe`, `feedAll_safe`, `flowOf_observe`.
-/
import Mathlib.Data.List.Find
import NetProbe.AnalysisSession
import NetProbe.DnsSafety
import NetProbe.FlowRuns
import NetProbe.ParserSafety
import NetProbe.QuicRuns
import NetProbe.TlsRuns

namespace NetProbe

open Checked Bytes Wire

namespace AnalysisSession

open ProtocolParser FlowAggregator

/-! ### One packet -/

/-- `q` is `p`, or `p` with a name recovered for it. -/
def Recovers (p q : ParsedPacket) : Prop :=
  q = p ∨ p.sni = "" ∧ ∃ sni, sni ≠ "" ∧ q = applyRecovered (some sni) p

theorem recovers_applyRecovered {p : ParsedPacket} (h : p.sni = "") (recovered : Option String) :
    Recovers p (applyRecovered recovered p) := by
  cases recovered with
  | none => exact .inl rfl
  | some sni =>
    by_cases hs : sni = ""
    · subst hs
      exact .inl rfl
    · exact .inr ⟨h, sni, hs, rfl⟩

/-- A QUIC payload is always answered. -/
theorem quicFeed_safe (m : Mbedtls) {tracker : QuicTracker.Tracker} (ht : QuicTracker.Aligned tracker)
    {payload : Bytes} (hl : payload.length < 2 ^ 63) (now : ℤ) :
    Safe (QuicTracker.feed (QuicParser.parseInitial m) tracker payload now)
      fun r => QuicTracker.Aligned r.2 := by
  refine ((QuicParser.parseInitial_safe hl m).and fun initial hp => hp).bind fun initial hi => ?_
  cases initial with
  | none => exact .ok ht
  | some initial =>
    obtain ⟨r, t, h, hal, -⟩ :=
      QuicTracker.feedInitial_frame ht (QuicParser.parseInitial_addressable hi.2) now
    exact .of_eq h hal

theorem recoverSni_safe (sys : Platform) (packet : PacketData) (parsed : ParsedPacket) {s : Session}
    (hs : QuicTracker.Aligned s.quicTracker) :
    Safe (recoverSni sys packet parsed s) fun r => Recovers parsed r.1 ∧
      QuicTracker.Aligned r.2.quicTracker ∧ r.2.flowAggregator = s.flowAggregator ∧
      r.2.hostnameCache = s.hostnameCache := by
  have hnothing : Recovers parsed parsed ∧ QuicTracker.Aligned s.quicTracker ∧
      s.flowAggregator = s.flowAggregator ∧ s.hostnameCache = s.hostnameCache := ⟨.inl rfl, hs, rfl, rfl⟩
  refine .ite (fun hp => ?_) fun _ => .ok hnothing
  have hfits := packet.fits
  refine (safe_sub (by omega)).bind fun room hroom => (safe_window (by omega)).bind fun payload hpay => ?_
  refine .ite (fun _ => ?_) fun _ => .ite (fun _ => ?_) fun _ => .ok hnothing
  · refine (TlsReassembler.feed_frame _ _ _).bind fun r _ => .ok ?_
    exact ⟨recovers_applyRecovered hp.1 r.1, hs, rfl, rfl⟩
  · refine (QuicParser.looksLikeLongHeader_safe payload).bind fun looks _ =>
      .ite (fun _ => ?_) fun _ => .ok hnothing
    refine (quicFeed_safe sys.mbedtls hs (by omega) _).bind fun r hr => .ok ?_
    exact ⟨recovers_applyRecovered hp.1 r.1, hr, rfl, rfl⟩

/-- What a DNS response leaves in the flow table are hostnames. -/
theorem learnResponse_calls (sys : Platform) (response : DNSParser.DNSResponse) (s : Session) :
    (learnResponse sys response s).quicTracker = s.quicTracker ∧ ∃ calls, updatesOf calls = [] ∧
      (learnResponse sys response s).flowAggregator = run s.flowAggregator calls := by
  have hanswer : ∀ s answer, (learnAnswer sys response.queryName s answer).quicTracker = s.quicTracker ∧
      ∃ calls, updatesOf calls = [] ∧
        (learnAnswer sys response.queryName s answer).flowAggregator = run s.flowAggregator calls := by
    intro s answer
    have hlearn : ∀ ip hostname, (learnHostname ip hostname s).quicTracker = s.quicTracker ∧
        ∃ calls, updatesOf calls = [] ∧
          (learnHostname ip hostname s).flowAggregator = run s.flowAggregator calls :=
      fun ip hostname => ⟨rfl, [.setHostnameForAddress ip hostname], rfl, rfl⟩
    unfold learnAnswer
    split
    · exact hlearn _ _
    · exact hlearn _ _
    · split
      · exact hlearn _ _
      · exact ⟨rfl, [], rfl, rfl⟩
    · exact ⟨rfl, [], rfl, rfl⟩
  have hanswers : ∀ (answers : List DNSParser.DNSRecord) (s : Session),
      (answers.foldl (learnAnswer sys response.queryName) s).quicTracker = s.quicTracker ∧
      ∃ calls, updatesOf calls = [] ∧
        (answers.foldl (learnAnswer sys response.queryName) s).flowAggregator = run s.flowAggregator calls := by
    intro answers
    induction answers with
    | nil => exact fun s => ⟨rfl, [], rfl, rfl⟩
    | cons answer answers ih =>
      intro s
      obtain ⟨hq, calls, hu, hf⟩ := hanswer s answer
      obtain ⟨hq', calls', hu', hf'⟩ := ih (learnAnswer sys response.queryName s answer)
      refine ⟨hq'.trans hq, calls ++ calls', ?_, ?_⟩
      · rw [updatesOf, List.filterMap_append]
        exact congrArg₂ _ hu hu'
      · rw [run_append, ← hf]
        exact hf'
  exact hanswers response.answers _

/-- What `feed` reports of a packet: what `parse` finds, with a name recovered. -/
def Analyses (sys : Platform) (packet : PacketData) (result : Result) : Prop :=
  ∃ parsed, parse sys packet = .ok parsed ∧ Recovers parsed result.parsed

/-- A packet is always analysed, and is one update of the flow table. -/
theorem feed_safe (sys : Platform) {s : Session} (hs : QuicTracker.Aligned s.quicTracker) (packet : PacketData)
    (lookupProcess : ParsedPacket → String) :
    Safe (feed sys s packet lookupProcess) fun r => Analyses sys packet r.1 ∧
      QuicTracker.Aligned r.2.quicTracker ∧ ∃ calls, updatesOf calls = [r.1.parsed] ∧
        r.2.flowAggregator = run s.flowAggregator calls := by
  refine ((parse_fits sys packet).and fun parsed hp => hp).bind fun parsed hp => ?_
  refine (recoverSni_safe sys packet parsed hs).bind fun r hr => ?_
  obtain ⟨q, t⟩ := r
  obtain ⟨hrec, hal, hflows, -⟩ := hr
  dsimp only at hrec hal hflows ⊢
  refine .bind (P := fun u => u.quicTracker = t.quicTracker ∧ ∃ calls, updatesOf calls = [] ∧
    u.flowAggregator = run t.flowAggregator calls) ?_ fun u hu => ?_
  · refine (DNSParser.parseResponse_safe sys packet q).bind fun response _ => ?_
    cases response with
    | none => exact .ok ⟨rfl, [], rfl, rfl⟩
    | some response => exact .ok (learnResponse_calls sys response t)
  · obtain ⟨hq, calls, hupdates, hu⟩ := hu
    have hcount : (countEncryptedDns q u).quicTracker = u.quicTracker ∧
        (countEncryptedDns q u).flowAggregator = u.flowAggregator := by
      unfold countEncryptedDns
      split
      · exact ⟨rfl, rfl⟩
      · exact ⟨rfl, rfl⟩
    refine .ok ⟨⟨parsed, hp.2, hrec⟩, ?_, calls ++ [.update q (attributeHostname q (countEncryptedDns q u))
      (lookupProcess q)], ?_, ?_⟩
    · show QuicTracker.Aligned (countEncryptedDns q u).quicTracker
      rw [hcount.1, hq]
      exact hal
    · rw [updatesOf, List.filterMap_append]
      exact congrArg (· ++ [q]) hupdates
    · rw [run_concat, ← hflows, ← hu, ← hcount.2]
      rfl

/-! ### Runs -/

/-- A packet on its way to the session, and the process resolver at the time. -/
structure Arrival where
  packet : PacketData
  lookupProcess : ParsedPacket → String

/-- Every packet fed in turn: the results, and the session afterwards. -/
def feedAll (sys : Platform) : Session → List Arrival → Checked (List Result × Session)
  | s, [] => .ok ([], s)
  | s, a :: arrivals => do
    let (result, s) ← feed sys s a.packet a.lookupProcess
    let (results, s) ← feedAll sys s arrivals
    return (result :: results, s)

/-- A run that stops early has the same results up to there. -/
theorem feedAll_take {sys : Platform} : ∀ {arrivals : List Arrival} {s s' : Session} {results : List Result},
    feedAll sys s arrivals = .ok (results, s') →
      ∀ n, ∃ t, feedAll sys s (arrivals.take n) = .ok (results.take n, t)
  | [], s, s', results, h, n => by
    cases h
    exact ⟨s, by simp [feedAll]⟩
  | a :: arrivals, s, s', results, h, n => by
    obtain ⟨⟨result, u⟩, hfeed, h⟩ := bind_eq_ok.mp h
    obtain ⟨⟨rest, t⟩, hrest, h⟩ := bind_eq_ok.mp h
    cases h
    cases n with
    | zero => exact ⟨s, rfl⟩
    | succ n =>
      obtain ⟨t', ht⟩ := feedAll_take hrest n
      exact ⟨t', by simp only [List.take_succ_cons, feedAll, hfeed, ht, ok_bind, pure_eq]⟩

/-- **Every run ends**, analyses each packet, and is a run of the flow
aggregator on the packets as analysed. -/
theorem feedAll_safe (sys : Platform) : ∀ (arrivals : List Arrival) {s : Session},
    QuicTracker.Aligned s.quicTracker → Safe (feedAll sys s arrivals) fun r =>
      List.Forall₂ (fun a result => Analyses sys a.packet result) arrivals r.1 ∧
        QuicTracker.Aligned r.2.quicTracker ∧ ∃ calls, updatesOf calls = r.1.map (·.parsed) ∧
          r.2.flowAggregator = run s.flowAggregator calls := by
  intro arrivals
  induction arrivals with
  | nil => exact fun hs => .ok ⟨.nil, hs, [], rfl, rfl⟩
  | cons a arrivals ih =>
    intro s hs
    refine (feed_safe sys hs a.packet a.lookupProcess).bind fun r hr => ?_
    obtain ⟨hr, hal, calls, hupdates, hflows⟩ := hr
    refine (ih hal).bind fun r' hr' => ?_
    obtain ⟨hr', hal', calls', hupdates', hflows'⟩ := hr'
    refine .ok ⟨.cons hr hr', hal', calls ++ calls', ?_, ?_⟩
    · rw [updatesOf, List.filterMap_append]
      exact congrArg₂ _ hupdates hupdates'
    · rw [run_append, ← hflows]
      exact hflows'

/-- The flow `flows` reports under the key `k`. -/
def flowOf (s : Session) (nowMicroseconds : ℤ) (k : FlowKey) : Option Flow :=
  (flows s nowMicroseconds).find? fun flow => flow.key = k

/-- What `flows` shows of a flow after a run from the start of the program. -/
theorem flowOf_observe {α β : Type} {observe : FlowState → α} {step : ParsedPacket → Bool → α → α}
    (h : Observes observe step) (shown : Flow → β) (view : α → β)
    (hview : ∀ now state, shown (report now state) = view (observe state)) {sys : Platform}
    {arrivals : List Arrival} {results : List Result} {s : Session}
    (hrun : feedAll sys {} arrivals = .ok (results, s)) (now : ℤ) (k : FlowKey) :
    (flowOf s now k).map shown =
      ((results.map (·.parsed)).foldl (credit k (fun t => observe (newState k t)) step) none).map view := by
  obtain ⟨r, hr, -, -, calls, hupdates, hflows⟩ := feedAll_safe sys arrivals (s := {}) QuicTracker.aligned_empty
  obtain rfl : r = (results, s) := Except.ok.inj (hr.symm.trans hrun)
  have hs : s.flowAggregator = run ∅ calls := hflows
  rw [flowOf, flows, hs, ← hupdates]
  exact reported_observe h shown view hview calls now k

/-! ### A connection

A client's frames to a web server, for runs on fixed input. -/

namespace Web

/-- The platform, with the addresses of the connection. -/
def sys : Platform where
  inetNtop4 b :=
    if b = [192, 168, 1, 10] then "192.168.1.10"
    else if b = [93, 184, 216, 34] then "93.184.216.34"
    else ""
  inetNtop6 _ := "::"
  mbedtls := ⟨fun _ _ => none, fun _ _ _ => none, fun _ _ => none, fun _ _ _ _ _ => none⟩

/-- An Ethernet frame with the client's segment `payload` at sequence number `seq`. -/
def frame (seq : ℕ) (payload : Bytes) : Bytes :=
  [0x02, 0, 0, 0, 0, 2, 0x02, 0, 0, 0, 0, 1] ++ be16 kEthIPv4
    ++ [0x45, 0] ++ be16 (40 + payload.length) ++ [0, 0, 0, 0, 64, 6, 0, 0]
    ++ [192, 168, 1, 10] ++ [93, 184, 216, 34]
    ++ be16 50000 ++ be16 80 ++ be32 seq ++ be32 1 ++ [0x50, 0x10] ++ be16 64240
    ++ [0, 0, 0, 0] ++ payload

/-- The first `capturedLength` bytes of a frame. -/
def arrival (frame : Bytes) (capturedLength : ℕ) (fits : (frame.take capturedLength).length < 2 ^ 63) :
    Arrival where
  packet := { timestamp := 0, length := frame.length, capturedLength, payload := frame.take capturedLength, fits }
  lookupProcess _ := ""

def key : FlowKey := ⟨"192.168.1.10", "93.184.216.34", 50000, 80, "TCP"⟩

end Web

end AnalysisSession
end NetProbe
