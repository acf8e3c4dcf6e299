/-
# Where the hostname of a flow comes from

No hostname is made up. Over every run of the session a server name was in the
packet it is reported for, or is spelled by TCP segments or QUIC Initials of
packets up to it (`feedAll_sourced`); so the hostname that `flows` reports is the
Host header or the server name of a packet of the flow, or was told by a DNS
answer for one of its two addresses (`flows_hostname_sourced`).

Key definitions: `segmentOf`, `initialOf`, `Named`, `NameSource`.
Key theorems: `feed_sourced`, `feedAll_sourced`, `flows_hostname_sourced`.
-/
import Mathlib.Algebra.Order.BigOperators.Group.List
import NetProbe.AnswerOrder
import NetProbe.FlowTraffic
import NetProbe.NameSources

namespace NetProbe
namespace AnalysisSession

open Checked Bytes Wire Lifetime ProtocolParser FlowAggregator

/-! ### What a packet brings the reassemblers -/

/-- The payload in which a server name is looked for, when the packet has none of its own. -/
def unnamedPayload (packet : PacketData) (parsed : ParsedPacket) : Option Bytes :=
  if parsed.sni = "" ∧ parsed.payloadLength > 0 ∧ parsed.payloadOffset < packet.payload.length then
    some (slice packet.payload parsed.payloadOffset
      (min parsed.payloadLength (packet.payload.length - parsed.payloadOffset)))
  else none

/-- The segment that a TCP packet brings. -/
def segmentOf (sys : Platform) (packet : PacketData) : Option TlsReassembler.Arrival :=
  match parse sys packet with
  | .ok parsed =>
    if parsed.protocol = "TCP" then (unnamedPayload packet parsed).map fun payload => ⟨parsed, payload⟩ else none
  | .error _ => none

/-- The Initial in a UDP payload. -/
def initialIn (m : Mbedtls) (payload : Bytes) : Option QuicParser.InitialPacket :=
  match QuicParser.looksLikeLongHeader payload, QuicParser.parseInitial m payload with
  | .ok true, .ok initial => initial
  | _, _ => none

/-- The Initial that a UDP packet brings. -/
def initialOf (sys : Platform) (packet : PacketData) : Option QuicParser.InitialPacket :=
  match parse sys packet with
  | .ok parsed => if parsed.protocol = "UDP" then (unnamedPayload packet parsed).bind (initialIn sys.mbedtls) else none
  | .error _ => none

/-- The packet, after those of the history, gives the server name `h`. -/
inductive Named (sys : Platform) (history : List PacketData) (packet : PacketData) (h : String) : Prop
  | own {parsed} (hparse : parse sys packet = .ok parsed) (hsni : parsed.sni = h)
  | segments {part last} (hpart : part.Sublist (history.filterMap (segmentOf sys)))
    (hlast : segmentOf sys packet = some last)
    (hspelled : TlsReassembler.Spelled (TlsReassembler.keyOf last.packet) (part ++ [last]) h)
  | initials {part last} (hpart : part.Sublist (history.filterMap (initialOf sys)))
    (hlast : initialOf sys packet = some last)
    (hspelled : QuicTracker.Spelled last.destinationConnectionId (part ++ [last]) h)

/-- What the reassemblers hold is made of the packets of the history. -/
structure Sourced (sys : Platform) (history : List PacketData) (s : Session) : Prop where
  streams : TlsReassembler.Sound s.tlsReassembler
  segments : Backed TlsReassembler.Gathered (history.filterMap (segmentOf sys)) s.tlsReassembler
  connections : QuicTracker.Sound s.quicTracker
  initials : Backed QuicTracker.Gathered (history.filterMap (initialOf sys)) s.quicTracker

theorem sourced_empty (sys : Platform) : Sourced sys [] {} :=
  ⟨TlsReassembler.sound_empty, backed_empty, QuicTracker.sound_empty, backed_empty⟩

section Step

variable {sys : Platform} {history : List PacketData} {packet : PacketData} {parsed : ParsedPacket} {s t : Session}

/-- A packet that brings neither reassembler anything. -/
theorem Sourced.skip (h : Sourced sys history s) (hs : segmentOf sys packet = none) (hi : initialOf sys packet = none) :
    Sourced sys (history ++ [packet]) s := by
  refine ⟨h.streams, ?_, h.connections, ?_⟩
  · rw [List.filterMap_append, List.filterMap_cons_none hs, List.filterMap_nil, List.append_nil]
    exact h.segments
  · rw [List.filterMap_append, List.filterMap_cons_none hi, List.filterMap_nil, List.append_nil]
    exact h.initials

theorem Sourced.of_eq (h : Sourced sys history s) (hstreams : t.tlsReassembler = s.tlsReassembler)
    (hconnections : t.quicTracker = s.quicTracker) : Sourced sys history t := by
  obtain ⟨h₁, h₂, h₃, h₄⟩ := h
  rw [← hstreams] at h₁ h₂
  rw [← hconnections] at h₃ h₄
  exact ⟨h₁, h₂, h₃, h₄⟩

/-- The name of a packet with what was recovered for it. -/
theorem sni_applyRecovered (recovered : Option String) (hne : (applyRecovered recovered parsed).sni ≠ "") :
    recovered = some (applyRecovered recovered parsed).sni ∨ (applyRecovered recovered parsed).sni = parsed.sni := by
  cases recovered with
  | none => exact .inr rfl
  | some sni =>
    by_cases hs : sni = ""
    · exact .inr (by rw [applyRecovered, if_pos hs])
    · exact .inl (by rw [applyRecovered, if_neg hs])

theorem recoverSni_sourced (h : Sourced sys history s) (hparse : parse sys packet = .ok parsed) :
    Safe (recoverSni sys packet parsed s) fun r => Sourced sys (history ++ [packet]) r.2 ∧
      (r.1.sni ≠ "" → Named sys history packet r.1.sni) := by
  have hfits := packet.fits
  unfold recoverSni
  by_cases hp : parsed.sni = "" ∧ parsed.payloadLength > 0 ∧ parsed.payloadOffset < packet.payload.length
  swap
  · have hnone : unnamedPayload packet parsed = none := if_neg hp
    rw [if_neg hp]
    refine .ok ⟨h.skip ?_ ?_, fun _ => .own hparse rfl⟩
    · simp [segmentOf, hparse, hnone]
    · simp [initialOf, hparse, hnone]
  rw [if_pos hp]
  have hpayload : unnamedPayload packet parsed = some (slice packet.payload parsed.payloadOffset
      (min parsed.payloadLength (packet.payload.length - parsed.payloadOffset))) := if_pos hp
  rw [sub_eq (by omega), ok_bind, window_eq (by omega), ok_bind]
  have hlen : (slice packet.payload parsed.payloadOffset
      (min parsed.payloadLength (packet.payload.length - parsed.payloadOffset))).length < 2 ^ 63 := by
    rw [length_slice _ (by omega)]
    omega
  generalize slice packet.payload parsed.payloadOffset
    (min parsed.payloadLength (packet.payload.length - parsed.payloadOffset)) = payload at hpayload hlen
  by_cases htcp : parsed.protocol = "TCP"
  · have hsegment : segmentOf sys packet = some ⟨parsed, payload⟩ := by simp [segmentOf, hparse, htcp, hpayload]
    have hinitial : initialOf sys packet = none := by simp [initialOf, hparse, htcp]
    rw [if_pos htcp]
    obtain ⟨r, hr, hbacked, hanswer⟩ := TlsReassembler.feed_sourced h.streams h.segments ⟨parsed, payload⟩
    have hsound := (TlsReassembler.feed_sound h.streams ⟨parsed, payload⟩).elim hr
    rw [show TlsReassembler.feed s.tlsReassembler parsed payload = .ok r from hr, ok_bind]
    refine .ok ⟨⟨hsound, ?_, h.connections, ?_⟩, fun hne => ?_⟩
    · rw [List.filterMap_append, List.filterMap_cons_some hsegment]
      exact hbacked
    · rw [List.filterMap_append, List.filterMap_cons_none hinitial, List.filterMap_nil, List.append_nil]
      exact h.initials
    · rcases sni_applyRecovered r.1 hne with hrecovered | hsame
      · obtain ⟨part, hpart, hspelled⟩ := hanswer _ hrecovered
        exact .segments hpart hsegment hspelled
      · exact .own hparse hsame.symm
  · have hsegment : segmentOf sys packet = none := by simp [segmentOf, hparse, htcp]
    rw [if_neg htcp]
    by_cases hudp : parsed.protocol = "UDP"
    swap
    · rw [if_neg hudp]
      exact .ok ⟨h.skip hsegment (by simp [initialOf, hparse, hudp]), fun _ => .own hparse rfl⟩
    rw [if_pos hudp]
    have hinitial : initialOf sys packet = initialIn sys.mbedtls payload := by simp [initialOf, hparse, hudp, hpayload]
    obtain ⟨looks, hlooks, -⟩ := QuicParser.looksLikeLongHeader_safe payload
    obtain ⟨initial, hi, -⟩ := QuicParser.parseInitial_safe hlen sys.mbedtls
    rw [hlooks, ok_bind]
    cases looks with
    | false =>
      refine .ok ⟨h.skip hsegment (by rw [hinitial, initialIn, hlooks]), fun _ => .own hparse rfl⟩
    | true =>
      rw [if_pos rfl, QuicTracker.feed, hi, ok_bind]
      rw [initialIn, hlooks, hi] at hinitial
      cases initial with
      | none => exact .ok ⟨(h.skip hsegment hinitial).of_eq rfl rfl, fun _ => .own hparse rfl⟩
      | some initial =>
        have ha := QuicParser.parseInitial_addressable hi
        obtain ⟨r, hr, hbacked, hanswer⟩ :=
          QuicTracker.feedInitial_sourced h.connections.aligned h.initials ha parsed.timestamp
        have hsound := (QuicTracker.feedParsed_sound h.connections (some ⟨initial, ha⟩) parsed.timestamp).elim hr
        dsimp only
        rw [hr, ok_bind]
        refine .ok ⟨⟨h.streams, ?_, hsound, ?_⟩, fun hne => ?_⟩
        · rw [List.filterMap_append, List.filterMap_cons_none hsegment, List.filterMap_nil, List.append_nil]
          exact h.segments
        · rw [List.filterMap_append, List.filterMap_cons_some hinitial]
          exact hbacked
        · rcases sni_applyRecovered r.1 hne with hrecovered | hsame
          · obtain ⟨part, hpart, hspelled⟩ := hanswer _ hrecovered
            exact .initials hpart hinitial hspelled
          · exact .own hparse hsame.symm

/-- DNS leaves the reassemblers alone. -/
theorem harvestDns_trackers (h : harvestDns sys packet parsed s = .ok t) :
    t.tlsReassembler = s.tlsReassembler ∧ t.quicTracker = s.quicTracker := by
  have hanswer : ∀ queryName answer (s : Session),
      (learnAnswer sys queryName s answer).tlsReassembler = s.tlsReassembler ∧
      (learnAnswer sys queryName s answer).quicTracker = s.quicTracker := by
    intro queryName answer s
    unfold learnAnswer
    split
    · exact ⟨rfl, rfl⟩
    · exact ⟨rfl, rfl⟩
    · split
      · exact ⟨rfl, rfl⟩
      · exact ⟨rfl, rfl⟩
    · exact ⟨rfl, rfl⟩
  have hanswers : ∀ queryName (answers : List DNSParser.DNSRecord) (s : Session),
      (answers.foldl (learnAnswer sys queryName) s).tlsReassembler = s.tlsReassembler ∧
        (answers.foldl (learnAnswer sys queryName) s).quicTracker = s.quicTracker := by
    intro queryName answers
    induction answers with
    | nil => exact fun s => ⟨rfl, rfl⟩
    | cons answer answers ih =>
      intro s
      obtain ⟨htls, hquic⟩ := ih (learnAnswer sys queryName s answer)
      exact ⟨htls.trans (hanswer queryName answer s).1, hquic.trans (hanswer queryName answer s).2⟩
  obtain ⟨response, -, ht⟩ := bind_eq_ok.mp h
  cases response with
  | none =>
    obtain rfl := Except.ok.inj ht
    exact ⟨rfl, rfl⟩
  | some response =>
    obtain rfl := Except.ok.inj ht
    exact hanswers response.queryName response.answers _

/-- **A server name was sent**: in the packet, or in it and packets before it. -/
theorem feed_sourced (h : Sourced sys history s) (packet : PacketData) (lookupProcess : ParsedPacket → String) :
    Safe (feed sys s packet lookupProcess) fun r => Sourced sys (history ++ [packet]) r.2 ∧
      (r.1.parsed.sni ≠ "" → Named sys history packet r.1.parsed.sni) := by
  obtain ⟨r, hr, -⟩ := feed_safe sys h.connections.aligned packet lookupProcess
  refine .of_eq hr ?_
  obtain ⟨parsed, hparse, hr⟩ := bind_eq_ok.mp hr
  obtain ⟨⟨q, u⟩, hrecover, hr⟩ := bind_eq_ok.mp hr
  obtain ⟨v, hharvest, hr⟩ := bind_eq_ok.mp hr
  obtain rfl := Except.ok.inj hr
  obtain ⟨hsourced, hnamed⟩ := (recoverSni_sourced h hparse).elim hrecover
  obtain ⟨htls, hquic⟩ := harvestDns_trackers hharvest
  refine ⟨hsourced.of_eq ?_ ?_, hnamed⟩
  · rw [← htls]
    show (countEncryptedDns q v).tlsReassembler = _
    unfold countEncryptedDns
    split <;> rfl
  · rw [← hquic]
    show (countEncryptedDns q v).quicTracker = _
    unfold countEncryptedDns
    split <;> rfl

end Step

/-! ### Runs -/

/-- **Over every run** what the reassemblers hold is made of the packets so far,
and every server name was sent. -/
theorem feedAll_sourced (sys : Platform) : ∀ (arrivals : List Arrival) {history : List PacketData} {s : Session},
    Sourced sys history s → Safe (feedAll sys s arrivals) fun r =>
      Sourced sys (history ++ arrivals.map (·.packet)) r.2 ∧
        ∀ before a after, arrivals = before ++ a :: after → ∀ result, r.1[before.length]? = some result →
          result.parsed.sni ≠ "" → Named sys (history ++ before.map (·.packet)) a.packet result.parsed.sni := by
  intro arrivals
  induction arrivals with
  | nil =>
    intro history s hs
    refine .ok ⟨by rwa [List.map_nil, List.append_nil], fun before a after he => ?_⟩
    simp at he
  | cons a arrivals ih =>
    intro history s hs
    refine (feed_sourced hs a.packet a.lookupProcess).bind fun r hr => ?_
    refine (ih hr.1).bind fun r' hr' => .ok ⟨?_, fun before b after he result hresult hne => ?_⟩
    · rw [List.map_cons, List.append_cons]
      exact hr'.1
    · cases before with
      | nil =>
        obtain ⟨rfl, -⟩ := List.cons.inj he
        obtain rfl := Option.some.inj hresult
        rw [List.map_nil, List.append_nil]
        exact hr.2 hne
      | cons b' before =>
        obtain ⟨rfl, he'⟩ := List.cons.inj he
        rw [List.map_cons, List.append_cons]
        exact hr'.2 before b after he' result hresult hne

/-- The bytes that the reassemblers keep. -/
def bufferedBytes (s : Session) : ℕ :=
  (s.tlsReassembler.entries.map fun e => e.2.buffer.length).sum +
    (s.quicTracker.entries.map fun e => e.2.stream.length).sum

theorem Sourced.bufferedBytes_le {sys : Platform} {history : List PacketData} {s : Session}
    (h : Sourced sys history s) :
    bufferedBytes s ≤ TlsReassembler.kMaxTrackedStreams * TlsReassembler.kMaxBufferedBytes +
      QuicTracker.kMaxTrackedConnections * QuicTracker.kMaxStreamBytes := by
  refine Nat.add_le_add ?_ ?_
  · have hall : ∀ n ∈ s.tlsReassembler.entries.map fun e => e.2.buffer.length,
        n ≤ TlsReassembler.kMaxBufferedBytes := by
      intro n hn
      obtain ⟨e, he, rfl⟩ := List.mem_map.mp hn
      have hopened := h.streams.opened e.1 e.2 (AList.mem_lookup_iff.mpr he)
      have hopen := hopened.record.unfinished
      have hlimit := hopened.record.limit
      omega
    refine (List.sum_le_card_nsmul _ _ hall).trans ?_
    rw [List.length_map, smul_eq_mul]
    exact Nat.mul_le_mul_right _ h.streams.size
  · have hall : ∀ n ∈ s.quicTracker.entries.map fun e => e.2.stream.length, n ≤ QuicTracker.kMaxStreamBytes := by
      intro n hn
      obtain ⟨e, he, rfl⟩ := List.mem_map.mp hn
      obtain ⟨part, -, hpart, seen, hc⟩ := h.initials e.1 e.2 (AList.mem_lookup_iff.mpr he)
      rw [hc]
      exact (QuicTracker.received_holds hpart.within seen).bounded
    refine (List.sum_le_card_nsmul _ _ hall).trans ?_
    rw [List.length_map, smul_eq_mul]
    exact Nat.mul_le_mul_right _ h.connections.size

/-- **Whatever is captured**, every packet is answered and the reassemblers keep
no more bytes than their limits allow. -/
theorem feedAll_bounded (sys : Platform) (arrivals : List Arrival) : Safe (feedAll sys {} arrivals) fun r =>
    r.1.length = arrivals.length ∧
      bufferedBytes r.2 ≤ TlsReassembler.kMaxTrackedStreams * TlsReassembler.kMaxBufferedBytes +
        QuicTracker.kMaxTrackedConnections * QuicTracker.kMaxStreamBytes := by
  obtain ⟨r, hrun, hall, -⟩ := feedAll_safe sys arrivals (s := {}) QuicTracker.aligned_empty
  obtain ⟨hsourced, -⟩ := (feedAll_sourced sys arrivals (sourced_empty sys)).elim hrun
  exact .of_eq hrun ⟨hall.length_eq.symm, hsourced.bufferedBytes_le⟩

/-- **Every server name was sent**: in its packet, in TCP segments that make up a
record with it, or in Initials of its connection up to it. -/
theorem server_names_sent (sys : Platform) (arrivals : List Arrival) : Safe (feedAll sys {} arrivals) fun r =>
    ∀ before a after, arrivals = before ++ a :: after → ∀ result, r.1[before.length]? = some result →
      result.parsed.sni ≠ "" → Named sys (before.map (·.packet)) a.packet result.parsed.sni :=
  (feedAll_sourced sys arrivals (sourced_empty sys)).mono fun _ h => h.2

/-- The packet gives the flow `k` the name `h`: its own, or one that its answers
tell for an address of the flow. -/
def Gives (sys : Platform) (k : FlowKey) (x : Heard) (h : String) : Prop :=
  keyFor x.2 = some k ∧ Yields x.2 h ∨ ∃ n ∈ toldIn sys x.1 x.2, endpointOf k n.ip = true ∧ n.hostname = h

section Names

variable {sys : Platform} {k : FlowKey} {h : String}

/-- The name told last for an address of the flow is given by a packet of the run. -/
theorem lastTold_given {run : List Heard} {test : String → Bool} (htest : ∀ ip, test ip = true → endpointOf k ip = true)
    (hlast : lastTold test (toldOf sys run) = some h) : ∃ x ∈ run, Gives sys k x h := by
  obtain ⟨n, hn, hip, hname⟩ := lastTold_mem hlast
  obtain ⟨x, hx, hn⟩ := List.mem_flatMap.mp hn
  exact ⟨x, hx, .inr ⟨n, hn, htest n.ip hip, hname⟩⟩

/-- The name of a flow after a run was given it by a packet of the run. -/
theorem namesOf_given {run : List Heard} (hne : h ≠ "") (hname : (namesOf sys k run).flow = some h) :
    ∃ x ∈ run, Gives sys k x h := by
  induction run using List.reverseRecOn with
  | nil => cases hname
  | append_singleton run x ih =>
    have hearlier : (∃ y ∈ run, Gives sys k y h) → ∃ y ∈ run ++ [x], Gives sys k y h :=
      fun ⟨y, hy, hg⟩ => ⟨y, List.mem_append_left _ hy, hg⟩
    have hx : x ∈ run ++ [x] := List.mem_append_right _ List.mem_cons_self
    -- before `x` itself the flow has the name it had, or one that the answers of `x` tell
    have hbefore : ((namesOf sys k run).flow.map ((lastTold (endpointOf k) (toldIn sys x.1 x.2)).getD ·)).getD "" = h →
        ∃ y ∈ run ++ [x], Gives sys k y h := by
      intro hflow
      cases hold : (namesOf sys k run).flow with
      | none =>
        rw [hold] at hflow
        exact absurd hflow.symm hne
      | some name =>
        rw [hold, Option.map_some, Option.getD_some] at hflow
        cases hlast : lastTold (endpointOf k) (toldIn sys x.1 x.2) with
        | none =>
          rw [hlast] at hflow
          exact hearlier (ih (by rw [hold]; exact congrArg some hflow))
        | some told =>
          rw [hlast] at hflow
          obtain ⟨n, hn, hip, hn'⟩ := lastTold_mem hlast
          exact ⟨x, hx, .inr ⟨n, hn, hip, hn'.trans hflow⟩⟩
    rw [namesOf_append, List.foldl_cons, List.foldl_nil] at hname
    simp only [Names.next] at hname
    by_cases hk : keyFor x.2 = some k
    · rw [if_pos hk, Option.some_inj] at hname
      unfold nameAfter at hname
      by_cases hs : x.2.sni ≠ ""
      · rw [if_pos hs] at hname
        exact ⟨x, hx, .inl ⟨hk, hne, .inl hname⟩⟩
      by_cases hh : x.2.hostname ≠ ""
      · rw [if_neg hs, if_pos hh] at hname
        exact ⟨x, hx, .inl ⟨hk, hne, .inr hname⟩⟩
      rw [if_neg hs, if_neg hh, namesOf_told, ← toldOf_concat] at hname
      have hend : ∀ ip, x.2.dstIP = ip ∨ x.2.srcIP = ip → endpointOf k ip = true := fun ip hip => by
        rw [endpointOf_packet hk]
        exact decide_eq_true hip
      cases hdst : lastTold (fun ip => decide (ip = x.2.dstIP)) (toldOf sys (run ++ [x])) with
      | some name =>
        rw [hdst] at hname
        obtain rfl : name = h := hname
        exact lastTold_given (fun ip hip => hend ip (.inl (of_decide_eq_true hip).symm)) hdst
      | none =>
        cases hsrc : lastTold (fun ip => decide (ip = x.2.srcIP)) (toldOf sys (run ++ [x])) with
        | some name =>
          rw [hdst, hsrc] at hname
          obtain rfl : name = h := hname
          exact lastTold_given (fun ip hip => hend ip (.inr (of_decide_eq_true hip).symm)) hsrc
        | none =>
          rw [hdst, hsrc] at hname
          exact hbefore hname
    · rw [if_neg hk] at hname
      exact hbefore (by rw [hname, Option.getD_some])

end Names

/-- Of the packets, one gives the name `h` to the flow `k`: as Host header or
server name of a packet of the flow, or in a DNS answer for an address of it. -/
inductive NameSource (sys : Platform) (packets : List PacketData) (k : FlowKey) (h : String) : Prop
  | host {packet parsed} (hmem : packet ∈ packets) (hparse : parse sys packet = .ok parsed)
    (hkey : keyFor parsed = some k) (hhost : parsed.hostname = h)
  | serverName {before packet after parsed} (hsplit : packets = before ++ packet :: after)
    (hparse : parse sys packet = .ok parsed) (hkey : keyFor parsed = some k) (hnamed : Named sys before packet h)
  | answer {packet parsed n} (hmem : packet ∈ packets) (hparse : parse sys packet = .ok parsed)
    (htold : n ∈ toldIn sys packet parsed) (haddress : n.ip = k.dstIP ∨ n.ip = k.srcIP) (hname : n.hostname = h)

section Flows

variable {sys : Platform} {p q : ParsedPacket}

/-- A name recovered changes neither the flow of a packet nor its answers. -/
theorem Recovers.frame (h : Recovers p q) : ∃ sni service, q = { p with sni, service } := by
  rcases h with rfl | ⟨-, sni, hs, rfl⟩
  · exact ⟨q.sni, q.service, rfl⟩
  · exact ⟨sni, _, if_neg hs⟩

/-- A packet of the run, with its place and what it was analysed as. -/
theorem heard_split {x : Heard} : ∀ {arrivals : List Arrival} {results : List Result}, x ∈ heard arrivals results →
    ∃ before a after result, arrivals = before ++ a :: after ∧ results[before.length]? = some result ∧
      x = (a.packet, result.parsed)
  | [], _, h => by simp [heard] at h
  | _ :: _, [], h => by simp [heard] at h
  | a :: arrivals, r :: results, h => by
    rcases List.mem_cons.mp h with rfl | h
    · exact ⟨[], a, arrivals, r, rfl, rfl, rfl⟩
    · obtain ⟨before, b, after, result, rfl, hresult, hx⟩ := heard_split h
      exact ⟨a :: before, b, after, result, rfl, hresult, hx⟩

/-- **No hostname is made up**: every hostname that `flows` reports was given to
its flow by a packet of the run. -/
theorem flows_hostname_sourced (sys : Platform) (arrivals : List Arrival) :
    Safe (feedAll sys {} arrivals) fun r => ∀ now, ∀ flow ∈ flows r.2 now, flow.hostname ≠ "" →
      NameSource sys (arrivals.map (·.packet)) flow.key flow.hostname := by
  obtain ⟨⟨results, s⟩, hrun, hall, -, calls, -, hflows⟩ :=
    feedAll_safe sys arrivals (s := {}) QuicTracker.aligned_empty
  obtain ⟨-, hsourced⟩ := (feedAll_sourced sys arrivals (sourced_empty sys)).elim hrun
  refine .of_eq hrun fun now flow hflow hne => ?_
  have hfiled : Filed s.flowAggregator := by
    rw [show s.flowAggregator = run ∅ calls from hflows]
    exact filed_run filed_empty calls
  have hname : (namesOf sys flow.key (heard arrivals results)).flow = some flow.hostname := by
    have hreported := reported_of_mem hfiled hflow
    rw [reported_eq hfiled, Option.map_eq_some_iff] at hreported
    obtain ⟨state, hstate, hshown⟩ := hreported
    rw [← (feedAll_names QuicTracker.aligned_empty (knows_empty flow.key) hrun).flow, hostnameOf, hstate]
    show some (report now state).hostname = some flow.hostname
    rw [hshown]
  obtain ⟨x, hx, hgives⟩ := namesOf_given hne hname
  obtain ⟨before, a, after, result, rfl, hresult, rfl⟩ := heard_split hx
  have hlen : before.length < results.length := (List.getElem?_eq_some_iff.mp hresult).1
  obtain ⟨parsed, hparse, hrecovers⟩ : Analyses sys a.packet result := by
    have hget := (List.forall₂_iff_get.mp hall).2 before.length (by simp) hlen
    rw [List.getElem?_eq_getElem hlen, Option.some_inj] at hresult
    simpa [hresult] using hget
  have hmem : a.packet ∈ (before ++ a :: after).map (·.packet) := List.mem_map_of_mem (by simp)
  have hserver := hsourced before a after rfl result hresult
  obtain ⟨sni, service, hframe⟩ := hrecovers.frame
  rw [hframe] at hgives hserver
  rcases hgives with ⟨hkey, -, hsni | hhost⟩ | ⟨n, hn, hip, hn'⟩
  · refine @NameSource.serverName _ _ _ _ (before.map (·.packet)) _ (after.map (·.packet)) _ ?_ hparse hkey ?_
    · rw [List.map_append, List.map_cons]
    · rw [← hsni]
      exact hserver (by rw [hsni]; exact hne)
  · exact .host hmem hparse hkey hhost
  · exact .answer hmem hparse hn ((of_decide_eq_true hip).imp Eq.symm Eq.symm) hn'

end Flows

end AnalysisSession
end NetProbe
