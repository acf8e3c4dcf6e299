/-
# What does not depend on the direction

The label of a TCP or UDP packet is the one its payload gives, else the one of
the destination port, else the one of the source port. The two directions of a
conversation have one label unless both ports are in the table, with different
labels (`service_reverse_iff`). A packet without a name of its own is attributed
the one cached for its destination, else the one for its source: the same in
both directions unless the two are known by different names
(`hostname_reverse_iff`).

Key definitions: `reading`, `payloadLabel`, `portLabel`, `framePorts`, `OneLabel`, `Nameless`, `OneName`.
Key theorems: `parse_transport`, `service_reverse_iff`, `feed_nameless`, `hostname_reverse_iff`.
-/
import NetProbe.Hostnames
import NetProbe.Reversal

namespace NetProbe

open Checked Bytes

namespace ProtocolParser

/-! ### Where a label comes from -/

/-- `p` with what is told of `q`. -/
def withTold (p q : ParsedPacket) : ParsedPacket :=
  { p with sni := q.sni, service := q.service, hostname := q.hostname, info := q.info }

theorem leavesTold_withTold (p : ParsedPacket) : LeavesTold (withTold p) := fun _ _ _ _ _ => rfl

/-- What a payload tells by itself. -/
def reading (sys : Platform) (protocol : String) (payload : Bytes) : Checked ParsedPacket := do
  if protocol = "TCP" then
    if ← looksLikeTlsHandshake payload then parseTLS payload {} else parseHTTP payload {}
  else parseQuic sys.mbedtls payload {}

/-- The label of a port of a transport protocol. -/
def portLabel (protocol : String) (port : ℕ) : String :=
  (if protocol = "TCP" then tcpPortService port else udpPortService port).getD ""

/-- The first label of the payload, of the destination and of the source port. -/
def firstLabel (payload dst src : String) : String :=
  if payload ≠ "" then payload else if dst ≠ "" then dst else src

/-- A packet with what its payload tells, and a label. -/
def labelled (p told : ParsedPacket) : ParsedPacket :=
  { withTold p told with
    service := firstLabel told.service (portLabel p.protocol p.dstPort) (portLabel p.protocol p.srcPort) }

theorem classifyPort_eq (table : ℕ → Option String) (port : ℕ) (p : ParsedPacket) :
    classifyPort table port p = { p with service := if p.service ≠ "" then p.service else (table port).getD "" } := by
  unfold classifyPort
  by_cases h : p.service ≠ ""
  · rw [if_pos h, if_pos h]
  · rw [if_neg h, if_neg h]
    cases table port with
    | none =>
      have hs : p.service = "" := not_not.mp h
      rw [Option.getD_none, ← hs]
    | some label => rfl

theorem classifyPorts_eq (table : ℕ → Option String) (p : ParsedPacket) :
    classifyPorts (classifyPort table) p = { p with
      service := firstLabel p.service ((table p.dstPort).getD "") ((table p.srcPort).getD "") } := by
  unfold classifyPorts firstLabel
  rw [classifyPort_eq, classifyPort_eq]
  dsimp only
  split_ifs <;> rfl

theorem reading_nil (sys : Platform) (protocol : String) : reading sys protocol [] = .ok {} := by
  unfold reading
  split_ifs <;> rfl

theorem classify_withTold {p : ParsedPacket} (told : ParsedPacket) {table : ℕ → Option String}
    (h : ∀ port, (table port).getD "" = portLabel p.protocol port) :
    classifyPorts (classifyPort table) (withTold p told) = labelled p told := by
  rw [classifyPorts_eq, h, h]
  rfl

/-- A label of the payload comes before those of the ports. -/
theorem inspectPayload_reading {sys : Platform} {buffer : Bytes} {p : ParsedPacket} (hfits : Fits buffer.length p)
    (hp : withTold p {} = p) (ht : IsTransport p) : inspectPayload sys buffer p =
      labelled p <$> reading sys p.protocol (slice buffer p.payloadOffset p.payloadLength) := by
  have htcp : p.protocol = "TCP" → ∀ told, classifyPorts classifyTcpPort (withTold p told) = labelled p told :=
    fun h told => classify_withTold told fun port => by rw [portLabel, if_pos h]
  have hudp : p.protocol = "UDP" → ∀ told, classifyPorts classifyUdpPort (withTold p told) = labelled p told :=
    fun h told => classify_withTold told fun port => by rw [portLabel, if_neg (by rw [h]; decide)]
  by_cases hz : p.payloadLength = 0
  · have hslice : slice buffer p.payloadOffset p.payloadLength = [] := by rw [hz, slice, List.take_zero]
    rw [hslice, reading_nil, map_ok]
    unfold inspectPayload
    rw [if_neg (by omega)]
    rcases ht with h | h
    · rw [if_pos h, ← htcp h, hp]
      rfl
    · rw [if_neg (by rw [h]; decide), if_pos h, ← hudp h, hp]
      rfl
  · have hle := hfits.resolve_left hz
    unfold inspectPayload reading
    rw [if_pos (by omega), sub_eq (by omega)]
    simp only [ok_bind]
    rw [min_eq_left (by omega), window_eq hle]
    simp only [ok_bind]
    generalize slice buffer p.payloadOffset p.payloadLength = payload
    rcases ht with h | h
    · rw [if_pos h, if_pos h]
      have htls := (leavesTold_withTold p).parseTLS {} payload
      have hhttp := (leavesTold_withTold p).parseHTTP {} payload
      rw [hp] at htls hhttp
      rw [htls, hhttp]
      rcases looksLikeTlsHandshake payload with e | _ | _
      · rfl
      · simp only [ok_bind, Bool.false_eq_true, if_false]
        rcases parseHTTP payload {} with e | told
        · rfl
        · exact congrArg Except.ok (htcp h told)
      · simp only [ok_bind, if_true]
        rcases parseTLS payload {} with e | told
        · rfl
        · exact congrArg Except.ok (htcp h told)
    · have hne : ¬ p.protocol = "TCP" := by rw [h]; decide
      have hquic := (leavesTold_withTold p).parseQuic {} payload sys.mbedtls
      rw [hp] at hquic
      rw [if_neg hne, if_neg hne, if_pos h, hquic]
      rcases parseQuic sys.mbedtls payload {} with e | told
      · rfl
      · exact congrArg Except.ok (hudp h told)

/-! ### The ports of a frame -/

/-- The ports of the last header that has any. -/
def lastPorts (sys : Platform) : (n : ℕ) → Bytes → (etherType : ℕ) → Option (ℕ × ℕ)
  | 0, _, _ => none
  | n + 1, w, etherType =>
    let l := layer sys w etherType
    (l.tunnel.bind fun t => (t.inside (0 < n)).bind fun i => lastPorts sys n i.bytes i.etherType).or
      (l.report.ports.map fun ports => (ports.src, ports.dst))

/-- The source and the destination port of a frame, 0 without any. -/
def framePorts (sys : Platform) (frame : PacketData) : ℕ × ℕ :=
  match linkLayer frame.payload frame.linkType with
  | none => (0, 0)
  | some network => (lastPorts sys (kMaxTunnelDepth + 1) (frame.payload.drop network.1) network.2).getD (0, 0)

def ports (p : ParsedPacket) : ℕ × ℕ := (p.srcPort, p.dstPort)

theorem ports_apply (r : Report) (base : ℕ) (p : ParsedPacket) :
    ports (r.apply base p) = (r.ports.map fun ports => (ports.src, ports.dst)).getD (ports p) := by
  obtain ⟨protocol, _ | ⟨src, dst, _ | payload⟩, _ | tcp, service, encryptedTunnel⟩ := r <;> rfl

theorem ports_push (t : Tunnel) (p : ParsedPacket) : ports (t.push p) = ports p := by
  rw [t.push_frame]
  rfl

theorem ports_settle (t : Tunnel) (p : ParsedPacket) : ports (t.settle p) = ports p := by
  rw [t.settle_frame]
  rfl

/-- Where the decoder does not look inside the ports stay. -/
theorem ports_decode {t : Tunnel} {inside : Inside} {deeper : Bool} {base : ℕ} {p : ParsedPacket}
    (hlimit : ∀ r ∈ t.atLimit, r.ports = none) (h : t.inside deeper = none) :
    ports (t.decode inside deeper base p) = ports p := by
  obtain ⟨r, hl, -, -, hdecode⟩ | ⟨-, hinner, hdecode⟩ := t.inside_cases deeper
  · rw [hdecode, ports_apply, hlimit r hl]
    rfl
  · rw [hdecode, Tunnel.enter, ← hinner, h, ports_settle]
    exact ports_push t p

theorem ports_descend {sys : Platform} : ∀ {n base etherType : ℕ} {w : Bytes} {p : ParsedPacket},
    ports (descend sys n base w etherType p) = (lastPorts sys n w etherType).getD (ports p) := by
  intro n
  induction n with
  | zero => intro base etherType w p; rfl
  | succ n ih =>
    intro base etherType w p
    obtain ⟨-, hu⟩ := layer_wellFormed sys w etherType
    rw [descend_succ, lastPorts]
    have hread : ports ((layer sys w etherType).read base p) =
        ((layer sys w etherType).report.ports.map fun ports => (ports.src, ports.dst)).getD (ports p) := by
      rw [Layer.read, ports_apply]
      cases (layer sys w etherType).addresses <;> rfl
    cases ht : (layer sys w etherType).tunnel with
    | none => exact hread
    | some t =>
      rw [decodeTunnel, Option.bind_some]
      cases hi : t.inside (0 < n) with
      | none =>
        rw [ports_decode (fun r hr => ((hu.tunnel t ht).atLimit r hr).1) hi]
        exact hread
      | some i =>
        rw [decode_inside hi, ports_settle, ih, ports_push, hread, Option.bind_some]
        cases lastPorts sys n i.bytes i.etherType <;> rfl

/-! ### The label of a frame -/

/-- The label the payload of a frame gives it. -/
def payloadLabel (sys : Platform) (frame : PacketData) : String :=
  match linkLayer frame.payload frame.linkType with
  | none => ""
  | some network =>
    let p := decoded sys frame network
    match reading sys p.protocol (slice frame.payload p.payloadOffset p.payloadLength) with
    | .ok told => told.service
    | .error _ => ""

section Label

variable {sys : Platform} {frame frame' : PacketData} {network : ℕ × ℕ} {r : ParsedPacket}

theorem decoded_withTold (ht : IsTransport (decoded sys frame network)) :
    withTold (decoded sys frame network) {} = decoded sys frame network := by
  obtain ⟨hs, hh, hi⟩ := decoded_unnamed sys frame network
  have hu := decoded_unlabelled sys frame network ht
  generalize decoded sys frame network = p at *
  obtain ⟨⟩ := p
  simp only [withTold, ParsedPacket.mk.injEq, true_and] at *
  exact ⟨hs.symm, hu.symm, hh.symm, hi.symm⟩

/-- A TCP or UDP packet is what its headers make it, with what its payload tells and a label. -/
theorem parse_transport (hn : linkLayer frame.payload frame.linkType = some network)
    (ht : IsTransport (decoded sys frame network)) : ∃ told,
      reading sys (decoded sys frame network).protocol
        (slice frame.payload (decoded sys frame network).payloadOffset (decoded sys frame network).payloadLength) =
          .ok told ∧
      parse sys frame = .ok (markEncrypted (labelled (decoded sys frame network) told)) := by
  have hb : frame.payload ≠ [] := by
    intro hnil
    rw [hnil] at hn
    rw [decoded, hnil, List.drop_nil, descend, layer_nil sys hn] at ht
    have hunknown : ("Unknown" : String) = "TCP" ∨ ("Unknown" : String) = "UDP" := ht
    exact absurd hunknown (by decide)
  have hinspect := @inspectPayload_reading sys _ _ (decoded_fits sys hn) (decoded_withTold ht) ht
  obtain ⟨q, hq, -⟩ := inspectPayload_safe sys frame.fits (decoded sys frame network)
  rw [hq] at hinspect
  cases hread : reading sys (decoded sys frame network).protocol (slice frame.payload
      (decoded sys frame network).payloadOffset (decoded sys frame network).payloadLength) with
  | error e =>
    rw [hread] at hinspect
    cases hinspect
  | ok told =>
    rw [hread, map_ok, Except.ok.injEq] at hinspect
    exact ⟨told, rfl, by rw [parse_some sys hn hb, hq, map_ok, hinspect]⟩

theorem framePorts_eq (hn : linkLayer frame.payload frame.linkType = some network) :
    framePorts sys frame = ports (decoded sys frame network) := by
  unfold framePorts decoded
  rw [ports_descend, hn]
  rfl

/-- The label of a TCP or UDP frame, and what it says of encryption. -/
theorem label_transport (hn : linkLayer frame.payload frame.linkType = some network)
    (ht : IsTransport (decoded sys frame network)) (hr : parse sys frame = .ok r) :
    r.service = firstLabel (payloadLabel sys frame)
      (portLabel (decoded sys frame network).protocol (framePorts sys frame).2)
        (portLabel (decoded sys frame network).protocol (framePorts sys frame).1) ∧
      r.encryptedTunnel = ((decoded sys frame network).encryptedTunnel ||
        r.service ∈ ["WireGuard", "OpenVPN", "IPsec"]) := by
  obtain ⟨told, hread, hparse⟩ := parse_transport hn ht
  obtain rfl := Except.ok.inj (hparse.symm.trans hr)
  have hpayload : payloadLabel sys frame = told.service := by
    unfold payloadLabel
    simp only [hn, hread]
  rw [hpayload, framePorts_eq hn]
  generalize decoded sys frame network = p
  unfold markEncrypted
  split_ifs with he
  · refine ⟨rfl, ?_⟩
    rw [decide_eq_true (by simpa using he), Bool.or_true]
  · refine ⟨rfl, ?_⟩
    rw [decide_eq_false (by simpa using he), Bool.or_false]
    rfl

/-- The two directions have one label: what their payloads are labelled, if they
are, or what the ports are, unless differently. -/
def OneLabel (found found' dst src : String) : Prop :=
  (found = found' ∧ (found ≠ "" ∨ dst = "" ∨ src = "" ∨ dst = src)) ∨
    (found = "" ∧ found' ≠ "" ∧ found' = firstLabel "" dst src) ∨
    (found ≠ "" ∧ found' = "" ∧ found = firstLabel "" src dst)

theorem firstLabel_eq_iff (found found' dst src : String) :
    firstLabel found' src dst = firstLabel found dst src ↔ OneLabel found found' dst src := by
  unfold OneLabel firstLabel
  by_cases h : found = "" <;> by_cases h' : found' = "" <;> by_cases hd : dst = "" <;> by_cases hs : src = "" <;>
    simp_all [eq_comm]

/-- **Both directions of a conversation have one label**, and one answer whether
they are an encrypted tunnel, exactly when their payloads or their ports give one. -/
theorem service_reverse_iff (h : Reverse sys frame frame') (hr : parse sys frame = .ok r) (ht : IsTransport r) :
    Safe (parse sys frame') fun r' => (r'.service = r.service ∧ r'.encryptedTunnel = r.encryptedTunnel) ↔
      OneLabel (payloadLabel sys frame) (payloadLabel sys frame') (portLabel r.protocol (framePorts sys frame).2)
        (portLabel r.protocol (framePorts sys frame).1) := by
  obtain ⟨network, hn, hdecoded, hen⟩ := network_of_transport hr ht
  obtain ⟨hn', a, b, hreversed⟩ := decoded_reverse h hn
  have hdecoded' : IsTransport (decoded sys frame' network) := by
    rw [hreversed]
    exact hdecoded
  obtain ⟨told, -, hr'⟩ := parse_transport hn' hdecoded'
  refine .of_eq hr' ?_
  obtain ⟨hs, he⟩ := label_transport hn hdecoded hr
  obtain ⟨hs', he'⟩ := label_transport hn' hdecoded' hr'
  generalize markEncrypted (labelled (decoded sys frame' network) told) = r' at *
  have hprotocol : r.protocol = (decoded sys frame network).protocol := by
    unfold Enriches at hen
    rw [hen]
  rw [framePorts_eq hn', hreversed] at hs'
  rw [hreversed] at he'
  have hservice : r'.service = r.service ↔ OneLabel (payloadLabel sys frame) (payloadLabel sys frame')
      (portLabel r.protocol (framePorts sys frame).2) (portLabel r.protocol (framePorts sys frame).1) := by
    rw [← firstLabel_eq_iff, hprotocol, hs, hs', framePorts_eq hn]
    rfl
  refine Iff.trans ⟨And.left, fun hsame => ⟨hsame, ?_⟩⟩ hservice
  rw [he', he, hsame]

end Label

namespace Conversation

/-- An empty UDP datagram. -/
def packet (src dst srcPort dstPort : Bytes) : Bytes :=
  [0x45, 0, 0, 28, 0, 0, 0, 0, 64, 17, 0, 0] ++ src ++ dst ++ srcPort ++ dstPort ++ [0, 8, 0, 0]

def client : Bytes := [10, 0, 0, 1]

def server : Bytes := [10, 0, 0, 2]

def dnsPort : Bytes := [0, 53]

/-- An ephemeral port that is also the one of WireGuard. -/
def wireGuardPort : UInt8 × UInt8 := (0xCA, 0x6C)

/-- An ephemeral port without a label. -/
def ephemeralPort : UInt8 × UInt8 := (0xC3, 0x50)

section Ports

variable (clientPort : UInt8 × UInt8)

/-- From a port of the client to the server. -/
def query : PacketData :=
  { Vxlan.captured (packet client server [clientPort.1, clientPort.2] dnsPort)
      (by simp [packet, client, server, dnsPort])
    with linkType := .RawIP }

/-- The query with its ports exchanged. -/
def turned : PacketData :=
  { Vxlan.captured (packet client server dnsPort [clientPort.1, clientPort.2])
      (by simp [packet, client, server, dnsPort])
    with linkType := .RawIP }

def reply : PacketData :=
  { Vxlan.captured (packet server client dnsPort [clientPort.1, clientPort.2])
      (by simp [packet, client, server, dnsPort])
    with linkType := .RawIP }

end Ports

/-- A query from the port `srcPort`. -/
def parsedQuery (srcPort : ℕ) : ParsedPacket :=
  { srcIP := "10.0.0.1", dstIP := "10.0.0.2", srcPort, dstPort := 53, protocol := "UDP", length := 28,
    service := "DNS" }

def parsedReply : ParsedPacket :=
  { srcIP := "10.0.0.2", dstIP := "10.0.0.1", srcPort := 53, dstPort := 51820, protocol := "UDP", length := 28
    service := "WireGuard", encryptedTunnel := true }

theorem reverse_query {port : UInt8 × UInt8} (hport : port = wireGuardPort ∨ port = ephemeralPort) :
    Reverse Nested.sys (query port) (reply port) := by
  rcases hport with rfl | rfl
  · exact @reverse_untunnelled Nested.sys _ (turned wireGuardPort) _ (0, kEthIPv4) rfl (by decide +kernel)
      (by decide +kernel) ⟨rfl, rfl, rfl, rfl, rfl⟩ rfl (by decide +kernel) (by decide +kernel) (.inl rfl)
      ⟨rfl, rfl, rfl, rfl, rfl⟩
  · exact @reverse_untunnelled Nested.sys _ (turned ephemeralPort) _ (0, kEthIPv4) rfl (by decide +kernel)
      (by decide +kernel) ⟨rfl, rfl, rfl, rfl, rfl⟩ rfl (by decide +kernel) (by decide +kernel) (.inl rfl)
      ⟨rfl, rfl, rfl, rfl, rfl⟩

end Conversation

open Conversation

/-- From a port without a label both the query and the reply are DNS. -/
theorem service_reverse_iff_query : parse Nested.sys (query ephemeralPort) = .ok (parsedQuery 50000) ∧
    Safe (parse Nested.sys (reply ephemeralPort)) fun r' => r'.service = "DNS" ∧ r'.encryptedTunnel = false := by
  have hparse : parse Nested.sys (query ephemeralPort) = .ok (parsedQuery 50000) := by decide +kernel
  refine ⟨hparse, ?_⟩
  have hlabel : OneLabel (payloadLabel Nested.sys (query ephemeralPort)) (payloadLabel Nested.sys (reply ephemeralPort))
      (portLabel "UDP" (framePorts Nested.sys (query ephemeralPort)).2)
      (portLabel "UDP" (framePorts Nested.sys (query ephemeralPort)).1) := by
    unfold OneLabel
    decide +kernel
  exact (service_reverse_iff (reverse_query (.inr rfl)) hparse (.inr rfl)).mono fun r' h => h.mpr hlabel

/-- The query is DNS and the reply is WireGuard, an encrypted tunnel. -/
theorem service_flips : Reverse Nested.sys (query wireGuardPort) (reply wireGuardPort) ∧
    parse Nested.sys (query wireGuardPort) = .ok (parsedQuery 51820) ∧ IsTransport (parsedQuery 51820) ∧
    parse Nested.sys (reply wireGuardPort) = .ok parsedReply ∧ parsedReply.service ≠ (parsedQuery 51820).service ∧
    parsedReply.encryptedTunnel ≠ (parsedQuery 51820).encryptedTunnel :=
  ⟨reverse_query (.inl rfl), by decide +kernel, .inr rfl, by decide +kernel, by decide, by decide⟩

/-- The reverse of a packet is parsed to a packet between the same ends. -/
theorem parse_reverse {sys : Platform} {frame frame' : PacketData} {p : ParsedPacket} (h : Reverse sys frame frame')
    (hp : parse sys frame = .ok p) (ht : IsTransport p) : Safe (parse sys frame') fun p' =>
      p'.srcIP = p.dstIP ∧ p'.dstIP = p.srcIP ∧ p'.srcPort = p.dstPort ∧ p'.dstPort = p.srcPort ∧
        p'.protocol = p.protocol := by
  obtain ⟨network, hn, hdecoded, hen⟩ := network_of_transport hp ht
  obtain ⟨hn', a, b, hreversed⟩ := decoded_reverse h hn
  obtain ⟨told, -, hp'⟩ := parse_transport hn' (by rw [hreversed]; exact hdecoded)
  refine .of_eq hp' ?_
  have hmark := enriches_markEncrypted (labelled (decoded sys frame' network) told)
  unfold Enriches at hen hmark
  rw [hmark, hen, labelled, withTold, hreversed]
  exact ⟨rfl, rfl, rfl, rfl, rfl⟩

end ProtocolParser

namespace FlowAggregator

/-- Packets between the same ends are of one flow. -/
theorem keyFor_ends {p q : ParsedPacket} (hsrc : q.srcIP = p.dstIP) (hdst : q.dstIP = p.srcIP)
    (hsrcPort : q.srcPort = p.dstPort) (hdstPort : q.dstPort = p.srcPort) (hprotocol : q.protocol = p.protocol) :
    keyFor q = keyFor p := by
  have hsame : keyFor q = keyFor (reverse p) := by
    unfold keyFor forward reversed reverse
    dsimp only
    rw [hsrc, hdst, hsrcPort, hdstPort, hprotocol]
  rw [hsame]
  cases hk : keyFor p with
  | some k => exact keyFor_reverse hk
  | none =>
    by_contra hne
    obtain ⟨k, hk'⟩ := Option.ne_none_iff_exists'.mp hne
    have hback : keyFor p = some k := keyFor_reverse hk'
    rw [hk] at hback
    cases hback

end FlowAggregator

namespace AnalysisSession

open ProtocolParser FlowAggregator

/-! ### Names -/

/-- A packet that carries no name: no SNI, no Host value and no DNS response. -/
structure Nameless (sys : Platform) (packet : PacketData) (parsed : ParsedPacket) : Prop where
  sni : parsed.sni = ""
  hostname : parsed.hostname = ""
  response : DNSParser.parseResponse sys packet parsed = .ok none

/-- The name cached for the destination, else for the source. -/
def cachedName (s : Session) (parsed : ParsedPacket) : String :=
  ((s.hostnameCache.lookup parsed.dstIP).or (s.hostnameCache.lookup parsed.srcIP)).getD ""

/-- A packet without a name is attributed the one that is known of an end. -/
theorem feed_nameless {sys : Platform} {s t : Session} {packet : PacketData} {lookupProcess : ParsedPacket → String}
    {r : Result} (hs : QuicTracker.Aligned s.quicTracker) (hfeed : feed sys s packet lookupProcess = .ok (r, t))
    (h : Nameless sys packet r.parsed) : parse sys packet = .ok r.parsed ∧ r.hostname = cachedName s r.parsed ∧
      ∀ k, hostnameOf t.flowAggregator k = if keyFor r.parsed = some k then
        some (if r.hostname ≠ "" then r.hostname else (hostnameOf s.flowAggregator k).getD "")
        else hostnameOf s.flowAggregator k := by
  obtain ⟨parsed, hparse, hfeed⟩ := bind_eq_ok.mp hfeed
  obtain ⟨⟨q, u⟩, hrecover, hfeed⟩ := bind_eq_ok.mp hfeed
  obtain ⟨v, hharvest, hfeed⟩ := bind_eq_ok.mp hfeed
  obtain ⟨rfl, rfl⟩ := Prod.mk.inj (Except.ok.inj hfeed)
  obtain ⟨hsni, hhost, hresponse⟩ := h
  obtain ⟨r, hr, hrecovers, -, hflows, hcache⟩ := recoverSni_safe sys packet parsed hs
  obtain rfl : r = (q, u) := Except.ok.inj (hr.symm.trans hrecover)
  dsimp only at hrecovers hflows hcache hsni hhost hresponse ⊢
  have hsame : q = parsed := by
    rcases hrecovers with hsame | ⟨-, sni, hne, rfl⟩
    · exact hsame
    · rw [applyRecovered, if_neg hne] at hsni
      exact absurd hsni hne
  rw [harvestDns, hresponse] at hharvest
  obtain rfl := Except.ok.inj hharvest
  have hcount : (countEncryptedDns q u).hostnameCache = s.hostnameCache ∧
      (countEncryptedDns q u).flowAggregator = s.flowAggregator := by
    unfold countEncryptedDns
    split
    · exact ⟨hcache, hflows⟩
    · exact ⟨hcache, hflows⟩
  have hname : attributeHostname q (countEncryptedDns q u) = cachedName s q := by
    rw [attributeHostname, if_neg (not_not.mpr hsni), if_neg (not_not.mpr hhost), hcount.1, cachedName]
    cases s.hostnameCache.lookup q.dstIP <;> rfl
  refine ⟨hsame ▸ hparse, hname, fun k => ?_⟩
  rw [hostnameOf_update, if_neg (not_not.mpr hsni), if_neg (not_not.mpr hhost), hcount.2]

/-- At most one name is known of the two ends of a packet, or the same of both. -/
def OneName (s : Session) (parsed : ParsedPacket) : Prop :=
  ∀ name name', s.hostnameCache.lookup parsed.dstIP = some name → s.hostnameCache.lookup parsed.srcIP = some name' →
    name = name'

theorem cachedName_eq_iff {s : Session} {p q : ParsedPacket} (hsrc : q.srcIP = p.dstIP) (hdst : q.dstIP = p.srcIP) :
    cachedName s q = cachedName s p ↔ OneName s p := by
  unfold cachedName OneName
  rw [hsrc, hdst]
  cases s.hostnameCache.lookup p.dstIP <;> cases s.hostnameCache.lookup p.srcIP <;> simp [eq_comm]

/-- **The name of a conversation does not depend on the direction of a packet**
that carries none exactly when the cache does not name its two ends differently. -/
theorem hostname_reverse_iff {sys : Platform} {arrivals : List Arrival} {results : List Result} {s : Session}
    (hrun : feedAll sys {} arrivals = .ok (results, s)) {a a' : Arrival} (h : Reverse sys a.packet a'.packet)
    {p : ParsedPacket} (hp : parse sys a.packet = .ok p) (ht : IsTransport p) :
    Safe (feed sys s a.packet a.lookupProcess) fun x => Safe (feed sys s a'.packet a'.lookupProcess) fun x' =>
      Nameless sys a.packet x.1.parsed → Nameless sys a'.packet x'.1.parsed →
        ((x'.1.hostname = x.1.hostname ∧
          ∀ k, hostnameOf x'.2.flowAggregator k = hostnameOf x.2.flowAggregator k) ↔ OneName s p) := by
  obtain ⟨run, hrun', -, hs, -⟩ := feedAll_safe sys arrivals (s := {}) QuicTracker.aligned_empty
  obtain rfl : run = (results, s) := Except.ok.inj (hrun'.symm.trans hrun)
  obtain ⟨⟨r, t⟩, hfeed, -⟩ := feed_safe sys hs a.packet a.lookupProcess
  obtain ⟨⟨r', t'⟩, hfeed', -⟩ := feed_safe sys hs a'.packet a'.lookupProcess
  refine .of_eq hfeed (.of_eq hfeed' fun hn hn' => ?_)
  obtain ⟨hparse, hname, hflows⟩ := feed_nameless hs hfeed hn
  obtain ⟨hparse', hname', hflows'⟩ := feed_nameless hs hfeed' hn'
  obtain rfl : p = r.parsed := Except.ok.inj (hp.symm.trans hparse)
  obtain ⟨q, hq, hsrc, hdst, hsrcPort, hdstPort, hprotocol⟩ := parse_reverse h hp ht
  obtain rfl : q = r'.parsed := Except.ok.inj (hq.symm.trans hparse')
  have hsame : r'.hostname = r.hostname ↔ OneName s r.parsed := by
    rw [hname, hname']
    exact cachedName_eq_iff hsrc hdst
  refine Iff.trans ⟨And.left, fun he => ⟨he, fun k => ?_⟩⟩ hsame
  dsimp only at he ⊢
  rw [hflows, hflows', keyFor_ends hsrc hdst hsrcPort hdstPort hprotocol, he]

/-! A conversation whose two ends have been named. -/

namespace Web

open Wire

/-- A response that gives the client's address for the name nas. -/
def homeResponse : Bytes :=
  be16 0x1235 ++ be16 0x8180 ++ be16 1 ++ be16 1 ++ be16 0 ++ be16 0
    ++ [3, 0x6e, 0x61, 0x73, 0] ++ be16 1 ++ be16 1
    ++ [0xc0, 0x0c] ++ be16 1 ++ be16 1 ++ be32 60 ++ be16 4 ++ [192, 168, 1, 10]

def homeFrame : Bytes :=
  [0x02, 0, 0, 0, 0, 1, 0x02, 0, 0, 0, 0, 2] ++ be16 kEthIPv4
    ++ [0x45, 0] ++ be16 (28 + homeResponse.length) ++ [0, 0, 0, 0, 64, 17, 0, 0]
    ++ [8, 8, 8, 8] ++ [192, 168, 1, 10]
    ++ be16 53 ++ be16 53000 ++ be16 (8 + homeResponse.length) ++ [0, 0] ++ homeResponse

def home : Arrival := arrival homeFrame 79 (by decide)

/-- The acknowledgement with its ports exchanged. -/
def turnedAck : PacketData :=
  { helloAck.packet with payload := swapAt helloAck.packet.payload 34 2, fits := by decide }

/-- The server's segment with the numbers of the acknowledgement. -/
def replyAck : Arrival where
  packet := { turnedAck with payload := swapAt turnedAck.payload 26 4, fits := by decide }
  lookupProcess _ := ""

def parsedAck : ParsedPacket :=
  { srcIP := "192.168.1.10", dstIP := "93.184.216.34", srcPort := 50000, dstPort := 80, protocol := "TCP", length := 54
    tcpAck := true, tcpSeq := 1065, service := "HTTP" }

def parsedReplyAck : ParsedPacket :=
  { srcIP := "93.184.216.34", dstIP := "192.168.1.10", srcPort := 80, dstPort := 50000, protocol := "TCP", length := 54
    tcpAck := true, tcpSeq := 1065, service := "HTTP" }

theorem reverse_ack : Reverse resolvingSys helloAck.packet replyAck.packet :=
  @reverse_untunnelled resolvingSys helloAck.packet turnedAck replyAck.packet (14, kEthIPv4)
    (by decide) (by decide +kernel) (by decide +kernel) ⟨rfl, rfl, rfl, rfl, by decide +kernel⟩
    (by decide) (by decide +kernel) (by decide +kernel) (.inl rfl) ⟨rfl, rfl, rfl, rfl, rfl⟩

/-- A frame fed after `arrivals`: how it is parsed, and the hostnames of the
packet and of the flow. -/
def namedAfter (arrivals : List Arrival) (a : Arrival) : Checked (ParsedPacket × String × Option String) := do
  let (_, s) ← feedAll resolvingSys {} arrivals
  let (r, t) ← feed resolvingSys s a.packet a.lookupProcess
  return (r.parsed, r.hostname, hostnameOf t.flowAggregator key)

theorem feed_of_namedAfter {arrivals : List Arrival} {a : Arrival} {results : List Result} {s : Session}
    {p : ParsedPacket} {name : String} {flow : Option String} (h : namedAfter arrivals a = .ok (p, name, flow))
    (hrun : feedAll resolvingSys {} arrivals = .ok (results, s)) :
    Safe (feed resolvingSys s a.packet a.lookupProcess) fun x =>
      x.1.parsed = p ∧ x.1.hostname = name ∧ hostnameOf x.2.flowAggregator key = flow := by
  obtain ⟨run, hrun', h⟩ := bind_eq_ok.mp h
  obtain rfl := Except.ok.inj (hrun'.symm.trans hrun)
  obtain ⟨x, hx, h⟩ := bind_eq_ok.mp h
  obtain ⟨hp, hrest⟩ := Prod.mk.inj (Except.ok.inj h)
  obtain ⟨hname, hflow⟩ := Prod.mk.inj hrest
  exact .of_eq hx ⟨hp, hname, hflow⟩

theorem nameless_ack : Nameless resolvingSys helloAck.packet parsedAck := ⟨rfl, rfl, rfl⟩

theorem nameless_replyAck : Nameless resolvingSys replyAck.packet parsedReplyAck := ⟨rfl, rfl, rfl⟩

end Web

open Web

/-- Both directions are named after the server while the client has no name. -/
theorem hostname_reverse_iff_ack : ∃ results s, feedAll resolvingSys {} [answered] = .ok (results, s) ∧
    Safe (feed resolvingSys s helloAck.packet helloAck.lookupProcess) fun x =>
      Safe (feed resolvingSys s replyAck.packet replyAck.lookupProcess) fun x' =>
        x.1.hostname = "cdn" ∧ x'.1.hostname = "cdn" ∧
          ∀ k, hostnameOf x'.2.flowAggregator k = hostnameOf x.2.flowAggregator k := by
  obtain ⟨⟨results, s⟩, hrun, -⟩ := feedAll_safe resolvingSys [answered] (s := {}) QuicTracker.aligned_empty
  have hack : namedAfter [answered] helloAck = .ok (parsedAck, "cdn", some "cdn") := by decide +kernel
  have hreply : namedAfter [answered] replyAck = .ok (parsedReplyAck, "cdn", some "cdn") := by decide +kernel
  have hclient : (fun x => x.2.hostnameCache.lookup "192.168.1.10") <$> feedAll resolvingSys {} [answered] =
      .ok none := by
    decide +kernel
  rw [hrun, map_ok, Except.ok.injEq] at hclient
  have hone : OneName s parsedAck := fun name name' _ h => nomatch hclient.symm.trans h
  obtain ⟨x, hx, hp, hname, -⟩ := feed_of_namedAfter hack hrun
  obtain ⟨x', hx', hp', -⟩ := feed_of_namedAfter hreply hrun
  have hiff := hostname_reverse_iff hrun reverse_ack (p := parsedAck) (by decide +kernel) (.inl rfl)
  obtain ⟨hsame, hflows⟩ := ((hiff.elim hx).elim hx' (hp ▸ nameless_ack) (hp' ▸ nameless_replyAck)).mpr hone
  exact ⟨results, s, hrun, .of_eq hx (.of_eq hx' ⟨hname, hsame.trans hname, hflows⟩)⟩

/-- The packet and its flow are named after the server, by the reply after the client. -/
theorem hostname_flips : Reverse resolvingSys helloAck.packet replyAck.packet ∧
    parse resolvingSys helloAck.packet = .ok parsedAck ∧ IsTransport parsedAck ∧
    ∃ results s, feedAll resolvingSys {} [answered, home] = .ok (results, s) ∧
      (Safe (feed resolvingSys s helloAck.packet helloAck.lookupProcess) fun x =>
        Nameless resolvingSys helloAck.packet x.1.parsed ∧ x.1.hostname = "cdn" ∧
          hostnameOf x.2.flowAggregator key = some "cdn") ∧
      Safe (feed resolvingSys s replyAck.packet replyAck.lookupProcess) fun x =>
        Nameless resolvingSys replyAck.packet x.1.parsed ∧ x.1.hostname = "nas" ∧
          hostnameOf x.2.flowAggregator key = some "nas" := by
  obtain ⟨⟨results, s⟩, hrun, -⟩ := feedAll_safe resolvingSys [answered, home] (s := {}) QuicTracker.aligned_empty
  have hack : namedAfter [answered, home] helloAck = .ok (parsedAck, "cdn", some "cdn") := by decide +kernel
  have hreply : namedAfter [answered, home] replyAck = .ok (parsedReplyAck, "nas", some "nas") := by decide +kernel
  refine ⟨reverse_ack, by decide +kernel, .inl rfl, results, s, hrun, ?_, ?_⟩
  · refine (feed_of_namedAfter hack hrun).mono fun x h => ⟨?_, h.2⟩
    rw [h.1]
    exact nameless_ack
  · refine (feed_of_namedAfter hreply hrun).mono fun x h => ⟨?_, h.2⟩
    rw [h.1]
    exact nameless_replyAck

end AnalysisSession
end NetProbe
