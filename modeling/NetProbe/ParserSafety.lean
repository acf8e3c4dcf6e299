/-
# ProtocolParser.parse never faults

`parse` ends in a value on every frame of every link type: no read outside the
frame, no subtraction that wraps, at most `kMaxTunnelDepth + 1` descents; and
the payload it locates, if any, lies in the frame.

Key definitions: `Fits`, `Unlabelled`, `Enriches`, `Tells`.
Key theorems: `descend_fits`, `descend_unlabelled`, `parseTlsClientHello_safe`,
`parseHTTP_safe`, `inspectPayload_tells`, `parse_fits`.
-/
import NetProbe.Descent
import NetProbe.QuicSafety

namespace NetProbe
namespace ProtocolParser

open Checked Bytes

/-! ### What the descent keeps -/

/-- The payload located in a frame of `size` bytes lies in it. -/
def Fits (size : ℕ) (p : ParsedPacket) : Prop :=
  p.payloadLength = 0 ∨ p.payloadOffset + p.payloadLength ≤ size

/-- The decoders label no TCP or UDP packet. -/
def Unlabelled (p : ParsedPacket) : Prop := p.protocol = "TCP" ∨ p.protocol = "UDP" → p.service = ""

section Fields

variable (p : ParsedPacket) (name : String) (a : Option (String × String)) (t : Tunnel) (r : Report) (base : ℕ)

@[simp] theorem payloadLength_pushTunnel : (pushTunnel p name).payloadLength = p.payloadLength := by
  rw [pushTunnel_frame]

@[simp] theorem payloadOffset_pushTunnel : (pushTunnel p name).payloadOffset = p.payloadOffset := by
  rw [pushTunnel_frame]

@[simp] theorem service_pushTunnel : (pushTunnel p name).service = p.service := by rw [pushTunnel_frame]

@[simp] theorem payloadLength_setAddresses : (setAddresses a p).payloadLength = p.payloadLength := by
  cases a <;> rfl

@[simp] theorem payloadOffset_setAddresses : (setAddresses a p).payloadOffset = p.payloadOffset := by
  cases a <;> rfl

@[simp] theorem service_setAddresses : (setAddresses a p).service = p.service := by cases a <;> rfl

@[simp] theorem payloadLength_settle : (t.settle p).payloadLength = p.payloadLength := by rw [Tunnel.settle_frame]

@[simp] theorem payloadOffset_settle : (t.settle p).payloadOffset = p.payloadOffset := by rw [Tunnel.settle_frame]

@[simp] theorem service_settle : (t.settle p).service = p.service := by rw [Tunnel.settle_frame]

@[simp] theorem service_apply : (r.apply base p).service = r.service.getD p.service := by
  obtain ⟨protocol, _ | ⟨src, dst, _ | payload⟩, _ | tcp, service, encryptedTunnel⟩ := r <;> rfl

@[simp] theorem protocol_apply : (r.apply base p).protocol = r.protocol.getD p.protocol := by
  obtain ⟨protocol, _ | ⟨src, dst, _ | payload⟩, _ | tcp, service, encryptedTunnel⟩ := r <;> rfl

/-- A header locates the payload anew or leaves it. -/
theorem payload_apply :
    (∃ ports ∈ r.ports, ∃ e ∈ ports.payload, (r.apply base p).payloadOffset = base + e.1 ∧
      (r.apply base p).payloadLength = e.2) ∨
    (∀ ports ∈ r.ports, ports.payload = none) ∧
      (r.apply base p).payloadOffset = p.payloadOffset ∧ (r.apply base p).payloadLength = p.payloadLength := by
  obtain ⟨protocol, _ | ⟨src, dst, _ | payload⟩, _ | tcp, service, encryptedTunnel⟩ := r
  case some.some.none => exact .inl ⟨_, rfl, _, rfl, rfl, rfl⟩
  case some.some.some => exact .inl ⟨_, rfl, _, rfl, rfl, rfl⟩
  all_goals exact .inr ⟨by simp, rfl, rfl⟩

end Fields

theorem Fits.apply {u : Upper} {n base size : ℕ} {p : ParsedPacket} (hu : u.WellFormed n)
    (hb : base + n ≤ size) (h : Fits size p) : Fits size (u.report.apply base p) := by
  unfold Fits at *
  obtain ⟨ports, hp, e, he, ho, hl⟩ | ⟨-, ho, hl⟩ := payload_apply p u.report base
  · have := hu.payload ports hp e he
    omega
  · omega

theorem fits_preserved (size : ℕ) : Preserved size 0 (fun _ q => Fits size q) (fun _ q => Fits size q) where
  stop h := h
  addresses a h := by simpa [Fits] using h
  through hu hb _ h := h.apply hu hb
  last hu hb h := h.apply hu hb
  push name h := by simpa [Fits] using h
  settle _ h := by simpa [Fits] using h

theorem descend_fits (sys : Platform) {descents base etherType size : ℕ} {w : Bytes} {p : ParsedPacket}
    (hb : base + w.length ≤ size) (h : Fits size p) : Fits size (descend sys descents base w etherType p) :=
  descend_preserved (fits_preserved size) (p := p) hb h

theorem unlabelled_preserved (size : ℕ) :
    Preserved size 0 (fun _ q => q.service = "") (fun _ q => Unlabelled q) where
  stop h := fun _ => h
  addresses a h := by simpa using h
  through hu _ ht h := by
    rw [service_apply, h, Option.getD_eq_iff]
    cases hs : Upper.report _ |>.service with
    | none => exact .inr ⟨rfl, rfl⟩
    | some s =>
      have := (hu.service (by simp [hs])).1
      simp [this] at ht
  last := by
    intro p q u n base hu _ h hp
    rw [service_apply, h]
    cases hs : u.report.service with
    | none => rfl
    | some s =>
      obtain ⟨-, protocol, hr, h1, h2⟩ := hu.service (by simp [hs])
      rw [protocol_apply, hr, Option.getD_some] at hp
      exact (hp.elim h1 h2).elim
  push name h := by simpa using h
  settle := by
    intro p q t n ht h hp
    rw [service_settle]
    refine h ?_
    unfold Tunnel.settle at hp
    split_ifs at hp with hm
    · rcases ht.settle with he | hl
      · simp [he] at hm
      · change t.label = _ ∨ t.label = _ at hp
        rcases hp with hp | hp <;> simp [hp, placeholders] at hl
    · exact hp

/-- The service of a TCP or UDP packet is left to the payload and the ports. -/
theorem descend_unlabelled (sys : Platform) (descents base etherType : ℕ) (w : Bytes) {p : ParsedPacket}
    (h : p.service = "") : Unlabelled (descend sys descents base w etherType p) :=
  descend_preserved (unlabelled_preserved (base + w.length)) (p := p) le_rfl h

/-! ### What the payload tells -/

/-- `q` is `p` with what its payload tells: names, a label, a summary. -/
def Enriches (p q : ParsedPacket) : Prop :=
  q = { p with
    sni := q.sni, service := q.service, hostname := q.hostname, info := q.info
    encryptedTunnel := q.encryptedTunnel }

theorem Enriches.trans {p q r : ParsedPacket} (h : Enriches p q) (h' : Enriches q r) : Enriches p r := by
  unfold Enriches at *
  rw [h', h]

theorem Enriches.fits {p q : ParsedPacket} {size : ℕ} (h : Enriches p q) (hp : Fits size p) : Fits size q := by
  unfold Enriches at h
  rw [h]
  exact hp

theorem enriches_mk (p : ParsedPacket) (sni service hostname info : String) (encryptedTunnel : Bool) :
    Enriches p { p with sni, service, hostname, info, encryptedTunnel } := rfl

/-- `p` with a `Host:` value and the label it stands for. -/
def withHost (hostname : String) (p : ParsedPacket) : ParsedPacket :=
  { p with hostname, service := if identifyService hostname ≠ "" then identifyService hostname else p.service }

/-- `Q` holds of `p` and of all that its payload and its ports may tell of it. -/
structure Tells (p : ParsedPacket) (Q : ParsedPacket → Prop) : Prop where
  nothing : Q p
  tls : ∀ sni, sni ≠ "" → Q { p with sni, service := identifyService sni }
  http : ∀ info service, Q { p with info, service }
  host : ∀ info service hostname, Q (withHost hostname { p with info, service })
  quic : p.protocol = "UDP" → ∀ sni,
    Q { p with sni, service := if p.service = "" then identifyService sni else p.service }
  label : ∀ q service, Q q → q.service = "" → Q { q with service }

theorem tells_enriches (p : ParsedPacket) : Tells p (Enriches p) where
  nothing := rfl
  tls _ _ := enriches_mk ..
  http _ _ := enriches_mk ..
  host _ _ _ := enriches_mk p p.sni _ _ _ p.encryptedTunnel
  quic _ _ := enriches_mk ..
  label _ _ h _ := h.trans (enriches_mk ..)

theorem Tells.classifyPorts {p q : ParsedPacket} {Q : ParsedPacket → Prop} (h : Tells p Q)
    {table : ℕ → Option String} (hq : Q q) : Q (classifyPorts (classifyPort table) q) := by
  have hport : ∀ port q, Q q → Q (classifyPort table port q) := by
    intro port q hq
    unfold classifyPort
    split
    · exact hq
    · split
      · exact h.label _ _ hq (not_not.mp ‹_›)
      · exact hq
  exact hport _ _ (hport _ _ hq)

/-! ### The TLS walk -/

theorem looksLikeTlsHandshake_safe (payload : Bytes) :
    Safe (looksLikeTlsHandshake payload) fun r => r = true → 5 ≤ payload.length := by
  refine .guard (by simp) fun hl => (safe_readU8 (by omega)).bind fun a _ => ?_
  exact (safe_readU8 (by omega)).bind fun b _ => (safe_readU8 (by omega)).bind fun c _ => .ok fun _ => by omega

section Tls

variable {payload : Bytes}

theorem nameListLoop_safe {stop : ℕ} (hs : stop ≤ payload.length) : ∀ {fuel pos : ℕ}, pos ≤ stop →
    stop < pos + fuel → Safe (nameListLoop payload stop fuel pos) fun _ => True := by
  intro fuel
  induction fuel with
  | zero => intro pos h h'; omega
  | succ fuel ih =>
    intro pos h h'
    refine (safe_sub h).bind fun left hl => .guard trivial fun h3 => ?_
    refine (safe_readU8 (by omega)).bind fun nameType _ => (safe_readU16 (by omega)).bind fun nameLength _ => ?_
    refine (safe_sub (by omega)).bind fun left' hl' => .guard trivial fun hn => .ite (fun _ => ?_) fun _ => ?_
    · exact (safe_window (by omega)).bind fun name _ => .ok trivial
    · exact ih (by omega) (by omega)

theorem extensionLoop_safe {stop : ℕ} (hs : stop ≤ payload.length) : ∀ {fuel pos : ℕ}, pos ≤ stop →
    stop < pos + fuel → Safe (extensionLoop payload stop fuel pos) fun _ => True := by
  intro fuel
  induction fuel with
  | zero => intro pos h h'; omega
  | succ fuel ih =>
    intro pos h h'
    refine (safe_sub h).bind fun left hl => .guard trivial fun h4 => ?_
    refine (safe_readU16 (by omega)).bind fun type _ => (safe_readU16 (by omega)).bind fun length _ => ?_
    refine (safe_sub (by omega)).bind fun left' hl' => .guard trivial fun hn => .ite (fun _ => ?_) fun _ => ?_
    · refine (safe_sub (by omega)).bind fun room hr => .guard trivial fun h2 => ?_
      refine (safe_readU16 (by omega)).bind fun listLength _ => ?_
      refine (safe_sub (by omega)).bind fun room' hr' => .guard trivial fun hlist => ?_
      exact nameListLoop_safe (by omega) (by omega) (by omega)
    · exact ih (by omega) (by omega)

/-- Every length is checked against what is left of the handshake. -/
theorem parseTlsClientHello_safe (payload : Bytes) : Safe (parseTlsClientHello payload) fun _ => True := by
  refine (looksLikeTlsHandshake_safe payload).bind fun looks hlooks => .guard trivial fun hl => ?_
  have h5 := hlooks (not_not.mp hl)
  refine (safe_readU16 (by omega)).bind fun recordLength _ => .guard trivial fun hrec => .guard trivial fun h9 => ?_
  refine (safe_readU8 (by omega)).bind fun type _ => .guard trivial fun _ => ?_
  refine (safe_readU8 (by omega)).bind fun l0 _ => (safe_readU8 (by omega)).bind fun l1 _ =>
    (safe_readU8 (by omega)).bind fun l2 _ => ?_
  generalize l0 <<< 16 ||| l1 <<< 8 ||| l2 = handshakeLength
  refine .guard trivial fun hhs => .guard trivial fun h34 => .guard trivial fun hsid => ?_
  refine (safe_readU8 (by omega)).bind fun sidLength _ => (safe_sub (by omega)).bind fun left1 e1 => ?_
  refine .guard trivial fun hsl => (safe_sub (by omega)).bind fun left2 e2 => .guard trivial fun hcs => ?_
  refine (safe_readU16 (by omega)).bind fun csLength _ => (safe_sub (by omega)).bind fun left3 e3 => ?_
  refine .guard trivial fun hcl => .guard trivial fun hcm => (safe_readU8 (by omega)).bind fun cmLength _ => ?_
  refine (safe_sub (by omega)).bind fun left4 e4 => .guard trivial fun hml => ?_
  refine (safe_sub (by omega)).bind fun left5 e5 => .guard trivial fun hext => ?_
  refine (safe_readU16 (by omega)).bind fun extLength _ => (safe_sub (by omega)).bind fun left6 e6 => ?_
  exact .guard trivial fun hel => extensionLoop_safe (by omega) (by omega) (by omega)

end Tls

/-! ### The HTTP walk -/

section Http

variable {payload : Bytes} {scanLen : ℕ}

theorem startsWith_safe {text : String} (h : text.length ≤ payload.length) :
    Safe (startsWith payload text) fun _ => True :=
  (safe_window (by omega)).bind fun _ _ => .ok trivial

/-- The line that starts at `i` ends in the scanned part. -/
theorem lineEnd_safe (hs : scanLen ≤ payload.length) : ∀ {fuel i : ℕ}, i ≤ scanLen → scanLen < i + fuel →
    Safe (lineEnd payload scanLen fuel i) fun r => i ≤ r ∧ r ≤ scanLen := by
  intro fuel
  induction fuel with
  | zero => intro i h h'; omega
  | succ fuel ih =>
    intro i h h'
    refine .ite (fun hi => ?_) fun _ => .ok ⟨h, le_rfl⟩
    refine (safe_readU8 (by omega)).bind fun a _ => (safe_readU8 (by omega)).bind fun b _ => ?_
    exact .guard ⟨le_rfl, by omega⟩ fun _ => (ih (by omega) (by omega)).mono fun r hr => ⟨by omega, hr.2⟩

theorem isHttpMethod_safe (hs : scanLen ≤ payload.length) : ∀ methods : List String,
    Safe (isHttpMethod payload scanLen methods) fun _ => True
  | [] => .ok trivial
  | method :: rest => by
    refine .ite (fun h => ?_) fun _ => isHttpMethod_safe hs rest
    refine (startsWith_safe (by omega)).bind fun a _ => (safe_readU8 (by omega)).bind fun b _ => ?_
    exact .guard trivial fun _ => isHttpMethod_safe hs rest

theorem isHostHeader_safe {pos : ℕ} (h : pos + 4 < payload.length) :
    Safe (isHostHeader payload pos) fun _ => True := by
  refine (safe_readU8 (by omega)).bind fun a _ => (safe_readU8 (by omega)).bind fun b _ => ?_
  refine (safe_readU8 (by omega)).bind fun c _ => (safe_readU8 (by omega)).bind fun d _ => ?_
  exact (safe_readU8 (by omega)).bind fun e _ => .ok trivial

theorem skipSpaces_safe {stop : ℕ} (hs : stop ≤ payload.length) : ∀ {fuel pos : ℕ}, pos ≤ stop →
    stop < pos + fuel → Safe (skipSpaces payload stop fuel pos) fun _ => True := by
  intro fuel
  induction fuel with
  | zero => intro pos h h'; omega
  | succ fuel ih =>
    intro pos h h'
    refine .ite (fun hp => ?_) fun _ => .ok trivial
    refine (safe_readU8 (by omega)).bind fun a _ => .ite (fun _ => ?_) fun _ => .ok trivial
    exact ih (by omega) (by omega)

variable {p : ParsedPacket} {Q : ParsedPacket → Prop}

theorem readHost_safe {pos stop : ℕ} (hs : stop ≤ payload.length) (hp : pos + 5 ≤ stop) (h : Q p)
    (hhost : ∀ hostname, Q (withHost hostname p)) :
    Safe (readHost payload pos stop p) Q := by
  refine (skipSpaces_safe hs hp (by omega)).bind fun start _ => .ite (fun h => ?_) fun _ => .ok h
  exact (safe_sub (by omega)).bind fun n hn => (safe_window (by omega)).bind fun name _ => .ok (hhost _)

/-- Every header line takes at least its CRLF. -/
theorem headerLoop_safe (hs : scanLen ≤ payload.length) (h : Q p)
    (hhost : ∀ hostname, Q (withHost hostname p)) :
    ∀ {fuel pos : ℕ}, 0 < fuel → scanLen < pos + fuel → Safe (headerLoop payload scanLen fuel pos p) Q := by
  intro fuel
  induction fuel with
  | zero => intro pos hf; omega
  | succ fuel ih =>
    intro pos _ hf
    refine .ite (fun hp => ?_) fun _ => .ok h
    refine (lineEnd_safe hs (by omega) (by omega)).bind fun stop hstop => ?_
    refine .guard h fun hne => .guard h fun hlast => ?_
    refine (safe_sub hstop.1).bind fun n hn => .ite (fun h5 => ?_) fun _ => ih (by omega) (by omega)
    refine (isHostHeader_safe (by omega)).bind fun host _ => .ite (fun _ => ?_) fun _ => ih (by omega) (by omega)
    exact readHost_safe (by omega) (by omega) h hhost

theorem parseHTTP_safe (payload : Bytes) (h : Tells p Q) : Safe (parseHTTP payload p) Q := by
  have hs : min payload.length 2048 ≤ payload.length := min_le_left _ _
  unfold parseHTTP
  extract_lets scanLen service rest
  have hrest : ∀ isResponse, Safe (rest isResponse) Q := by
    intro isResponse
    refine .ite (fun _ => ?_) fun _ => ?_
    · refine (lineEnd_safe hs (Nat.zero_le _) (by omega)).bind fun stop hstop => ?_
      exact (safe_window (by omega)).bind fun info _ => .ok (h.http _ _)
    · refine (isHttpMethod_safe hs httpMethods).bind fun isMethod _ => .guard h.nothing fun _ => ?_
      refine (lineEnd_safe hs (Nat.zero_le _) (by omega)).bind fun stop hstop => ?_
      refine (safe_window (by omega)).bind fun info _ => ?_
      refine headerLoop_safe hs (h.http _ _) (fun hostname => h.host _ _ hostname) (Nat.succ_pos _) ?_
      omega
  refine .ite (fun h => ?_) fun _ => hrest false
  exact (startsWith_safe (le_trans (by decide) (h.trans hs))).bind fun isResponse _ => hrest isResponse

end Http

/-! ### parse -/

section Parse

variable {p : ParsedPacket} {Q : ParsedPacket → Prop}

theorem parseTLS_safe (payload : Bytes) (h : Tells p Q) : Safe (parseTLS payload p) Q := by
  refine (parseTlsClientHello_safe payload).bind fun r _ => ?_
  cases r with
  | none => exact .ok h.nothing
  | some sni => exact .guard h.nothing fun hne => .ok (h.tls sni hne)

theorem parseQuic_safe (m : Mbedtls) {payload : Bytes} (hl : payload.length < 2 ^ 63)
    (hp : p.protocol = "UDP") (h : Tells p Q) : Safe (parseQuic m payload p) Q := by
  refine (QuicParser.looksLikeLongHeader_safe payload).bind fun looks _ =>
    .ite (fun _ => ?_) fun _ => .ok h.nothing
  have hnamed : ∀ q, Q q → Safe (pure (if q.service = "" then { q with service := "QUIC" } else q)) Q := by
    intro q hq
    refine .ok ?_
    split
    · exact h.label q _ hq ‹_›
    · exact hq
  refine (QuicParser.extractInitialSni_safe hl m).bind fun sni _ => ?_
  cases sni with
  | none => exact hnamed p h.nothing
  | some sni => exact hnamed _ (h.quic hp sni)

/-- The payload handed to the application-layer walks lies in the frame, however
far the IP length reaches. -/
theorem inspectPayload_tells (sys : Platform) {buffer : Bytes} (hb : buffer.length < 2 ^ 63) (h : Tells p Q) :
    Safe (inspectPayload sys buffer p) Q := by
  refine .ite (fun hp => ?_) fun _ => ?_
  · refine (safe_sub (by omega)).bind fun room hroom => (safe_window (by omega)).bind fun payload hpay => ?_
    refine .ite (fun _ => ?_) fun _ => .ite (fun hudp => ?_) fun _ => .ok h.nothing
    · refine (looksLikeTlsHandshake_safe payload).bind fun tls _ => .ite (fun _ => ?_) fun _ => ?_
      · exact (parseTLS_safe payload h).bind fun q hq => .ok (h.classifyPorts hq)
      · exact (parseHTTP_safe payload h).bind fun q hq => .ok (h.classifyPorts hq)
    · exact (parseQuic_safe sys.mbedtls (by omega) hudp h).bind fun q hq => .ok (h.classifyPorts hq)
  · refine .ite (fun _ => .ok (h.classifyPorts h.nothing)) fun _ => .ite (fun _ => ?_) fun _ => .ok h.nothing
    exact .ok (h.classifyPorts h.nothing)

end Parse

theorem inspectPayload_safe (sys : Platform) {buffer : Bytes} (h : buffer.length < 2 ^ 63) (p : ParsedPacket) :
    Safe (inspectPayload sys buffer p) (Enriches p) := inspectPayload_tells sys h (tells_enriches p)

theorem enriches_markEncrypted (p : ParsedPacket) : Enriches p (markEncrypted p) := by
  unfold markEncrypted
  split <;> exact rfl

theorem linkLayer_le {w : Bytes} {link : LinkType} {e : ℕ × ℕ} (h : linkLayer w link = some e) :
    e.1 ≤ w.length := by
  unfold linkLayer at h
  cases link with
  | Ethernet => exact ethernet_le h
  | LinuxSLL | LinuxSLL2 =>
    dsimp only at h
    split_ifs at h
    cases h
    dsimp only
    omega
  | NullLoopback | Loop =>
    dsimp only at h
    split_ifs at h
    obtain ⟨etherType, -, rfl⟩ := Option.map_eq_some_iff.mp h
    dsimp only
    omega
  | RawIP =>
    obtain ⟨etherType, -, rfl⟩ := Option.map_eq_some_iff.mp h
    exact Nat.zero_le _
  | IPv4 | IPv6 =>
    cases h
    exact Nat.zero_le _
  | Unsupported => cases h

/-- What `parse` starts from. -/
def blank (rawData : PacketData) : ParsedPacket :=
  { timestamp := rawData.timestamp, length := rawData.length, protocol := "Unknown" }

/-- What the decoders leave of a frame with a network layer. -/
def decoded (sys : Platform) (rawData : PacketData) (network : ℕ × ℕ) : ParsedPacket :=
  descend sys (kMaxTunnelDepth + 1) network.1 (rawData.payload.drop network.1) network.2 (blank rawData)

theorem decoded_fits (sys : Platform) {rawData : PacketData} {network : ℕ × ℕ}
    (hl : linkLayer rawData.payload rawData.linkType = some network) :
    Fits rawData.payload.length (decoded sys rawData network) := by
  have hle := linkLayer_le hl
  exact descend_fits sys (by rw [List.length_drop]; omega) (.inl rfl)

theorem decoded_unlabelled (sys : Platform) (rawData : PacketData) (network : ℕ × ℕ) :
    Unlabelled (decoded sys rawData network) := descend_unlabelled sys _ _ _ _ rfl

/-- `parse` on a frame without a network layer. -/
theorem parse_none (sys : Platform) {rawData : PacketData}
    (hl : linkLayer rawData.payload rawData.linkType = none ∨ rawData.payload = []) :
    ∃ protocol ∈ ["Unknown", "Unsupported link type", "Truncated"],
      parse sys rawData = .ok { blank rawData with protocol } := by
  unfold parse
  dsimp only
  by_cases hb : rawData.payload = []
  · exact ⟨"Unknown", by simp, by rw [if_pos hb, pure_eq]; rfl⟩
  · rw [if_neg hb, decodeLinkLayer_eq, hl.resolve_right hb, ok_bind]
    by_cases hu : rawData.linkType = .Unsupported
    · exact ⟨"Unsupported link type", by simp, by simp [hu, blank]⟩
    · exact ⟨"Truncated", by simp, by simp [hu, blank]⟩

/-- `parse` on a frame with a network layer: the descent, then the payload. -/
theorem parse_some (sys : Platform) {rawData : PacketData} {network : ℕ × ℕ}
    (hl : linkLayer rawData.payload rawData.linkType = some network) (hb : rawData.payload ≠ []) :
    parse sys rawData =
      markEncrypted <$> inspectPayload sys rawData.payload (decoded sys rawData network) := by
  have hspan : span rawData.payload network.1 rawData.payload.length = rawData.payload.drop network.1 := by
    rw [← Nat.zero_add network.1, ← drop_span, span_whole, Nat.zero_add]
  unfold parse
  dsimp only
  rw [if_neg hb, decodeLinkLayer_eq, hl, ok_bind]
  dsimp only
  rw [decodeNetwork_eq sys _ (by decide) le_rfl, ok_bind, hspan]
  rfl

theorem parse_fits (sys : Platform) (rawData : PacketData) :
    Safe (parse sys rawData) (Fits rawData.payload.length) := by
  by_cases hb : rawData.payload = []
  · obtain ⟨protocol, -, hp⟩ := parse_none sys (.inr hb)
    exact .of_eq hp (.inl rfl)
  cases hl : linkLayer rawData.payload rawData.linkType with
  | none =>
    obtain ⟨protocol, -, hp⟩ := parse_none sys (.inl hl)
    exact .of_eq hp (.inl rfl)
  | some network =>
    have hfits := decoded_fits sys hl
    rw [parse_some sys hl hb]
    refine (inspectPayload_safe sys rawData.fits _).map fun q hq => ?_
    exact (hq.trans (enriches_markEncrypted q)).fits hfits

/-- `parse` is total and memory safe on every frame of every link type: it ends
in a value, with at most `kMaxTunnelDepth + 1` descents and every read and every
subtraction in bounds, and locates no payload or one inside the frame. -/
theorem parse_safe (sys : Platform) (rawData : PacketData) :
    ∃ parsed, parse sys rawData = .ok parsed ∧
      (parsed.payloadLength = 0 ∨
        parsed.payloadOffset + parsed.payloadLength ≤ rawData.payload.length) :=
  parse_fits sys rawData

end ProtocolParser
end NetProbe
