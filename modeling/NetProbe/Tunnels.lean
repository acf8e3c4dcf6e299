/-
# What a carrier leaves behind

A frame inside a tunnel is decoded into a packet its carrier has written to
already, and some descents are used up. The depth does not matter as long as the
frame holds no more tunnels than are left (`descend_depth`). The carrier's
traces do: what the inner layers write replaces them (`Masks`), so that an inner
frame with a transport payload reads as it does on its own, and one without
keeps the carrier's ports and payload (`descend_masks`).

Key definitions: `NestsWithin`, `CarriesPayload`, `Masks`, `recast`, `Echoes`, `LeavesTold`.
Key theorems: `descend_depth`, `descend_masks`, `carriesPayload_iff`,
`inspectPayload_recast`.
-/
import NetProbe.ParserSafety

namespace NetProbe
namespace ProtocolParser

open Checked Bytes

/-! ### Depth -/

/-- From the layer of `etherType` in `w` on, at most `n` tunnel headers lie one
inside the other. -/
def NestsWithin (sys : Platform) : (n : ℕ) → Bytes → (etherType : ℕ) → Prop
  | 0, w, etherType => (layer sys w etherType).tunnel.isNone = true
  | n + 1, w, etherType => ∀ t ∈ (layer sys w etherType).tunnel, ∀ i ∈ t.inner,
      NestsWithin sys n i.bytes i.etherType

instance decidableNestsWithin (sys : Platform) : ∀ (n : ℕ) (w : Bytes) (etherType : ℕ),
    Decidable (NestsWithin sys n w etherType)
  | 0, _, _ => inferInstanceAs (Decidable (_ = true))
  | n + 1, w, etherType =>
    have := decidableNestsWithin sys n
    inferInstanceAs (Decidable (∀ t ∈ (layer sys w etherType).tunnel, ∀ i ∈ t.inner,
      NestsWithin sys n i.bytes i.etherType))

/-- A frame that uses fewer descents than there are is decoded the same. -/
theorem descend_depth {sys : Platform} : ∀ {k n m : ℕ} {w : Bytes} {etherType : ℕ},
    NestsWithin sys k w etherType → k < n → k < m → ∀ (base : ℕ) (p : ParsedPacket),
    descend sys n base w etherType p = descend sys m base w etherType p := by
  intro k
  induction k with
  | zero =>
    intro n m w etherType h hn hm base p
    obtain ⟨n, rfl⟩ : ∃ n', n = n' + 1 := ⟨n - 1, by omega⟩
    obtain ⟨m, rfl⟩ : ∃ m', m = m' + 1 := ⟨m - 1, by omega⟩
    have ht : (layer sys w etherType).tunnel = none := Option.isNone_iff_eq_none.mp h
    simp only [descend, Layer.decode, Upper.decode, decodeTunnel, ht]
  | succ k ih =>
    intro n m w etherType h hn hm base p
    obtain ⟨n, rfl⟩ : ∃ n', n = n' + 1 := ⟨n - 1, by omega⟩
    obtain ⟨m, rfl⟩ : ∃ m', m = m' + 1 := ⟨m - 1, by omega⟩
    simp only [descend, Layer.decode, Upper.decode, decodeTunnel]
    rw [decide_eq_true (show 0 < n by omega), decide_eq_true (show 0 < m by omega)]
    cases ht : (layer sys w etherType).tunnel with
    | none => rfl
    | some t =>
      have henter : ∀ (base : ℕ) (p : ParsedPacket),
          t.enter (descend sys n) base p = t.enter (descend sys m) base p := by
        intro base p
        unfold Tunnel.enter enterInner
        cases hi : t.inner with
        | none => rfl
        | some i =>
          dsimp only
          rw [ih (h t ht i hi) (by omega) (by omega : k < m)]
      obtain ⟨r, -, hdeeper, -⟩ | ⟨-, hdecode⟩ := t.decode_cases true
      · cases hdeeper
      · calc t.decode (descend sys n) true _ _ = t.enter (descend sys n) _ _ := hdecode ..
          _ = t.enter (descend sys m) _ _ := henter ..
          _ = t.decode (descend sys m) true _ _ := (hdecode ..).symm

/-! ### Payload -/

/-- Some TCP or UDP header on the way in, complete, with a byte of payload after
it in its window. -/
def CarriesPayload (sys : Platform) : (n : ℕ) → Bytes → (etherType : ℕ) → Prop
  | 0, _, _ => False
  | n + 1, w, etherType =>
    (∃ ports ∈ (layer sys w etherType).report.ports, ports.payload.isSome = true) ∨
      ∃ t ∈ (layer sys w etherType).tunnel, ∃ i ∈ t.inner, CarriesPayload sys n i.bytes i.etherType

theorem payloadLength_apply {u : Upper} {n : ℕ} (hu : u.WellFormed n) (base : ℕ) (p : ParsedPacket) :
    (u.report.apply base p).payloadLength ≠ 0 ↔
      (∃ ports ∈ u.report.ports, ports.payload.isSome = true) ∨ p.payloadLength ≠ 0 := by
  obtain ⟨ports, hp, e, he, -, hl⟩ | ⟨hn, -, hl⟩ := payload_apply p u.report base
  · have := (hu.payload ports hp e he).1
    rw [hl]
    exact ⟨fun _ => .inl ⟨ports, hp, by simp [Option.mem_def.mp he]⟩, fun _ => by omega⟩
  · rw [hl]
    refine ⟨.inr, fun h => h.resolve_left ?_⟩
    rintro ⟨ports, hp, hs⟩
    simp [hn ports hp] at hs

/-- The payload located by a descent is one of its own or the one before. -/
theorem carriesPayload_iff {sys : Platform} : ∀ {n base etherType : ℕ} {w : Bytes} {p : ParsedPacket},
    (descend sys n base w etherType p).payloadLength ≠ 0 ↔
      CarriesPayload sys n w etherType ∨ p.payloadLength ≠ 0 := by
  intro n
  induction n with
  | zero => intro base etherType w p; simp [descend, CarriesPayload]
  | succ n ih =>
    intro base etherType w p
    obtain ⟨-, hu⟩ := layer_wellFormed sys w etherType
    unfold descend CarriesPayload Layer.decode Upper.decode
    generalize layer sys w etherType = l at *
    have hr := payloadLength_apply hu (base + l.origin) (setAddresses l.addresses p)
    rw [payloadLength_setAddresses] at hr
    generalize l.report.apply (base + l.origin) (setAddresses l.addresses p) = q at *
    cases ht : l.tunnel with
    | none =>
      simp only [decodeTunnel, hr]
      simp
    | some t =>
      have henter : (t.enter (descend sys n) (base + l.origin) q).payloadLength ≠ 0 ↔
          (∃ i ∈ t.inner, CarriesPayload sys n i.bytes i.etherType) ∨ q.payloadLength ≠ 0 := by
        have hpush : (t.push q).payloadLength = q.payloadLength := by rw [t.push_frame]
        rw [Tunnel.enter, payloadLength_settle, ← hpush]
        cases t.inner with
        | none => simp [enterInner]
        | some i => simp [enterInner, ih]
      have hdecode : (t.decode (descend sys n) (decide (0 < n)) (base + l.origin) q).payloadLength ≠ 0 ↔
          (∃ i ∈ t.inner, CarriesPayload sys n i.bytes i.etherType) ∨ q.payloadLength ≠ 0 := by
        obtain ⟨r, hl, hdeeper, hdecode⟩ | ⟨-, hdecode⟩ := t.decode_cases (0 < n)
        · obtain rfl : n = 0 := Nat.eq_zero_of_not_pos (of_decide_eq_false hdeeper)
          have hplain : Upper.WellFormed { report := r } 0 :=
            .plain ((hu.tunnel t ht).atLimit r hl).1 ((hu.tunnel t ht).atLimit r hl).2
          have hlimit := payloadLength_apply hplain (base + l.origin) q
          rw [((hu.tunnel t ht).atLimit r hl).1] at hlimit
          rw [hdecode, hlimit]
          simp [CarriesPayload]
        · rw [hdecode]
          exact henter
      rw [decodeTunnel, hdecode, hr]
      simp only [Option.mem_def, Option.some.injEq, exists_eq_left']
      exact or_left_comm.trans or_assoc.symm

/-! ### What the inner layers replace -/

/-- `p` was decoded inside a carrier of `d` bytes, `q` from the same layers on
their own: what `p` still has of the carrier are the fields no inner layer has
written, and of these the ports and the payload go together. -/
structure Masks (d : ℕ) (p q : ParsedPacket) : Prop where
  tcp : p.tcpSeq = q.tcpSeq ∧ p.tcpSyn = q.tcpSyn ∧ p.tcpAck = q.tcpAck ∧ p.tcpFin = q.tcpFin ∧
    p.tcpRst = q.tcpRst
  labels : p.sni = q.sni ∧ p.service = q.service ∧ p.hostname = q.hostname ∧ p.info = q.info ∧
    p.encryptedTunnel = q.encryptedTunnel
  addresses : q.srcIP = "" ∨ (p.srcIP = q.srcIP ∧ p.dstIP = q.dstIP)
  protocol : q.protocol ∈ placeholders ∨ p.protocol = q.protocol
  carrier : p.payloadLength ≠ 0
  payload : q.payloadLength = 0 ∨ (p.srcPort = q.srcPort ∧ p.dstPort = q.dstPort ∧
    p.payloadOffset = q.payloadOffset + d ∧ p.payloadLength = q.payloadLength)

namespace Masks

variable {d base : ℕ} {p q : ParsedPacket}

theorem ports (r : Ports) (hr : ∀ e ∈ r.payload, 0 < e.2) (h : Masks d p q) :
    Masks d (r.apply (base + d) p) (r.apply base q) := by
  obtain ⟨src, dst, _ | ⟨offset, length⟩⟩ := r
  · exact ⟨h.tcp, h.labels, h.addresses, h.protocol, h.carrier, h.payload.imp_right fun hp => ⟨rfl, rfl, hp.2.2⟩⟩
  · exact ⟨h.tcp, h.labels, h.addresses, h.protocol, Nat.pos_iff_ne_zero.mp (hr _ rfl),
      .inr ⟨rfl, rfl, Nat.add_right_comm .., rfl⟩⟩

theorem tcpFields (r : TcpFields) (h : Masks d p q) : Masks d (r.apply p) (r.apply q) :=
  ⟨⟨rfl, rfl, rfl, rfl, rfl⟩, h.labels, h.addresses, h.protocol, h.carrier, h.payload⟩

theorem setProtocol (protocol : Option String) (h : Masks d p q) :
    Masks d { p with protocol := protocol.getD p.protocol } { q with protocol := protocol.getD q.protocol } := by
  cases protocol with
  | none => exact h
  | some protocol => exact ⟨h.tcp, h.labels, h.addresses, .inr rfl, h.carrier, h.payload⟩

theorem label (service : Option String) (encrypted : Bool) (h : Masks d p q) :
    Masks d
      { p with service := service.getD p.service, encryptedTunnel := encrypted || p.encryptedTunnel }
      { q with service := service.getD q.service, encryptedTunnel := encrypted || q.encryptedTunnel } := by
  obtain ⟨hsni, hservice, hhost, hinfo, henc⟩ := h.labels
  exact ⟨h.tcp, ⟨hsni, congrArg service.getD hservice, hhost, hinfo, congrArg (encrypted || ·) henc⟩,
    h.addresses, h.protocol, h.carrier, h.payload⟩

theorem apply {n : ℕ} {u : Upper} (hu : u.WellFormed n) (h : Masks d p q) :
    Masks d (u.report.apply (base + d) p) (u.report.apply base q) := by
  unfold Report.apply
  refine label _ _ ?_
  have hports : ∀ r, u.report.ports = some r → Masks d
      (r.apply (base + d) { p with protocol := u.report.protocol.getD p.protocol })
      (r.apply base { q with protocol := u.report.protocol.getD q.protocol }) :=
    fun r hr => (h.setProtocol _).ports r fun e he => (hu.payload r hr e he).1
  cases ht : u.report.tcp with
  | none =>
    cases hp : u.report.ports with
    | none => exact h.setProtocol _
    | some r => exact hports r hp
  | some t =>
    cases hp : u.report.ports with
    | none => exact (h.setProtocol _).tcpFields t
    | some r => exact (hports r hp).tcpFields t

theorem push (name : String) (h : Masks d p q) : Masks d (pushTunnel p name) (pushTunnel q name) := by
  rw [pushTunnel_frame p, pushTunnel_frame q]
  exact ⟨h.tcp, h.labels, h.addresses, h.protocol, h.carrier, h.payload⟩

/-- A placeholder stands only where neither has a protocol of the inner layers. -/
theorem settle {n : ℕ} {t : Tunnel} (ht : t.WellFormed n) (h : Masks d p q) :
    Masks d (t.settle p) (t.settle q) := by
  have hprotocol : (t.settle q).protocol ∈ placeholders ∨ (t.settle p).protocol = (t.settle q).protocol := by
    unfold Tunnel.settle
    by_cases hq : q.protocol ∈ t.placeholder
    · rw [if_pos hq]
      refine ht.settle.elim (fun he => ?_) .inl
      simp [he] at hq
    · rw [if_neg hq]
      refine h.protocol.imp_right fun he => ?_
      rw [if_neg (he ▸ hq), he]
  rw [t.settle_frame p, t.settle_frame q]
  exact ⟨h.tcp, h.labels, h.addresses, hprotocol, h.carrier, h.payload⟩

end Masks

theorem masks_preserved (size d : ℕ) : Preserved size d (Masks d) (Masks d) where
  stop h := h
  addresses a h := by
    cases a with
    | none => exact h
    | some a => exact ⟨h.tcp, h.labels, .inr ⟨rfl, rfl⟩, h.protocol, h.carrier, h.payload⟩
  through hu _ _ h := h.apply hu
  last hu _ h := h.apply hu
  push name h := h.push name
  settle ht h := h.settle ht

theorem descend_masks (sys : Platform) {descents base etherType d : ℕ} {w : Bytes} {p q : ParsedPacket}
    (h : Masks d p q) :
    Masks d (descend sys descents (base + d) w etherType p) (descend sys descents base w etherType q) :=
  descend_preserved (masks_preserved (base + w.length) d) le_rfl h

/-! ### The application walks do not look at the frame -/

/-- `q` with the fields that say where in which frame it was found taken from `p`. -/
def recast (p q : ParsedPacket) : ParsedPacket :=
  { q with
    timestamp := p.timestamp, length := p.length, payloadOffset := p.payloadOffset, tunnel := p.tunnel
    outerSrcIP := p.outerSrcIP, outerDstIP := p.outerDstIP }

/-- `p` is `q`, decoded `d` bytes further into another frame. -/
structure Echoes (d : ℕ) (p q : ParsedPacket) : Prop where
  fields : p = recast p q
  payload : q.payloadLength = 0 ∨ p.payloadOffset = q.payloadOffset + d

/-- A packet with a payload of its own is the inner one in the carrier's frame. -/
theorem Masks.echoes {d : ℕ} {p q : ParsedPacket} (h : Masks d p q) (hs : q.srcIP ≠ "")
    (hp : q.protocol ∉ placeholders) (hl : q.payloadLength ≠ 0) : Echoes d p q := by
  obtain ⟨h1, h2, h3, h4, h5⟩ := h.tcp
  obtain ⟨h6, h7, h8, h9, h10⟩ := h.labels
  obtain ⟨h11, h12⟩ := h.addresses.resolve_left hs
  have h13 := h.protocol.resolve_left hp
  obtain ⟨h14, h15, h16, h17⟩ := h.payload.resolve_left hl
  refine ⟨?_, .inr h16⟩
  unfold recast
  rw [← h1, ← h2, ← h3, ← h4, ← h5, ← h6, ← h7, ← h8, ← h9, ← h10, ← h11, ← h12, ← h13, ← h14, ← h15, ← h17]

/-- `f` leaves the names and the labels of a packet to the payload. -/
def LeavesTold (f : ParsedPacket → ParsedPacket) : Prop :=
  ∀ q sni service hostname info,
    f { q with sni, service, hostname, info } = { f q with sni, service, hostname, info }

theorem leavesTold_recast (p : ParsedPacket) : LeavesTold (recast p) := fun _ _ _ _ _ => rfl

namespace LeavesTold

variable {f : ParsedPacket → ParsedPacket} (hf : LeavesTold f) (q : ParsedPacket) (payload : Bytes)
include hf

theorem told_eq : f q = { f q with sni := q.sni, service := q.service, hostname := q.hostname, info := q.info } :=
  hf q q.sni q.service q.hostname q.info

theorem service_eq : (f q).service = q.service := by rw [hf.told_eq q]

theorem label (service : String) : f { q with service } = { f q with service } :=
  (hf q q.sni service q.hostname q.info).trans (by rw [hf.told_eq q])

theorem named (sni service : String) : f { q with sni, service } = { f q with sni, service } :=
  (hf q sni service q.hostname q.info).trans (by rw [hf.told_eq q])

theorem described (info service : String) : f { q with info, service } = { f q with info, service } :=
  (hf q q.sni service q.hostname info).trans (by rw [hf.told_eq q])

theorem hosted (hostname service : String) : f { q with hostname, service } = { f q with hostname, service } :=
  (hf q q.sni service hostname q.info).trans (by rw [hf.told_eq q])

theorem parseTLS : parseTLS payload (f q) = f <$> parseTLS payload q := by
  unfold ProtocolParser.parseTLS
  rcases parseTlsClientHello payload with e | _ | sni
  · rfl
  · rfl
  · simp only [ok_bind]
    split
    · rfl
    · exact congrArg Except.ok (hf.named q sni _).symm

theorem readHost (pos stop : ℕ) : readHost payload pos stop (f q) = f <$> readHost payload pos stop q := by
  unfold ProtocolParser.readHost
  rcases skipSpaces payload stop (payload.length + 1) (pos + 5) with e | start
  · rfl
  · simp only [ok_bind]
    split
    · rcases sub stop start with e | n
      · rfl
      · simp only [ok_bind]
        rcases payload.window start n with e | name
        · rfl
        · simp only [ok_bind]
          generalize identifyService (ofBytes name) = label
          rw [hf.service_eq]
          exact congrArg Except.ok (hf.hosted q ..).symm
    · rfl

theorem headerLoop (scanLen : ℕ) : ∀ (fuel pos : ℕ) (q : ParsedPacket),
    headerLoop payload scanLen fuel pos (f q) = f <$> headerLoop payload scanLen fuel pos q := by
  intro fuel
  induction fuel with
  | zero => intro pos q; rfl
  | succ fuel ih =>
    intro pos q
    unfold ProtocolParser.headerLoop
    split
    · rcases lineEnd payload scanLen (scanLen + 1) pos with e | stop
      · rfl
      · simp only [ok_bind]
        split
        · rfl
        split
        · rfl
        rcases sub stop pos with e | n
        · rfl
        simp only [ok_bind]
        split
        · rcases isHostHeader payload pos with e | _ | _
          · rfl
          · exact ih (stop + 2) q
          · exact hf.readHost q payload pos stop
        · exact ih (stop + 2) q
    · rfl

theorem parseHTTP : parseHTTP payload (f q) = f <$> parseHTTP payload q := by
  unfold ProtocolParser.parseHTTP
  rw [hf.service_eq]
  extract_lets scanLen service rest rest'
  have hrest : ∀ isResponse, rest isResponse = f <$> rest' isResponse := by
    intro isResponse
    dsimp only [rest, rest']
    split
    · rcases lineEnd payload scanLen (scanLen + 1) 0 with e | stop
      · rfl
      simp only [ok_bind]
      rcases payload.window 0 stop with e | info
      · rfl
      · exact congrArg Except.ok (hf.described q ..).symm
    · rcases isHttpMethod payload scanLen httpMethods with e | _ | _
      · rfl
      · rfl
      simp only [ok_bind, not_true_eq_false, if_false]
      rcases lineEnd payload scanLen (scanLen + 1) 0 with e | stop
      · rfl
      simp only [ok_bind]
      rcases payload.window 0 (min stop 120) with e | info
      · rfl
      · simp only [ok_bind]
        rw [← hf.described]
        exact hf.headerLoop payload scanLen (scanLen + 1) (stop + 2) { q with info := ofBytes info, service }
  split
  · rcases startsWith payload "HTTP/1." with e | isResponse
    · rfl
    · exact hrest isResponse
  · exact hrest false

theorem parseQuic (m : Mbedtls) : parseQuic m payload (f q) = f <$> parseQuic m payload q := by
  have hlabel : ∀ q, (if (f q).service = "" then { f q with service := "QUIC" } else f q) =
      f (if q.service = "" then { q with service := "QUIC" } else q) := by
    intro q
    have hsame := hf.service_eq q
    by_cases h : q.service = ""
    · rw [if_pos h, if_pos (hsame.trans h)]
      exact (hf.label q "QUIC").symm
    · rw [if_neg h, if_neg (fun he => h (hsame.symm.trans he))]
  unfold ProtocolParser.parseQuic
  rcases QuicParser.looksLikeLongHeader payload with e | _ | _
  · rfl
  · rfl
  simp only [ok_bind, if_true]
  rcases QuicParser.extractInitialSni m payload with e | _ | sni
  · rfl
  · exact congrArg Except.ok (hlabel q)
  · have hnamed := hlabel { q with sni, service := if q.service = "" then identifyService sni else q.service }
    rw [hf.named] at hnamed
    rw [hf.service_eq]
    exact congrArg Except.ok hnamed

end LeavesTold

section Recast

variable (p q : ParsedPacket)

theorem classifyPort_recast (table : ℕ → Option String) (port : ℕ) :
    classifyPort table port (recast p q) = recast p (classifyPort table port q) := by
  unfold classifyPort
  split
  · rw [if_pos (by assumption)]
  · rw [if_neg (by assumption)]
    cases table port <;> rfl

theorem classifyPorts_recast (table : ℕ → Option String) :
    classifyPorts (classifyPort table) (recast p q) = recast p (classifyPorts (classifyPort table) q) := by
  unfold classifyPorts
  rw [← classifyPort_recast, ← classifyPort_recast]
  rfl

theorem markEncrypted_recast : markEncrypted (recast p q) = recast p (markEncrypted q) := by
  unfold markEncrypted
  split
  · rw [if_pos (by assumption)]
    rfl
  · rw [if_neg (by assumption)]

end Recast

/-- The result of `inspectPayload` depends on the payload bytes, not on where in
which frame they lie. -/
theorem inspectPayload_recast (sys : Platform) {outer inner : Bytes} {p q : ParsedPacket}
    (hp : Fits outer.length (recast p q)) (hq : Fits inner.length q) (hl : q.payloadLength ≠ 0)
    (hs : slice outer p.payloadOffset q.payloadLength = slice inner q.payloadOffset q.payloadLength) :
    inspectPayload sys outer (recast p q) = recast p <$> inspectPayload sys inner q := by
  have hp := hp.resolve_left hl
  have hq := hq.resolve_left hl
  change p.payloadOffset + q.payloadLength ≤ outer.length at hp
  have hlen : (recast p q).payloadLength = q.payloadLength := rfl
  have hoff : (recast p q).payloadOffset = p.payloadOffset := rfl
  unfold inspectPayload
  rw [hlen, hoff, if_pos (by omega), if_pos (by omega), sub_eq (by omega), sub_eq (by omega)]
  simp only [ok_bind]
  rw [min_eq_left (by omega), min_eq_left (by omega), window_eq hp, window_eq hq, hs]
  simp only [ok_bind]
  generalize inner.slice q.payloadOffset q.payloadLength = payload
  show (if q.protocol = "TCP" then _ else if q.protocol = "UDP" then _ else _) = _
  split
  · rcases looksLikeTlsHandshake payload with e | _ | _
    · rfl
    · simp only [ok_bind, Bool.false_eq_true, if_false, (leavesTold_recast p).parseHTTP]
      rcases parseHTTP payload q with e | r
      · rfl
      · exact congrArg Except.ok (classifyPorts_recast p r tcpPortService)
    · simp only [ok_bind, if_true, (leavesTold_recast p).parseTLS]
      rcases parseTLS payload q with e | r
      · rfl
      · exact congrArg Except.ok (classifyPorts_recast p r tcpPortService)
  split
  · rw [(leavesTold_recast p).parseQuic]
    rcases parseQuic sys.mbedtls payload q with e | r
    · rfl
    · exact congrArg Except.ok (classifyPorts_recast p r udpPortService)
  · rfl

/-- Without a payload only the ports are looked at. -/
theorem inspectPayload_recast_empty (sys : Platform) (outer inner : Bytes) (p : ParsedPacket) {q : ParsedPacket}
    (h : q.payloadLength = 0) : inspectPayload sys outer (recast p q) = recast p <$> inspectPayload sys inner q := by
  have hnone : ∀ (b : Bytes) (q : ParsedPacket), q.payloadLength = 0 → inspectPayload sys b q =
      .ok (if q.protocol = "TCP" then classifyPorts classifyTcpPort q
        else if q.protocol = "UDP" then classifyPorts classifyUdpPort q else q) := by
    intro b q hq
    unfold inspectPayload
    rw [if_neg (by omega)]
    split_ifs <;> rfl
  rw [hnone outer (recast p q) h, hnone inner q h, map_ok]
  show Except.ok (if q.protocol = "TCP" then _ else if q.protocol = "UDP" then _ else _) = _
  split_ifs
  · exact congrArg Except.ok (classifyPorts_recast p q tcpPortService)
  · exact congrArg Except.ok (classifyPorts_recast p q udpPortService)
  · rfl

end ProtocolParser
end NetProbe
