/-
# Fragments

Only the first fragment of an IP packet has the transport header. The decoder
stops at an IPv4 fragment with an offset, but the IPv6 walk reads the next
header of a Fragment header and not its offset, so what follows the header is
decoded as that protocol whatever fragment it is. `innermost` is the last IP
packet that a descent decodes, with the packet as its carriers left it; of a
continuation fragment nothing is reported exactly when the walk ends in neither
TCP nor UDP, and no UDP tunnel's protocol shows through (`continuation_untouched_iff`).

Key definitions: `innermost`, `Visited`, `Visit.Continuation`, `Visit.Harmless`, `Untouched`, `Silent`.
Key theorems: `descend_kept`, `descend_visited`, `entry_innermost`, `continuation_untouched_iff`.
-/
import NetProbe.FlowKeys
import NetProbe.Nesting

namespace NetProbe
namespace ProtocolParser

open Checked Bytes

/-! ### The innermost IP packet -/

/-- What is inside the tunnel, when the decoder looks into it. -/
def Tunnel.inside (t : Tunnel) (deeper : Bool) : Option Inner :=
  match t.atLimit, deeper with
  | some _, false => none
  | _, _ => t.inner

/-- The window is an IP packet with a header the decoder takes. -/
def decodesIP (sys : Platform) (w : Bytes) (etherType : ℕ) : Bool :=
  (etherType = kEthIPv4 || etherType = kEthIPv6) && (layer sys w etherType).addresses.isSome

/-- The packet when the header at `base` has been read. -/
def Layer.read (l : Layer) (base : ℕ) (p : ParsedPacket) : ParsedPacket :=
  l.report.apply (base + l.origin) (setAddresses l.addresses p)

/-- A layer of a descent: the descents left below it, where it starts, its
window and its EtherType, the tunnels it is in and the packet before it. -/
structure Visit where
  descents : ℕ
  base : ℕ
  bytes : Bytes
  etherType : ℕ
  carriers : List String
  before : ParsedPacket

/-- The last IP packet that the descent decodes. -/
def innermost (sys : Platform) : (descents base : ℕ) → Bytes → (etherType : ℕ) → (carriers : List String) →
    ParsedPacket → Option Visit
  | 0, _, _, _, _, _ => none
  | descents + 1, base, w, etherType, carriers, p =>
    let l := layer sys w etherType
    let deeper := l.tunnel.bind fun t => (t.inside (0 < descents)).bind fun i =>
      innermost sys descents (base + l.origin + i.offset) i.bytes i.etherType (carriers ++ t.name.toList)
        (t.push (l.read base p))
    deeper.or (if decodesIP sys w etherType then some ⟨descents, base, w, etherType, carriers, p⟩ else none)

namespace Visit

/-- What the descent makes of the layer and of what is below it. -/
def decode (sys : Platform) (v : Visit) : ParsedPacket :=
  descend sys (v.descents + 1) v.base v.bytes v.etherType v.before

/-- One of the tunnels is VXLAN or GENEVE, which run over UDP. -/
def OverUdp (v : Visit) : Prop := "VXLAN" ∈ v.carriers ∨ "GENEVE" ∈ v.carriers

end Visit

/-- A Fragment header with an offset stands in the chain of extension headers that starts `w`. -/
def v6Continues : (fuel nh : ℕ) → Bytes → Bool
  | 0, _, _ => false
  | fuel + 1, nh, w =>
    (nh = 44 && 4 ≤ w.length && u16 w 2 &&& 0xFFF8 ≠ 0) ||
      match v6Extension nh w with
      | none => false
      | some (len, next) => v6Continues fuel next (w.drop len)

/-- The IPv6 packet in the window, and the upper-layer protocol its chain ends in. -/
def v6Packet (w : Bytes) : Bytes := w.take (40 + u16 w 4)

def v6Upper (w : Bytes) : ℕ := (v6Chain (v6Packet w).length (u8 w 6) ((v6Packet w).drop 40)).1

/-- A fragment with an offset. -/
def Visit.Continuation (v : Visit) : Prop :=
  (v.etherType = kEthIPv4 ∧ u16 v.bytes 6 &&& 0x1FFF ≠ 0) ∨
    (v.etherType = kEthIPv6 ∧ v6Continues (v6Packet v.bytes).length (u8 v.bytes 6) ((v6Packet v.bytes).drop 40) = true)

/-- No protocol is written: the headers are tunnels and the last of them has nothing readable in it. -/
def Tunnel.Quiet (inside : Bytes → ℕ → Prop) (deeper : Bool) (t : Tunnel) : Prop :=
  match t.atLimit, deeper with
  | some r, false => r.protocol = none
  | _, _ => ∀ i ∈ t.inner, inside i.bytes i.etherType

/-- From the layer of `etherType` in `w` on the decoder writes no protocol. -/
def Silent (sys : Platform) : (descents : ℕ) → Bytes → (etherType : ℕ) → Prop
  | 0, _, _ => True
  | descents + 1, w, etherType =>
    (layer sys w etherType).report.protocol = none ∧
      ∀ t ∈ (layer sys w etherType).tunnel, t.Quiet (Silent sys descents) (0 < descents)

/-- The packet is IPv4, or its chain ends neither in TCP nor in UDP and, in a
tunnel over UDP, some protocol is written for it. -/
def Visit.Harmless (sys : Platform) (v : Visit) : Prop :=
  v.etherType = kEthIPv4 ∨
    v6Upper v.bytes ≠ 6 ∧ v6Upper v.bytes ≠ 17 ∧ (v.OverUdp → ¬ Silent sys (v.descents + 1) v.bytes v.etherType)

/-- `r` has nothing of a transport header but what was there `before`, no name
and no key, and changes no flow. -/
structure Untouched (before r : ParsedPacket) : Prop where
  ports : r.srcPort = before.srcPort ∧ r.dstPort = before.dstPort
  flags : r.tcpSyn = false ∧ r.tcpAck = false ∧ r.tcpFin = false ∧ r.tcpRst = false
  payload : r.payloadOffset = before.payloadOffset ∧ r.payloadLength = before.payloadLength
  names : r.sni = "" ∧ r.hostname = "" ∧ r.info = ""
  key : FlowAggregator.keyFor r = none
  flows : ∀ flows hostname process, FlowAggregator.update flows r hostname process = flows

/-! ### Headers that name no transport -/

/-- The protocol is one that flows are kept for. -/
def IsTransport (p : ParsedPacket) : Prop := p.protocol = "TCP" ∨ p.protocol = "UDP"

/-- No ports, no flags, and no protocol that flows are kept for. -/
structure Report.Bland (r : Report) : Prop where
  ports : r.ports = none
  tcp : r.tcp = none
  protocol : ∀ name ∈ r.protocol, name ≠ "TCP" ∧ name ≠ "UDP"

structure Tunnel.Bland (t : Tunnel) : Prop where
  atLimit : ∀ r ∈ t.atLimit, r.Bland
  placeholder : ∀ name ∈ t.placeholder, name ≠ "TCP" ∧ name ≠ "UDP"
  label : t.label ≠ "TCP" ∧ t.label ≠ "UDP"

theorem bland_empty : Report.Bland {} := ⟨rfl, rfl, by simp⟩

theorem bland_protocol {name : String} (h : name ≠ "TCP" ∧ name ≠ "UDP") (service : Option String) (encrypted : Bool) :
    Report.Bland { protocol := some name, service, encryptedTunnel := encrypted } := ⟨rfl, rfl, by simpa using h⟩

theorem ipInIp_bland (name : String) {l4Proto : ℕ} (h : l4Proto = 4 ∨ l4Proto = 41) (etherType : ℕ) (w : Bytes) :
    (ipInIp name l4Proto etherType w).Bland := by
  refine ⟨?_, by simp [ipInIp], by simp [ipInIp]⟩
  intro r hr
  obtain rfl := Option.some.inj hr
  rcases h with rfl | rfl <;> exact bland_protocol (by decide) ..

theorem gre_bland (w : Bytes) : (gre w).Bland := by
  refine ⟨?_, by simp [gre], by simp [gre]⟩
  intro r hr
  obtain rfl := Option.some.inj hr
  exact bland_protocol (by decide) ..

theorem udpTunnel_bland {w : Bytes} {t : Tunnel} (h : udpTunnel w = some t) : t.Bland := by
  unfold udpTunnel at h
  split_ifs at h
  · unfold vxlan at h
    split_ifs at h
    cases h
    exact ⟨by simpa using bland_empty, by simp, by simp⟩
  · unfold geneve at h
    dsimp only at h
    split_ifs at h
    cases h
    exact ⟨by simpa using bland_empty, by simp, by simp⟩

theorem udpLayer_tunnel {w : Bytes} {t : Tunnel} (h : t ∈ (udpLayer w).tunnel) :
    8 < (datagram w).length ∧ udpTunnel (datagram w) = some t := by
  simp only [udpLayer] at h
  split_ifs at h with hl
  · cases h
  · exact ⟨not_le.mp hl, h⟩

theorem transportLayer_tunnel_bland {w : Bytes} {l4Proto : ℕ} : ∀ t ∈ (transportLayer w l4Proto).tunnel, t.Bland := by
  intro t ht
  unfold transportLayer at ht
  split_ifs at ht with h6 h17 h1 h58 h4 h41 h47 h50
  · cases ht
  · exact udpTunnel_bland (udpLayer_tunnel ht).2
  · cases ht
  · cases ht
  · obtain rfl := Option.some.inj ht
    exact ipInIp_bland _ (.inl rfl) ..
  · obtain rfl := Option.some.inj ht
    exact ipInIp_bland _ (.inr rfl) ..
  · obtain rfl := Option.some.inj ht
    exact gre_bland w
  · cases ht
  · cases ht

/-- No header but TCP and UDP gives ports or a protocol that flows are kept for. -/
theorem transportLayer_bland {w : Bytes} {l4Proto : ℕ} (h6 : l4Proto ≠ 6) (h17 : l4Proto ≠ 17) :
    (transportLayer w l4Proto).report.Bland := by
  have hnumber : ∀ n : ℕ, "IP proto " ++ toString n ≠ "TCP" ∧ "IP proto " ++ toString n ≠ "UDP" := fun n =>
    ⟨fun h => absurd (congrArg (fun s : String => s.toList.head?) h) (by simp),
      fun h => absurd (congrArg (fun s : String => s.toList.head?) h) (by simp)⟩
  have hname : ∀ n, ∀ name ∈ ipProtocolName n, name ≠ "TCP" ∧ name ≠ "UDP" := by
    intro n name h
    unfold ipProtocolName at h
    split at h <;> cases h <;> decide
  unfold transportLayer
  rw [if_neg h6, if_neg h17]
  split_ifs
  · exact bland_protocol (by decide) ..
  · exact bland_protocol (by decide) ..
  · exact bland_empty
  · exact bland_empty
  · exact bland_empty
  · exact bland_protocol (by decide) ..
  · refine bland_protocol ?_ ..
    cases hn : ipProtocolName l4Proto with
    | none => exact hnumber l4Proto
    | some name => exact hname l4Proto name hn

theorem layer_tunnel_bland {sys : Platform} {w : Bytes} {etherType : ℕ} :
    ∀ t ∈ (layer sys w etherType).tunnel, t.Bland := by
  apply layer_cases (P := fun u _ => ∀ t ∈ u.tunnel, t.Bland) sys w etherType
  case transport => exact fun _ _ _ _ => transportLayer_tunnel_bland
  case mpls =>
    intro t ht
    obtain rfl := Option.some.inj ht
    exact ⟨by simp [mpls], by simp [mpls], by simp [mpls]⟩
  case pppoe =>
    intro t ht
    obtain rfl := Option.some.inj ht
    exact ⟨by simp [pppoe], by simp [pppoe], by simp [pppoe]⟩
  case empty => simp
  case unlabelled => simp
  case arp => simp

/-- A layer that is no IP packet gives none either. -/
theorem layer_bland {sys : Platform} {w : Bytes} {etherType : ℕ} (h : decodesIP sys w etherType = false) :
    (layer sys w etherType).report.Bland := by
  have hname : ∀ n, ∀ name ∈ etherTypeName n, name ≠ "TCP" ∧ name ≠ "UDP" := by
    intro n name h
    unfold etherTypeName at h
    split at h <;> cases h <;> decide
  unfold decodesIP at h
  unfold layer at h ⊢
  split_ifs at h ⊢ with hmpls hppp h4 h6 harp
  · exact bland_empty
  · exact bland_empty
  · unfold ipv4Layer at h ⊢
    dsimp only at h ⊢
    split_ifs at h ⊢
    · exact bland_empty
    · simp [h4] at h
    · simp [h4] at h
  · unfold ipv6Layer at h ⊢
    dsimp only at h ⊢
    split_ifs at h ⊢
    · exact bland_empty
    · simp [h6] at h
  · unfold arpLayer
    dsimp only
    split_ifs <;> exact bland_protocol (by decide) ..
  · refine bland_protocol ?_ ..
    cases hn : etherTypeName etherType with
    | none => decide
    | some name => exact hname etherType name hn

/-! ### What they leave -/

/-- `q` is `p` with another route, protocol or label. -/
def Kept (p q : ParsedPacket) : Prop :=
  q = { p with
    srcIP := q.srcIP, dstIP := q.dstIP, protocol := q.protocol, tunnel := q.tunnel, outerSrcIP := q.outerSrcIP
    outerDstIP := q.outerDstIP, service := q.service, encryptedTunnel := q.encryptedTunnel }

section Stages

variable {p q : ParsedPacket}

theorem Kept.refl (p : ParsedPacket) : Kept p p := rfl

theorem Kept.trans {r : ParsedPacket} (h : Kept p q) (h' : Kept q r) : Kept p r := by
  unfold Kept at *
  rw [h', h]

theorem kept_setAddresses (a : Option (String × String)) (p : ParsedPacket) : Kept p (setAddresses a p) := by
  cases a <;> rfl

theorem kept_push (t : Tunnel) (p : ParsedPacket) : Kept p (t.push p) := by
  rw [t.push_frame]
  rfl

theorem kept_settle (t : Tunnel) (p : ParsedPacket) : Kept p (t.settle p) := by
  rw [t.settle_frame]
  rfl

theorem Report.Bland.kept {r : Report} (h : r.Bland) (base : ℕ) (p : ParsedPacket) : Kept p (r.apply base p) := by
  unfold Report.apply
  rw [h.ports, h.tcp]
  rfl

theorem isTransport_setAddresses (a : Option (String × String)) : IsTransport (setAddresses a p) ↔ IsTransport p := by
  cases a <;> exact Iff.rfl

theorem isTransport_push (t : Tunnel) : IsTransport (t.push p) ↔ IsTransport p := by
  rw [t.push_frame]
  exact Iff.rfl

theorem Tunnel.Bland.isTransport_settle {t : Tunnel} (h : t.Bland) : IsTransport (t.settle p) ↔ IsTransport p := by
  unfold Tunnel.settle
  split_ifs with hm
  · have hp := h.placeholder _ hm
    exact iff_of_false (not_or.mpr h.label) (not_or.mpr hp)
  · exact Iff.rfl

theorem Report.Bland.isTransport_apply {r : Report} (h : r.Bland) (base : ℕ) :
    IsTransport (r.apply base p) ↔ r.protocol = none ∧ IsTransport p := by
  unfold IsTransport
  rw [protocol_apply]
  cases hr : r.protocol with
  | none => simp
  | some name =>
    have hname := h.protocol name hr
    simp [hname.1, hname.2]

end Stages

/-- The decoder looks for nothing inside a tunnel that it reports, and into one that it enters. -/
theorem Tunnel.inside_cases (t : Tunnel) (deeper : Bool) :
    (∃ r ∈ t.atLimit, (∀ S, t.Quiet S deeper ↔ r.protocol = none) ∧ t.inside deeper = none ∧
      ∀ inside base p, t.decode inside deeper base p = r.apply base p) ∨
    ((∀ S, t.Quiet S deeper ↔ ∀ i ∈ t.inner, S i.bytes i.etherType) ∧ t.inside deeper = t.inner ∧
      ∀ inside base p, t.decode inside deeper base p = t.enter inside base p) := by
  unfold Tunnel.Quiet Tunnel.inside
  obtain ⟨r, hl, rfl, hdecode⟩ | ⟨hdeeper, hdecode⟩ := t.decode_cases deeper
  · rw [Option.mem_def.mp hl]
    exact .inl ⟨r, rfl, fun S => Iff.rfl, rfl, hdecode⟩
  · refine .inr ⟨fun S => ?_, ?_, hdecode⟩
    all_goals rcases hdeeper with hl | rfl
    · rw [hl]
    · cases t.atLimit <;> exact Iff.rfl
    · rw [hl]
    · cases t.atLimit <;> rfl

/-- What a tunnel leaves when the descent inside it writes no transport header:
the protocol survives it if nothing inside writes another. -/
theorem decodeTunnel_kept {f : Inside} {S : Bytes → ℕ → Prop} {deeper : Bool} {base : ℕ} {tunnel : Option Tunnel}
    {q : ParsedPacket} (ht : ∀ t ∈ tunnel, t.Bland)
    (hf : ∀ t ∈ tunnel, ∀ i ∈ t.inside deeper, Kept (t.push q) (f (base + i.offset) i.bytes i.etherType (t.push q)) ∧
      (IsTransport (f (base + i.offset) i.bytes i.etherType (t.push q)) ↔
        IsTransport (t.push q) ∧ S i.bytes i.etherType)) :
    Kept q (decodeTunnel f deeper base tunnel q) ∧
      (IsTransport (decodeTunnel f deeper base tunnel q) ↔ IsTransport q ∧ ∀ t ∈ tunnel, t.Quiet S deeper) := by
  cases tunnel with
  | none => exact ⟨.refl q, by simp [decodeTunnel]⟩
  | some t =>
    have hbland := ht t rfl
    simp only [decodeTunnel, Option.mem_def, Option.some.injEq, forall_eq']
    obtain ⟨r, hl, hquiet, -, hdecode⟩ | ⟨hquiet, hinside, hdecode⟩ := t.inside_cases deeper
    · have hr := hbland.atLimit r hl
      rw [hdecode, hquiet]
      exact ⟨hr.kept base q, (hr.isTransport_apply base).trans and_comm⟩
    · rw [hdecode, hquiet]
      cases hi : t.inner with
      | none =>
        simp only [Tunnel.enter, enterInner, hi, hbland.isTransport_settle, isTransport_push]
        exact ⟨(kept_push t q).trans (kept_settle t _), by simp⟩
      | some i =>
        obtain ⟨hkept, htransport⟩ := hf t rfl i (hinside.trans hi)
        simp only [Tunnel.enter, enterInner, hi, hbland.isTransport_settle, htransport, isTransport_push]
        exact ⟨((kept_push t q).trans hkept).trans (kept_settle t _), by simp⟩

section Descent

variable {sys : Platform} {n base etherType : ℕ} {w : Bytes} {carriers : List String} {p : ParsedPacket} {v : Visit}

/-- No IP packet is decoded below the layer. -/
def Bottom (sys : Platform) (n base : ℕ) (w : Bytes) (etherType : ℕ) (carriers : List String)
    (p : ParsedPacket) : Prop :=
  ∀ t ∈ (layer sys w etherType).tunnel, ∀ i ∈ t.inside (0 < n),
    innermost sys n (base + (layer sys w etherType).origin + i.offset) i.bytes i.etherType (carriers ++ t.name.toList)
      (t.push ((layer sys w etherType).read base p)) = none

theorem innermost_eq_none : innermost sys (n + 1) base w etherType carriers p = none ↔
    Bottom sys n base w etherType carriers p ∧ decodesIP sys w etherType = false := by
  simp [innermost, Bottom, Option.or_eq_none_iff, Option.bind_eq_none_iff]

/-- The innermost packet is further down, or here with none below. -/
theorem innermost_eq_some (h : innermost sys (n + 1) base w etherType carriers p = some v) :
    (∃ t ∈ (layer sys w etherType).tunnel, ∃ i ∈ t.inside (0 < n),
      innermost sys n (base + (layer sys w etherType).origin + i.offset) i.bytes i.etherType (carriers ++ t.name.toList)
        (t.push ((layer sys w etherType).read base p)) = some v) ∨
    (Bottom sys n base w etherType carriers p ∧ decodesIP sys w etherType = true ∧
      v = ⟨n, base, w, etherType, carriers, p⟩) := by
  rcases Option.or_eq_some_iff.mp h with h | ⟨hdeeper, hhere⟩
  · obtain ⟨t, ht, h⟩ := Option.bind_eq_some_iff.mp h
    obtain ⟨i, hi, h⟩ := Option.bind_eq_some_iff.mp h
    exact .inl ⟨t, ht, i, hi, h⟩
  · refine .inr ⟨fun t ht i hi => Option.bind_eq_none_iff.mp (Option.bind_eq_none_iff.mp hdeeper t ht) i hi, ?_⟩
    split_ifs at hhere with hd
    · exact ⟨hd, (Option.some.inj hhere).symm⟩

end Descent

theorem descend_succ (sys : Platform) (n base etherType : ℕ) (w : Bytes) (p : ParsedPacket) :
    descend sys (n + 1) base w etherType p = decodeTunnel (descend sys n) (0 < n)
      (base + (layer sys w etherType).origin) (layer sys w etherType).tunnel
      ((layer sys w etherType).read base p) := rfl

/-- Below a header with no IP packet under it. -/
theorem read_kept {sys : Platform} {n base etherType : ℕ} {w : Bytes} {carriers : List String} {p : ParsedPacket}
    (ih : ∀ {base etherType : ℕ} {w : Bytes} {carriers : List String} {p : ParsedPacket},
      innermost sys n base w etherType carriers p = none → Kept p (descend sys n base w etherType p) ∧
        (IsTransport (descend sys n base w etherType p) ↔ IsTransport p ∧ Silent sys n w etherType))
    (h : Bottom sys n base w etherType carriers p) :
    Kept ((layer sys w etherType).read base p) (descend sys (n + 1) base w etherType p) ∧
      (IsTransport (descend sys (n + 1) base w etherType p) ↔ IsTransport ((layer sys w etherType).read base p) ∧
        ∀ t ∈ (layer sys w etherType).tunnel, t.Quiet (Silent sys n) (0 < n)) :=
  decodeTunnel_kept layer_tunnel_bland fun t ht i hi => ih (h t ht i hi)

/-- A descent that decodes no IP packet writes no transport header. -/
theorem descend_kept {sys : Platform} :
    ∀ {n base etherType : ℕ} {w : Bytes} {carriers : List String} {p : ParsedPacket},
    innermost sys n base w etherType carriers p = none → Kept p (descend sys n base w etherType p) ∧
      (IsTransport (descend sys n base w etherType p) ↔ IsTransport p ∧ Silent sys n w etherType) := by
  intro n
  induction n with
  | zero => intro base etherType w carriers p _; exact ⟨.refl p, by simp [descend, Silent]⟩
  | succ n ih =>
    intro base etherType w carriers p h
    obtain ⟨hbottom, hip⟩ := innermost_eq_none.mp h
    have hbland := layer_bland hip
    obtain ⟨hkept, htransport⟩ := read_kept ih hbottom
    refine ⟨((kept_setAddresses _ p).trans (hbland.kept _ _)).trans hkept, ?_⟩
    rw [htransport, Layer.read, hbland.isTransport_apply, isTransport_setAddresses, Silent]
    tauto

/-- `q` but for what the tunnels around it write when nothing has named the protocol. -/
def Settled (q r : ParsedPacket) : Prop := r = { q with protocol := r.protocol } ∧ (IsTransport r ↔ IsTransport q)

theorem Settled.settle {q r : ParsedPacket} (h : Settled q r) {t : Tunnel} (ht : t.Bland) : Settled q (t.settle r) := by
  refine ⟨?_, ht.isTransport_settle.trans h.2⟩
  have hr := h.1
  unfold Tunnel.settle
  split_ifs
  · rw [hr]
  · exact hr

theorem decode_inside {t : Tunnel} {i : Inner} {f : Inside} {deeper : Bool} {base : ℕ} {p : ParsedPacket}
    (hi : i ∈ t.inside deeper) :
    t.decode f deeper base p = t.settle (f (base + i.offset) i.bytes i.etherType (t.push p)) := by
  obtain ⟨r, -, -, hnone, -⟩ | ⟨-, hinside, hdecode⟩ := t.inside_cases deeper
  · rw [hnone] at hi
    cases hi
  · rw [hdecode, Tunnel.enter, hinside.symm.trans (Option.mem_def.mp hi)]
    rfl

/-- The header `v` is decoded in a descent: the first, or one inside. -/
inductive Visited (sys : Platform) : (descents base : ℕ) → Bytes → (etherType : ℕ) → (carriers : List String) →
    ParsedPacket → Visit → Prop
  | here {n base w etherType carriers p} :
    Visited sys (n + 1) base w etherType carriers p ⟨n, base, w, etherType, carriers, p⟩
  | inside {n base w etherType carriers p t i v} (ht : t ∈ (layer sys w etherType).tunnel) (hi : i ∈ t.inside (0 < n))
    (h : Visited sys n (base + (layer sys w etherType).origin + i.offset) i.bytes i.etherType
      (carriers ++ t.name.toList) (t.push ((layer sys w etherType).read base p)) v) :
    Visited sys (n + 1) base w etherType carriers p v

section Visited

variable {sys : Platform} {n base etherType : ℕ} {w : Bytes} {carriers : List String} {p : ParsedPacket} {v : Visit}

/-- A descent leaves what each of its headers does. -/
theorem descend_visited (h : Visited sys n base w etherType carriers p v) :
    Settled (v.decode sys) (descend sys n base w etherType p) := by
  induction h with
  | here => exact ⟨rfl, Iff.rfl⟩
  | @inside n base w etherType carriers p t i v ht hi h ih =>
    have hdecode : descend sys (n + 1) base w etherType p = t.decode (descend sys n) (0 < n)
        (base + (layer sys w etherType).origin) ((layer sys w etherType).read base p) := by
      rw [descend_succ, Option.mem_def.mp ht, decodeTunnel]
    rw [hdecode, decode_inside hi]
    exact ih.settle (layer_tunnel_bland t ht)

theorem visited_innermost (h : innermost sys n base w etherType carriers p = some v) :
    Visited sys n base w etherType carriers p v := by
  induction n generalizing base w etherType carriers p with
  | zero => cases h
  | succ n ih =>
    rcases innermost_eq_some h with ⟨t, ht, i, hi, hv⟩ | ⟨-, -, rfl⟩
    · exact .inside ht hi (ih hv)
    · exact .here

/-- A descent leaves what its innermost IP packet does. -/
theorem descend_innermost (h : innermost sys n base w etherType carriers p = some v) :
    Settled (v.decode sys) (descend sys n base w etherType p) := descend_visited (visited_innermost h)

end Visited

/-! ### What the carriers leave -/

/-- The packet at `base` inside the tunnels `carriers`: no flags and no names,
and a payload that starts before `base`; ports, payload and protocol only from
tunnels over UDP. -/
structure Entry (base : ℕ) (carriers : List String) (p : ParsedPacket) : Prop where
  payload : p.payloadOffset ≤ base
  flags : p.tcpSyn = false ∧ p.tcpAck = false ∧ p.tcpFin = false ∧ p.tcpRst = false
  names : p.sni = "" ∧ p.hostname = "" ∧ p.info = ""
  udp : IsTransport p ↔ "VXLAN" ∈ carriers ∨ "GENEVE" ∈ carriers
  bare : ¬ IsTransport p → p.srcPort = 0 ∧ p.dstPort = 0 ∧ p.payloadLength = 0

theorem entry_blank (base : ℕ) (rawData : PacketData) : Entry base [] (blank rawData) where
  payload := Nat.zero_le _
  flags := ⟨rfl, rfl, rfl, rfl⟩
  names := ⟨rfl, rfl, rfl⟩
  udp := by simp [IsTransport, blank]
  bare _ := ⟨rfl, rfl, rfl⟩

/-- A header over a tunnel writes nothing, or is UDP with its payload. -/
def Upper.Carries (u : Upper) : Prop := ∀ t ∈ u.tunnel,
  (u.report = {} ∧ t.name ≠ some "VXLAN" ∧ t.name ≠ some "GENEVE") ∨
    ((∃ src dst len, u.report = { protocol := some "UDP", ports := some ⟨src, dst, some (8, len)⟩ }) ∧
      (t.name = some "VXLAN" ∨ t.name = some "GENEVE") ∧ ∀ i ∈ t.inner, 8 ≤ i.offset)

theorem carries_bare {t : Tunnel} (h : t.name ≠ some "VXLAN" ∧ t.name ≠ some "GENEVE") :
    Upper.Carries { tunnel := some t } := by
  intro t' ht
  obtain rfl := Option.some.inj ht
  exact .inl ⟨rfl, h⟩

theorem carries_plain (r : Report) : Upper.Carries { report := r } := fun _ ht => nomatch ht

theorem innerEthernet_offset {w : Bytes} {offset : ℕ} {i : Inner} (h : innerEthernet w offset = some i) :
    offset ≤ i.offset := by
  obtain ⟨e, -, rfl⟩ := Option.map_eq_some_iff.mp h
  exact Nat.le_add_right ..

theorem innerType_offset {w : Bytes} {offset type : ℕ} {i : Inner} (h : innerType w offset type = some i) :
    offset ≤ i.offset := by
  unfold innerType at h
  split_ifs at h
  · exact innerEthernet_offset h
  · cases h
    exact le_rfl

theorem udpTunnel_carrier {w : Bytes} {t : Tunnel} (h : udpTunnel w = some t) :
    (t.name = some "VXLAN" ∨ t.name = some "GENEVE") ∧ ∀ i ∈ t.inner, 8 ≤ i.offset := by
  unfold udpTunnel at h
  split_ifs at h
  · unfold vxlan at h
    split_ifs at h
    cases h
    refine ⟨.inl rfl, fun i hi => ?_⟩
    have := innerEthernet_offset hi
    omega
  · unfold geneve at h
    dsimp only at h
    split_ifs at h
    cases h
    refine ⟨.inr rfl, fun i hi => ?_⟩
    have := innerType_offset hi
    omega

/-- UDP with a payload. -/
theorem udpReport_payload {w : Bytes} (h : 8 < (datagram w).length) : udpReport w =
    { protocol := some "UDP", ports := some ⟨u16 w 0, u16 w 2, some (8, (datagram w).length - 8)⟩ } := by
  have := length_datagram_le w
  rw [udpReport, if_neg (by omega), if_neg (by omega)]

theorem transportLayer_carries (w : Bytes) (l4Proto : ℕ) : (transportLayer w l4Proto).Carries := by
  unfold transportLayer
  split_ifs
  · exact carries_plain _
  · intro t ht
    obtain ⟨hl, ht⟩ := udpLayer_tunnel ht
    exact .inr ⟨⟨_, _, _, udpReport_payload hl⟩, udpTunnel_carrier ht⟩
  · exact carries_plain _
  · exact carries_plain _
  · exact carries_bare (by simp [ipInIp])
  · exact carries_bare (by simp [ipInIp])
  · exact carries_bare (by cases h : greHeaderLen w <;> simp [gre, h])
  · exact carries_plain _
  · exact carries_plain _

theorem layer_carries (sys : Platform) (w : Bytes) (etherType : ℕ) : (layer sys w etherType).toUpper.Carries := by
  apply layer_cases (P := fun u _ => u.Carries) sys w etherType
  case transport => exact fun segment l4Proto _ _ => transportLayer_carries segment l4Proto
  case mpls => exact carries_bare (by cases h : mplsInner w 8 0 <;> simp [mpls, h])
  case pppoe => exact carries_bare (by cases h : pppoeInner w <;> simp [pppoe, h])
  case empty => exact carries_plain _
  case unlabelled => exact fun _ _ => carries_plain _
  case arp => exact fun _ => carries_plain _

theorem inside_le {t : Tunnel} {i : Inner} {deeper : Bool} (h : i ∈ t.inside deeper) : i ∈ t.inner := by
  unfold Tunnel.inside at h
  split at h
  · cases h
  · exact h

/-- What a packet keeps on its way through the routes. -/
theorem Kept.entry {base base' : ℕ} {carriers carriers' : List String} {p q : ParsedPacket} (hk : Kept p q)
    (h : Entry base carriers p) (hbase : base ≤ base') (ht : IsTransport q ↔ IsTransport p)
    (hc : ("VXLAN" ∈ carriers' ∨ "GENEVE" ∈ carriers') ↔ ("VXLAN" ∈ carriers ∨ "GENEVE" ∈ carriers)) :
    Entry base' carriers' q := by
  refine ⟨?_, ?_, ?_, by rw [ht, h.udp, hc], fun hq => ?_⟩
  · rw [hk]
    exact h.payload.trans hbase
  · rw [hk]
    exact h.flags
  · rw [hk]
    exact h.names
  · have := h.bare (fun hp => hq (ht.mpr hp))
    rw [hk]
    exact this

/-- Inside one more tunnel. -/
theorem Entry.enter {sys : Platform} {w : Bytes} {etherType base : ℕ} {carriers : List String} {p : ParsedPacket}
    {t : Tunnel} {i : Inner} {deeper : Bool} (h : Entry base carriers p) (ht : t ∈ (layer sys w etherType).tunnel)
    (hi : i ∈ t.inside deeper) : Entry (base + (layer sys w etherType).origin + i.offset) (carriers ++ t.name.toList)
      (t.push ((layer sys w etherType).read base p)) := by
  have hcarries := layer_carries sys w etherType t ht
  generalize layer sys w etherType = l at *
  have hread : Kept p (setAddresses l.addresses p) := kept_setAddresses _ p
  rcases hcarries with ⟨hr, hv, hg⟩ | ⟨⟨src, dst, len, hr⟩, hname, hoffset⟩
  · have hkept : Kept p (t.push (l.read base p)) := by
      rw [Layer.read, hr]
      exact (hread.trans (bland_empty.kept _ _)).trans (kept_push t _)
    refine hkept.entry h (by omega) ?_ ?_
    · rw [isTransport_push, Layer.read, hr, bland_empty.isTransport_apply, isTransport_setAddresses]
      simp
    · cases hn : t.name with
      | none => simp
      | some name =>
        rw [hn, Ne, Option.some.injEq] at hv hg
        simp [Ne.symm hv, Ne.symm hg]
  · have hq : l.read base p = { setAddresses l.addresses p with
        protocol := "UDP", srcPort := src, dstPort := dst, payloadOffset := base + l.origin + 8
        payloadLength := len } := by
      rw [Layer.read, hr]
      rfl
    have htransport : IsTransport (l.read base p) := by
      rw [hq]
      exact .inr rfl
    have hentry : Entry (base + l.origin + i.offset) (carriers ++ t.name.toList) (l.read base p) := by
      refine ⟨?_, ?_, ?_, iff_of_true htransport ?_, fun hn => absurd htransport hn⟩
      · rw [hq]
        exact Nat.add_le_add_left (hoffset i (inside_le hi)) _
      · rw [hq, hread]
        exact h.flags
      · rw [hq, hread]
        exact h.names
      · rcases hname with hn | hn
        · exact .inl (by simp [hn])
        · exact .inr (by simp [hn])
    exact (kept_push t _).entry hentry le_rfl (isTransport_push t) Iff.rfl

/-- What is known of the innermost IP packet. -/
theorem entry_innermost {sys : Platform} {v : Visit} : ∀ {n base etherType : ℕ} {w : Bytes} {carriers : List String}
    {p : ParsedPacket}, innermost sys n base w etherType carriers p = some v → Entry base carriers p →
    Entry v.base v.carriers v.before ∧ decodesIP sys v.bytes v.etherType = true ∧
      Bottom sys v.descents v.base v.bytes v.etherType v.carriers v.before := by
  intro n
  induction n with
  | zero => intro base etherType w carriers p h; cases h
  | succ n ih =>
    intro base etherType w carriers p h hentry
    rcases innermost_eq_some h with ⟨t, ht, i, hi, hv⟩ | ⟨hbottom, hip, rfl⟩
    · exact ih hv (hentry.enter ht hi)
    · exact ⟨hentry, hip, hbottom⟩

/-! ### The innermost packet itself -/

theorem layer_ipv4 (sys : Platform) (w : Bytes) : layer sys w kEthIPv4 = ipv4Layer sys w := rfl

theorem layer_ipv6 (sys : Platform) (w : Bytes) : layer sys w kEthIPv6 = ipv6Layer sys w := rfl

theorem layer_v4_continuation {sys : Platform} {w : Bytes} (h : decodesIP sys w kEthIPv4 = true)
    (hf : u16 w 6 &&& 0x1FFF ≠ 0) :
    (layer sys w kEthIPv4).toUpper = { report := { protocol := some "IPv4 Fragment" } } := by
  rw [decodesIP, layer_ipv4] at h
  rw [layer_ipv4]
  unfold ipv4Layer at h ⊢
  dsimp only at h ⊢
  split_ifs at h ⊢
  · simp at h
  · rfl

theorem layer_v6Upper {sys : Platform} {w : Bytes} (h : decodesIP sys w kEthIPv6 = true) :
    ∃ segment, (layer sys w kEthIPv6).toUpper = transportLayer segment (v6Upper w) := by
  rw [decodesIP, layer_ipv6] at h
  rw [layer_ipv6]
  unfold ipv6Layer at h ⊢
  dsimp only at h ⊢
  split_ifs at h ⊢
  · simp at h
  · exact ⟨_, rfl⟩

namespace Visit

variable {sys : Platform} {v : Visit}

/-- An innermost packet whose header is neither TCP nor UDP. -/
theorem decode_bland (he : Entry v.base v.carriers v.before)
    (hb : Bottom sys v.descents v.base v.bytes v.etherType v.carriers v.before)
    (hr : (layer sys v.bytes v.etherType).report.Bland) : Kept v.before (v.decode sys) ∧
      (IsTransport (v.decode sys) ↔ v.OverUdp ∧ Silent sys (v.descents + 1) v.bytes v.etherType) := by
  obtain ⟨hkept, htransport⟩ := read_kept descend_kept hb
  refine ⟨((kept_setAddresses _ _).trans (hr.kept _ _)).trans hkept, ?_⟩
  rw [decode, htransport, Layer.read, hr.isTransport_apply, isTransport_setAddresses, he.udp, Silent, OverUdp]
  tauto

/-- One whose header is TCP or UDP has that protocol, unless a tunnel over UDP
is tried; then its payload has been located. -/
theorem decode_transport (he : Entry v.base v.carriers v.before)
    (hb : Bottom sys v.descents v.base v.bytes v.etherType v.carriers v.before) {segment : Bytes} {upper : ℕ}
    (hl : (layer sys v.bytes v.etherType).toUpper = transportLayer segment upper) (hu : upper = 6 ∨ upper = 17) :
    IsTransport (v.decode sys) ∨ (v.decode sys).payloadOffset ≠ v.before.payloadOffset := by
  obtain ⟨hkept, htransport⟩ := read_kept descend_kept hb
  have hprotocol : IsTransport ((layer sys v.bytes v.etherType).read v.base v.before) := by
    rw [IsTransport, Layer.read, protocol_apply, hl]
    rcases hu with rfl | rfl
    · left
      rw [transportLayer, if_pos rfl, tcpReport]
      split_ifs <;> rfl
    · right
      rw [transportLayer, if_neg (by decide), if_pos rfl, udpLayer, udpReport]
      split_ifs <;> rfl
  cases ht : (layer sys v.bytes v.etherType).tunnel with
  | none => exact .inl (htransport.mpr ⟨hprotocol, by simp [ht]⟩)
  | some t =>
    right
    rw [hl] at ht
    rcases hu with rfl | rfl
    · rw [transportLayer, if_pos rfl] at ht
      cases ht
    · rw [transportLayer, if_neg (by decide), if_pos rfl] at ht hl
      have hreport := udpReport_payload (udpLayer_tunnel ht).1
      have hoffset : ((layer sys v.bytes v.etherType).read v.base v.before).payloadOffset =
          v.base + (layer sys v.bytes v.etherType).origin + 8 := by
        rw [Layer.read, hl, udpLayer, hreport]
        rfl
      have hkeep : (v.decode sys).payloadOffset =
          ((layer sys v.bytes v.etherType).read v.base v.before).payloadOffset := by
        rw [decode, hkept]
      have := he.payload
      omega

/-- The decoder leaves a continuation fragment alone exactly when it is harmless. -/
theorem decode_untouched (he : Entry v.base v.carriers v.before) (hip : decodesIP sys v.bytes v.etherType = true)
    (hb : Bottom sys v.descents v.base v.bytes v.etherType v.carriers v.before) (hc : v.Continuation) :
    (v.Harmless sys → Kept v.before (v.decode sys) ∧ ¬ IsTransport (v.decode sys)) ∧
      (¬ v.Harmless sys → IsTransport (v.decode sys) ∨ (v.decode sys).payloadOffset ≠ v.before.payloadOffset) := by
  rcases hc with ⟨h4, hf⟩ | ⟨h6, -⟩
  · refine ⟨fun _ => ?_, fun h => absurd (.inl h4) h⟩
    rw [h4] at hip
    have hlayer := layer_v4_continuation hip hf
    rw [← h4] at hlayer
    have hbland : (layer sys v.bytes v.etherType).report.Bland := by
      rw [hlayer]
      exact bland_protocol (by decide) ..
    obtain ⟨hkept, htransport⟩ := decode_bland he hb hbland
    refine ⟨hkept, fun h => ?_⟩
    have hsilent := (htransport.mp h).2.1
    rw [hlayer] at hsilent
    cases hsilent
  · rw [h6] at hip
    obtain ⟨segment, hl⟩ := layer_v6Upper hip
    rw [← h6] at hl
    have hne : v.etherType ≠ kEthIPv4 := by
      rw [h6]
      decide
    by_cases hu : v6Upper v.bytes = 6 ∨ v6Upper v.bytes = 17
    · refine ⟨fun h => ?_, fun _ => decode_transport he hb hl hu⟩
      rcases h with h | ⟨h6, h17, -⟩
      · exact absurd h hne
      · exact absurd hu (not_or.mpr ⟨h6, h17⟩)
    · obtain ⟨h6, h17⟩ := not_or.mp hu
      have hbland : (layer sys v.bytes v.etherType).report.Bland := by
        rw [hl]
        exact transportLayer_bland h6 h17
      obtain ⟨hkept, htransport⟩ := decode_bland he hb hbland
      refine ⟨fun h => ⟨hkept, fun hd => ?_⟩, fun h => .inl (htransport.mpr ?_)⟩
      · obtain ⟨hudp, hsilent⟩ := htransport.mp hd
        rcases h with h | ⟨-, -, h⟩
        · exact absurd h hne
        · exact h hudp hsilent
      · by_contra hd
        exact h (.inr ⟨h6, h17, fun hudp hsilent => hd ⟨hudp, hsilent⟩⟩)

end Visit

/-! ### Addresses -/

def Addressed (p : ParsedPacket) : Prop := p.srcIP ≠ "" ∧ p.dstIP ≠ ""

/-- Flows are kept for the packets with addresses and a transport protocol. -/
theorem keyFor_eq_none {p : ParsedPacket} (h : Addressed p) : FlowAggregator.keyFor p = none ↔ ¬ IsTransport p := by
  constructor
  · intro hk ht
    rw [FlowAggregator.keyFor_eq p ⟨h.1, h.2, ht⟩] at hk
    cases hk
  · intro ht
    cases hk : FlowAggregator.keyFor p with
    | none => rfl
    | some k => exact absurd (FlowAggregator.tracked_of_keyFor hk).2.2 ht

theorem addressed_push {t : Tunnel} {p : ParsedPacket} (h : Addressed p) : Addressed (t.push p) := by
  rw [t.push_frame]
  exact h

theorem addressed_settle {t : Tunnel} {p : ParsedPacket} (h : Addressed p) : Addressed (t.settle p) := by
  rw [t.settle_frame]
  exact h

theorem addressed_apply {r : Report} {base : ℕ} {p : ParsedPacket} (h : Addressed p) : Addressed (r.apply base p) := by
  have hroute := route_apply r base p
  rw [Addressed, show (r.apply base p).srcIP = p.srcIP from congrArg Route.srcIP hroute,
    show (r.apply base p).dstIP = p.dstIP from congrArg Route.dstIP hroute]
  exact h

section Addresses

variable {sys : Platform} (hsys : PrintsAddresses sys)
include hsys

theorem addressed_read {base etherType : ℕ} {w : Bytes} {p : ParsedPacket}
    (h : Addressed p ∨ (layer sys w etherType).addresses.isSome) : Addressed ((layer sys w etherType).read base p) := by
  have haddresses := @layer_addresses_ne sys hsys w etherType
  refine addressed_apply ?_
  cases ha : (layer sys w etherType).addresses with
  | none => exact h.resolve_right (by simp [ha])
  | some a => exact haddresses ha

/-- A descent from a packet with addresses, or from a layer with some, leaves a packet with addresses. -/
theorem addressed_descend : ∀ {n base etherType : ℕ} {w : Bytes} {p : ParsedPacket},
    Addressed p ∨ (0 < n ∧ (layer sys w etherType).addresses.isSome) →
      Addressed (descend sys n base w etherType p) := by
  intro n
  induction n with
  | zero => intro base etherType w p h; exact h.resolve_right (by simp)
  | succ n ih =>
    intro base etherType w p h
    have hread := @addressed_read sys hsys base etherType w p (h.imp_right And.right)
    have henter : ∀ t : Tunnel, Addressed (t.enter (descend sys n) (base + (layer sys w etherType).origin)
        ((layer sys w etherType).read base p)) := by
      intro t
      refine addressed_settle ?_
      cases t.inner with
      | none => exact addressed_push hread
      | some i => exact ih (.inl (addressed_push hread))
    rw [descend_succ]
    cases (layer sys w etherType).tunnel with
    | none => exact hread
    | some t =>
      rw [decodeTunnel]
      obtain ⟨r, -, -, hdecode⟩ | ⟨-, hdecode⟩ := t.decode_cases (0 < n)
      · rw [hdecode]
        exact addressed_apply hread
      · rw [hdecode]
        exact henter t

theorem Visit.addressed_decode {v : Visit} (hip : decodesIP sys v.bytes v.etherType = true) :
    Addressed (v.decode sys) :=
  addressed_descend hsys (.inr ⟨Nat.succ_pos _, (Bool.and_eq_true_iff.mp hip).2⟩)

end Addresses

/-! ### Whole frames -/

/-- Only TCP and UDP payloads are inspected. -/
theorem inspectPayload_plain {sys : Platform} {buffer : Bytes} {p : ParsedPacket} (h : ¬ IsTransport p) :
    Safe (inspectPayload sys buffer p) (· = p) := by
  refine .ite (fun hp => ?_) fun _ => ?_
  · refine (safe_sub (by omega)).bind fun room hroom => (safe_window (by omega)).bind fun payload _ => ?_
    exact .ite (fun hc => absurd (.inl hc) h) fun _ => .ite (fun hc => absurd (.inr hc) h) fun _ => .ok rfl
  · exact .ite (fun hc => absurd (.inl hc) h) fun _ => .ite (fun hc => absurd (.inr hc) h) fun _ => .ok rfl

theorem kept_markEncrypted (p : ParsedPacket) : Kept p (markEncrypted p) := by
  unfold markEncrypted
  split_ifs <;> rfl

theorem isTransport_enriches {p q : ParsedPacket} (h : Enriches p q) : IsTransport q ↔ IsTransport p := by
  unfold IsTransport
  rw [h]

theorem addressed_enriches {p q : ParsedPacket} (h : Enriches p q) (hp : Addressed p) : Addressed q := by
  unfold Addressed
  rw [h]
  exact hp

/-- An empty frame has an empty layer. -/
theorem layer_nil (sys : Platform) {link : LinkType} {network : ℕ × ℕ} (hl : linkLayer [] link = some network) :
    layer sys [] network.2 = {} := by
  have h4 : layer sys [] kEthIPv4 = {} := rfl
  have h6 : layer sys [] kEthIPv6 = {} := by
    rw [layer_ipv6, ipv6Layer]
    simp
  cases link with
  | IPv4 =>
    cases hl
    exact h4
  | IPv6 =>
    cases hl
    exact h6
  | _ => simp [linkLayer, ethernet, versionAt] at hl

theorem innermost_nil {sys : Platform} {link : LinkType} {network : ℕ × ℕ} (hl : linkLayer [] link = some network)
    (n base : ℕ) (carriers : List String) (p : ParsedPacket) : innermost sys n base [] network.2 carriers p = none := by
  cases n with
  | zero => rfl
  | succ n => simp [innermost, decodesIP, layer_nil sys hl]

/-- What is kept has nothing of a transport header. -/
theorem Entry.untouched {base : ℕ} {carriers : List String} {before r : ParsedPacket} (h : Entry base carriers before)
    (hk : Kept before r) (hkey : FlowAggregator.keyFor r = none) : Untouched before r := by
  refine ⟨?_, ?_, ?_, ?_, hkey, fun flows hostname process => by rw [FlowAggregator.update, hkey]⟩
  · rw [hk]
    exact ⟨rfl, rfl⟩
  · rw [hk]
    exact h.flags
  · rw [hk]
    exact ⟨rfl, rfl⟩
  · rw [hk]
    exact h.names

/-- **Continuation fragments never look like transport packets** exactly when
they are harmless: an IPv4 fragment always, an IPv6 one unless what its Fragment
header announces is decoded after all. -/
theorem continuation_untouched_iff {sys : Platform} (hsys : PrintsAddresses sys) {rawData : PacketData}
    {network : ℕ × ℕ}
    (hl : linkLayer rawData.payload rawData.linkType = some network) {v : Visit}
    (hv : innermost sys (kMaxTunnelDepth + 1) network.1 (rawData.payload.drop network.1) network.2 [] (blank rawData) = some v)
    (hc : v.Continuation) : Safe (parse sys rawData) fun r =>
      (Untouched v.before r ↔ v.Harmless sys) ∧
      (¬ v.OverUdp → v.before.srcPort = 0 ∧ v.before.dstPort = 0 ∧ v.before.payloadLength = 0) := by
  obtain ⟨hentry, hip, hbottom⟩ := entry_innermost hv (entry_blank _ rawData)
  obtain ⟨hsettled, hprotocol⟩ := descend_innermost hv
  obtain ⟨hharmless, hharmful⟩ := Visit.decode_untouched hentry hip hbottom hc
  have hbare : ¬ v.OverUdp → v.before.srcPort = 0 ∧ v.before.dstPort = 0 ∧ v.before.payloadLength = 0 :=
    fun h => hentry.bare fun ht => h (hentry.udp.mp ht)
  have hne : rawData.payload ≠ [] := by
    intro hnil
    rw [hnil] at hl
    rw [hnil, List.drop_nil, innermost_nil hl] at hv
    cases hv
  have haddressed : Addressed (decoded sys rawData network) := by
    have := Visit.addressed_decode hsys hip
    unfold decoded
    rw [hsettled]
    exact this
  rw [parse_some sys hl hne]
  by_cases hh : v.Harmless sys
  · obtain ⟨hkept, hplain⟩ := hharmless hh
    have hplain : ¬ IsTransport (decoded sys rawData network) := fun h => hplain (hprotocol.mp h)
    refine (inspectPayload_plain hplain).map fun q hq => ⟨iff_of_true ?_ hh, hbare⟩
    rw [hq]
    have hdecoded : Kept (v.decode sys) (decoded sys rawData network) := by
      unfold decoded Kept
      rw [hsettled]
    have hkept := (hkept.trans hdecoded).trans (kept_markEncrypted _)
    have hmark := enriches_markEncrypted (decoded sys rawData network)
    have hkey := (keyFor_eq_none (addressed_enriches hmark haddressed)).mpr fun h =>
      hplain ((isTransport_enriches hmark).mp h)
    exact hentry.untouched hkept hkey
  · refine (inspectPayload_safe sys rawData.fits _).map fun q hq => ⟨iff_of_false (fun hu => ?_) hh, hbare⟩
    have hr := hq.trans (enriches_markEncrypted q)
    rcases hharmful hh with ht | hoffset
    · have ht := (isTransport_enriches hr).mpr (hprotocol.mpr ht)
      exact (keyFor_eq_none (addressed_enriches hr haddressed)).mp hu.key ht
    · refine hoffset ?_
      have hsame : (decoded sys rawData network).payloadOffset = (v.decode sys).payloadOffset := by
        unfold decoded
        rw [hsettled]
      rw [← hsame, ← hu.payload.1, hr]

/-! ### The last fragment of a datagram -/

namespace LastFragment

/-- An IPv6 header, a Fragment header for offset 1480 that announces `next`, and twenty bytes of data. -/
def bytes (next : UInt8) : Bytes :=
  [0x60, 0, 0, 0, 0, 28, 44, 64] ++ List.replicate 16 1 ++ List.replicate 16 2 ++
    [next, 0, 0x05, 0xC8, 0, 0, 0, 7] ++ List.replicate 20 0x41

def frame (next : UInt8) : PacketData := { Vxlan.captured (bytes next) (by simp [bytes]) with linkType := .RawIP }

def visit (next : UInt8) : Visit := ⟨kMaxTunnelDepth, 0, bytes next, kEthIPv6, [], blank (frame next)⟩

/-- What is reported of the one that announces TCP. -/
def parsed : ParsedPacket :=
  { srcIP := "101:101:101:101:101:101:101:101", dstIP := "202:202:202:202:202:202:202:202", srcPort := 0x4141
    dstPort := 0x4141, protocol := "TCP", length := 68, tcpFin := true, tcpSeq := 0x41414141 }

end LastFragment

open LastFragment in
/-- The data of a TCP datagram's last fragment is taken for a TCP header. -/
theorem continuation_tracked : linkLayer (frame 6).payload (frame 6).linkType = some (0, kEthIPv6) ∧
    innermost Nested.sys (kMaxTunnelDepth + 1) 0 (bytes 6) kEthIPv6 [] (blank (frame 6)) = some (visit 6) ∧
    (visit 6).Continuation ∧ parse Nested.sys (frame 6) = .ok parsed ∧ ¬ Untouched (visit 6).before parsed := by
  refine ⟨rfl, rfl, .inr ⟨rfl, by decide⟩, by decide +kernel, fun h => ?_⟩
  exact absurd h.key (by decide)

open LastFragment in
theorem continuation_untouched_icmpv6 : Safe (parse Nested.sys (frame 58)) (Untouched (blank (frame 58))) := by
  have hiff := @continuation_untouched_iff Nested.sys Nested.printsAddresses (frame 58) (0, kEthIPv6) rfl (visit 58) rfl
    (.inr ⟨rfl, by decide⟩)
  refine hiff.mono fun r h => h.1.mpr (.inr ⟨by decide, by decide, fun hudp => ?_⟩)
  rcases hudp with h | h <;> cases h

end ProtocolParser
end NetProbe
