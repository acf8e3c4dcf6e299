/-
# The layers of a frame

`decodeNetwork` threads one `ParsedPacket` and absolute offsets through all its
decoders. Here a layer is read off its own bytes alone: `layer w etherType` is
what the network layer in the window `w` writes (`Report`) and the tunnel header
under it, if any (`Tunnel`), every position counted from the layer's start.
`descend` follows the tunnels.

Key definitions: `Report`, `Tunnel`, `Layer`, `layer`, `descend`, `Upper.WellFormed`.
Key theorems: `layer_cases`, `layer_wellFormed`, `Tunnel.decode_cases`, `descend_preserved`.
-/
import NetProbe.Decode

namespace NetProbe
namespace ProtocolParser

open Checked Bytes

/-! ### Windows of a buffer -/

/-- The bytes of `buffer` from `offset` up to `stop`. -/
def span (buffer : Bytes) (offset stop : ℕ) : Bytes := slice buffer offset (stop - offset)

section Span

variable {b : Bytes} {i s j n : ℕ}

theorem length_span (h : s ≤ b.length) : (span b i s).length = s - i := by
  simp only [span, slice, List.length_take, List.length_drop]
  omega

theorem span_whole (b : Bytes) : span b 0 b.length = b := by simp [span, slice]

theorem drop_span (b : Bytes) (i s n : ℕ) : (span b i s).drop n = span b (i + n) s := by
  rw [span, slice, List.drop_take, List.drop_drop, span, slice, Nat.sub_sub]

theorem take_span (b : Bytes) (i s n : ℕ) : (span b i s).take n = span b i (min s (i + n)) := by
  rw [span, slice, List.take_take, span, slice]
  congr 1
  omega

theorem lt_of_lt_span (h : j < (span b i s).length) : j < s - i ∧ i + j < b.length := by
  simp only [span, slice, List.length_take, List.length_drop] at h
  omega

theorem u8_span (h : j < (span b i s).length) : u8 (span b i s) j = u8 b (i + j) :=
  u8_slice (lt_of_lt_span h).1

theorem readU8_span (h : j < (span b i s).length) : readU8 b (i + j) = .ok (u8 (span b i s) j) := by
  rw [readU8_eq (lt_of_lt_span h).2, u8_span h]

theorem readU16_span (h : j + 1 < (span b i s).length) :
    readU16 b (i + j) = .ok (u16 (span b i s) j) := by
  have h1 := (lt_of_lt_span h).2
  rw [readU16_eq (by omega), u16, u16, u8_span (by omega), u8_span h, Nat.add_assoc]

theorem readU32_span (h : j + 3 < (span b i s).length) :
    readU32 b (i + j) = .ok (u32 (span b i s) j) := by
  have h3 := (lt_of_lt_span h).2
  rw [readU32_eq (by omega), u32, u32, u16, u16, u16, u16, u8_span (by omega), u8_span (by omega),
    u8_span (by omega), u8_span (by omega)]
  simp only [Nat.add_assoc, Nat.reduceAdd]

theorem readU8_head (h : 0 < (span b i s).length) : readU8 b i = .ok (u8 (span b i s) 0) :=
  readU8_span (j := 0) h

theorem readU16_head (h : 1 < (span b i s).length) : readU16 b i = .ok (u16 (span b i s) 0) :=
  readU16_span (j := 0) h

theorem window_span (hn : 0 < n) (h : j + n ≤ (span b i s).length) :
    window b (i + j) n = .ok (slice (span b i s) j n) := by
  have hl := @lt_of_lt_span b i s (j + n - 1) (by omega)
  rw [window_eq (by omega)]
  exact congrArg Except.ok (slice_slice (by omega)).symm

end Span

/-! ### What a layer writes -/

/-- The ports, and the payload under them as an offset and a length. -/
structure Ports where
  src : ℕ
  dst : ℕ
  payload : Option (ℕ × ℕ) := none

structure TcpFields where
  seq : BitVec 32
  fin : Bool
  syn : Bool
  rst : Bool
  ack : Bool

/-- The fields of `ParsedPacket` what follows the addresses overwrites. -/
structure Report where
  protocol : Option String := none
  ports : Option Ports := none
  tcp : Option TcpFields := none
  service : Option String := none
  encryptedTunnel : Bool := false

def Ports.apply (r : Ports) (base : ℕ) (p : ParsedPacket) : ParsedPacket :=
  let p := { p with srcPort := r.src, dstPort := r.dst }
  match r.payload with
  | some (offset, length) => { p with payloadOffset := base + offset, payloadLength := length }
  | none => p

def TcpFields.apply (r : TcpFields) (p : ParsedPacket) : ParsedPacket :=
  { p with tcpSeq := r.seq, tcpFin := r.fin, tcpSyn := r.syn, tcpRst := r.rst, tcpAck := r.ack }

/-- The packet after a header at `base`. -/
def Report.apply (r : Report) (base : ℕ) (p : ParsedPacket) : ParsedPacket :=
  let p := { p with protocol := r.protocol.getD p.protocol }
  let p := match r.ports with
    | some ports => ports.apply base p
    | none => p
  let p := match r.tcp with
    | some tcp => tcp.apply p
    | none => p
  { p with service := r.service.getD p.service, encryptedTunnel := r.encryptedTunnel || p.encryptedTunnel }

/-- A network layer inside a tunnel. -/
structure Inner where
  offset : ℕ
  bytes : Bytes
  etherType : ℕ

/-- A tunnel header: the name it is recorded under when the decoder understands
it, and what is inside. Where the decoder looks into it only below the
tunnel-depth limit, `atLimit` is what it writes at the limit instead. A protocol
that is still one of `placeholder` afterwards becomes `label`. -/
structure Tunnel where
  name : Option String := none
  inner : Option Inner := none
  atLimit : Option Report := none
  placeholder : List String := []
  label : String := ""

/-- A header and the tunnel header under it. -/
structure Upper where
  report : Report := {}
  tunnel : Option Tunnel := none

/-- One network layer: its addresses, and the transport header at `origin`. -/
structure Layer extends Upper where
  addresses : Option (String × String) := none
  origin : ℕ := 0

def Tunnel.push (t : Tunnel) (p : ParsedPacket) : ParsedPacket :=
  match t.name with
  | some name => pushTunnel p name
  | none => p

def Tunnel.settle (t : Tunnel) (p : ParsedPacket) : ParsedPacket :=
  if p.protocol ∈ t.placeholder then { p with protocol := t.label } else p

/-- The decoder of an inner network layer: from where it starts, its window and
its EtherType. -/
abbrev Inside := (base : ℕ) → Bytes → (etherType : ℕ) → ParsedPacket → ParsedPacket

def enterInner (inside : Inside) (base : ℕ) (inner : Option Inner) (p : ParsedPacket) : ParsedPacket :=
  match inner with
  | some i => inside (base + i.offset) i.bytes i.etherType p
  | none => p

def Tunnel.enter (inside : Inside) (base : ℕ) (t : Tunnel) (p : ParsedPacket) : ParsedPacket :=
  t.settle (enterInner inside base t.inner (t.push p))

/-- `deeper` says that the tunnel-depth limit is not reached yet. -/
def Tunnel.decode (inside : Inside) (deeper : Bool) (base : ℕ) (t : Tunnel) (p : ParsedPacket) :
    ParsedPacket :=
  match t.atLimit, deeper with
  | some r, false => r.apply base p
  | _, _ => t.enter inside base p

def decodeTunnel (inside : Inside) (deeper : Bool) (base : ℕ) (tunnel : Option Tunnel)
    (p : ParsedPacket) : ParsedPacket :=
  match tunnel with
  | some t => t.decode inside deeper base p
  | none => p

def Upper.decode (inside : Inside) (deeper : Bool) (base : ℕ) (u : Upper) (p : ParsedPacket) :
    ParsedPacket :=
  decodeTunnel inside deeper base u.tunnel (u.report.apply base p)

def setAddresses (addresses : Option (String × String)) (p : ParsedPacket) : ParsedPacket :=
  match addresses with
  | some (srcIP, dstIP) => { p with srcIP, dstIP }
  | none => p

def Layer.decode (inside : Inside) (deeper : Bool) (base : ℕ) (l : Layer) (p : ParsedPacket) :
    ParsedPacket :=
  l.toUpper.decode inside deeper (base + l.origin) (setAddresses l.addresses p)

/-! ### The link layer -/

def skipTags (w : Bytes) : (fuel offset etherType : ℕ) → Option (ℕ × ℕ)
  | 0, _, _ => none
  | fuel + 1, offset, etherType =>
    if isVlanTag etherType then
      if w.length < offset + 4 then none else skipTags w fuel (offset + 4) (u16 w (offset + 2))
    else some (offset, etherType)

/-- Where the network layer of an Ethernet frame starts, and its EtherType. -/
def ethernet (w : Bytes) : Option (ℕ × ℕ) :=
  if w.length < 14 then none else skipTags w w.length 14 (u16 w 12)

def versionAt (w : Bytes) (i : ℕ) : Option ℕ :=
  if w.length ≤ i then none
  else if u8 w i >>> 4 = 4 then some kEthIPv4
  else if u8 w i >>> 4 = 6 then some kEthIPv6
  else none

def linkLayer (w : Bytes) : LinkType → Option (ℕ × ℕ)
  | .Ethernet => ethernet w
  | .LinuxSLL => if w.length < 16 then none else some (16, u16 w 14)
  | .LinuxSLL2 => if w.length < 20 then none else some (20, u16 w 0)
  | .NullLoopback =>
    if w.length < 4 then none
    else
      let le := u8 w 0 ||| u8 w 1 <<< 8 ||| u8 w 2 <<< 16 ||| u8 w 3 <<< 24
      ((etherTypeForFamily le <|> etherTypeForFamily (u32 w 0)) <|> versionAt w 4).map (4, ·)
  | .Loop =>
    if w.length < 4 then none else (etherTypeForFamily (u32 w 0) <|> versionAt w 4).map (4, ·)
  | .RawIP => (versionAt w 0).map (0, ·)
  | .IPv4 => some (0, kEthIPv4)
  | .IPv6 => some (0, kEthIPv6)
  | .Unsupported => none

/-! ### The transport layer -/

def tcpReport (w : Bytes) : Report :=
  if w.length < 20 then { protocol := some "TCP" }
  else
    let flags := u8 w 13
    let headerLen := (u8 w 12 >>> 4) * 4
    { protocol := some "TCP"
      ports := some
        { src := u16 w 0, dst := u16 w 2
          payload := if headerLen < 20 ∨ w.length ≤ headerLen then none
            else some (headerLen, w.length - headerLen) }
      tcp := some ⟨BitVec.ofNat 32 (u32 w 4), flags &&& 0x01 ≠ 0, flags &&& 0x02 ≠ 0,
        flags &&& 0x04 ≠ 0, flags &&& 0x10 ≠ 0⟩ }

/-- A complete Ethernet frame at `offset`. -/
def innerEthernet (w : Bytes) (offset : ℕ) : Option Inner :=
  (ethernet (w.drop offset)).map fun e => ⟨offset + e.1, w.drop (offset + e.1), e.2⟩

/-- The payload of GRE and GENEVE at `offset`. -/
def innerType (w : Bytes) (offset type : ℕ) : Option Inner :=
  if type = kEthTrBridge then innerEthernet w offset
  else if type = kEthIPv4 ∨ type = kEthIPv6 then some ⟨offset, w.drop offset, type⟩
  else none

def vxlan (w : Bytes) : Option Tunnel :=
  if w.length < 16 ∨ u8 w 8 &&& 0x08 = 0 then none
  else some { name := some "VXLAN", inner := innerEthernet w 16, atLimit := some {} }

def geneve (w : Bytes) : Option Tunnel :=
  let headerLen := 8 + (u8 w 8 &&& 0x3F) * 4
  if w.length < 16 ∨ u8 w 8 >>> 6 ≠ 0 ∨ w.length < 8 + headerLen then none
  else some
    { name := some "GENEVE", inner := innerType w (8 + headerLen) (u16 w 10), atLimit := some {} }

/-- The tunnel a UDP header `w` with its payload announces by its ports. -/
def udpTunnel (w : Bytes) : Option Tunnel :=
  if u16 w 2 = 4789 ∨ u16 w 0 = 4789 then vxlan w
  else if u16 w 2 = 6081 ∨ u16 w 0 = 6081 then geneve w
  else none

/-- The datagram of a UDP header and what follows it. -/
def datagram (w : Bytes) : Bytes := if u16 w 4 ≥ 8 then w.take (u16 w 4) else w

def udpReport (w : Bytes) : Report :=
  if w.length < 8 then { protocol := some "UDP" }
  else
    { protocol := some "UDP"
      ports := some
        { src := u16 w 0, dst := u16 w 2
          payload := if (datagram w).length ≤ 8 then none else some (8, (datagram w).length - 8) } }

def udpLayer (w : Bytes) : Upper :=
  { report := udpReport w
    tunnel := if (datagram w).length ≤ 8 then none else udpTunnel (datagram w) }

/-- The length of a complete GRE header of version 0. -/
def greHeaderLen (w : Bytes) : Option ℕ :=
  let flags := u16 w 0
  let headerLen := 4 + (if flags &&& 0x8000 ≠ 0 then 4 else 0) + (if flags &&& 0x2000 ≠ 0 then 4 else 0)
    + (if flags &&& 0x1000 ≠ 0 then 4 else 0)
  if w.length < 4 ∨ flags &&& 0x0007 ≠ 0 ∨ w.length < headerLen then none else some headerLen

def gre (w : Bytes) : Tunnel :=
  { name := (greHeaderLen w).map fun _ => "GRE"
    inner := (greHeaderLen w).bind fun headerLen => innerType w headerLen (u16 w 2)
    atLimit := some { protocol := some ("IP proto " ++ toString 47) }
    placeholder := ["", "Unknown"], label := "GRE" }

/-- `label` of the type byte of an ICMP message. -/
def icmpReport (protocol : String) (label : ℕ → String) (w : Bytes) : Report :=
  { protocol := some protocol, service := if w.length < 2 then none else some (label (u8 w 0)) }

/-- A whole IP packet under an IP header. -/
def ipInIp (name : String) (l4Proto etherType : ℕ) (w : Bytes) : Tunnel :=
  { name := some name, inner := some ⟨0, w, etherType⟩
    atLimit := some { protocol := some ("IP proto " ++ toString l4Proto) } }

def transportLayer (w : Bytes) (l4Proto : ℕ) : Upper :=
  if l4Proto = 6 then { report := tcpReport w }
  else if l4Proto = 17 then udpLayer w
  else if l4Proto = 1 then { report := icmpReport "ICMP" icmpService w }
  else if l4Proto = 58 then { report := icmpReport "ICMPv6" icmpv6Service w }
  else if l4Proto = 4 then { tunnel := some (ipInIp "IP-in-IP" 4 kEthIPv4 w) }
  else if l4Proto = 41 then { tunnel := some (ipInIp "6in4" 41 kEthIPv6 w) }
  else if l4Proto = 47 then { tunnel := some (gre w) }
  else if l4Proto = 50 then
    { report := { protocol := some "ESP", service := some "IPsec (encrypted)", encryptedTunnel := true } }
  else { report := { protocol := some ((ipProtocolName l4Proto).getD ("IP proto " ++ toString l4Proto)) } }

/-! ### The network layer -/

def ipv4Layer (sys : Platform) (w : Bytes) : Layer :=
  let ihl := (u8 w 0 &&& 0x0F) * 4
  let totalLength := u16 w 2
  let addresses := (sys.inetNtop4 (slice w 12 4), sys.inetNtop4 (slice w 16 4))
  if w.length < 20 ∨ u8 w 0 >>> 4 ≠ 4 ∨ ihl < 20 ∨ w.length < ihl ∨ totalLength < ihl then {}
  else if u16 w 6 &&& 0x1FFF ≠ 0 then
    { report := { protocol := some "IPv4 Fragment" }, addresses := some addresses }
  else
    { transportLayer ((w.take totalLength).drop ihl) (u8 w 9) with
      addresses := some addresses, origin := ihl }

/-- The extension header `nh` that starts `w`: its length and the next header. -/
def v6Extension (nh : ℕ) (w : Bytes) : Option (ℕ × ℕ) :=
  if nh = 0 ∨ nh = 43 ∨ nh = 60 ∨ nh = 135 then
    if w.length < 2 ∨ w.length < (u8 w 1 + 1) * 8 then none else some ((u8 w 1 + 1) * 8, u8 w 0)
  else if nh = 44 then
    if w.length < 8 then none else some (8, u8 w 0)
  else if nh = 51 then
    if w.length < 2 ∨ w.length < (u8 w 1 + 2) * 4 then none else some ((u8 w 1 + 2) * 4, u8 w 0)
  else none

/-- The chain of extension headers that starts `w`: the upper-layer protocol and
the length of the chain. -/
def v6Chain : (fuel nh : ℕ) → Bytes → ℕ × ℕ
  | 0, nh, _ => (nh, 0)
  | fuel + 1, nh, w =>
    match v6Extension nh w with
    | none => (nh, 0)
    | some (len, next) =>
      let (upper, length) := v6Chain fuel next (w.drop len)
      (upper, len + length)

def ipv6Layer (sys : Platform) (w : Bytes) : Layer :=
  let addresses := (sys.inetNtop6 (slice w 8 16), sys.inetNtop6 (slice w 24 16))
  let packet := w.take (40 + u16 w 4)
  let (upper, length) := v6Chain packet.length (u8 w 6) (packet.drop 40)
  if w.length < 40 then {}
  else
    { transportLayer (packet.drop (40 + length)) upper with
      addresses := some addresses, origin := 40 + length }

def arpLayer (sys : Platform) (w : Bytes) : Layer :=
  let hlen := u8 w 4
  let plen := u8 w 5
  let service := if u16 w 6 = 1 then "ARP request" else if u16 w 6 = 2 then "ARP reply" else ""
  if w.length < 8 then { report := { protocol := some "ARP" } }
  else
    { report := { protocol := some "ARP", service := some service }
      addresses :=
        if u16 w 2 = kEthIPv4 ∧ plen = 4 ∧ w.length ≥ 8 + 2 * (hlen + plen) then
          some (sys.inetNtop4 (slice w (8 + hlen) 4), sys.inetNtop4 (slice w (8 + (2 * hlen + plen)) 4))
        else none }

/-- The IP packet under the label stack at `pos`. -/
def mplsInner (w : Bytes) : (labels pos : ℕ) → Option Inner
  | 0, _ => none
  | labels + 1, pos =>
    if w.length < pos + 4 then none
    else if u8 w (pos + 2) &&& 0x01 = 0 then mplsInner w labels (pos + 4)
    else (versionAt w (pos + 4)).map fun etherType => ⟨pos + 4, w.drop (pos + 4), etherType⟩

def mpls (w : Bytes) : Tunnel :=
  { name := (mplsInner w 8 0).map fun _ => "MPLS", inner := mplsInner w 8 0
    placeholder := ["Unknown"], label := "MPLS" }

def pppoeInner (w : Bytes) : Option Inner :=
  if w.length < 8 then none
  else if u16 w 6 = 0x0021 then some ⟨8, w.drop 8, kEthIPv4⟩
  else if u16 w 6 = 0x0057 then some ⟨8, w.drop 8, kEthIPv6⟩
  else none

def pppoe (w : Bytes) : Tunnel :=
  { name := (pppoeInner w).map fun _ => "PPPoE", inner := pppoeInner w
    placeholder := ["Unknown"], label := "PPPoE" }

/-- The layer of `etherType` in the window `w`. -/
def layer (sys : Platform) (w : Bytes) (etherType : ℕ) : Layer :=
  if etherType = kEthMplsUni ∨ etherType = kEthMplsMul then { tunnel := some (mpls w) }
  else if etherType = kEthPppoeSess then { tunnel := some (pppoe w) }
  else if etherType = kEthIPv4 then ipv4Layer sys w
  else if etherType = kEthIPv6 then ipv6Layer sys w
  else if etherType = kEthARP then arpLayer sys w
  else { report := { protocol := some ((etherTypeName etherType).getD "Non-IP") } }

/-- The layers from `base` on, with `descents` tunnels still allowed. -/
def descend (sys : Platform) : (descents : ℕ) → Inside
  | 0, _, _, _, p => p
  | descents + 1, base, w, etherType, p =>
    (layer sys w etherType).decode (descend sys descents) (0 < descents) base p

/-! ### What every layer keeps to -/

/-- An extension header has at least eight bytes and fits the window. -/
theorem v6Extension_le {nh len next : ℕ} {w : Bytes} (h : v6Extension nh w = some (len, next)) :
    8 ≤ len ∧ len ≤ w.length := by
  unfold v6Extension at h
  split_ifs at h <;> simp only [Option.some.injEq, Prod.mk.injEq] at h <;> omega

theorem v6Extension_none {nh : ℕ} (h : nh ∉ [0, 43, 44, 51, 60, 135]) (w : Bytes) : v6Extension nh w = none := by
  simp only [List.mem_cons, List.not_mem_nil, or_false, not_or] at h
  unfold v6Extension
  rw [if_neg (by omega), if_neg (by omega), if_neg (by omega)]

/-- The chain of extension headers fits the window. -/
theorem v6Chain_le : ∀ {n nh : ℕ} {w : Bytes}, (v6Chain n nh w).2 ≤ w.length := by
  intro n
  induction n with
  | zero => intro nh w; exact Nat.zero_le _
  | succ n ih =>
    intro nh w
    rw [v6Chain]
    cases he : v6Extension nh w with
    | none => exact Nat.zero_le _
    | some e =>
      have hl := v6Extension_le he
      have := @ih e.2 (w.drop e.1)
      rw [List.length_drop] at this
      dsimp only
      omega

theorem u16_datagram {w : Bytes} {i : ℕ} (h : i + 1 < (datagram w).length) :
    u16 (datagram w) i = u16 w i := by
  unfold datagram at *
  split
  · rename_i hc
    rw [if_pos hc, List.length_take] at h
    show u8 _ i * 256 + u8 _ (i + 1) = u8 w i * 256 + u8 w (i + 1)
    rw [u8_take (by omega), u8_take (by omega)]
  · rfl

theorem length_datagram_le (w : Bytes) : (datagram w).length ≤ w.length := by
  unfold datagram
  split
  · rw [List.length_take]
    omega
  · exact le_rfl

/-- The protocols that only stand for a layer the decoder found nothing in. -/
def placeholders : List String := ["Unknown", "GRE", "MPLS", "PPPoE"]

/-- A tunnel in a window of `n` bytes: what is inside lies in the window, at the
limit at most the protocol is written, and a packet that leaves it without a
protocol of its own gets a placeholder. -/
structure Tunnel.WellFormed (t : Tunnel) (n : ℕ) : Prop where
  inner : ∀ i ∈ t.inner, i.offset + i.bytes.length ≤ n
  atLimit : ∀ r ∈ t.atLimit, r.ports = none ∧ r.service = none
  settle : t.placeholder = [] ∨ t.label ∈ placeholders

/-- A header in a window of `n` bytes: its payload is not empty and lies in the
window; only headers that end the descent label a service, and none of them is
TCP or UDP. -/
structure Upper.WellFormed (u : Upper) (n : ℕ) : Prop where
  payload : ∀ ports ∈ u.report.ports, ∀ e ∈ ports.payload, 0 < e.2 ∧ e.1 + e.2 ≤ n
  tunnel : ∀ t ∈ u.tunnel, t.WellFormed n
  service : u.report.service.isSome → u.tunnel = none ∧
    ∃ protocol, u.report.protocol = some protocol ∧ protocol ≠ "TCP" ∧ protocol ≠ "UDP"

/-- A report without ports and service. -/
theorem Upper.WellFormed.plain {r : Report} {n : ℕ} (hp : r.ports = none) (hs : r.service = none) :
    Upper.WellFormed { report := r } n :=
  ⟨by simp [hp], by simp, by simp [hs]⟩

/-- A report that ends the descent. -/
theorem Upper.WellFormed.final {r : Report} {n : ℕ} {protocol : String} (hp : r.ports = none)
    (hr : r.protocol = some protocol) (ht : protocol ≠ "TCP") (hu : protocol ≠ "UDP") :
    Upper.WellFormed { report := r } n :=
  ⟨by simp [hp], by simp, fun _ => ⟨rfl, protocol, hr, ht, hu⟩⟩

/-- A tunnel under a header that writes nothing. -/
theorem Upper.WellFormed.bare {t : Tunnel} {n : ℕ} (h : t.WellFormed n) :
    Upper.WellFormed { tunnel := some t } n :=
  ⟨by simp, by simpa using h, by simp⟩

theorem Tunnel.WellFormed.mono {t : Tunnel} {m n : ℕ} (h : t.WellFormed m) (hmn : m ≤ n) : t.WellFormed n :=
  ⟨fun i hi => (h.inner i hi).trans hmn, h.atLimit, h.settle⟩

theorem Upper.WellFormed.mono {u : Upper} {m n : ℕ} (h : u.WellFormed m) (hmn : m ≤ n) : u.WellFormed n :=
  ⟨fun ports hp e he => ⟨(h.payload ports hp e he).1, (h.payload ports hp e he).2.trans hmn⟩,
    fun t ht => (h.tunnel t ht).mono hmn, h.service⟩

theorem skipTags_le {w : Bytes} : ∀ {fuel offset etherType : ℕ} {e : ℕ × ℕ}, offset ≤ w.length →
    skipTags w fuel offset etherType = some e → e.1 ≤ w.length := by
  intro fuel
  induction fuel with
  | zero => intro offset etherType e _ h; simp [skipTags] at h
  | succ fuel ih =>
    intro offset etherType e ho h
    unfold skipTags at h
    split_ifs at h with ht hl
    · exact ih (by omega) h
    · cases h
      exact ho

theorem ethernet_le {w : Bytes} {e : ℕ × ℕ} (h : ethernet w = some e) : e.1 ≤ w.length := by
  unfold ethernet at h
  split_ifs at h
  exact skipTags_le (by omega) h

theorem innerEthernet_le {w : Bytes} {offset : ℕ} {i : Inner} (ho : offset ≤ w.length)
    (h : innerEthernet w offset = some i) : i.offset + i.bytes.length ≤ w.length := by
  unfold innerEthernet at h
  obtain ⟨e, he, rfl⟩ := Option.map_eq_some_iff.mp h
  have := ethernet_le he
  rw [List.length_drop] at this
  simp only [List.length_drop]
  omega

theorem innerType_le {w : Bytes} {offset type : ℕ} {i : Inner} (ho : offset ≤ w.length)
    (h : innerType w offset type = some i) : i.offset + i.bytes.length ≤ w.length := by
  unfold innerType at h
  split_ifs at h
  · exact innerEthernet_le ho h
  · cases h
    simp only [List.length_drop]
    omega

theorem tcpReport_wellFormed (w : Bytes) : Upper.WellFormed { report := tcpReport w } w.length := by
  unfold tcpReport
  split
  · exact .plain rfl rfl
  · refine ⟨?_, by simp, by simp⟩
    simp only [Option.mem_def, Option.some.injEq, forall_eq']
    intro e he
    split_ifs at he
    cases he
    dsimp only
    omega

theorem udpTunnel_wellFormed {w : Bytes} {t : Tunnel} (h : udpTunnel w = some t) : t.WellFormed w.length := by
  unfold udpTunnel at h
  split_ifs at h
  · unfold vxlan at h
    split_ifs at h
    cases h
    exact ⟨fun i hi => innerEthernet_le (by omega) hi, by simp, .inl rfl⟩
  · unfold geneve at h
    dsimp only at h
    split_ifs at h
    cases h
    exact ⟨fun i hi => innerType_le (by omega) hi, by simp, .inl rfl⟩

theorem udpLayer_wellFormed (w : Bytes) : (udpLayer w).WellFormed w.length := by
  have hd := length_datagram_le w
  have hr : (udpReport w).service = none := by
    unfold udpReport
    split <;> rfl
  refine ⟨?_, ?_, by simp [udpLayer, hr]⟩
  · unfold udpLayer udpReport
    split
    · simp
    · simp only [Option.mem_def, Option.some.injEq, forall_eq']
      intro e he
      split_ifs at he
      cases he
      dsimp only
      omega
  · intro t ht
    unfold udpLayer at ht
    dsimp only at ht
    split_ifs at ht
    · cases ht
    · exact (udpTunnel_wellFormed ht).mono hd

theorem greHeaderLen_eq_some {w : Bytes} {headerLen : ℕ} (h : greHeaderLen w = some headerLen) :
    4 ≤ headerLen ∧ headerLen ≤ w.length := by
  unfold greHeaderLen at h
  dsimp only at h
  generalize (if u16 w 0 &&& 0x8000 ≠ 0 then 4 else 0) = checksum at h
  generalize (if u16 w 0 &&& 0x2000 ≠ 0 then 4 else 0) = key at h
  generalize (if u16 w 0 &&& 0x1000 ≠ 0 then 4 else 0) = sequence at h
  split_ifs at h
  cases h
  omega

theorem gre_wellFormed (w : Bytes) : (gre w).WellFormed w.length := by
  refine ⟨fun i hi => ?_, by simp [gre], .inr (by simp [gre, placeholders])⟩
  obtain ⟨headerLen, hlen, hi⟩ := Option.bind_eq_some_iff.mp hi
  exact innerType_le (greHeaderLen_eq_some hlen).2 hi

theorem ipInIp_wellFormed (name : String) (l4Proto etherType : ℕ) (w : Bytes) :
    (ipInIp name l4Proto etherType w).WellFormed w.length :=
  ⟨by simp [ipInIp], by simp [ipInIp], .inl rfl⟩

theorem transportLayer_wellFormed (w : Bytes) (l4Proto : ℕ) :
    (transportLayer w l4Proto).WellFormed w.length := by
  unfold transportLayer
  split_ifs
  · exact tcpReport_wellFormed w
  · exact udpLayer_wellFormed w
  · exact .final rfl rfl (by decide) (by decide)
  · exact .final rfl rfl (by decide) (by decide)
  · exact .bare (ipInIp_wellFormed ..)
  · exact .bare (ipInIp_wellFormed ..)
  · exact .bare (gre_wellFormed w)
  · exact .final rfl rfl (by decide) (by decide)
  · exact .plain rfl rfl

theorem versionAt_eq_some {w : Bytes} {i etherType : ℕ} (h : versionAt w i = some etherType) :
    i < w.length ∧ (u8 w i >>> 4 = 4 ∧ etherType = kEthIPv4 ∨ u8 w i >>> 4 = 6 ∧ etherType = kEthIPv6) := by
  unfold versionAt at h
  split_ifs at h with hl h4 h6
  · exact ⟨not_le.mp hl, .inl ⟨h4, (Option.some.inj h).symm⟩⟩
  · exact ⟨not_le.mp hl, .inr ⟨h6, (Option.some.inj h).symm⟩⟩

/-- Under the labels is the rest of the window, an IP packet. -/
theorem mplsInner_eq_some {w : Bytes} {i : Inner} : ∀ {labels pos : ℕ}, mplsInner w labels pos = some i →
    ∃ offset etherType, pos + 4 ≤ offset ∧ versionAt w offset = some etherType ∧
      i = ⟨offset, w.drop offset, etherType⟩ := by
  intro labels
  induction labels with
  | zero => intro pos h; cases h
  | succ labels ih =>
    intro pos h
    unfold mplsInner at h
    split_ifs at h
    · obtain ⟨offset, etherType, hoffset, hv, hi⟩ := ih h
      exact ⟨offset, etherType, by omega, hv, hi⟩
    · obtain ⟨etherType, hv, rfl⟩ := Option.map_eq_some_iff.mp h
      exact ⟨pos + 4, etherType, le_rfl, hv, rfl⟩

theorem mpls_wellFormed (w : Bytes) : (mpls w).WellFormed w.length := by
  refine ⟨fun i hi => ?_, by simp [mpls], .inr (by simp [mpls, placeholders])⟩
  obtain ⟨offset, etherType, -, hv, rfl⟩ := mplsInner_eq_some hi
  have hlt := (versionAt_eq_some hv).1
  simp only [List.length_drop]
  omega

theorem pppoeInner_eq_some {w : Bytes} {i : Inner} (h : pppoeInner w = some i) :
    ∃ etherType, 8 ≤ w.length ∧ (etherType = kEthIPv4 ∨ etherType = kEthIPv6) ∧ i = ⟨8, w.drop 8, etherType⟩ := by
  unfold pppoeInner at h
  split_ifs at h with hl
  · exact ⟨kEthIPv4, not_lt.mp hl, .inl rfl, (Option.some.inj h).symm⟩
  · exact ⟨kEthIPv6, not_lt.mp hl, .inr rfl, (Option.some.inj h).symm⟩

theorem pppoe_wellFormed (w : Bytes) : (pppoe w).WellFormed w.length := by
  refine ⟨fun i hi => ?_, by simp [pppoe], .inr (by simp [pppoe, placeholders])⟩
  obtain ⟨etherType, hl, -, rfl⟩ := pppoeInner_eq_some hi
  simp only [List.length_drop]
  omega

theorem etherTypeName_ne (etherType : ℕ) : etherTypeName etherType ≠ some "" := by
  unfold etherTypeName
  split <;> simp

/-- A layer is a transport layer inside the window, a tunnel header at its start
or a bare report: what holds of these holds of every layer and its origin. -/
theorem layer_cases {P : Upper → ℕ → Prop} (sys : Platform) (w : Bytes) (etherType : ℕ)
    (transport : ∀ segment l4Proto origin, origin + segment.length ≤ w.length →
      P (transportLayer segment l4Proto) origin)
    (mpls : P { tunnel := some (mpls w) } 0) (pppoe : P { tunnel := some (pppoe w) } 0) (empty : P {} 0)
    (unlabelled : ∀ protocol, protocol ≠ "" → P { report := { protocol := some protocol } } 0)
    (arp : ∀ service, P { report := { protocol := some "ARP", service := some service } } 0) :
    P (layer sys w etherType).toUpper (layer sys w etherType).origin := by
  unfold layer
  split_ifs
  · exact mpls
  · exact pppoe
  · unfold ipv4Layer
    dsimp only
    split_ifs
    · exact empty
    · exact unlabelled _ (by decide)
    · refine transport _ _ _ ?_
      simp only [List.length_drop, List.length_take]
      omega
  · unfold ipv6Layer
    dsimp only
    have hchain := @v6Chain_le (w.take (40 + w.u16 4)).length (w.u8 6) ((w.take (40 + w.u16 4)).drop 40)
    simp only [List.length_drop, List.length_take] at hchain
    split_ifs
    · exact empty
    · refine transport _ _ _ ?_
      simp only [List.length_drop, List.length_take]
      omega
  · unfold arpLayer
    dsimp only
    split
    · exact unlabelled _ (by decide)
    · exact arp _
  · refine unlabelled _ ?_
    cases hn : etherTypeName etherType with
    | none => simp
    | some name => exact fun he => etherTypeName_ne etherType (hn.trans (congrArg some he))

/-- Every layer of a window is well formed in it, from its transport header on. -/
theorem layer_wellFormed (sys : Platform) (w : Bytes) (etherType : ℕ) :
    (layer sys w etherType).origin ≤ w.length ∧
      (layer sys w etherType).toUpper.WellFormed (w.length - (layer sys w etherType).origin) := by
  apply layer_cases (P := fun u origin => origin ≤ w.length ∧ u.WellFormed (w.length - origin)) sys w etherType
  case transport =>
    intro segment l4Proto origin h
    exact ⟨by omega, (transportLayer_wellFormed segment l4Proto).mono (by omega)⟩
  case mpls => exact ⟨Nat.zero_le _, .bare (mpls_wellFormed w)⟩
  case pppoe => exact ⟨Nat.zero_le _, .bare (pppoe_wellFormed w)⟩
  case empty => exact ⟨Nat.zero_le _, .plain rfl rfl⟩
  case unlabelled => exact fun _ _ => ⟨Nat.zero_le _, .plain rfl rfl⟩
  case arp => exact fun _ => ⟨Nat.zero_le _, .final rfl rfl (by decide) (by decide)⟩

/-- Entering a tunnel writes the fields of tunnels and no other. -/
theorem pushTunnel_frame (p : ParsedPacket) (name : String) : pushTunnel p name = { p with
    tunnel := (pushTunnel p name).tunnel, outerSrcIP := (pushTunnel p name).outerSrcIP
    outerDstIP := (pushTunnel p name).outerDstIP } := by
  unfold pushTunnel
  dsimp only
  split_ifs <;> rfl

theorem Tunnel.push_frame (t : Tunnel) (p : ParsedPacket) : t.push p = { p with
    tunnel := (t.push p).tunnel, outerSrcIP := (t.push p).outerSrcIP, outerDstIP := (t.push p).outerDstIP } := by
  unfold Tunnel.push
  cases t.name with
  | none => rfl
  | some name => exact pushTunnel_frame p name

/-- Leaving one writes the protocol at most. -/
theorem Tunnel.settle_frame (t : Tunnel) (p : ParsedPacket) :
    t.settle p = { p with protocol := (t.settle p).protocol } := by
  unfold Tunnel.settle
  split_ifs <;> rfl

/-- At the depth limit a tunnel with a report for it is reported, any other is entered. -/
theorem Tunnel.decode_cases (t : Tunnel) (deeper : Bool) :
    (∃ r ∈ t.atLimit, deeper = false ∧ ∀ inside base p, t.decode inside deeper base p = r.apply base p) ∨
      ((t.atLimit = none ∨ deeper = true) ∧
        ∀ inside base p, t.decode inside deeper base p = t.enter inside base p) := by
  cases hl : t.atLimit with
  | none => exact .inr ⟨.inl rfl, fun inside base p => by simp only [Tunnel.decode, hl]⟩
  | some r =>
    cases deeper with
    | true => exact .inr ⟨.inr rfl, fun inside base p => by simp only [Tunnel.decode, hl]⟩
    | false => exact .inl ⟨r, rfl, rfl, fun inside base p => by simp only [Tunnel.decode, hl]⟩

/-! ### Two descents side by side

What every stage of a descent preserves holds of a whole one: of two descents
through the same window, `d` apart, from packets related by `Pre`, until the
last header leaves them related by `Post`. -/

structure Preserved (size d : ℕ) (Pre Post : ParsedPacket → ParsedPacket → Prop) : Prop where
  stop : ∀ {p q}, Pre p q → Post p q
  addresses : ∀ {p q} (a : Option (String × String)), Pre p q → Pre (setAddresses a p) (setAddresses a q)
  through : ∀ {p q} {u : Upper} {n base : ℕ}, u.WellFormed n → base + n ≤ size → u.tunnel.isSome →
    Pre p q → Pre (u.report.apply (base + d) p) (u.report.apply base q)
  last : ∀ {p q} {u : Upper} {n base : ℕ}, u.WellFormed n → base + n ≤ size →
    Pre p q → Post (u.report.apply (base + d) p) (u.report.apply base q)
  push : ∀ {p q} (name : String), Pre p q → Pre (pushTunnel p name) (pushTunnel q name)
  settle : ∀ {p q} {t : Tunnel} {n : ℕ}, t.WellFormed n → Post p q → Post (t.settle p) (t.settle q)

section Preserved

variable {sys : Platform} {size d : ℕ} {Pre Post : ParsedPacket → ParsedPacket → Prop} (h : Preserved size d Pre Post)
include h

/-- A header and what is under it, given what holds of the layers inside. -/
theorem upper_preserved {inside : Inside} {deeper : Bool}
    (hinside : ∀ {base etherType : ℕ} {w : Bytes} {p q : ParsedPacket}, base + w.length ≤ size → Pre p q →
      Post (inside (base + d) w etherType p) (inside base w etherType q))
    {u : Upper} {n base : ℕ} {p q : ParsedPacket} (hu : u.WellFormed n) (hbase : base + n ≤ size) (hpq : Pre p q) :
    Post (u.decode inside deeper (base + d) p) (u.decode inside deeper base q) := by
  unfold Upper.decode
  cases ht : u.tunnel with
  | none => exact h.last hu hbase hpq
  | some t =>
    have htw := hu.tunnel t ht
    have hr := h.through hu hbase (by simp [ht]) hpq
    have hin : Post (t.enter inside (base + d) (u.report.apply (base + d) p))
        (t.enter inside base (u.report.apply base q)) := by
      have hpush : Pre (t.push (u.report.apply (base + d) p)) (t.push (u.report.apply base q)) := by
        unfold Tunnel.push
        cases t.name with
        | none => exact hr
        | some name => exact h.push name hr
      refine h.settle htw ?_
      cases hi : t.inner with
      | none => exact h.stop hpush
      | some i =>
        have := htw.inner i hi
        simp only [enterInner]
        rw [Nat.add_right_comm _ d]
        exact hinside (by omega) hpush
    rw [decodeTunnel, decodeTunnel]
    obtain ⟨r, hl, -, hdecode⟩ | ⟨-, hdecode⟩ := t.decode_cases deeper
    · have hplain : Upper.WellFormed { report := r } 0 := .plain (htw.atLimit r hl).1 (htw.atLimit r hl).2
      rw [hdecode, hdecode]
      exact h.last hplain (by omega) hr
    · rw [hdecode, hdecode]
      exact hin

theorem descend_preserved : ∀ {descents base etherType : ℕ} {w : Bytes} {p q : ParsedPacket},
    base + w.length ≤ size → Pre p q →
    Post (descend sys descents (base + d) w etherType p) (descend sys descents base w etherType q) := by
  intro descents
  induction descents with
  | zero => intro base etherType w p q _ hpq; exact h.stop hpq
  | succ descents ih =>
    intro base etherType w p q hbase hpq
    obtain ⟨ho, hu⟩ := layer_wellFormed sys w etherType
    unfold descend Layer.decode
    rw [Nat.add_right_comm base d]
    exact upper_preserved h ih hu (by omega) (h.addresses _ hpq)

end Preserved

end ProtocolParser
end NetProbe
