/-
# ProtocolParser: the decoders

From the link layer down to the transport header, through VLAN tags, MPLS,
PPPoE, GRE, VXLAN, GENEVE and IP-in-IP. Every decoder takes the frame, the end
of its layer (`stop`) and the offset it starts at, and fills in the shared
`ParsedPacket`. The tunnel decoders recurse into `decodeNetwork`, which they
take as a parameter (`Descend`); `decodeNetwork` ties the knot, with the number
of descents still allowed. Loops carry the number of turns their buffer bounds
them by.
-/
import NetProbe.Catalog

namespace NetProbe
namespace ProtocolParser

open Checked Bytes

def kEthIPv4 : ℕ := 0x0800
def kEthARP : ℕ := 0x0806
def kEthIPv6 : ℕ := 0x86DD
def kEthMplsUni : ℕ := 0x8847
def kEthMplsMul : ℕ := 0x8848
def kEthPppoeSess : ℕ := 0x8864
def kEthTrBridge : ℕ := 0x6558

def kMaxTunnelDepth : ℕ := 4

def ipv4ToString (sys : Platform) (buffer : Bytes) (i : ℕ) : Checked String := do
  return sys.inetNtop4 (← window buffer i 4)

def ipv6ToString (sys : Platform) (buffer : Bytes) (i : ℕ) : Checked String := do
  return sys.inetNtop6 (← window buffer i 16)

/-- Record a layer of encapsulation; the first one with carrier addresses
snapshots them. -/
def pushTunnel (p : ParsedPacket) (name : String) : ParsedPacket :=
  let p := if p.outerSrcIP = "" ∧ p.srcIP ≠ "" then
    { p with outerSrcIP := p.srcIP, outerDstIP := p.dstIP } else p
  { p with tunnel := if p.tunnel = "" then name else p.tunnel ++ ("/" ++ name) }

/-! ### IPv6 extension headers -/

/-- The position after the extension header `nh` at `pos` and the next header
it announces; none when `nh` is not one or it is cut short. -/
def walkV6Extension (nh : ℕ) (buffer : Bytes) (size pos : ℕ) : Checked (Option (ℕ × ℕ)) := do
  if nh = 0 ∨ nh = 43 ∨ nh = 60 ∨ nh = 135 then
    if size < pos + 2 then return none
    let newNh ← readU8 buffer pos
    let hdrLen := ((← readU8 buffer (pos + 1)) + 1) * 8
    if size < pos + hdrLen then return none
    return some (pos + hdrLen, newNh)
  else if nh = 44 then
    if size < pos + 8 then return none
    return some (pos + 8, ← readU8 buffer pos)
  else if nh = 51 then
    if size < pos + 2 then return none
    let outNext ← readU8 buffer pos
    let hdrLen := ((← readU8 buffer (pos + 1)) + 2) * 4
    if size < pos + hdrLen then return none
    return some (pos + hdrLen, outNext)
  else return none

/-- The `while (true)` walk of `decodeNetwork`: the upper-layer protocol and
where it starts. -/
def walkV6Chain (buffer : Bytes) (size : ℕ) : (fuel nextHeader pos : ℕ) → Checked (ℕ × ℕ)
  | 0, _, _ => .error .outOfFuel
  | fuel + 1, nextHeader, pos => do
    let some (pos', newNext) ← walkV6Extension nextHeader buffer size pos | return (nextHeader, pos)
    walkV6Chain buffer size fuel newNext pos'

/-! ### The link layer -/

/-- 802.1Q, 802.1ad and 0x9100 tags stack ahead of the real EtherType. -/
def isVlanTag (etherType : ℕ) : Prop :=
  etherType = 0x8100 ∨ etherType = 0x88A8 ∨ etherType = 0x9100

instance (etherType : ℕ) : Decidable (isVlanTag etherType) :=
  inferInstanceAs (Decidable (_ ∨ _ ∨ _))

def skipVlanTags (buffer : Bytes) : (fuel outOffset outEtherType : ℕ) → Checked (Option (ℕ × ℕ))
  | 0, _, _ => .error .outOfFuel
  | fuel + 1, outOffset, outEtherType => do
    if isVlanTag outEtherType then
      if buffer.length < outOffset + 4 then return none
      skipVlanTags buffer fuel (outOffset + 4) (← readU16 buffer (outOffset + 2))
    else return some (outOffset, outEtherType)

/-- The EtherType an address family of the BSD loopbacks stands for. -/
def etherTypeForFamily (af : ℕ) : Option ℕ :=
  if af = 2 then some kEthIPv4
  else if af = 10 ∨ af = 23 ∨ af = 24 ∨ af = 28 ∨ af = 30 then some kEthIPv6
  else none

/-- The EtherType the version nibble at `pos` stands for. -/
def etherTypeForIpVersion (buffer : Bytes) (pos : ℕ) : Checked (Option ℕ) := do
  if pos ≥ buffer.length then return none
  let version := (← readU8 buffer pos) >>> 4
  if version = 4 then return some kEthIPv4
  if version = 6 then return some kEthIPv6
  return none

/-- Where the network layer starts and its EtherType; none when the header is
truncated or the link type carries no IP we can locate. -/
def decodeLinkLayer (buffer : Bytes) (link : LinkType) : Checked (Option (ℕ × ℕ)) := do
  match link with
  | .Ethernet =>
    if buffer.length < 14 then return none
    skipVlanTags buffer buffer.length 14 (← readU16 buffer 12)
  | .LinuxSLL =>
    if buffer.length < 16 then return none
    return some (16, ← readU16 buffer 14)
  | .LinuxSLL2 =>
    if buffer.length < 20 then return none
    return some (20, ← readU16 buffer 0)
  | .NullLoopback =>
    if buffer.length < 4 then return none
    let le := (← readU8 buffer 0) ||| (← readU8 buffer 1) <<< 8 ||| (← readU8 buffer 2) <<< 16
      ||| (← readU8 buffer 3) <<< 24
    let be ← readU32 buffer 0
    match etherTypeForFamily le <|> etherTypeForFamily be with
    | some etherType => return some (4, etherType)
    | none => return (← etherTypeForIpVersion buffer 4).map (4, ·)
  | .Loop =>
    if buffer.length < 4 then return none
    match etherTypeForFamily (← readU32 buffer 0) with
    | some etherType => return some (4, etherType)
    | none => return (← etherTypeForIpVersion buffer 4).map (4, ·)
  | .RawIP => return (← etherTypeForIpVersion buffer 0).map (0, ·)
  | .IPv4 => return some (0, kEthIPv4)
  | .IPv6 => return some (0, kEthIPv6)
  | .Unsupported => return none

/-! ### Tunnels -/

/-- `decodeNetwork` on a frame: from the end of the layer, the offset and the
EtherType, at a tunnel depth. -/
abbrev Descend := (stop offset etherType : ℕ) → ParsedPacket → (depth : ℕ) → Checked ParsedPacket

/-- Re-enter at an inner Ethernet frame (VXLAN, GENEVE with TEB, GRE-TEB). -/
def decodeInnerEthernet (decodeNetwork : Descend) (buffer : Bytes) (stop offset : ℕ)
    (p : ParsedPacket) (depth : ℕ) : Checked ParsedPacket := do
  if offset ≥ stop then return p
  let frame ← window buffer offset (← sub stop offset)
  let some (innerOffset, innerEtherType) ← decodeLinkLayer frame .Ethernet | return p
  decodeNetwork stop (offset + innerOffset) innerEtherType p (depth + 1)

/-- The payload of GRE and GENEVE: a bridged frame or a bare IP packet. -/
def decodeInnerType (decodeNetwork : Descend) (buffer : Bytes) (stop innerOffset innerType : ℕ)
    (p : ParsedPacket) (depth : ℕ) : Checked ParsedPacket :=
  if innerType = kEthTrBridge then
    decodeInnerEthernet decodeNetwork buffer stop innerOffset p depth
  else if innerType = kEthIPv4 ∨ innerType = kEthIPv6 then
    decodeNetwork stop innerOffset innerType p (depth + 1)
  else .ok p

/-- GRE: only version 0 carries a plain encapsulated protocol. -/
def decodeGre (decodeNetwork : Descend) (buffer : Bytes) (stop offset : ℕ) (p : ParsedPacket)
    (depth : ℕ) : Checked ParsedPacket := do
  if stop < offset + 4 then return p
  let flags ← readU16 buffer offset
  let innerType ← readU16 buffer (offset + 2)
  if flags &&& 0x0007 ≠ 0 then return p
  let headerLen := 4 + (if flags &&& 0x8000 ≠ 0 then 4 else 0) + (if flags &&& 0x2000 ≠ 0 then 4 else 0)
    + (if flags &&& 0x1000 ≠ 0 then 4 else 0)
  if stop < offset + headerLen then return p
  decodeInnerType decodeNetwork buffer stop (offset + headerLen) innerType (pushTunnel p "GRE") depth

/-- VXLAN: an 8-byte header, then a complete inner Ethernet frame. -/
def decodeVxlan (decodeNetwork : Descend) (buffer : Bytes) (stop offset : ℕ) (p : ParsedPacket)
    (depth : ℕ) : Checked ParsedPacket := do
  if stop < offset + 8 then return p
  if (← readU8 buffer offset) &&& 0x08 = 0 then return p
  decodeInnerEthernet decodeNetwork buffer stop (offset + 8) (pushTunnel p "VXLAN") depth

/-- GENEVE: an 8-byte base header and options, then a frame identified by the
protocol type. -/
def decodeGeneve (decodeNetwork : Descend) (buffer : Bytes) (stop offset : ℕ) (p : ParsedPacket)
    (depth : ℕ) : Checked ParsedPacket := do
  if stop < offset + 8 then return p
  let verOptLen ← readU8 buffer offset
  if verOptLen >>> 6 ≠ 0 then return p
  let optionsLen := (verOptLen &&& 0x3F) * 4
  let innerType ← readU16 buffer (offset + 2)
  let innerOffset := offset + 8 + optionsLen
  if stop < innerOffset then return p
  decodeInnerType decodeNetwork buffer stop innerOffset innerType (pushTunnel p "GENEVE") depth

/-- The label loop of `decodeMpls`, `labels` more labels at `pos`. -/
def decodeMplsLabels (decodeNetwork : Descend) (buffer : Bytes) (stop : ℕ) (p : ParsedPacket)
    (depth : ℕ) : (labels pos : ℕ) → Checked ParsedPacket
  | 0, _ => .ok p
  | labels + 1, pos => do
    if stop < pos + 4 then return p
    let bottomOfStack := (← readU8 buffer (pos + 2)) &&& 0x01 ≠ 0
    let pos := pos + 4
    if ¬ bottomOfStack then decodeMplsLabels decodeNetwork buffer stop p depth labels pos
    else if pos ≥ stop then return p
    else
      let version := (← readU8 buffer pos) >>> 4
      if version ≠ 4 ∧ version ≠ 6 then return p
      decodeNetwork stop pos (if version = 4 then kEthIPv4 else kEthIPv6) (pushTunnel p "MPLS") (depth + 1)

/-- MPLS: underneath the label stack is bare IP. -/
def decodeMpls (decodeNetwork : Descend) (buffer : Bytes) (stop offset : ℕ) (p : ParsedPacket)
    (depth : ℕ) : Checked ParsedPacket :=
  decodeMplsLabels decodeNetwork buffer stop p depth 8 offset

/-- PPPoE session stage: a 6-byte header, then a PPP protocol id. -/
def decodePppoe (decodeNetwork : Descend) (buffer : Bytes) (stop offset : ℕ) (p : ParsedPacket)
    (depth : ℕ) : Checked ParsedPacket := do
  if stop < offset + 6 + 2 then return p
  let pppProtocol ← readU16 buffer (offset + 6)
  let innerOffset := offset + 6 + 2
  if pppProtocol = 0x0021 then
    decodeNetwork stop innerOffset kEthIPv4 (pushTunnel p "PPPoE") (depth + 1)
  else if pppProtocol = 0x0057 then
    decodeNetwork stop innerOffset kEthIPv6 (pushTunnel p "PPPoE") (depth + 1)
  else return p

/-! ### Transport -/

def decodeTcp (buffer : Bytes) (stop offset : ℕ) (p : ParsedPacket) : Checked ParsedPacket := do
  let p := { p with protocol := "TCP" }
  if stop < offset + 20 then return p
  let srcPort ← readU16 buffer offset
  let dstPort ← readU16 buffer (offset + 2)
  let tcpSeq ← readU32 buffer (offset + 4)
  let tcpFlags ← readU8 buffer (offset + 13)
  let p := { p with
    srcPort, dstPort, tcpSeq := BitVec.ofNat 32 tcpSeq
    tcpFin := tcpFlags &&& 0x01 ≠ 0
    tcpSyn := tcpFlags &&& 0x02 ≠ 0
    tcpRst := tcpFlags &&& 0x04 ≠ 0
    tcpAck := tcpFlags &&& 0x10 ≠ 0 }
  let tcpHeaderLen := ((← readU8 buffer (offset + 12)) >>> 4) * 4
  if tcpHeaderLen < 20 ∨ stop < offset + tcpHeaderLen then return p
  let payloadOffset := offset + tcpHeaderLen
  if payloadOffset < stop then
    return { p with payloadOffset, payloadLength := ← sub stop payloadOffset }
  else return p

def decodeUdp (decodeNetwork : Descend) (buffer : Bytes) (stop offset : ℕ) (p : ParsedPacket)
    (depth : ℕ) : Checked ParsedPacket := do
  let p := { p with protocol := "UDP" }
  if stop < offset + 8 then return p
  let srcPort ← readU16 buffer offset
  let dstPort ← readU16 buffer (offset + 2)
  let p := { p with srcPort, dstPort }
  let udpLength ← readU16 buffer (offset + 4)
  let declaredEnd := if udpLength ≥ 8 then offset + udpLength else stop
  let udpEnd := min stop declaredEnd
  let payloadOffset := offset + 8
  if payloadOffset ≥ udpEnd then return p
  let p := { p with payloadOffset, payloadLength := ← sub udpEnd payloadOffset }
  -- UDP-borne tunnels carry a whole inner frame
  if depth < kMaxTunnelDepth then
    if dstPort = 4789 ∨ srcPort = 4789 then
      decodeVxlan decodeNetwork buffer udpEnd payloadOffset p depth
    else if dstPort = 6081 ∨ srcPort = 6081 then
      decodeGeneve decodeNetwork buffer udpEnd payloadOffset p depth
    else return p
  else return p

/-- The service label of an ICMP type. -/
def icmpService : ℕ → String
  | 0 => "Echo reply"
  | 8 => "Echo request"
  | 3 => "Destination unreachable"
  | 11 => "Time exceeded"
  | 5 => "Redirect"
  | type => "ICMP type " ++ toString type

def decodeIcmp (buffer : Bytes) (stop offset : ℕ) (p : ParsedPacket) : Checked ParsedPacket := do
  let p := { p with protocol := "ICMP" }
  if stop < offset + 2 then return p
  return { p with service := icmpService (← readU8 buffer offset) }

/-- The service label of an ICMPv6 type. -/
def icmpv6Service : ℕ → String
  | 128 => "Echo request"
  | 129 => "Echo reply"
  | 133 => "Router solicitation"
  | 134 => "Router advertisement"
  | 135 => "Neighbor solicitation"
  | 136 => "Neighbor advertisement"
  | 1 => "Destination unreachable"
  | 3 => "Time exceeded"
  | type => "ICMPv6 type " ++ toString type

def decodeIcmpv6 (buffer : Bytes) (stop offset : ℕ) (p : ParsedPacket) : Checked ParsedPacket := do
  let p := { p with protocol := "ICMPv6" }
  if stop < offset + 2 then return p
  return { p with service := icmpv6Service (← readU8 buffer offset) }

def decodeTransport (decodeNetwork : Descend) (buffer : Bytes) (stop offset l4Proto : ℕ)
    (p : ParsedPacket) (depth : ℕ) : Checked ParsedPacket := do
  if l4Proto = 6 then decodeTcp buffer stop offset p
  else if l4Proto = 17 then decodeUdp decodeNetwork buffer stop offset p depth
  else if l4Proto = 1 then decodeIcmp buffer stop offset p
  else if l4Proto = 58 then decodeIcmpv6 buffer stop offset p
  else if l4Proto = 4 ∧ depth < kMaxTunnelDepth then
    decodeNetwork stop offset kEthIPv4 (pushTunnel p "IP-in-IP") (depth + 1)
  else if l4Proto = 41 ∧ depth < kMaxTunnelDepth then
    decodeNetwork stop offset kEthIPv6 (pushTunnel p "6in4") (depth + 1)
  else if l4Proto = 47 ∧ depth < kMaxTunnelDepth then
    let p ← decodeGre decodeNetwork buffer stop offset p depth
    return if p.protocol = "" ∨ p.protocol = "Unknown" then { p with protocol := "GRE" } else p
  else if l4Proto = 50 then
    return { p with protocol := "ESP", service := "IPsec (encrypted)", encryptedTunnel := true }
  else
    match ipProtocolName l4Proto with
    | some name => return { p with protocol := name }
    | none => return { p with protocol := "IP proto " ++ toString l4Proto }

/-! ### The network layer -/

def decodeIPv4 (sys : Platform) (decodeNetwork : Descend) (buffer : Bytes) (stop offset : ℕ)
    (p : ParsedPacket) (depth : ℕ) : Checked ParsedPacket := do
  if stop < offset + 20 then return p
  let versionHlen ← readU8 buffer offset
  let ihl := (versionHlen &&& 0x0F) * 4
  if versionHlen >>> 4 ≠ 4 ∨ ihl < 20 ∨ stop < offset + ihl then return p
  let totalLength ← readU16 buffer (offset + 2)
  if totalLength < ihl then return p
  let packetEnd := min stop (offset + totalLength)
  let srcIP ← ipv4ToString sys buffer (offset + 12)
  let dstIP ← ipv4ToString sys buffer (offset + 16)
  let p := { p with srcIP, dstIP }
  -- continuation fragments carry no transport header
  let flagsFragOff ← readU16 buffer (offset + 6)
  if flagsFragOff &&& 0x1FFF ≠ 0 then return { p with protocol := "IPv4 Fragment" }
  let proto ← readU8 buffer (offset + 9)
  decodeTransport decodeNetwork buffer packetEnd (offset + ihl) proto p depth

def decodeIPv6 (sys : Platform) (decodeNetwork : Descend) (buffer : Bytes) (stop offset : ℕ)
    (p : ParsedPacket) (depth : ℕ) : Checked ParsedPacket := do
  if stop < offset + 40 then return p
  let payloadLen ← readU16 buffer (offset + 4)
  let packetEnd := min stop (offset + 40 + payloadLen)
  let srcIP ← ipv6ToString sys buffer (offset + 8)
  let dstIP ← ipv6ToString sys buffer (offset + 24)
  let p := { p with srcIP, dstIP }
  let nextHeader ← readU8 buffer (offset + 6)
  let (nextHeader, pos) ← walkV6Chain buffer packetEnd packetEnd nextHeader (offset + 40)
  decodeTransport decodeNetwork buffer packetEnd pos nextHeader p depth

def decodeArp (sys : Platform) (buffer : Bytes) (stop offset : ℕ) (p : ParsedPacket) :
    Checked ParsedPacket := do
  let p := { p with protocol := "ARP" }
  if stop < offset + 8 then return p
  let ptype ← readU16 buffer (offset + 2)
  let hlen ← readU8 buffer (offset + 4)
  let plen ← readU8 buffer (offset + 5)
  let oper ← readU16 buffer (offset + 6)
  let arpBody := offset + 8
  let service := if oper = 1 then "ARP request" else if oper = 2 then "ARP reply" else ""
  if ptype = kEthIPv4 ∧ plen = 4 ∧ stop ≥ arpBody + 2 * (hlen + plen) then
    let srcIP ← ipv4ToString sys buffer (arpBody + hlen)
    let dstIP ← ipv4ToString sys buffer (arpBody + 2 * hlen + plen)
    return { p with srcIP, dstIP, service }
  else return { p with service }

/-- The body of `decodeNetwork`, below the tunnel-depth limit. -/
def decodeEtherType (sys : Platform) (decodeNetwork : Descend) (buffer : Bytes)
    (stop offset etherType : ℕ) (p : ParsedPacket) (depth : ℕ) : Checked ParsedPacket := do
  if etherType = kEthMplsUni ∨ etherType = kEthMplsMul then
    let p ← decodeMpls decodeNetwork buffer stop offset p depth
    return if p.protocol = "Unknown" then { p with protocol := "MPLS" } else p
  else if etherType = kEthPppoeSess then
    let p ← decodePppoe decodeNetwork buffer stop offset p depth
    return if p.protocol = "Unknown" then { p with protocol := "PPPoE" } else p
  else if etherType = kEthIPv4 then decodeIPv4 sys decodeNetwork buffer stop offset p depth
  else if etherType = kEthIPv6 then decodeIPv6 sys decodeNetwork buffer stop offset p depth
  else if etherType = kEthARP then decodeArp sys buffer stop offset p
  else
    match etherTypeName etherType with
    | some name => return { p with protocol := name }
    | none => return { p with protocol := "Non-IP" }

/-- The network layer at `offset`; `descents` bounds the recursion. -/
def decodeNetwork (sys : Platform) (buffer : Bytes) : (descents : ℕ) → Descend
  | 0, _, _, _, p, depth => if depth > kMaxTunnelDepth then .ok p else .error .outOfFuel
  | descents + 1, stop, offset, etherType, p, depth =>
    if depth > kMaxTunnelDepth then .ok p
    else decodeEtherType sys (decodeNetwork sys buffer descents) buffer stop offset etherType p depth

end ProtocolParser
end NetProbe
