/-
# UDP-borne tunnels

A carrier as bytes: a link header of any supported kind, an IPv4 or IPv6 header,
a UDP header with a port of VXLAN or GENEVE and the tunnel header, with length
fields that cover the inner frame exactly. `parse` of the wrapped frame is
`parse` of the inner frame, but for the tunnel fields and the place of the
payload, when the ports announce the tunnel header that is there and the inner
frame carries a transport payload. Else the payload of the carrier's own UDP
header stands in the result, unless the bytes taken for another tunnel header
lead to some other frame.

Key definitions: `LinkHeader`, `Carrier`, `Carrier.wrap`, `Carrier.Strays`, `Transparent`.
Key theorems: `LinkHeader.linkLayer_append`, `Carrier.layer_wrap`,
`parse_wrap_transparent`.
-/
import NetProbe.Tunnels
import NetProbe.Wire
import Mathlib.Tactic.IntervalCases

namespace NetProbe
namespace ProtocolParser

open Checked Bytes Wire

/-! ### Link headers -/

/-- An 802.1Q, 802.1ad or 0x9100 tag. -/
structure VlanTag where
  tpid : ℕ
  isTag : isVlanTag tpid
  tci : Block 2

def VlanTag.bytes (t : VlanTag) : Bytes := be16 t.tpid ++ t.tci.1

@[simp] theorem VlanTag.length_bytes (t : VlanTag) : t.bytes.length = 4 := by
  simp [VlanTag.bytes, t.tci.2]

theorem length_tags (tags : List VlanTag) : (tags.flatMap VlanTag.bytes).length = 4 * tags.length := by
  induction tags with
  | nil => rfl
  | cons t tags ih =>
    simp only [List.flatMap_cons, List.length_append, List.length_cons, VlanTag.length_bytes, ih]
    omega

/-- A 32-bit field, little-endian. -/
def le32 (n : ℕ) : Bytes :=
  [UInt8.ofNat n, UInt8.ofNat (n / 256), UInt8.ofNat (n / 65536), UInt8.ofNat (n / 16777216)]

/-- `bytes` is a header of the link type that announces `etherType`. -/
inductive LinkHeader (etherType : ℕ) : LinkType → Bytes → Prop
  | ethernet (addresses : Block 12) (tags : List VlanTag) :
    LinkHeader etherType .Ethernet (addresses.1 ++ tags.flatMap VlanTag.bytes ++ be16 etherType)
  | linuxSLL (head : Block 14) : LinkHeader etherType .LinuxSLL (head.1 ++ be16 etherType)
  | linuxSLL2 (tail : Block 18) : LinkHeader etherType .LinuxSLL2 (be16 etherType ++ tail.1)
  | nullLittle {family : ℕ} (h : etherTypeForFamily family = some etherType) :
    LinkHeader etherType .NullLoopback (le32 family)
  | nullBig {family : ℕ} (h : etherTypeForFamily family = some etherType) :
    LinkHeader etherType .NullLoopback (be32 family)
  | loop {family : ℕ} (h : etherTypeForFamily family = some etherType) :
    LinkHeader etherType .Loop (be32 family)
  | rawIP : LinkHeader etherType .RawIP []
  | ipv4 (h : etherType = kEthIPv4) : LinkHeader etherType .IPv4 []
  | ipv6 (h : etherType = kEthIPv6) : LinkHeader etherType .IPv6 []

/-- Tags are skipped one by one. -/
theorem skipTags_tags {etherType : ℕ} (he : ¬ isVlanTag etherType) (hlt : etherType < 65536) :
    ∀ {tags : List VlanTag} {pre rest : Bytes} {fuel : ℕ}, tags.length < fuel →
    let w := pre ++ (tags.flatMap VlanTag.bytes ++ (be16 etherType ++ rest))
    skipTags w fuel (pre.length + 2) (u16 w pre.length) =
      some (pre.length + (tags.flatMap VlanTag.bytes).length + 2, etherType) := by
  intro tags
  induction tags with
  | nil =>
    intro pre rest fuel hf w
    obtain ⟨fuel, rfl⟩ : ∃ n, fuel = n + 1 := ⟨fuel - 1, by omega⟩
    have hat : At w pre.length (be16 etherType) := ⟨pre, rest, by simp [w], rfl⟩
    rw [hat.u16 hlt, skipTags, if_neg he]
    simp
  | cons t tags ih =>
    intro pre rest fuel hf w
    obtain ⟨fuel, rfl⟩ : ∃ n, fuel = n + 1 := ⟨fuel - 1, by omega⟩
    have hat : At w pre.length (be16 t.tpid) :=
      ⟨pre, t.tci.1 ++ (tags.flatMap VlanTag.bytes ++ (be16 etherType ++ rest)), by simp [w, VlanTag.bytes], rfl⟩
    have htpid : t.tpid < 65536 := by
      have := t.isTag
      unfold isVlanTag at this
      omega
    have hw : w = (pre ++ t.bytes) ++ (tags.flatMap VlanTag.bytes ++ (be16 etherType ++ rest)) := by simp [w]
    have hlen : ¬ w.length < pre.length + 2 + 4 := by
      rw [hw]
      simp only [List.length_append, VlanTag.length_bytes, length_be16]
      omega
    have := @ih (pre ++ t.bytes) rest fuel (by simpa using hf)
    rw [hat.u16 htpid, skipTags, if_pos t.isTag, if_neg hlen]
    dsimp only at this
    rw [← hw, List.length_append, VlanTag.length_bytes] at this
    rw [show pre.length + 2 + 4 = pre.length + 4 + 2 by omega, show pre.length + 2 + 2 = pre.length + 4 by omega, this]
    simp only [List.flatMap_cons, List.length_append, VlanTag.length_bytes]
    congr 2
    omega

/-- The address families the loopback headers know. -/
theorem family_cases {family etherType : ℕ} (h : etherTypeForFamily family = some etherType) :
    family ∈ [2, 10, 23, 24, 28, 30] := by
  unfold etherTypeForFamily at h
  split_ifs at h with h1 h2
  · simp [h1]
  · simp only [List.mem_cons, List.not_mem_nil, or_false]
    omega

/-- The network layer starts where the link header ends. Raw IP has no header:
there the packet itself says what it is. -/
theorem LinkHeader.linkLayer_eq {etherType : ℕ} {link : LinkType} {header : Bytes}
    (h : LinkHeader etherType link header) (htag : ¬ isVlanTag etherType) (hlt : etherType < 65536) {rest : Bytes}
    (hv : link = .RawIP → versionAt rest 0 = some etherType) :
    linkLayer (header ++ rest) link = some (header.length, etherType) := by
  have hfamily : ∀ {family : ℕ}, etherTypeForFamily family = some etherType → family < 2 ^ 32 := by
    intro family hf
    have := family_cases hf
    simp only [List.mem_cons, List.not_mem_nil, or_false] at this
    omega
  cases h with
  | ethernet addresses tags =>
    have hw : addresses.1 ++ tags.flatMap VlanTag.bytes ++ be16 etherType ++ rest =
        addresses.1 ++ (tags.flatMap VlanTag.bytes ++ (be16 etherType ++ rest)) := by simp
    have htags := length_tags tags
    have := @skipTags_tags etherType htag hlt tags addresses.1 rest
      (addresses.1 ++ tags.flatMap VlanTag.bytes ++ be16 etherType ++ rest).length
      (by simp only [List.length_append, length_be16]; omega)
    rw [addresses.2, ← hw] at this
    unfold linkLayer ProtocolParser.ethernet
    dsimp only
    rw [if_neg (by simp only [List.length_append, length_be16, addresses.2]; omega), this]
    simp only [List.length_append, length_be16, addresses.2]
  | linuxSLL head =>
    have hat : At (head.1 ++ be16 etherType ++ rest) 14 (be16 etherType) := ⟨head.1, rest, by simp, head.2⟩
    unfold linkLayer
    dsimp only
    rw [if_neg (by simp only [List.length_append, length_be16, head.2]; omega), hat.u16 hlt]
    simp [head.2]
  | linuxSLL2 tail =>
    have hat : At (be16 etherType ++ tail.1 ++ rest) 0 (be16 etherType) := ⟨[], tail.1 ++ rest, by simp, rfl⟩
    unfold linkLayer
    dsimp only
    rw [if_neg (by simp only [List.length_append, length_be16, tail.2]; omega), hat.u16 hlt]
    simp [tail.2]
  | @nullLittle family hf =>
    have hle : ∀ family ∈ [2, 10, 23, 24, 28, 30],
        u8 (le32 family ++ rest) 0 ||| u8 (le32 family ++ rest) 1 <<< 8 ||| u8 (le32 family ++ rest) 2 <<< 16
          ||| u8 (le32 family ++ rest) 3 <<< 24 = family := by
      intro family hm
      simp only [List.mem_cons, List.not_mem_nil, or_false] at hm
      rcases hm with rfl | rfl | rfl | rfl | rfl | rfl <;> simp [le32, u8]
    unfold linkLayer
    dsimp only
    rw [if_neg (by simp [le32]), hle family (family_cases hf), hf]
    rfl
  | @nullBig family hf =>
    have hbe : ∀ family ∈ [2, 10, 23, 24, 28, 30],
        etherTypeForFamily (u8 (be32 family ++ rest) 0 ||| u8 (be32 family ++ rest) 1 <<< 8
          ||| u8 (be32 family ++ rest) 2 <<< 16 ||| u8 (be32 family ++ rest) 3 <<< 24) = none := by
      intro family hm
      simp only [List.mem_cons, List.not_mem_nil, or_false] at hm
      rcases hm with rfl | rfl | rfl | rfl | rfl | rfl <;> simp [be32, be16, u8, etherTypeForFamily]
    have hat : At (be32 family ++ rest) 0 (be32 family) := ⟨[], rest, rfl, rfl⟩
    unfold linkLayer
    dsimp only
    rw [if_neg (by simp), hbe family (family_cases hf), hat.u32 (hfamily hf), hf]
    rfl
  | @loop family hf =>
    have hat : At (be32 family ++ rest) 0 (be32 family) := ⟨[], rest, rfl, rfl⟩
    unfold linkLayer
    dsimp only
    rw [if_neg (by simp), hat.u32 (hfamily hf), hf]
    rfl
  | rawIP => simp [linkLayer, hv rfl]
  | ipv4 h4 => simp [linkLayer, h4]
  | ipv6 h6 => simp [linkLayer, h6]

theorem LinkHeader.linkLayer_append {etherType : ℕ} {link : LinkType} {header : Bytes}
    (h : LinkHeader etherType link header) (he : etherType = kEthIPv4 ∨ etherType = kEthIPv6) {rest : Bytes}
    (hv : versionAt rest 0 = some etherType) :
    linkLayer (header ++ rest) link = some (header.length, etherType) := by
  refine h.linkLayer_eq ?_ ?_ fun _ => hv
  · rcases he with rfl | rfl <;> decide
  · rcases he with rfl | rfl <;> decide

/-! ### IP headers -/

/-- An IPv4 header with `words` words of options, of a packet that is no
continuation fragment. -/
structure IPv4Header where
  words : ℕ
  words_le : words ≤ 10
  tos : UInt8
  ident : Block 2
  flags : ℕ
  flags_lt : flags < 8
  ttl : UInt8
  checksum : Block 2
  src : Block 4
  dst : Block 4
  options : Block (4 * words)

structure IPv6Header where
  traffic : ℕ
  traffic_lt : traffic < 16
  flow : Block 3
  hopLimit : UInt8
  src : Block 16
  dst : Block 16

inductive IPHeader
  | v4 (h : IPv4Header)
  | v6 (h : IPv6Header)

namespace IPHeader

def etherType : IPHeader → ℕ
  | v4 _ => kEthIPv4
  | v6 _ => kEthIPv6

def length : IPHeader → ℕ
  | v4 h => 20 + 4 * h.words
  | v6 _ => 40

def addresses (sys : Platform) : IPHeader → String × String
  | v4 h => (sys.inetNtop4 h.src.1, sys.inetNtop4 h.dst.1)
  | v6 h => (sys.inetNtop6 h.src.1, sys.inetNtop6 h.dst.1)

/-- The header of a packet of `n` bytes of the upper-layer protocol. -/
def bytes (protocol : UInt8) (n : ℕ) : IPHeader → Bytes
  | v4 h => UInt8.ofNat (0x45 + h.words) :: h.tos :: (be16 (20 + 4 * h.words + n) ++ (h.ident.1 ++
      (UInt8.ofNat (h.flags * 32) :: 0 :: h.ttl :: protocol ::
        (h.checksum.1 ++ (h.src.1 ++ (h.dst.1 ++ h.options.1))))))
  | v6 h => UInt8.ofNat (0x60 + h.traffic) :: (h.flow.1 ++ (be16 n ++
      (protocol :: h.hopLimit :: (h.src.1 ++ h.dst.1))))

/-- The length field has room for the payload. -/
def Room (n : ℕ) : IPHeader → Prop
  | v4 h => 20 + 4 * h.words + n < 65536
  | v6 _ => n < 65536

instance (n : ℕ) : ∀ h : IPHeader, Decidable (h.Room n)
  | v4 _ => inferInstanceAs (Decidable (_ < _))
  | v6 _ => inferInstanceAs (Decidable (_ < _))

theorem length_bytes (protocol : UInt8) (n : ℕ) (h : IPHeader) : (h.bytes protocol n).length = h.length := by
  cases h with
  | v4 h =>
    simp only [bytes, length, List.length_cons, List.length_append, length_be16, h.ident.2, h.checksum.2, h.src.2,
      h.dst.2, h.options.2]
    omega
  | v6 h =>
    simp only [bytes, length, List.length_cons, List.length_append, length_be16, h.flow.2, h.src.2, h.dst.2]

theorem versionAt_bytes (protocol : UInt8) (n : ℕ) (h : IPHeader) (rest : Bytes) :
    versionAt (h.bytes protocol n ++ rest) 0 = some h.etherType := by
  have hat : At (h.bytes protocol n ++ rest) 0 (h.bytes protocol n) := ⟨[], rest, rfl, rfl⟩
  have hlen : ¬ (h.bytes protocol n ++ rest).length ≤ 0 := by
    rw [List.length_append, length_bytes]
    cases h <;> simp [length]
  unfold versionAt
  rw [if_neg hlen]
  cases h with
  | v4 h =>
    have hw := h.words_le
    have h4 : (UInt8.ofNat (0x45 + h.words)).toNat >>> 4 = 4 := by
      rw [toNat_ofNat, Nat.shiftRight_eq_div_pow]
      omega
    unfold bytes at hat ⊢
    rw [hat.u8, if_pos h4]
    rfl
  | v6 h =>
    have hw := h.traffic_lt
    have h6 : (UInt8.ofNat (0x60 + h.traffic)).toNat >>> 4 = 6 := by
      rw [toNat_ofNat, Nat.shiftRight_eq_div_pow]
      omega
    unfold bytes at hat ⊢
    rw [hat.u8, if_neg (by omega), if_pos h6]
    rfl

/-- The layer of an IPv6 packet lies under its chain of extension headers. -/
theorem layer_v6 (sys : Platform) (h : IPv6Header) (next : UInt8) {content : Bytes} (rest : Bytes)
    {upper length : ℕ} (hchain : v6Chain (40 + content.length) next.toNat content = (upper, length))
    (hroom : content.length < 65536) :
    layer sys ((v6 h).bytes next content.length ++ content ++ rest) kEthIPv6 =
      { transportLayer (content.drop length) upper with
        addresses := some ((v6 h).addresses sys), origin := 40 + length } := by
  have hlen : ((v6 h).bytes next content.length).length = 40 := length_bytes next content.length (v6 h)
  have hat : At ((v6 h).bytes next content.length ++ content ++ rest) 0 ((v6 h).bytes next content.length) :=
    ⟨[], content ++ rest, by simp, rfl⟩
  have htake : ((v6 h).bytes next content.length ++ content ++ rest).take (40 + content.length) =
      (v6 h).bytes next content.length ++ content := List.take_left' (by rw [List.length_append, hlen])
  have hdrop : ((v6 h).bytes next content.length ++ content).drop 40 = content := List.drop_left' hlen
  have hpacket : ((v6 h).bytes next content.length ++ content).length = 40 + content.length := by
    rw [List.length_append, hlen]
  have htotal : ¬ ((v6 h).bytes next content.length ++ content ++ rest).length < 40 := by
    simp only [List.length_append, hlen]
    omega
  generalize hw : (v6 h).bytes next content.length ++ content ++ rest = w at *
  unfold bytes at hat
  obtain ⟨-, hat⟩ := at_append.mp (at_cons.mp hat).2
  obtain ⟨htot, hat⟩ := at_append.mp hat
  simp only [length_be16, h.flow.2, Nat.zero_add, Nat.reduceAdd] at htot hat
  have h6 := hat.u8
  obtain ⟨hsrc, hdst⟩ := at_append.mp (at_cons.mp (at_cons.mp hat).2).2
  simp only [h.src.2, Nat.reduceAdd] at hsrc hdst
  have hsrc := hsrc.slice
  have hdst := hdst.slice
  rw [h.src.2] at hsrc
  rw [h.dst.2] at hdst
  have htot := htot.u16 hroom
  have hlayer : layer sys w kEthIPv6 = ipv6Layer sys w := rfl
  rw [hlayer]
  unfold ipv6Layer
  dsimp only
  rw [htot, h6, htake, hdrop, hpacket, hchain, if_neg htotal, hsrc, hdst]
  dsimp only
  rw [← List.drop_drop, hdrop]
  rfl

/-- The layer of an IP packet is its transport layer under its addresses. -/
theorem layer_bytes (sys : Platform) (h : IPHeader) (protocol : UInt8) {payload : Bytes} (rest : Bytes)
    (hp : v6Extension protocol.toNat payload = none) (hroom : h.Room payload.length) :
    layer sys (h.bytes protocol payload.length ++ payload ++ rest) h.etherType =
      { transportLayer payload protocol.toNat with
        addresses := some (h.addresses sys), origin := h.length } := by
  have hlen := length_bytes protocol payload.length h
  have hat : At (h.bytes protocol payload.length ++ payload ++ rest) 0 (h.bytes protocol payload.length) :=
    ⟨[], payload ++ rest, by simp, rfl⟩
  have htake : (h.bytes protocol payload.length ++ payload ++ rest).take (h.length + payload.length) =
      h.bytes protocol payload.length ++ payload := List.take_left' (by rw [List.length_append, hlen])
  have hdrop : (h.bytes protocol payload.length ++ payload).drop h.length = payload := List.drop_left' hlen
  have htotal : (h.bytes protocol payload.length ++ payload ++ rest).length =
      h.length + payload.length + rest.length := by simp only [List.length_append, hlen]
  generalize hw : h.bytes protocol payload.length ++ payload ++ rest = w at *
  cases h with
  | v4 h =>
    have hwords := h.words_le
    have hflags := h.flags_lt
    unfold bytes at hat
    have h0 := hat.u8
    obtain ⟨htot, hat⟩ := at_append.mp (at_cons.mp (at_cons.mp hat).2).2
    obtain ⟨-, hat⟩ := at_append.mp hat
    simp only [length_be16, h.ident.2, Nat.zero_add, Nat.reduceAdd] at htot hat
    have h6 := hat.u8
    have h7 := (at_cons.mp hat).2.u8
    have h9 := (at_cons.mp (at_cons.mp (at_cons.mp hat).2).2).2.u8
    obtain ⟨-, hat⟩ := at_append.mp (at_cons.mp (at_cons.mp (at_cons.mp (at_cons.mp hat).2).2).2).2
    obtain ⟨hsrc, hat⟩ := at_append.mp hat
    obtain ⟨hdst, -⟩ := at_append.mp hat
    simp only [h.checksum.2, h.src.2, Nat.reduceAdd] at h7 h9 hsrc hdst
    have hsrc := hsrc.slice
    have hdst := hdst.slice
    rw [h.src.2] at hsrc
    rw [h.dst.2] at hdst
    have htot := htot.u16 hroom
    simp only [length] at htake hdrop htotal
    rw [toNat_ofNat] at h0 h6
    have hihl : (w.u8 0 &&& 0x0F) * 4 = 20 + 4 * h.words := by
      rw [h0]
      have : ∀ n ≤ 10, (0x45 + n) % 256 &&& 0x0F = 5 + n := by decide
      rw [this _ hwords]
      omega
    have hversion : w.u8 0 >>> 4 = 4 := by
      rw [h0, Nat.shiftRight_eq_div_pow]
      omega
    have hfrag : w.u16 6 &&& 0x1FFF = 0 := by
      have : ∀ n < 8, n * 32 % 256 * 256 + 0 &&& 0x1FFF = 0 := by decide
      rw [u16, h6, h7]
      exact this _ hflags
    have hlayer : layer sys w kEthIPv4 = ipv4Layer sys w := rfl
    rw [etherType, hlayer]
    unfold ipv4Layer
    dsimp only
    rw [hihl, htot, if_neg (by omega), if_neg (by rw [hfrag]; simp), htake, hdrop, h9, hsrc, hdst]
    rfl
  | v6 h =>
    have hchain : v6Chain (40 + payload.length) protocol.toNat payload = (protocol.toNat, 0) := by
      rw [show 40 + payload.length = 39 + payload.length + 1 by omega, v6Chain, hp]
    rw [← hw, etherType, layer_v6 sys h protocol rest hchain hroom]
    rfl

end IPHeader

/-! ### UDP and the tunnel headers -/

/-- A UDP datagram. -/
def udpDatagram (srcPort dstPort : ℕ) (checksum : Block 2) (payload : Bytes) : Bytes :=
  be16 srcPort ++ (be16 dstPort ++ (be16 (8 + payload.length) ++ (checksum.1 ++ payload)))

/-- A VXLAN header with the I flag, or a GENEVE header of version 0 with `words`
words of options. -/
inductive TunnelHeader
  | vxlan (flags : UInt8) (iFlag : flags.toNat &&& 0x08 ≠ 0) (rest : Block 7)
  | geneve (words : ℕ) (words_lt : words < 64) (flags : UInt8) (type : ℕ) (vni : Block 4)
    (options : Block (4 * words))

namespace TunnelHeader

def name : TunnelHeader → String
  | vxlan .. => "VXLAN"
  | geneve .. => "GENEVE"

def length : TunnelHeader → ℕ
  | vxlan .. => 8
  | geneve words .. => 8 + 4 * words

def bytes : TunnelHeader → Bytes
  | vxlan flags _ rest => flags :: rest.1
  | geneve words _ flags type vni options =>
    UInt8.ofNat words :: flags :: (be16 type ++ (vni.1 ++ options.1))

/-- The ports that announce the header; 4789 goes first. -/
def Announced (srcPort dstPort : ℕ) : TunnelHeader → Prop
  | vxlan .. => dstPort = 4789 ∨ srcPort = 4789
  | geneve .. => (dstPort = 6081 ∨ srcPort = 6081) ∧ dstPort ≠ 4789 ∧ srcPort ≠ 4789

/-- `b`, of link type `link`, is what the header announces: an Ethernet frame or,
for GENEVE, a bare IP packet of the protocol type. -/
def Bears (link : LinkType) (b : Bytes) : TunnelHeader → Prop
  | vxlan .. => link = .Ethernet
  | geneve _ _ _ type _ _ => link = .Ethernet ∧ type = kEthTrBridge ∨
      (link = .IPv4 ∨ link = .RawIP ∧ u8 b 0 / 16 = 4) ∧ type = kEthIPv4 ∨
      (link = .IPv6 ∨ link = .RawIP ∧ u8 b 0 / 16 = 6) ∧ type = kEthIPv6

theorem length_bytes (t : TunnelHeader) : t.bytes.length = t.length := by
  cases t with
  | vxlan flags _ rest => simp [bytes, length, rest.2]
  | geneve words _ flags type vni options =>
    simp only [bytes, length, List.length_cons, List.length_append, length_be16, vni.2, options.2]
    omega

theorem length_pos (t : TunnelHeader) : 0 < t.length := by
  cases t with
  | vxlan => exact Nat.succ_pos _
  | geneve words => exact Nat.lt_of_lt_of_le (Nat.succ_pos 7) (Nat.le_add_right 8 (4 * words))

end TunnelHeader

theorem length_udpDatagram (srcPort dstPort : ℕ) (checksum : Block 2) (payload : Bytes) :
    (udpDatagram srcPort dstPort checksum payload).length = 8 + payload.length := by
  simp only [udpDatagram, List.length_append, length_be16, checksum.2]
  omega

section Udp

variable {srcPort dstPort : ℕ} {payload : Bytes}

/-- What the header of a datagram says. -/
theorem udpDatagram_fields (checksum : Block 2) (hs : srcPort < 65536) (hd : dstPort < 65536)
    (hl : 8 + payload.length < 65536) :
    let w := udpDatagram srcPort dstPort checksum payload
    u16 w 0 = srcPort ∧ u16 w 2 = dstPort ∧ u16 w 4 = 8 + payload.length ∧ At w 8 payload := by
  intro w
  have hat : At w 0 w := At.refl w
  obtain ⟨h0, hat⟩ := at_append.mp hat
  obtain ⟨h2, hat⟩ := at_append.mp hat
  obtain ⟨h4, hat⟩ := at_append.mp hat
  obtain ⟨-, h8⟩ := at_append.mp hat
  simp only [length_be16, checksum.2, Nat.zero_add, Nat.reduceAdd] at h2 h4 h8
  exact ⟨h0.u16 hs, h2.u16 hd, h4.u16 hl, h8⟩

/-- A datagram is decoded to its ports and its whole payload. -/
theorem udpLayer_datagram (checksum : Block 2) (hs : srcPort < 65536) (hd : dstPort < 65536)
    (hl : 8 + payload.length < 65536)
    (hp : payload ≠ []) :
    udpLayer (udpDatagram srcPort dstPort checksum payload) =
      { report :=
          { protocol := some "UDP"
            ports := some { src := srcPort, dst := dstPort, payload := some (8, payload.length) } }
        tunnel := udpTunnel (udpDatagram srcPort dstPort checksum payload) } := by
  obtain ⟨h0, h2, h4, -⟩ := udpDatagram_fields checksum hs hd hl
  have hlen := length_udpDatagram srcPort dstPort checksum payload
  have hpos := List.length_pos_of_ne_nil hp
  generalize udpDatagram srcPort dstPort checksum payload = w at *
  have hdata : datagram w = w := by
    unfold datagram
    rw [if_pos (by omega), List.take_of_length_le (by omega)]
  unfold udpLayer udpReport
  rw [hdata, if_neg (by omega), if_neg (by omega), if_neg (by omega), h0, h2, hlen, Nat.add_sub_cancel_left]

end Udp

namespace TunnelHeader

variable {t : TunnelHeader} {link : LinkType} {b : Bytes} {network : ℕ × ℕ} {srcPort dstPort : ℕ}
  {checksum : Block 2}

theorem drop_udpDatagram : (udpDatagram srcPort dstPort checksum (t.bytes ++ b)).drop (8 + t.length) = b := by
  have hsplit : udpDatagram srcPort dstPort checksum (t.bytes ++ b) =
      (be16 srcPort ++ be16 dstPort ++ be16 (8 + (t.bytes ++ b).length) ++ checksum.1 ++ t.bytes) ++ b := by
    simp [udpDatagram]
  rw [hsplit]
  refine List.drop_left' ?_
  simp only [List.length_append, length_be16, checksum.2, length_bytes]

/-- A bare IP packet starts at once. -/
theorem Bears.bare {words : ℕ} {words_lt : words < 64} {flags : UInt8} {type : ℕ} {vni : Block 4}
    {options : Block (4 * words)} (hb : (geneve words words_lt flags type vni options).Bears link b)
    (ht : type ≠ kEthTrBridge) (hn : linkLayer b link = some network) :
    (type = kEthIPv4 ∨ type = kEthIPv6) ∧ network = (0, type) := by
  have hversion : ∀ v, u8 b 0 / 16 = v → versionAt b 0 = some network.2 →
      (v = 4 → network.2 = kEthIPv4) ∧ (v = 6 → network.2 = kEthIPv6) := by
    rintro v rfl h
    obtain ⟨-, hversion⟩ := versionAt_eq_some h
    rw [Nat.shiftRight_eq_div_pow] at hversion
    rcases hversion with ⟨h4, he⟩ | ⟨h6, he⟩
    · exact ⟨fun _ => he, fun h6 => by omega⟩
    · exact ⟨fun h4 => by omega, fun _ => he⟩
  have hraw : link = .RawIP → network.1 = 0 ∧ versionAt b 0 = some network.2 := by
    rintro rfl
    obtain ⟨etherType, he, rfl⟩ := Option.map_eq_some_iff.mp hn
    exact ⟨rfl, he⟩
  rcases hb with ⟨-, h⟩ | ⟨rfl | ⟨h, hv⟩, rfl⟩ | ⟨rfl | ⟨h, hv⟩, rfl⟩
  · exact (ht h).elim
  · exact ⟨.inl rfl, (Option.some.inj hn).symm⟩
  · exact ⟨.inl rfl, Prod.ext (hraw h).1 ((hversion 4 hv (hraw h).2).1 rfl)⟩
  · exact ⟨.inr rfl, (Option.some.inj hn).symm⟩
  · exact ⟨.inr rfl, Prod.ext (hraw h).1 ((hversion 6 hv (hraw h).2).2 rfl)⟩

/-- The tunnel under a UDP header is the header `t` and the frame inside. -/
theorem udpTunnel_udpDatagram (ha : t.Announced srcPort dstPort) (hb : t.Bears link b)
    (hs : srcPort < 65536) (hd : dstPort < 65536) (hl : 8 + (t.length + b.length) < 65536)
    (hn : linkLayer b link = some network) :
    udpTunnel (udpDatagram srcPort dstPort checksum (t.bytes ++ b)) = some
      { name := some t.name, inner := some ⟨8 + t.length + network.1, b.drop network.1, network.2⟩
        atLimit := some {} } := by
  have hdrop := @drop_udpDatagram t b srcPort dstPort checksum
  have hlen := length_udpDatagram srcPort dstPort checksum (t.bytes ++ b)
  have hroom : 8 + (t.bytes ++ b).length < 65536 := by rwa [List.length_append, length_bytes]
  obtain ⟨h0, h2, -, hat⟩ := udpDatagram_fields checksum hs hd hroom
  rw [List.length_append, length_bytes] at hlen
  generalize udpDatagram srcPort dstPort checksum (t.bytes ++ b) = w at *
  have hat := (at_append.mp hat).1
  have hframe : link = .Ethernet → innerEthernet w (8 + t.length) =
      some ⟨8 + t.length + network.1, b.drop network.1, network.2⟩ := by
    rintro rfl
    have he : ethernet b = some network := hn
    rw [innerEthernet, hdrop, he, Option.map_some, ← List.drop_drop, hdrop]
  unfold udpTunnel
  rw [h0, h2]
  cases t with
  | vxlan flags iFlag rest =>
    have ha : dstPort = 4789 ∨ srcPort = 4789 := ha
    rw [if_pos ha, ProtocolParser.vxlan, hat.u8, if_neg]
    · have hframe := hframe hb
      simp only [length, Nat.reduceAdd] at hframe
      rw [hframe]
      rfl
    · rintro (c | c)
      · simp only [length] at hlen
        omega
      · exact iFlag c
  | geneve words words_lt flags type vni options =>
    have hn' : ¬ (dstPort = 4789 ∨ srcPort = 4789) := fun c => c.elim ha.2.1 ha.2.2
    have hflags : ∀ n < 64, (n % 256) >>> 6 = 0 ∧ (n % 256) &&& 0x3F = n := by decide
    obtain ⟨hv, ho⟩ := hflags words words_lt
    have htype : type < 65536 := by
      rcases hb with ⟨-, h⟩ | ⟨-, h⟩ | ⟨-, h⟩ <;> rw [h] <;> decide
    unfold bytes at hat
    have h8 := hat.u8
    have h10 := (at_append.mp (at_cons.mp (at_cons.mp hat).2).2).1.u16 htype
    have hinner : innerType w (8 + (8 + 4 * words)) type =
        some ⟨8 + (8 + 4 * words) + network.1, b.drop network.1, network.2⟩ := by
      unfold innerType
      by_cases ht : type = kEthTrBridge
      · rw [if_pos ht]
        refine hframe ?_
        rcases hb with ⟨h, -⟩ | ⟨-, h⟩ | ⟨-, h⟩
        · exact h
        · exact absurd (h.symm.trans ht) (by decide)
        · exact absurd (h.symm.trans ht) (by decide)
      · obtain ⟨hip, rfl⟩ := hb.bare ht hn
        rw [if_neg ht, if_pos hip]
        exact congrArg (fun c => some (Inner.mk _ c type)) hdrop
    simp only [length] at hlen
    rw [if_neg hn', if_pos ha.1, ProtocolParser.geneve, h8, toNat_ofNat, hv, ho, h10, Nat.mul_comm words 4,
      if_neg (by omega), hinner]
    rfl

end TunnelHeader

/-! ### Carriers -/

/-- Everything around the inner frame, with a port that announces a tunnel;
`trailer` is link-layer padding. -/
structure Carrier where
  link : LinkType
  linkBytes : Bytes
  ip : IPHeader
  linkHeader : LinkHeader ip.etherType link linkBytes
  srcPort : ℕ
  srcPort_lt : srcPort < 65536
  dstPort : ℕ
  dstPort_lt : dstPort < 65536
  checksum : Block 2
  tunnel : TunnelHeader
  tunnelPort : srcPort = 4789 ∨ srcPort = 6081 ∨ dstPort = 4789 ∨ dstPort = 6081
  trailer : Bytes

namespace Carrier

/-- The bytes ahead of the inner frame. -/
def length (c : Carrier) : ℕ := c.linkBytes.length + c.ip.length + (8 + c.tunnel.length)

def datagram (c : Carrier) (b : Bytes) : Bytes :=
  udpDatagram c.srcPort c.dstPort c.checksum (c.tunnel.bytes ++ b)

/-- The frame around `b`. -/
def wrap (c : Carrier) (b : Bytes) : Bytes :=
  c.linkBytes ++ (c.ip.bytes 17 (c.datagram b).length ++ c.datagram b ++ c.trailer)

/-- The carrier announces the kind of the inner frame, and its length fields
have room for it. -/
def Carries (c : Carrier) (inner : PacketData) : Prop :=
  c.tunnel.Bears inner.linkType inner.payload ∧ c.ip.Room (c.datagram inner.payload).length

/-- The ports announce the tunnel header that is there. -/
def Announced (c : Carrier) : Prop := c.tunnel.Announced c.srcPort c.dstPort

/-- The ports announce the other tunnel header, and what is there leads to a
frame when it is read as that. -/
def Strays (c : Carrier) (b : Bytes) : Prop :=
  ¬ c.Announced ∧ ∃ t ∈ udpTunnel (c.datagram b), t.inner.isSome

variable (c : Carrier) (b : Bytes)

theorem length_datagram : (c.datagram b).length = 8 + (c.tunnel.length + b.length) := by
  rw [datagram, length_udpDatagram, List.length_append, TunnelHeader.length_bytes]

theorem length_lt {inner : PacketData} (hc : c.Carries inner) :
    8 + (c.tunnel.length + inner.payload.length) < 65536 := by
  have hroom := hc.2
  rw [length_datagram] at hroom
  cases h : c.ip <;> rw [h, IPHeader.Room] at hroom <;> omega

/-- The inner frame stands behind the headers. -/
theorem at_wrap : At (c.wrap b) c.length b := by
  refine ⟨c.linkBytes ++ c.ip.bytes 17 (c.datagram b).length ++ be16 c.srcPort ++ be16 c.dstPort ++
    be16 (8 + (c.tunnel.bytes ++ b).length) ++ c.checksum.1 ++ c.tunnel.bytes, c.trailer, ?_, ?_⟩
  · simp [wrap, datagram, udpDatagram]
  · simp only [List.length_append, IPHeader.length_bytes, length_be16, c.checksum.2, TunnelHeader.length_bytes,
      length]
    omega

theorem etherType_cases (h : IPHeader) : h.etherType = kEthIPv4 ∨ h.etherType = kEthIPv6 := by
  cases h
  · exact .inl rfl
  · exact .inr rfl

theorem linkLayer_wrap : linkLayer (c.wrap b) c.link = some (c.linkBytes.length, c.ip.etherType) :=
  c.linkHeader.linkLayer_append (etherType_cases c.ip) (by
    rw [List.append_assoc]
    exact IPHeader.versionAt_bytes ..)

variable {c} {sys : Platform} {inner outer : PacketData} {network : ℕ × ℕ}

/-- The network layer of a wrapped frame: the carrier's addresses and UDP
header, and what its ports announce. -/
theorem layer_wrap (hc : c.Carries inner) :
    layer sys ((c.wrap inner.payload).drop c.linkBytes.length) c.ip.etherType =
      { report :=
          { protocol := some "UDP"
            ports := some
              { src := c.srcPort, dst := c.dstPort
                payload := some (8, c.tunnel.length + inner.payload.length) } }
        tunnel := udpTunnel (c.datagram inner.payload)
        addresses := some (c.ip.addresses sys), origin := c.ip.length } := by
  have hroom := c.length_lt hc
  have hpos := c.tunnel.length_pos
  have hne : c.tunnel.bytes ++ inner.payload ≠ [] := by
    rw [← List.length_pos_iff, List.length_append, TunnelHeader.length_bytes]
    omega
  have hroom' : 8 + (c.tunnel.bytes ++ inner.payload).length < 65536 := by
    rwa [List.length_append, TunnelHeader.length_bytes]
  have hdatagram := udpLayer_datagram c.checksum c.srcPort_lt c.dstPort_lt hroom' hne
  rw [List.length_append, TunnelHeader.length_bytes] at hdatagram
  have hudp : transportLayer (c.datagram inner.payload) 17 = udpLayer (c.datagram inner.payload) := rfl
  rw [wrap, List.drop_left, IPHeader.layer_bytes sys c.ip 17 c.trailer rfl hc.2, show (17 : UInt8).toNat = 17 from rfl,
    hudp, datagram, hdatagram]

/-- What the carrier leaves for the inner layers to write over. -/
theorem masks_wrap (ha : c.Announced) (hc : c.Carries inner)
    (hn : linkLayer inner.payload inner.linkType = some network)
    (hnest : NestsWithin sys 3 (inner.payload.drop network.1) network.2)
    (ho : outer.payload = c.wrap inner.payload) :
    Masks c.length (decoded sys outer (c.linkBytes.length, c.ip.etherType)) (decoded sys inner network) := by
  have hpos := c.tunnel.length_pos
  have htunnel : udpTunnel (c.datagram inner.payload) = some
      { name := some c.tunnel.name
        inner := some ⟨8 + c.tunnel.length + network.1, inner.payload.drop network.1, network.2⟩
        atLimit := some {} } :=
    TunnelHeader.udpTunnel_udpDatagram ha hc.1 c.srcPort_lt c.dstPort_lt (c.length_lt hc) hn
  unfold decoded
  dsimp only
  rw [descend_depth hnest (m := kMaxTunnelDepth) (by decide) (by decide), ho, kMaxTunnelDepth, descend,
    layer_wrap hc, htunnel]
  have hbase : c.linkBytes.length + c.ip.length + (8 + c.tunnel.length + network.1) = network.1 + c.length := by
    unfold length
    omega
  simp only [Layer.decode, Upper.decode, decodeTunnel, Tunnel.decode, Tunnel.enter, Tunnel.settle, Tunnel.push,
    enterInner, List.not_mem_nil, if_false, hbase]
  refine descend_masks sys ?_
  unfold pushTunnel
  dsimp only
  split_ifs
  all_goals
    exact ⟨⟨rfl, rfl, rfl, rfl, rfl⟩, ⟨rfl, rfl, rfl, rfl, rfl⟩, .inl rfl, .inl (by simp [blank, placeholders]),
      by change c.tunnel.length + inner.payload.length ≠ 0; omega, .inl rfl⟩

/-- A carrier that leads nowhere is an ordinary datagram. -/
theorem payloadLength_stray (hc : c.Carries inner) (ha : ¬ c.Announced) (hs : ¬ c.Strays inner.payload)
    (ho : outer.payload = c.wrap inner.payload) :
    (decoded sys outer (c.linkBytes.length, c.ip.etherType)).payloadLength =
      c.tunnel.length + inner.payload.length := by
  have hnone : ∀ t ∈ udpTunnel (c.datagram inner.payload), t.inner = none := by
    intro t ht
    by_contra hsome
    exact hs ⟨ha, t, ht, Option.isSome_iff_ne_none.mpr hsome⟩
  unfold decoded
  dsimp only
  rw [ho, descend, layer_wrap hc]
  simp only [Layer.decode, Upper.decode]
  cases ht : udpTunnel (c.datagram inner.payload) with
  | none => rfl
  | some t =>
    obtain ⟨r, -, hdeeper, -⟩ | ⟨-, hdecode⟩ := t.decode_cases true
    · cases hdeeper
    · have hstep : decide (0 < kMaxTunnelDepth) = true := rfl
      rw [hstep, decodeTunnel, hdecode, Tunnel.enter, payloadLength_settle, hnone t ht, enterInner, t.push_frame]
      rfl

end Carrier

/-! ### Transparency -/

/-- At most `n` tunnel headers lie one inside the other in the frame. -/
def EncapsulatedWithin (sys : Platform) (n : ℕ) (packet : PacketData) : Prop :=
  ∀ network, linkLayer packet.payload packet.linkType = some network →
    NestsWithin sys n (packet.payload.drop network.1) network.2

/-- Some TCP or UDP header of the frame is complete and followed by payload. -/
def HasTransportPayload (sys : Platform) (packet : PacketData) : Prop :=
  ∃ network, linkLayer packet.payload packet.linkType = some network ∧
    CarriesPayload sys (kMaxTunnelDepth + 1) (packet.payload.drop network.1) network.2

/-- `r'`, of the frame `outer`, is `r`, of the frame `inner` that stands `shift`
bytes into it, but for the tunnel fields and the place of the payload. -/
structure Transparent (shift : ℕ) (inner outer : PacketData) (r r' : ParsedPacket) : Prop where
  addresses : r'.srcIP = r.srcIP ∧ r'.dstIP = r.dstIP
  ports : r'.srcPort = r.srcPort ∧ r'.dstPort = r.dstPort
  protocol : r'.protocol = r.protocol
  flags : r'.tcpSyn = r.tcpSyn ∧ r'.tcpAck = r.tcpAck ∧ r'.tcpFin = r.tcpFin ∧ r'.tcpRst = r.tcpRst
  tcpSeq : r'.tcpSeq = r.tcpSeq
  payloadLength : r'.payloadLength = r.payloadLength
  payloadOffset : r.payloadLength ≠ 0 → r'.payloadOffset = r.payloadOffset + shift
  payload : r.payloadLength ≠ 0 →
    slice outer.payload r'.payloadOffset r'.payloadLength = slice inner.payload r.payloadOffset r.payloadLength
  sni : r'.sni = r.sni
  hostname : r'.hostname = r.hostname
  info : r'.info = r.info
  service : r'.service = r.service
  encryptedTunnel : r'.encryptedTunnel = r.encryptedTunnel

section

variable {sys : Platform} {packet inner outer : PacketData} {r : ParsedPacket} {network : ℕ × ℕ}

/-- A frame with addresses has a network layer. -/
theorem network_of_parse (hr : parse sys packet = .ok r) (hs : r.srcIP ≠ "") :
    packet.payload ≠ [] ∧ ∃ network, linkLayer packet.payload packet.linkType = some network := by
  have hnone : ¬ (linkLayer packet.payload packet.linkType = none ∨ packet.payload = []) := by
    intro h
    obtain ⟨protocol, -, hp⟩ := parse_none sys h
    rw [hp] at hr
    cases hr
    exact hs rfl
  rw [not_or] at hnone
  exact ⟨hnone.2, Option.ne_none_iff_exists'.mp hnone.1⟩

/-- `parse` enriches what the decoders leave. -/
theorem enriches_of_parse (hb : packet.payload ≠ [])
    (hn : linkLayer packet.payload packet.linkType = some network) (hr : parse sys packet = .ok r) :
    ∃ q, inspectPayload sys packet.payload (decoded sys packet network) = .ok q ∧ r = markEncrypted q ∧
      Enriches (decoded sys packet network) r := by
  rw [parse_some sys hn hb] at hr
  obtain ⟨q, hq, hen⟩ := inspectPayload_safe sys packet.fits (decoded sys packet network)
  rw [hq, map_ok] at hr
  obtain rfl := Except.ok.inj hr
  exact ⟨q, hq, rfl, hen.trans (enriches_markEncrypted q)⟩

theorem hasTransportPayload_iff (hn : linkLayer packet.payload packet.linkType = some network) :
    HasTransportPayload sys packet ↔ (decoded sys packet network).payloadLength ≠ 0 := by
  unfold decoded
  rw [carriesPayload_iff]
  have hblank : (blank packet).payloadLength = 0 := rfl
  simp only [HasTransportPayload, hn, Option.some.injEq, exists_eq_left', hblank, ne_eq, not_true_eq_false,
    or_false]

/-- The bytes of a part of a frame. -/
theorem slice_at {w content : Bytes} {d i n : ℕ} (h : At w d content) (hle : i + n ≤ content.length) :
    slice w (i + d) n = slice content i n := by
  obtain ⟨pre, post, rfl, rfl⟩ := h
  rw [List.append_assoc, Nat.add_comm, slice_append_right, slice_append_left hle]

/-- Two frames that are decoded alike, to the same payload bytes, are parsed alike. -/
theorem parse_recast {network' : ℕ × ℕ} (hb : inner.payload ≠ []) (hbo : outer.payload ≠ [])
    (hn : linkLayer inner.payload inner.linkType = some network)
    (hno : linkLayer outer.payload outer.linkType = some network') (hr : parse sys inner = .ok r)
    (hfields : decoded sys outer network' = recast (decoded sys outer network') (decoded sys inner network))
    (hslice : (decoded sys inner network).payloadLength ≠ 0 →
      slice outer.payload (decoded sys outer network').payloadOffset (decoded sys inner network).payloadLength =
        slice inner.payload (decoded sys inner network).payloadOffset (decoded sys inner network).payloadLength) :
    parse sys outer = .ok (recast (decoded sys outer network') r) := by
  obtain ⟨q, hq, rfl, -⟩ := enriches_of_parse hb hn hr
  have hfits := decoded_fits sys hno
  have hinner := decoded_fits sys hn
  generalize hp : decoded sys outer network' = p at *
  have hinspect : inspectPayload sys outer.payload p = .ok (recast p q) := by
    rw [hfields] at hfits
    rw [hfields]
    by_cases hz : (decoded sys inner network).payloadLength = 0
    · rw [inspectPayload_recast_empty sys _ inner.payload p hz, hq, map_ok]
      rw [← hfields]
    · rw [inspectPayload_recast sys hfits hinner hz (hslice hz), hq, map_ok]
      rw [← hfields]
  rw [parse_some sys hno hbo, hp, hinspect, map_ok, markEncrypted_recast]

/-- Two frames one of which echoes the other are parsed alike. -/
theorem parse_echoes {network' : ℕ × ℕ} {d : ℕ} (hb : inner.payload ≠ [])
    (hn : linkLayer inner.payload inner.linkType = some network)
    (hno : linkLayer outer.payload outer.linkType = some network') (hat : At outer.payload d inner.payload)
    (hr : parse sys inner = .ok r) (h : Echoes d (decoded sys outer network') (decoded sys inner network)) :
    parse sys outer = .ok (recast (decoded sys outer network') r) ∧
      Transparent d inner outer r (recast (decoded sys outer network') r) := by
  obtain ⟨q, -, rfl, hen⟩ := enriches_of_parse hb hn hr
  have hinner := decoded_fits sys hn
  have hslice : (decoded sys inner network).payloadLength ≠ 0 →
      slice outer.payload (decoded sys outer network').payloadOffset (decoded sys inner network).payloadLength =
        slice inner.payload (decoded sys inner network).payloadOffset (decoded sys inner network).payloadLength := by
    intro hz
    rw [h.payload.resolve_left hz]
    exact slice_at hat (hinner.resolve_left hz)
  have hlength : (markEncrypted q).payloadLength = (decoded sys inner network).payloadLength := by
    unfold Enriches at hen
    rw [hen]
  have hoffset : (markEncrypted q).payloadOffset = (decoded sys inner network).payloadOffset := by
    unfold Enriches at hen
    rw [hen]
  refine ⟨parse_recast hb (hat.ne_nil hb) hn hno hr h.fields hslice, ?_⟩
  refine ⟨⟨rfl, rfl⟩, ⟨rfl, rfl⟩, rfl, ⟨rfl, rfl, rfl, rfl⟩, rfl, rfl, fun hz => ?_, fun hz => ?_, rfl, rfl, rfl, rfl,
    rfl⟩
  · rw [hlength] at hz
    rw [hoffset]
    exact h.payload.resolve_left hz
  · rw [hlength] at hz
    rw [hoffset, hlength]
    show slice outer.payload (decoded sys outer network').payloadOffset (markEncrypted q).payloadLength = _
    rw [hlength]
    exact hslice hz

/-- **Wrapping a decodable frame in a UDP-borne tunnel** changes nothing but the
tunnel fields and the place of the payload, when the ports announce the tunnel
header and the frame carries a transport payload. Where one of these fails the
payload of the carrier's UDP header is left in the result, unless the ports lead
to some other frame in the same bytes. -/
theorem parse_wrap_transparent {c : Carrier} (hc : c.Carries inner) (hdepth : EncapsulatedWithin sys 3 inner)
    (hl : outer.linkType = c.link) (ho : outer.payload = c.wrap inner.payload) (hr : parse sys inner = .ok r)
    (hs : r.srcIP ≠ "") (hp : r.protocol ∈ ["TCP", "UDP", "ICMP", "ICMPv6"]) :
    ∃ r', parse sys outer = .ok r' ∧
      (c.Announced ∧ HasTransportPayload sys inner → Transparent c.length inner outer r r') ∧
      (Transparent c.length inner outer r r' →
        c.Announced ∧ HasTransportPayload sys inner ∨ c.Strays inner.payload) := by
  obtain ⟨hb, network, hn⟩ := network_of_parse hr hs
  obtain ⟨q, -, rfl, hen⟩ := enriches_of_parse hb hn hr
  have hno : linkLayer outer.payload outer.linkType = some (c.linkBytes.length, c.ip.etherType) := by
    rw [ho, hl, c.linkLayer_wrap]
  have hat : At outer.payload c.length inner.payload := ho ▸ c.at_wrap inner.payload
  have hinner := decoded_fits sys hn
  obtain ⟨p1, hp1, hen1⟩ := inspectPayload_safe sys outer.fits (decoded sys outer _)
  have hen1 := hen1.trans (enriches_markEncrypted p1)
  have hparse : parse sys outer = .ok (markEncrypted p1) := by
    rw [parse_some sys hno (hat.ne_nil hb), hp1, map_ok]
  rw [hasTransportPayload_iff hn]
  unfold Enriches at hen hen1
  -- a transparent carrier leaves the length of its own payload to the inner layers
  have hlength : Transparent c.length inner outer (markEncrypted q) (markEncrypted p1) →
      (decoded sys outer (c.linkBytes.length, c.ip.etherType)).payloadLength =
        (decoded sys inner network).payloadLength := by
    intro ht
    have hlen := ht.payloadLength
    rw [hen, hen1] at hlen
    exact hlen
  refine ⟨markEncrypted p1, hparse, ?_, fun ht => ?_⟩
  · -- every field the carrier wrote is written again
    rintro ⟨ha, hz⟩
    have hmasks := Carrier.masks_wrap ha hc hn (hdepth network hn) ho
    have hsrc : (decoded sys inner network).srcIP ≠ "" := by
      rw [hen] at hs
      exact hs
    have hproto : (decoded sys inner network).protocol ∉ placeholders := by
      rw [hen] at hp
      intro h
      simp only [placeholders, List.mem_cons, List.not_mem_nil, or_false] at h hp
      rcases hp with hp | hp | hp | hp <;> rw [hp] at h <;> simp at h
    obtain ⟨hparse', ht⟩ := parse_echoes hb hn hno hat hr (hmasks.echoes hsrc hproto hz)
    rw [Except.ok.inj (hparse.symm.trans hparse')]
    exact ht
  by_cases ha : c.Announced
  · -- nothing the inner layers write covers the carrier's payload
    refine .inl ⟨ha, fun hz => ?_⟩
    exact (Carrier.masks_wrap ha hc hn (hdepth network hn) ho).carrier ((hlength ht).trans hz)
  · by_contra hno'
    rw [not_or] at hno'
    have hlen := (Carrier.payloadLength_stray hc ha hno'.2 ho).symm.trans (hlength ht)
    have hpos := c.tunnel.length_pos
    rcases hinner with hz | hle <;> omega

end

/-! ### An NTP datagram in VXLAN

The frame of the repository's own tunnel test: an Ethernet frame from 172.16.0.9
to 172.16.0.1, carried between 10.1.1.1 and 10.1.1.2. -/

namespace Vxlan

/-- The groups of an IPv6 address. -/
def groups (b : Bytes) : String :=
  ":".intercalate ((List.range 8).map fun i => String.ofList (Nat.toDigits 16 (u16 b (2 * i))))

/-- The platform, with the addresses of the frame. -/
def sys : Platform where
  inetNtop4 b :=
    if b = [172, 16, 0, 9] then "172.16.0.9"
    else if b = [172, 16, 0, 1] then "172.16.0.1"
    else if b = [10, 1, 1, 1] then "10.1.1.1"
    else if b = [10, 1, 1, 2] then "10.1.1.2"
    else ""
  inetNtop6 _ := "::"
  mbedtls := ⟨fun _ _ => none, fun _ _ _ => none, fun _ _ => none, fun _ _ _ _ _ => none⟩

def macs : Bytes := [0x02, 0, 0, 0, 0, 2, 0x02, 0, 0, 0, 0, 1]

/-- The frame with `payload` in its UDP datagram. -/
def frame (payload : Bytes) : Bytes :=
  macs ++ be16 kEthIPv4 ++ [0x45, 0] ++ be16 (28 + payload.length) ++ [0, 0, 0, 0, 64, 17, 0, 0] ++ [172, 16, 0, 9]
    ++ [172, 16, 0, 1] ++ udpDatagram 41000 123 ⟨[0, 0], rfl⟩ payload

def carrier : Carrier where
  link := .Ethernet
  linkBytes := macs ++ [] ++ be16 kEthIPv4
  ip := .v4 ⟨0, by decide, 0, ⟨[0, 0], rfl⟩, 0, by decide, 64, ⟨[0, 0], rfl⟩, ⟨[10, 1, 1, 1], rfl⟩,
    ⟨[10, 1, 1, 2], rfl⟩, ⟨[], rfl⟩⟩
  linkHeader := .ethernet ⟨macs, rfl⟩ []
  srcPort := 50000
  srcPort_lt := by decide
  dstPort := 4789
  dstPort_lt := by decide
  checksum := ⟨[0, 0], rfl⟩
  tunnel := .vxlan 0x08 (by decide) ⟨[0, 0, 0, 0, 0, 0x64, 0], rfl⟩
  tunnelPort := .inr (.inr (.inl rfl))
  trailer := []

def captured (bytes : Bytes) (fits : bytes.length < 2 ^ 63) : PacketData :=
  { timestamp := 0, length := bytes.length, capturedLength := bytes.length, payload := bytes, fits }

def inner : PacketData := captured (frame [0x23]) (by decide)

def outer : PacketData := captured (carrier.wrap (frame [0x23])) (by decide)

def emptyInner : PacketData := captured (frame []) (by decide)

def emptyOuter : PacketData := captured (carrier.wrap (frame [])) (by decide)

/-- The result of `inner`. -/
def parsed : ParsedPacket :=
  { srcIP := "172.16.0.9", dstIP := "172.16.0.1", srcPort := 41000, dstPort := 123, protocol := "UDP"
    length := 43, payloadOffset := 42, payloadLength := 1, service := "NTP" }

/-- The result of `emptyInner`. -/
def emptyParsed : ParsedPacket :=
  { srcIP := "172.16.0.9", dstIP := "172.16.0.1", srcPort := 41000, dstPort := 123, protocol := "UDP"
    length := 42, service := "NTP" }

theorem encapsulatedWithin {packet : PacketData}
    (hl : linkLayer packet.payload packet.linkType = some (14, kEthIPv4))
    (h : NestsWithin sys 3 (packet.payload.drop 14) kEthIPv4) : EncapsulatedWithin sys 3 packet := by
  intro network hn
  rw [hl] at hn
  cases hn
  exact h

end Vxlan

theorem parse_wrap_transparent_ntp : ∃ r', parse Vxlan.sys Vxlan.outer = .ok r' ∧
    Transparent 50 Vxlan.inner Vxlan.outer Vxlan.parsed r' := by
  obtain ⟨r', hr, htransparent, -⟩ := @parse_wrap_transparent Vxlan.sys Vxlan.inner Vxlan.outer Vxlan.parsed
    Vxlan.carrier ⟨rfl, by decide⟩ (Vxlan.encapsulatedWithin (by decide) (by decide)) rfl rfl (by decide) (by decide)
    (by decide)
  refine ⟨r', hr, htransparent ⟨.inl rfl, (14, kEthIPv4), by decide, .inl ?_⟩⟩
  decide

/-- A datagram without payload keeps the 50 bytes of the carrier's datagram: the
frame of the test `DescendsIntoVxlanEncapsulatedFrame`. -/
theorem parse_wrap_empty_datagram :
    Vxlan.carrier.Carries Vxlan.emptyInner ∧ EncapsulatedWithin Vxlan.sys 3 Vxlan.emptyInner ∧
      Vxlan.emptyOuter.payload = Vxlan.carrier.wrap Vxlan.emptyInner.payload ∧
      parse Vxlan.sys Vxlan.emptyInner = .ok Vxlan.emptyParsed ∧
      (·.payloadLength) <$> parse Vxlan.sys Vxlan.emptyOuter = .ok 50 ∧
      ¬ ∃ r', parse Vxlan.sys Vxlan.emptyOuter = .ok r' ∧
        Transparent 50 Vxlan.emptyInner Vxlan.emptyOuter Vxlan.emptyParsed r' := by
  have hlen : (·.payloadLength) <$> parse Vxlan.sys Vxlan.emptyOuter = .ok 50 := by decide
  refine ⟨⟨rfl, by decide⟩, Vxlan.encapsulatedWithin (by decide) (by decide), rfl, by decide, hlen, ?_⟩
  rintro ⟨r', hr, ht⟩
  rw [hr, map_ok] at hlen
  have h50 : r'.payloadLength = 50 := Except.ok.inj hlen
  exact absurd (h50.symm.trans ht.payloadLength) (by decide)

/-! A GENEVE carrier from the port of VXLAN, whose options happen to spell an IPv6
header for what follows: read as VXLAN, it leads to the datagram that it carries. -/

namespace Astray

def sys : Platform := { Vxlan.sys with inetNtop6 := Vxlan.groups }

/-- The address that both headers give, as an options header too. -/
def src : Bytes := [17, 3, 1, 4, 0x11, 0x11, 0x22, 0x22, 0x33, 0x33] ++ Vxlan.macs.take 6

def ipv6Head (payloadLength : ℕ) (next : UInt8) : Bytes := [0x60, 0, 0, 0] ++ be16 payloadLength ++ [next, 64]

/-- An Ethernet frame with an NTP datagram over IPv6. -/
def frame : Bytes :=
  Vxlan.macs ++ be16 kEthIPv6 ++ ipv6Head 9 17 ++ src ++
    (Vxlan.macs.drop 6 ++ be16 kEthIPv6 ++ ipv6Head 9 17) ++ udpDatagram 41000 123 ⟨[0, 0], rfl⟩ [0x23]

def options : Bytes := Vxlan.macs ++ be16 kEthIPv6 ++ ipv6Head 41 60 ++ src.take 10

def carrier : Carrier :=
  { Vxlan.carrier with
    srcPort := 4789, srcPort_lt := by decide, dstPort := 6081, dstPort_lt := by decide, tunnelPort := .inl rfl
    tunnel := .geneve 8 (by decide) 0 kEthTrBridge ⟨[0, 0, 0x64, 0], rfl⟩ ⟨options, by decide⟩ }

def inner : PacketData := Vxlan.captured frame (by decide)

def outer : PacketData := Vxlan.captured (carrier.wrap frame) (by decide +kernel)

/-- The result of `inner`. -/
def parsed : ParsedPacket :=
  { srcIP := "1103:104:1111:2222:3333:200:0:2", dstIP := "200:0:1:86dd:6000:0:9:1140", srcPort := 41000
    dstPort := 123, protocol := "UDP", length := 63, payloadOffset := 62, payloadLength := 1, service := "NTP" }

/-- The result of `outer`. -/
def parsedOuter : ParsedPacket :=
  { parsed with
    length := 145, payloadOffset := 144, tunnel := "VXLAN", outerSrcIP := "10.1.1.1", outerDstIP := "10.1.1.2" }

end Astray

/-- The ports announce what is not there, and the result is that of the frame
inside all the same. -/
theorem parse_wrap_astray :
    Astray.carrier.Carries Astray.inner ∧ ¬ Astray.carrier.Announced ∧
      parse Astray.sys Astray.inner = .ok Astray.parsed ∧ parse Astray.sys Astray.outer = .ok Astray.parsedOuter ∧
      Transparent Astray.carrier.length Astray.inner Astray.outer Astray.parsed Astray.parsedOuter := by
  refine ⟨⟨.inl ⟨rfl, rfl⟩, by decide⟩, fun h => h.2.2 rfl, by decide +kernel, by decide +kernel, ?_⟩
  exact ⟨⟨rfl, rfl⟩, ⟨rfl, rfl⟩, rfl, ⟨rfl, rfl, rfl, rfl⟩, rfl, rfl, fun _ => rfl, fun _ => by decide +kernel, rfl,
    rfl, rfl, rfl, rfl⟩

end ProtocolParser
end NetProbe
