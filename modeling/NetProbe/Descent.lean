/-
# The decoders compute the layers

`decodeNetwork` and the decoders under it end without a fault and leave exactly
what `descend` reads off their window, whatever the buffer around it.

Key theorems: `decodeLinkLayer_eq`, `decodeTransport_eq`, `decodeNetwork_eq`.
-/
import NetProbe.Layers

namespace NetProbe
namespace ProtocolParser

open Checked Bytes

/-! ### The link layer -/

theorem skipVlanTags_eq (w : Bytes) : ∀ {fuel offset etherType : ℕ}, offset ≤ w.length →
    w.length < offset + 4 * fuel →
    skipVlanTags w fuel offset etherType = .ok (skipTags w fuel offset etherType) := by
  intro fuel
  induction fuel with
  | zero => intro offset etherType h h'; omega
  | succ fuel ih =>
    intro offset etherType h h'
    unfold skipVlanTags skipTags
    by_cases ht : isVlanTag etherType
    · rw [if_pos ht, if_pos ht]
      by_cases hl : w.length < offset + 4
      · simp [hl]
      · rw [if_neg hl, if_neg hl, readU16_eq (by omega), ok_bind]
        exact ih (by omega) (by omega)
    · rw [if_neg ht, if_neg ht, pure_eq]

theorem etherTypeForIpVersion_eq (w : Bytes) (i : ℕ) :
    etherTypeForIpVersion w i = .ok (versionAt w i) := by
  unfold etherTypeForIpVersion versionAt
  by_cases hl : w.length ≤ i
  · simp [hl]
  · rw [if_neg (by omega), if_neg hl, readU8_eq (by omega), ok_bind]
    dsimp only
    split_ifs <;> rfl

theorem decodeLinkLayer_eq (w : Bytes) (link : LinkType) :
    decodeLinkLayer w link = .ok (linkLayer w link) := by
  unfold decodeLinkLayer linkLayer
  cases link with
  | Ethernet =>
    unfold ethernet
    by_cases hl : w.length < 14
    · simp [hl]
    · dsimp only
      rw [if_neg hl, if_neg hl, readU16_eq (by omega), ok_bind]
      exact skipVlanTags_eq w (by omega) (by omega)
  | RawIP => simp [etherTypeForIpVersion_eq]
  | NullLoopback =>
    by_cases hl : w.length < 4
    · simp [hl]
    · dsimp only
      rw [if_neg hl, if_neg hl, readU8_eq (by omega), readU8_eq (by omega), readU8_eq (by omega),
        readU8_eq (by omega), readU32_eq (by omega)]
      simp only [ok_bind, etherTypeForIpVersion_eq]
      cases etherTypeForFamily _ <|> etherTypeForFamily _ <;> rfl
  | Loop =>
    by_cases hl : w.length < 4
    · simp [hl]
    · dsimp only
      rw [if_neg hl, if_neg hl, readU32_eq (by omega)]
      simp only [ok_bind, etherTypeForIpVersion_eq]
      cases etherTypeForFamily _ <;> rfl
  | LinuxSLL =>
    by_cases hl : w.length < 16
    · simp [hl]
    · simp [hl, readU16_eq (show 14 + 1 < w.length by omega)]
  | LinuxSLL2 =>
    by_cases hl : w.length < 20
    · simp [hl]
    · simp [hl, readU16_eq (show 0 + 1 < w.length by omega)]
  | IPv4 => rfl
  | IPv6 => rfl
  | Unsupported => rfl

/-! ### Transport, tunnels and network -/

section Decoders

variable {sys : Platform} {buffer : Bytes} {stop offset depth n : ℕ} {p : ParsedPacket}

theorem decodeTcp_eq (h : stop ≤ buffer.length) :
    decodeTcp buffer stop offset p = .ok ((tcpReport (span buffer offset stop)).apply offset p) := by
  have hlen := length_span (i := offset) h
  unfold decodeTcp tcpReport
  dsimp only
  by_cases hl : stop < offset + 20
  · rw [if_pos hl, if_pos (by omega)]
    rfl
  · rw [if_neg hl, if_neg (by omega), readU16_head (s := stop) (by omega), readU16_span (s := stop) (by omega),
      readU32_span (s := stop) (by omega), readU8_span (s := stop) (by omega),
      readU8_span (s := stop) (by omega)]
    simp only [ok_bind]
    generalize span buffer offset stop = w at *
    by_cases hh : (w.u8 12 >>> 4) * 4 < 20 ∨ stop < offset + (w.u8 12 >>> 4) * 4
    · rw [if_pos hh, if_pos (by omega)]
      rfl
    · rw [if_neg hh]
      by_cases hp : offset + (w.u8 12 >>> 4) * 4 < stop
      · rw [if_pos hp, if_neg (by omega), sub_eq (by omega), ok_bind,
          show stop - (offset + (w.u8 12 >>> 4) * 4) = w.length - (w.u8 12 >>> 4) * 4 by omega]
        rfl
      · rw [if_neg hp, if_pos (by omega)]
        rfl

theorem decodeIcmp_eq (h : stop ≤ buffer.length) : decodeIcmp buffer stop offset p =
    .ok ((icmpReport "ICMP" icmpService (span buffer offset stop)).apply offset p) := by
  have hlen := length_span (i := offset) h
  unfold decodeIcmp icmpReport
  by_cases hl : stop < offset + 2
  · rw [if_pos hl, if_pos (by omega)]
    rfl
  · rw [if_neg hl, if_neg (by omega), readU8_head (s := stop) (by omega)]
    rfl

theorem decodeIcmpv6_eq (h : stop ≤ buffer.length) : decodeIcmpv6 buffer stop offset p =
    .ok ((icmpReport "ICMPv6" icmpv6Service (span buffer offset stop)).apply offset p) := by
  have hlen := length_span (i := offset) h
  unfold decodeIcmpv6 icmpReport
  by_cases hl : stop < offset + 2
  · rw [if_pos hl, if_pos (by omega)]
    rfl
  · rw [if_neg hl, if_neg (by omega), readU8_head (s := stop) (by omega)]
    rfl

/-- `decodeNetwork` one tunnel further in is `inside`. -/
def Follows (dn : Descend) (inside : Inside) (buffer : Bytes) (depth : ℕ) : Prop :=
  ∀ {stop offset etherType : ℕ} {p : ParsedPacket}, stop ≤ buffer.length →
    dn stop offset etherType p (depth + 1) = .ok (inside offset (span buffer offset stop) etherType p)

variable {dn : Descend} {inside : Inside}

theorem decodeInnerEthernet_eq (hf : Follows dn inside buffer depth) (h : stop ≤ buffer.length) (k : ℕ) :
    decodeInnerEthernet dn buffer stop (offset + k) p depth =
      .ok (enterInner inside offset (innerEthernet (span buffer offset stop) k) p) := by
  unfold decodeInnerEthernet innerEthernet
  rw [drop_span]
  by_cases hk : offset + k ≥ stop
  · have hnil : (span buffer (offset + k) stop).length < 14 := by
      rw [length_span h]
      omega
    rw [if_pos hk, ethernet, if_pos hnil]
    rfl
  · have hl : decodeLinkLayer (span buffer (offset + k) stop) .Ethernet =
        .ok (ethernet (span buffer (offset + k) stop)) := decodeLinkLayer_eq _ _
    rw [if_neg hk, sub_eq (by omega), ok_bind, window_eq (by omega), ok_bind]
    show (decodeLinkLayer (span buffer (offset + k) stop) .Ethernet >>= _) = _
    rw [hl, ok_bind]
    cases ethernet (span buffer (offset + k) stop) with
    | none => rfl
    | some e =>
      dsimp only [Option.map_some, enterInner]
      rw [hf h, drop_span, Nat.add_assoc]

theorem decodeInnerType_eq (hf : Follows dn inside buffer depth) (h : stop ≤ buffer.length) (k type : ℕ) :
    decodeInnerType dn buffer stop (offset + k) type p depth =
      .ok (enterInner inside offset (innerType (span buffer offset stop) k type) p) := by
  unfold decodeInnerType innerType
  by_cases ht : type = kEthTrBridge
  · rw [if_pos ht, if_pos ht, decodeInnerEthernet_eq hf h]
  · rw [if_neg ht, if_neg ht]
    by_cases hip : type = kEthIPv4 ∨ type = kEthIPv6
    · rw [if_pos hip, if_pos hip, hf h, enterInner, drop_span]
    · rw [if_neg hip, if_neg hip, enterInner]

/-- A header the decoder does not look into leaves the packet to `settle`. -/
theorem enter_gre_none {w : Bytes} (h : greHeaderLen w = none) :
    (gre w).enter inside offset p =
      if p.protocol = "" ∨ p.protocol = "Unknown" then { p with protocol := "GRE" } else p := by
  simp [Tunnel.enter, Tunnel.settle, Tunnel.push, enterInner, gre, h]

theorem decodeGre_eq (hf : Follows dn inside buffer depth) (h : stop ≤ buffer.length) :
    (do
      let p ← decodeGre dn buffer stop offset p depth
      return if p.protocol = "" ∨ p.protocol = "Unknown" then { p with protocol := "GRE" } else p) =
      .ok ((gre (span buffer offset stop)).enter inside offset p) := by
  have hlen := length_span (i := offset) h
  unfold decodeGre
  by_cases hl : stop < offset + 4
  · rw [if_pos hl, enter_gre_none (if_pos (Or.inl (by omega)))]
    rfl
  · rw [if_neg hl, readU16_head (s := stop) (by omega), readU16_span (s := stop) (by omega)]
    simp only [ok_bind]
    generalize hw : span buffer offset stop = w at *
    by_cases hv : w.u16 0 &&& 0x0007 ≠ 0
    · rw [if_pos hv, enter_gre_none (if_pos (Or.inr (Or.inl hv)))]
      rfl
    · rw [if_neg hv]
      generalize hn : 4 + (if w.u16 0 &&& 0x8000 ≠ 0 then 4 else 0) + (if w.u16 0 &&& 0x2000 ≠ 0 then 4 else 0)
        + (if w.u16 0 &&& 0x1000 ≠ 0 then 4 else 0) = headerLen
      by_cases hh : stop < offset + headerLen
      · rw [if_pos hh, enter_gre_none (if_pos (Or.inr (Or.inr (by omega))))]
        rfl
      · have hg : greHeaderLen w = some headerLen := by
          unfold greHeaderLen
          dsimp only
          rw [hn, if_neg]
          rintro (c | c | c)
          · omega
          · exact hv c
          · omega
        rw [if_neg hh, decodeInnerType_eq hf h, hw]
        simp [Tunnel.enter, Tunnel.settle, Tunnel.push, gre, hg]

theorem decodeVxlan_eq (hf : Follows dn inside buffer depth) (h : stop ≤ buffer.length) :
    decodeVxlan dn buffer stop (offset + 8) p depth =
      .ok (decodeTunnel inside true offset (vxlan (span buffer offset stop)) p) := by
  have hlen := length_span (i := offset) h
  unfold decodeVxlan vxlan
  by_cases hl : stop < offset + 8 + 8
  · rw [if_pos hl, if_pos (Or.inl (by omega))]
    rfl
  · rw [if_neg hl, readU8_span (s := stop) (by omega), ok_bind]
    by_cases hi : (span buffer offset stop).u8 8 &&& 0x08 = 0
    · rw [if_pos hi, if_pos (Or.inr hi)]
      rfl
    · rw [if_neg hi, if_neg (not_or.mpr ⟨by omega, hi⟩), Nat.add_assoc, decodeInnerEthernet_eq hf h]
      rfl

theorem decodeGeneve_eq (hf : Follows dn inside buffer depth) (h : stop ≤ buffer.length) :
    decodeGeneve dn buffer stop (offset + 8) p depth =
      .ok (decodeTunnel inside true offset (geneve (span buffer offset stop)) p) := by
  have hlen := length_span (i := offset) h
  unfold decodeGeneve geneve
  dsimp only
  by_cases hl : stop < offset + 8 + 8
  · rw [if_pos hl, if_pos (Or.inl (by omega))]
    rfl
  · rw [if_neg hl, readU8_span (s := stop) (by omega), ok_bind]
    generalize hw : span buffer offset stop = w at *
    by_cases hv : w.u8 8 >>> 6 ≠ 0
    · rw [if_pos hv, if_pos (Or.inr (Or.inl hv))]
      rfl
    · rw [if_neg hv, Nat.add_assoc offset 8 2, readU16_span (s := stop) (by rw [hw]; omega), ok_bind, hw]
      by_cases ho : stop < offset + 8 + 8 + (w.u8 8 &&& 0x3F) * 4
      · rw [if_pos ho, if_pos (Or.inr (Or.inr (by omega)))]
        rfl
      · have hc : ¬ (w.length < 16 ∨ w.u8 8 >>> 6 ≠ 0 ∨ w.length < 8 + (8 + (w.u8 8 &&& 0x3F) * 4)) := by
          rintro (c | c | c)
          · omega
          · exact hv c
          · omega
        rw [if_neg ho, if_neg hc, Nat.add_assoc, Nat.add_assoc, decodeInnerType_eq hf h, hw]
        rfl

theorem decodeTunnel_vxlan_limit (inside : Inside) (base : ℕ) (w : Bytes) (p : ParsedPacket) :
    decodeTunnel inside false base (vxlan w) p = p := by
  unfold vxlan
  split_ifs <;> rfl

theorem decodeTunnel_geneve_limit (inside : Inside) (base : ℕ) (w : Bytes) (p : ParsedPacket) :
    decodeTunnel inside false base (geneve w) p = p := by
  unfold geneve
  dsimp only
  split_ifs <;> rfl

theorem datagram_span (buffer : Bytes) (offset stop : ℕ) :
    let udpLength := (span buffer offset stop).u16 4
    datagram (span buffer offset stop) =
      span buffer offset (min stop (if udpLength ≥ 8 then offset + udpLength else stop)) := by
  unfold datagram
  dsimp only
  split
  · rw [take_span]
  · rw [Nat.min_self]

theorem decodeUdp_eq (hf : Follows dn inside buffer depth) (h : stop ≤ buffer.length) :
    decodeUdp dn buffer stop offset p depth =
      .ok ((udpLayer (span buffer offset stop)).decode inside (depth < kMaxTunnelDepth) offset p) := by
  have hlen := length_span (i := offset) h
  have hd := datagram_span buffer offset stop
  have hdw := length_datagram_le (span buffer offset stop)
  unfold decodeUdp udpLayer udpReport
  dsimp only at *
  by_cases hl : stop < offset + 8
  · rw [if_pos hl, if_pos (by omega), if_pos (by omega)]
    rfl
  · rw [if_neg hl, if_neg (by omega), readU16_head (s := stop) (by omega), readU16_span (s := stop) (by omega),
      readU16_span (s := stop) (by omega)]
    simp only [ok_bind]
    generalize span buffer offset stop = w at *
    generalize hu : min stop (if w.u16 4 ≥ 8 then offset + w.u16 4 else stop) = udpEnd at *
    have hle : udpEnd ≤ buffer.length := by omega
    have hdl := length_span (i := offset) hle
    rw [← hd] at hdl
    by_cases hp : offset + 8 ≥ udpEnd
    · rw [if_pos hp, if_pos (by omega), if_pos (by omega)]
      rfl
    · have h0 := @u16_datagram w 0 (by omega)
      have h2 := @u16_datagram w 2 (by omega)
      rw [if_neg hp, if_neg (by omega), if_neg (by omega), sub_eq (by omega), ok_bind, udpTunnel, h0, h2,
        show udpEnd - (offset + 8) = (datagram w).length - 8 by omega]
      -- under the depth limit the tunnel headers are looked at, at the limit they are not
      by_cases hdeep : depth < kMaxTunnelDepth
      · rw [if_pos hdeep, decide_eq_true hdeep]
        split_ifs
        · rw [decodeVxlan_eq hf hle, ← hd]
          rfl
        · rw [decodeGeneve_eq hf hle, ← hd]
          rfl
        · rfl
      · rw [if_neg hdeep, decide_eq_false hdeep]
        refine congrArg Except.ok (Eq.symm ?_)
        split_ifs
        · exact decodeTunnel_vxlan_limit ..
        · exact decodeTunnel_geneve_limit ..
        · rfl

theorem decodeTransport_eq (hf : Follows dn inside buffer depth) (h : stop ≤ buffer.length) (l4Proto : ℕ) :
    decodeTransport dn buffer stop offset l4Proto p depth =
      .ok ((transportLayer (span buffer offset stop) l4Proto).decode inside (depth < kMaxTunnelDepth)
        offset p) := by
  unfold decodeTransport transportLayer
  by_cases h6 : l4Proto = 6
  · rw [if_pos h6, if_pos h6, decodeTcp_eq h]
    rfl
  rw [if_neg h6, if_neg h6]
  by_cases h17 : l4Proto = 17
  · rw [if_pos h17, if_pos h17, decodeUdp_eq hf h]
  rw [if_neg h17, if_neg h17]
  by_cases h1 : l4Proto = 1
  · rw [if_pos h1, if_pos h1, decodeIcmp_eq h]
    rfl
  rw [if_neg h1, if_neg h1]
  by_cases h58 : l4Proto = 58
  · rw [if_pos h58, if_pos h58, decodeIcmpv6_eq h]
    rfl
  rw [if_neg h58, if_neg h58]
  by_cases h4 : l4Proto = 4
  · subst h4
    by_cases hd : depth < kMaxTunnelDepth
    · rw [if_pos ⟨rfl, hd⟩, if_pos rfl, hf h, decide_eq_true hd]
      rfl
    · rw [decide_eq_false hd]
      simp only [hd, and_false, if_false]
      rfl
  rw [if_neg (fun c => h4 c.1), if_neg h4]
  by_cases h41 : l4Proto = 41
  · subst h41
    by_cases hd : depth < kMaxTunnelDepth
    · rw [if_pos ⟨rfl, hd⟩, if_pos rfl, hf h, decide_eq_true hd]
      rfl
    · rw [decide_eq_false hd]
      simp only [hd, and_false, if_false]
      rfl
  rw [if_neg (fun c => h41 c.1), if_neg h41]
  by_cases h47 : l4Proto = 47
  · subst h47
    by_cases hd : depth < kMaxTunnelDepth
    · rw [if_pos ⟨rfl, hd⟩, if_pos rfl, decodeGre_eq hf h, decide_eq_true hd]
      rfl
    · rw [decide_eq_false hd]
      simp only [hd, and_false, if_false]
      rfl
  rw [if_neg (fun c => h47 c.1), if_neg h47]
  by_cases h50 : l4Proto = 50
  · rw [if_pos h50, if_pos h50]
    rfl
  rw [if_neg h50, if_neg h50]
  cases ipProtocolName l4Proto <;> rfl

theorem decodeArp_eq (h : stop ≤ buffer.length) (deeper : Bool) : decodeArp sys buffer stop offset p =
    .ok ((arpLayer sys (span buffer offset stop)).decode inside deeper offset p) := by
  have hlen := length_span (i := offset) h
  unfold decodeArp arpLayer
  dsimp only
  by_cases hl : stop < offset + 8
  · rw [if_pos hl, if_pos (by omega)]
    rfl
  · rw [if_neg hl, if_neg (by omega), readU16_span (s := stop) (by omega), readU8_span (s := stop) (by omega),
      readU8_span (s := stop) (by omega), readU16_span (s := stop) (by omega)]
    simp only [ok_bind]
    generalize hw : span buffer offset stop = w at *
    by_cases ha : w.u16 2 = kEthIPv4 ∧ w.u8 5 = 4 ∧ w.length ≥ 8 + 2 * (w.u8 4 + w.u8 5)
    · have hs : w.u16 2 = kEthIPv4 ∧ w.u8 5 = 4 ∧ stop ≥ offset + 8 + 2 * (w.u8 4 + w.u8 5) :=
        ⟨ha.1, ha.2.1, by omega⟩
      have h4 := ha.2
      subst hw
      rw [if_pos ha, if_pos hs, ipv4ToString, ipv4ToString, Nat.add_assoc offset 8, Nat.add_assoc offset 8,
        Nat.add_assoc offset, Nat.add_assoc 8, window_span (s := stop) (by decide) (by omega),
        window_span (s := stop) (by decide) (by omega)]
      rfl
    · have hs : ¬ (w.u16 2 = kEthIPv4 ∧ w.u8 5 = 4 ∧ stop ≥ offset + 8 + 2 * (w.u8 4 + w.u8 5)) :=
        fun hs => ha ⟨hs.1, hs.2.1, by omega⟩
      rw [if_neg ha, if_neg hs]
      rfl

theorem decodeIPv4_eq (hf : Follows dn inside buffer depth) (h : stop ≤ buffer.length) :
    decodeIPv4 sys dn buffer stop offset p depth =
      .ok ((ipv4Layer sys (span buffer offset stop)).decode inside (depth < kMaxTunnelDepth) offset p) := by
  have hlen := length_span (i := offset) h
  unfold decodeIPv4 ipv4Layer
  dsimp only
  by_cases hl : stop < offset + 20
  · rw [if_pos hl, if_pos (Or.inl (by omega))]
    rfl
  rw [if_neg hl, readU8_head (s := stop) (by omega)]
  simp only [ok_bind]
  by_cases hv : (span buffer offset stop).u8 0 >>> 4 ≠ 4 ∨ ((span buffer offset stop).u8 0 &&& 0x0F) * 4 < 20 ∨
      stop < offset + ((span buffer offset stop).u8 0 &&& 0x0F) * 4
  · rw [if_pos hv, if_pos (by omega)]
    rfl
  rw [if_neg hv, readU16_span (s := stop) (by omega)]
  simp only [ok_bind]
  by_cases ht : (span buffer offset stop).u16 2 < ((span buffer offset stop).u8 0 &&& 0x0F) * 4
  · rw [if_pos ht, if_pos (by omega)]
    rfl
  rw [if_neg ht, if_neg (by omega), ipv4ToString, ipv4ToString, window_span (s := stop) (by decide) (by omega),
    window_span (s := stop) (by decide) (by omega), readU16_span (s := stop) (by omega)]
  simp only [ok_bind, pure_eq]
  by_cases hfr : (span buffer offset stop).u16 6 &&& 0x1FFF ≠ 0
  · rw [if_pos hfr, if_pos hfr]
    rfl
  rw [if_neg hfr, if_neg hfr, readU8_span (s := stop) (by omega), ok_bind, decodeTransport_eq hf (by omega),
    take_span, drop_span]
  rfl

theorem walkV6Extension_eq {size pos : ℕ} (h : size ≤ buffer.length) (nh : ℕ) :
    walkV6Extension nh buffer size pos =
      .ok ((v6Extension nh (span buffer pos size)).map fun e => (pos + e.1, e.2)) := by
  have hlen := length_span (i := pos) h
  unfold walkV6Extension v6Extension
  by_cases h1 : nh = 0 ∨ nh = 43 ∨ nh = 60 ∨ nh = 135
  · rw [if_pos h1, if_pos h1]
    by_cases hl : size < pos + 2
    · rw [if_pos hl, if_pos (Or.inl (by omega))]
      rfl
    rw [if_neg hl, readU8_head (s := size) (by omega), readU8_span (s := size) (by omega)]
    simp only [ok_bind]
    by_cases hh : size < pos + ((span buffer pos size).u8 1 + 1) * 8
    · rw [if_pos hh, if_pos (by omega)]
      rfl
    · rw [if_neg hh, if_neg (by omega)]
      rfl
  rw [if_neg h1, if_neg h1]
  by_cases h2 : nh = 44
  · rw [if_pos h2, if_pos h2]
    by_cases hl : size < pos + 8
    · rw [if_pos hl, if_pos (by omega)]
      rfl
    · rw [if_neg hl, if_neg (by omega), readU8_head (s := size) (by omega)]
      rfl
  rw [if_neg h2, if_neg h2]
  by_cases h3 : nh = 51
  · rw [if_pos h3, if_pos h3]
    by_cases hl : size < pos + 2
    · rw [if_pos hl, if_pos (Or.inl (by omega))]
      rfl
    rw [if_neg hl, readU8_head (s := size) (by omega), readU8_span (s := size) (by omega)]
    simp only [ok_bind]
    by_cases hh : size < pos + ((span buffer pos size).u8 1 + 2) * 4
    · rw [if_pos hh, if_pos (by omega)]
      rfl
    · rw [if_neg hh, if_neg (by omega)]
      rfl
  rw [if_neg h3, if_neg h3]
  rfl

theorem walkV6Chain_eq {size : ℕ} (h : size ≤ buffer.length) : ∀ {fuel n nh pos : ℕ},
    (span buffer pos size).length < fuel → (span buffer pos size).length < n →
    walkV6Chain buffer size fuel nh pos =
      .ok ((v6Chain n nh (span buffer pos size)).1, pos + (v6Chain n nh (span buffer pos size)).2) := by
  intro fuel
  induction fuel with
  | zero => intro n nh pos hf; omega
  | succ fuel ih =>
    intro n nh pos hf hn
    obtain ⟨n, rfl⟩ : ∃ m, n = m + 1 := ⟨n - 1, by omega⟩
    rw [walkV6Chain, walkV6Extension_eq h, ok_bind, v6Chain]
    cases he : v6Extension nh (span buffer pos size) with
    | none => rfl
    | some e =>
      obtain ⟨len, next⟩ := e
      have hl := v6Extension_le he
      have hd : (span buffer (pos + len) size).length = (span buffer pos size).length - len := by
        rw [← drop_span, List.length_drop]
      dsimp only [Option.map_some]
      rw [ih (n := n) (by omega) (by omega), drop_span, Nat.add_assoc]

theorem decodeIPv6_eq (hf : Follows dn inside buffer depth) (h : stop ≤ buffer.length) :
    decodeIPv6 sys dn buffer stop offset p depth =
      .ok ((ipv6Layer sys (span buffer offset stop)).decode inside (depth < kMaxTunnelDepth) offset p) := by
  have hlen := length_span (i := offset) h
  unfold decodeIPv6 ipv6Layer
  dsimp only
  by_cases hl : stop < offset + 40
  · rw [if_pos hl, if_pos (by omega)]
    rfl
  rw [if_neg hl, if_neg (by omega), readU16_span (s := stop) (by omega), ipv6ToString, ipv6ToString,
    window_span (s := stop) (by decide) (by omega), window_span (s := stop) (by decide) (by omega),
    readU8_span (s := stop) (by omega)]
  simp only [ok_bind, pure_eq]
  have hpacket : (span buffer offset stop).take (40 + (span buffer offset stop).u16 4) =
      span buffer offset (min stop (offset + 40 + (span buffer offset stop).u16 4)) := by
    rw [take_span, Nat.add_assoc]
  rw [hpacket]
  generalize span buffer offset stop = w at *
  have hle : min stop (offset + 40 + w.u16 4) ≤ buffer.length := by omega
  have h40 : (span buffer (offset + 40) (min stop (offset + 40 + w.u16 4))).length <
      min stop (offset + 40 + w.u16 4) := by
    rw [length_span hle]
    omega
  rw [drop_span, walkV6Chain_eq hle h40 (n := (span buffer offset (min stop (offset + 40 + w.u16 4))).length)]
  · simp only [ok_bind]
    rw [decodeTransport_eq hf hle, drop_span, Nat.add_assoc]
    rfl
  · rw [length_span hle, length_span hle]
    omega

/-- A named tunnel with something inside, else the packet as it is. -/
def enterNamed (inside : Inside) (base : ℕ) (name : String) (inner : Option Inner) (p : ParsedPacket) :
    ParsedPacket :=
  match inner with
  | some i => enterInner inside base (some i) (pushTunnel p name)
  | none => p

theorem enter_named {t : Tunnel} {name label : String} {inner : Option Inner}
    (ht : t = { name := inner.map fun _ => name, inner, placeholder := ["Unknown"], label }) :
    t.enter inside offset p =
      let p := enterNamed inside offset name inner p
      if p.protocol = "Unknown" then { p with protocol := label } else p := by
  subst ht
  cases inner with
  | none => by_cases hu : p.protocol = "Unknown" <;>
      simp [Tunnel.enter, Tunnel.settle, Tunnel.push, enterNamed, enterInner, hu]
  | some i => by_cases hu : (enterInner inside offset (some i) (pushTunnel p name)).protocol = "Unknown" <;>
      simp [Tunnel.enter, Tunnel.settle, Tunnel.push, enterNamed, hu]

theorem decodeMplsLabels_eq (hf : Follows dn inside buffer depth) (h : stop ≤ buffer.length) :
    ∀ {labels k : ℕ}, decodeMplsLabels dn buffer stop p depth labels (offset + k) =
      .ok (enterNamed inside offset "MPLS" (mplsInner (span buffer offset stop) labels k) p) := by
  have hlen := length_span (i := offset) h
  intro labels
  induction labels with
  | zero => intro k; rfl
  | succ labels ih =>
    intro k
    unfold decodeMplsLabels mplsInner
    by_cases hl : stop < offset + k + 4
    · rw [if_pos hl, if_pos (by omega)]
      rfl
    rw [if_neg hl, if_neg (by omega), Nat.add_assoc offset k 2, readU8_span (s := stop) (by omega), ok_bind,
      Nat.add_assoc offset k 4]
    by_cases hb : (span buffer offset stop).u8 (k + 2) &&& 0x01 = 0
    · rw [if_pos (by simpa using hb), if_pos hb, ih]
    rw [if_neg (by simpa using hb), if_neg hb]
    unfold versionAt
    by_cases he : offset + (k + 4) ≥ stop
    · rw [if_pos he, if_pos (by omega)]
      rfl
    rw [if_neg he, if_neg (by omega), readU8_span (s := stop) (by omega), ok_bind]
    dsimp only
    by_cases h4 : (span buffer offset stop).u8 (k + 4) >>> 4 = 4
    · rw [if_neg (by omega), if_pos h4, if_pos h4, hf h, ← drop_span]
      rfl
    by_cases h6 : (span buffer offset stop).u8 (k + 4) >>> 4 = 6
    · rw [if_neg (by omega), if_neg h4, if_neg h4, if_pos h6, hf h, ← drop_span]
      rfl
    · rw [if_pos ⟨h4, h6⟩, if_neg h4, if_neg h6]
      rfl

theorem decodeMpls_eq (hf : Follows dn inside buffer depth) (h : stop ≤ buffer.length) :
    (do
      let p ← decodeMpls dn buffer stop offset p depth
      return if p.protocol = "Unknown" then { p with protocol := "MPLS" } else p) =
      .ok ((mpls (span buffer offset stop)).enter inside offset p) := by
  have hm := @decodeMplsLabels_eq buffer stop offset depth p dn inside hf h 8 0
  rw [Nat.add_zero] at hm
  rw [decodeMpls, hm, ok_bind, enter_named (mpls.eq_1 _)]
  rfl

theorem decodePppoe_eq (hf : Follows dn inside buffer depth) (h : stop ≤ buffer.length) :
    (do
      let p ← decodePppoe dn buffer stop offset p depth
      return if p.protocol = "Unknown" then { p with protocol := "PPPoE" } else p) =
      .ok ((pppoe (span buffer offset stop)).enter inside offset p) := by
  have hlen := length_span (i := offset) h
  have hp : decodePppoe dn buffer stop offset p depth =
      .ok (enterNamed inside offset "PPPoE" (pppoeInner (span buffer offset stop)) p) := by
    unfold decodePppoe pppoeInner
    by_cases hl : stop < offset + 6 + 2
    · rw [if_pos hl, if_pos (by omega)]
      rfl
    rw [if_neg hl, if_neg (by omega), readU16_span (s := stop) (by omega), ok_bind, Nat.add_assoc offset 6 2]
    dsimp only
    by_cases h4 : (span buffer offset stop).u16 6 = 0x0021
    · rw [if_pos h4, if_pos h4, hf h, ← drop_span]
      rfl
    by_cases h6 : (span buffer offset stop).u16 6 = 0x0057
    · rw [if_neg h4, if_neg h4, if_pos h6, if_pos h6, hf h, ← drop_span]
      rfl
    · rw [if_neg h4, if_neg h4, if_neg h6, if_neg h6]
      rfl
  rw [hp, ok_bind, enter_named (pppoe.eq_1 _)]
  rfl

theorem decodeEtherType_eq (hf : Follows dn inside buffer depth) (h : stop ≤ buffer.length)
    (etherType : ℕ) : decodeEtherType sys dn buffer stop offset etherType p depth =
      .ok ((layer sys (span buffer offset stop) etherType).decode inside (depth < kMaxTunnelDepth)
        offset p) := by
  unfold decodeEtherType layer
  by_cases hm : etherType = kEthMplsUni ∨ etherType = kEthMplsMul
  · rw [if_pos hm, if_pos hm, decodeMpls_eq hf h]
    rfl
  rw [if_neg hm, if_neg hm]
  by_cases hp : etherType = kEthPppoeSess
  · rw [if_pos hp, if_pos hp, decodePppoe_eq hf h]
    rfl
  rw [if_neg hp, if_neg hp]
  by_cases h4 : etherType = kEthIPv4
  · rw [if_pos h4, if_pos h4, decodeIPv4_eq hf h]
  rw [if_neg h4, if_neg h4]
  by_cases h6 : etherType = kEthIPv6
  · rw [if_pos h6, if_pos h6, decodeIPv6_eq hf h]
  rw [if_neg h6, if_neg h6]
  by_cases ha : etherType = kEthARP
  · rw [if_pos ha, if_pos ha, decodeArp_eq h]
  rw [if_neg ha, if_neg ha]
  cases etherTypeName etherType <;> rfl

end Decoders

/-- `decodeNetwork` reads the layers off its window, and stops at the tunnel-depth
limit: five descents are never exceeded. -/
theorem decodeNetwork_eq (sys : Platform) (buffer : Bytes) : ∀ {descents depth : ℕ},
    descents + depth = kMaxTunnelDepth + 1 → ∀ {stop offset etherType : ℕ} {p : ParsedPacket},
    stop ≤ buffer.length → decodeNetwork sys buffer descents stop offset etherType p depth =
      .ok (descend sys descents offset (span buffer offset stop) etherType p) := by
  intro descents
  induction descents with
  | zero =>
    intro depth hd stop offset etherType p h
    rw [decodeNetwork, if_pos (by omega), descend]
  | succ descents ih =>
    intro depth hd stop offset etherType p h
    have hdeep : decide (depth < kMaxTunnelDepth) = decide (0 < descents) := by
      rw [decide_eq_decide]
      omega
    have hinside : Follows (decodeNetwork sys buffer descents) (descend sys descents) buffer depth :=
      fun h => ih (by omega) h
    rw [decodeNetwork, if_neg (by omega), decodeEtherType_eq hinside h, hdeep, descend]

end ProtocolParser
end NetProbe
