/-
# The headers a frame is decoded through

`Decodes` follows a frame from the link layer inwards, through whatever tells
the decoder what comes next. What is read of a frame is what each of its headers
makes of the packet before it, but for the protocol, the names and the labels
(`parse_decodes`). An IPv4 header of another version leaves the packet as it
was (`inert_ipv4`); an IPv6 one does so only when it is cut short
(`inert_ipv6_iff`), because nothing looks at its version (`version_checked_iff`).

Key definitions: `Decodes`, `Visit.WrongVersion`, `Visit.Ignored`.
Key theorems: `parse_decodes`, `version_checked_iff`.
-/
import NetProbe.Fragments

namespace NetProbe
namespace ProtocolParser

open Checked Bytes

/-- The header `v` of the frame is decoded. -/
def Decodes (sys : Platform) (rawData : PacketData) (v : Visit) : Prop :=
  ∃ network, linkLayer rawData.payload rawData.linkType = some network ∧
    Visited sys (kMaxTunnelDepth + 1) network.1 (rawData.payload.drop network.1) network.2 [] (blank rawData) v

/-! ### Versions -/

namespace Visit

/-- The header is decoded as IPv4 or IPv6 and says that it is another version. -/
def WrongVersion (v : Visit) : Prop :=
  (v.etherType = kEthIPv4 ∧ u8 v.bytes 0 >>> 4 ≠ 4) ∨ (v.etherType = kEthIPv6 ∧ u8 v.bytes 0 >>> 4 ≠ 6)

/-- The decoder leaves every packet as it was before the header. -/
def Inert (sys : Platform) (v : Visit) : Prop :=
  ∀ p, descend sys (v.descents + 1) v.base v.bytes v.etherType p = p

/-- Nothing is taken from the header: not by the decoder, and `r` has the
addresses, the ports, the flags and the payload there were before it. -/
structure Ignored (sys : Platform) (v : Visit) (r : ParsedPacket) : Prop where
  inert : v.Inert sys
  kept : r = { v.before with
    protocol := r.protocol, sni := r.sni, service := r.service, hostname := r.hostname, info := r.info
    encryptedTunnel := r.encryptedTunnel }

variable {sys : Platform} {v : Visit}

/-- A layer without addresses, report and tunnel. -/
theorem inert_of_layer (h : layer sys v.bytes v.etherType = {}) : v.Inert sys := by
  intro p
  rw [descend, h]
  rfl

/-- One with addresses overwrites those there were. -/
theorem not_inert {a : String × String} (h : (layer sys v.bytes v.etherType).addresses = some a) : ¬ v.Inert sys := by
  intro hinert
  have hsame : descend sys (v.descents + 1) v.base v.bytes v.etherType {} =
      descend sys (v.descents + 1) v.base v.bytes v.etherType { srcIP := "::1" } := by
    simp only [descend, Layer.decode, h]
    rfl
  rw [hinert, hinert] at hsame
  exact absurd hsame (by decide)

theorem inert_ipv4 (he : v.etherType = kEthIPv4) (hv : u8 v.bytes 0 >>> 4 ≠ 4) : v.Inert sys := by
  apply inert_of_layer
  rw [he, layer_ipv4]
  exact if_pos (.inr (.inl hv))

/-- An IPv6 header is ignored exactly when it is not complete. -/
theorem inert_ipv6_iff (he : v.etherType = kEthIPv6) : v.Inert sys ↔ v.bytes.length < 40 := by
  constructor
  · intro hinert
    by_contra hlen
    refine not_inert (a := (sys.inetNtop6 (slice v.bytes 8 16), sys.inetNtop6 (slice v.bytes 24 16))) ?_ hinert
    rw [he, layer_ipv6, ipv6Layer]
    dsimp only
    rw [if_neg hlen]
  · intro hlen
    apply inert_of_layer
    rw [he, layer_ipv6, ipv6Layer]
    exact if_pos hlen

end Visit

/-- What is read of a frame is what each of its headers makes of the packet before it. -/
theorem parse_decodes {sys : Platform} {rawData : PacketData} {v : Visit} (h : Decodes sys rawData v) :
    Safe (parse sys rawData) fun r => r = { v.decode sys with
      protocol := r.protocol, sni := r.sni, service := r.service, hostname := r.hostname, info := r.info
      encryptedTunnel := r.encryptedTunnel } := by
  obtain ⟨network, hl, hv⟩ := h
  have hsettled := (descend_visited hv).1
  by_cases hb : rawData.payload = []
  · obtain ⟨protocol, -, hp⟩ := parse_none sys (.inr hb)
    refine .of_eq hp ?_
    rw [hb] at hl
    rw [hb, List.drop_nil] at hsettled
    rw [descend, layer_nil sys hl] at hsettled
    have hblank : blank rawData = { v.decode sys with protocol := (blank rawData).protocol } := hsettled
    rw [hblank]
  · rw [parse_some sys hl hb]
    refine (inspectPayload_safe sys rawData.fits _).map fun q hq => ?_
    have hr := hq.trans (enriches_markEncrypted q)
    unfold Enriches at hr
    rw [hr, decoded, hsettled]

/-- **Nothing is taken from a header of the wrong IP version** exactly when every
complete IPv6 header is one: the version of an IPv6 header is not looked at. -/
theorem version_checked_iff (sys : Platform) (rawData : PacketData) : Safe (parse sys rawData) fun r =>
    (∀ v, Decodes sys rawData v → v.WrongVersion → v.Ignored sys r) ↔
      ∀ v, Decodes sys rawData v → v.etherType = kEthIPv6 → 40 ≤ v.bytes.length → u8 v.bytes 0 >>> 4 = 6 := by
  obtain ⟨r, hr, -⟩ := parse_fits sys rawData
  refine .of_eq hr ⟨fun h v hv he hlen => ?_, fun h v hv hwrong => ?_⟩
  · by_contra hne
    have hinert := (h v hv (.inr ⟨he, hne⟩)).inert
    have hshort := (Visit.inert_ipv6_iff he).mp hinert
    omega
  · have hinert : v.Inert sys := by
      rcases hwrong with ⟨he, hne⟩ | ⟨he, hne⟩
      · exact Visit.inert_ipv4 he hne
      · rw [Visit.inert_ipv6_iff he]
        by_contra hlen
        exact hne (h v hv he (not_lt.mp hlen))
    obtain ⟨r', hr', hkept⟩ := parse_decodes hv
    obtain rfl := Except.ok.inj (hr'.symm.trans hr)
    refine ⟨hinert, ?_⟩
    rw [Visit.decode, hinert] at hkept
    exact hkept

namespace WrongVersion

/-- An IPv4 version nibble over the rest of an IPv6 header and a TCP header. -/
def bytes : Bytes :=
  [0x45, 0, 0, 0, 0, 20, 6, 64] ++ List.replicate 16 1 ++ List.replicate 16 2 ++
    [0xC3, 0x50, 0x01, 0xBB] ++ List.replicate 8 0 ++ [0x50, 0x10] ++ List.replicate 6 0

def frame : PacketData := { Vxlan.captured bytes (by simp [bytes]) with linkType := .IPv6 }

def visit : Visit := ⟨kMaxTunnelDepth, 0, bytes, kEthIPv6, [], blank frame⟩

def parsed : ParsedPacket :=
  { srcIP := "101:101:101:101:101:101:101:101", dstIP := "202:202:202:202:202:202:202:202", srcPort := 50000
    dstPort := 443, protocol := "TCP", length := 60, tcpAck := true, service := "HTTPS" }

end WrongVersion

open WrongVersion in
/-- A header that says it is IPv4 gives the two ends of a flow. -/
theorem version_unchecked : Decodes Nested.sys frame visit ∧ visit.WrongVersion ∧ parse Nested.sys frame = .ok parsed ∧
    FlowAggregator.keyFor parsed = some ⟨parsed.srcIP, parsed.dstIP, 50000, 443, "TCP"⟩ ∧
    ¬ visit.Ignored Nested.sys parsed := by
  refine ⟨⟨(0, kEthIPv6), rfl, .here⟩, .inr ⟨rfl, by decide⟩, by decide +kernel, by decide, fun h => ?_⟩
  exact absurd ((Visit.inert_ipv6_iff rfl).mp h.inert) (by decide)

end ProtocolParser
end NetProbe
