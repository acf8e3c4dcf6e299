/-
# Where addresses come from

Every address that `parse` reports is a text `inet_ntop` has printed, or none:
what holds of all these texts holds of the addresses of a packet, through any
tunnels (`parse_addresses`), and of those of the flows of a session.

Key definitions: `Prints`, `AddressesAre`.
Key theorems: `parse_addresses`, `result_addresses`.
-/
import NetProbe.HostnameSources
import NetProbe.Fragments

namespace NetProbe
namespace ProtocolParser

open Bytes Wire Checked

/-- What holds of every address printed. -/
def Prints (sys : Platform) (P : String → Prop) : Prop :=
  (∀ a : Block 4, P (sys.inetNtop4 a.1)) ∧ ∀ a : Block 16, P (sys.inetNtop6 a.1)

/-- What holds of both addresses of a packet. -/
def AddressesAre (P : String → Prop) (p : ParsedPacket) : Prop := P p.srcIP ∧ P p.dstIP

section Addresses

variable {sys : Platform} {P : String → Prop} {p q : ParsedPacket}

theorem Prints.slice4 (hsys : Prints sys P) {b : Bytes} {i : ℕ} (h : i + 4 ≤ b.length) :
    P (sys.inetNtop4 (slice b i 4)) :=
  hsys.1 ⟨_, length_slice b h⟩

theorem Prints.slice16 (hsys : Prints sys P) {b : Bytes} {i : ℕ} (h : i + 16 ≤ b.length) :
    P (sys.inetNtop6 (slice b i 16)) := hsys.2 ⟨_, length_slice b h⟩

theorem Prints.layer (hsys : Prints sys P) {w : Bytes} {etherType : ℕ} {a : String × String}
    (h : a ∈ (layer sys w etherType).addresses) : P a.1 ∧ P a.2 := by
  unfold ProtocolParser.layer at h
  split_ifs at h
  · cases h
  · cases h
  · unfold ipv4Layer at h
    dsimp only at h
    split_ifs at h
    · cases h
    · cases h
      exact ⟨hsys.slice4 (by omega), hsys.slice4 (by omega)⟩
    · cases h
      exact ⟨hsys.slice4 (by omega), hsys.slice4 (by omega)⟩
  · unfold ipv6Layer at h
    dsimp only at h
    split_ifs at h
    · cases h
    · cases h
      exact ⟨hsys.slice16 (by omega), hsys.slice16 (by omega)⟩
  · unfold arpLayer at h
    dsimp only at h
    generalize (if u16 w 6 = 1 then "ARP request" else if u16 w 6 = 2 then "ARP reply" else "") = service at h
    split_ifs at h
    · cases h
    · cases h
      exact ⟨hsys.slice4 (by omega), hsys.slice4 (by omega)⟩
    · cases h
  · cases h

theorem addressesAre_of_route (hr : route q = route p) (h : AddressesAre P p) : AddressesAre P q := by
  rw [AddressesAre, show q.srcIP = p.srcIP from congrArg Route.srcIP hr,
    show q.dstIP = p.dstIP from congrArg Route.dstIP hr]
  exact h

theorem addressesAre_push (t : Tunnel) (h : AddressesAre P p) : AddressesAre P (t.push p) := by
  rw [t.push_frame]
  exact h

theorem addressesAre_setAddresses {addresses : Option (String × String)} (ha : ∀ a ∈ addresses, P a.1 ∧ P a.2)
    (h : AddressesAre P p) : AddressesAre P (setAddresses addresses p) := by
  cases addresses with
  | none => exact h
  | some a => exact ha a rfl

theorem addressesAre_read (hsys : Prints sys P) {base etherType : ℕ} {w : Bytes} (h : AddressesAre P p) :
    AddressesAre P ((layer sys w etherType).read base p) := by
  refine addressesAre_of_route (route_apply (layer sys w etherType).report _ _) ?_
  exact addressesAre_setAddresses (fun _ ha => hsys.layer ha) h

/-- Every layer of a descent keeps what holds of the addresses. -/
theorem addressesAre_descend (hsys : Prints sys P) : ∀ {n base etherType : ℕ} {w : Bytes} {p : ParsedPacket},
    AddressesAre P p → AddressesAre P (descend sys n base w etherType p) := by
  intro n
  induction n with
  | zero => intro base etherType w p h; exact h
  | succ n ih =>
    intro base etherType w p h
    have hread := @addressesAre_read sys P p hsys base etherType w h
    have henter : ∀ t : Tunnel, AddressesAre P (t.enter (descend sys n) (base + (layer sys w etherType).origin)
        ((layer sys w etherType).read base p)) := by
      intro t
      refine addressesAre_of_route (route_settle t _) ?_
      cases t.inner with
      | none => exact addressesAre_push t hread
      | some i => exact ih (addressesAre_push t hread)
    rw [descend_succ]
    cases (layer sys w etherType).tunnel with
    | none => exact hread
    | some t =>
      rw [decodeTunnel]
      obtain ⟨r, -, -, hdecode⟩ | ⟨-, hdecode⟩ := t.decode_cases (0 < n)
      · rw [hdecode]
        exact addressesAre_of_route (route_apply r _ _) hread
      · rw [hdecode]
        exact henter t

/-- **Every address that is reported was printed**, on any link layer and
through any tunnels. -/
theorem parse_addresses (hsys : Prints sys P) (hnone : P "") (rawData : PacketData) :
    Safe (parse sys rawData) (AddressesAre P) := by
  by_cases hb : rawData.payload = []
  · obtain ⟨protocol, -, hp⟩ := parse_none sys (.inr hb)
    exact .of_eq hp ⟨hnone, hnone⟩
  cases hl : linkLayer rawData.payload rawData.linkType with
  | none =>
    obtain ⟨protocol, -, hp⟩ := parse_none sys (.inl hl)
    exact .of_eq hp ⟨hnone, hnone⟩
  | some network =>
    have hdecoded : AddressesAre P (decoded sys rawData network) := addressesAre_descend hsys ⟨hnone, hnone⟩
    rw [parse_some sys hl hb]
    refine (inspectPayload_safe sys rawData.fits _).map fun q hq => ?_
    have hr := hq.trans (enriches_markEncrypted q)
    rw [AddressesAre, hr]
    exact hdecoded

end Addresses

end ProtocolParser

namespace AnalysisSession

open Checked ProtocolParser

variable {sys : Platform} {P : String → Prop}

/-- What `feed` reports has the addresses of its packet. -/
theorem result_addresses (hsys : Prints sys P) (hnone : P "") {packet : PacketData} {result : Result}
    (h : Analyses sys packet result) : AddressesAre P result.parsed := by
  obtain ⟨parsed, hparse, hrecovers⟩ := h
  have haddresses := (parse_addresses hsys hnone packet).elim hparse
  obtain ⟨sni, service, hq⟩ := hrecovers.frame
  rw [hq]
  exact haddresses

end AnalysisSession
end NetProbe
