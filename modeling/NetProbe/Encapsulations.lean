/-
# Encapsulations over IP and Ethernet

The headers that carry a packet without UDP, as bytes: IP-in-IP, 6in4 and GRE
under an IP header with options or extension headers, MPLS and PPPoE under an
Ethernet header, and any stack of them. Each is one layer with nothing but a
tunnel under its addresses (`Encapsulation.leads_wrap`).

Key definitions: `Extension`, `IPCover`, `OverIP`, `Encapsulation`, `nest`.
Key theorems: `IPCover.layer_wrap`, `OverIP.leads`, `Encapsulation.leads_wrap`.
-/
import NetProbe.Carriers

namespace NetProbe
namespace ProtocolParser

open Checked Bytes Wire

/-! ### IPv6 extension headers -/

/-- An extension header, but for the number of what comes next. -/
inductive Extension
  | options (type : UInt8) (isOptions : type.toNat ∈ [0, 43, 60, 135]) (units : ℕ) (units_lt : units < 256)
      (body : Block (6 + 8 * units))
  | fragment (body : Block 7)
  | authentication (units : ℕ) (units_lt : units < 256) (body : Block (6 + 4 * units))

namespace Extension

def type : Extension → UInt8
  | options type .. => type
  | fragment _ => 44
  | authentication .. => 51

def length : Extension → ℕ
  | options _ _ units .. => 8 + 8 * units
  | fragment _ => 8
  | authentication units .. => 8 + 4 * units

def bytes (next : UInt8) : Extension → Bytes
  | options _ _ units _ body => next :: UInt8.ofNat units :: body.1
  | fragment body => next :: body.1
  | authentication units _ body => next :: UInt8.ofNat units :: body.1

/-- The number that announces the first of the headers, or the protocol under them. -/
def first (protocol : UInt8) : List Extension → UInt8
  | [] => protocol
  | e :: _ => e.type

/-- The headers, each with the number of the next. -/
def chain (protocol : UInt8) : List Extension → Bytes
  | [] => []
  | e :: rest => e.bytes (first protocol rest) ++ chain protocol rest

theorem length_bytes (e : Extension) (next : UInt8) : (e.bytes next).length = e.length := by
  cases e with
  | options type isOptions units units_lt body => simp [bytes, length, body.2]; omega
  | fragment body => simp [bytes, length, body.2]
  | authentication units units_lt body => simp [bytes, length, body.2]; omega

theorem length_chain (protocol : UInt8) (extensions : List Extension) :
    (chain protocol extensions).length = (extensions.map length).sum := by
  induction extensions with
  | nil => rfl
  | cons e rest ih => simp [chain, length_bytes, ih]

theorem length_le_sum (extensions : List Extension) : extensions.length ≤ (extensions.map length).sum := by
  induction extensions with
  | nil => exact Nat.zero_le _
  | cons e rest ih =>
    have he : 0 < e.length := by cases e <;> simp [length]
    simp only [List.length_cons, List.map_cons, List.sum_cons]
    omega

theorem v6Extension_bytes (e : Extension) (next : UInt8) (rest : Bytes) :
    v6Extension e.type.toNat (e.bytes next ++ rest) = some (e.length, next.toNat) := by
  have hat : At (e.bytes next ++ rest) 0 (e.bytes next) := ⟨[], rest, rfl, rfl⟩
  have hlen : (e.bytes next ++ rest).length = e.length + rest.length := by
    rw [List.length_append, length_bytes]
  generalize e.bytes next ++ rest = w at *
  cases e with
  | options type isOptions units units_lt body =>
    have h0 := hat.u8
    have h1 := (at_cons.mp hat).2.u8
    simp only [List.mem_cons, List.not_mem_nil, or_false] at isOptions
    rw [toNat_ofNat, Nat.mod_eq_of_lt units_lt, Nat.zero_add] at h1
    change List.length w = 8 + 8 * units + rest.length at hlen
    show v6Extension type.toNat w = some (8 + 8 * units, next.toNat)
    unfold v6Extension
    rw [if_pos isOptions, h0, h1, if_neg (by omega), show (units + 1) * 8 = 8 + 8 * units by omega]
  | fragment body =>
    have h0 := hat.u8
    change List.length w = 8 + rest.length at hlen
    show v6Extension 44 w = some (8, next.toNat)
    unfold v6Extension
    rw [if_neg (by decide), if_pos rfl, h0, if_neg (by omega)]
  | authentication units units_lt body =>
    have h0 := hat.u8
    have h1 := (at_cons.mp hat).2.u8
    rw [toNat_ofNat, Nat.mod_eq_of_lt units_lt, Nat.zero_add] at h1
    change List.length w = 8 + 4 * units + rest.length at hlen
    show v6Extension 51 w = some (8 + 4 * units, next.toNat)
    unfold v6Extension
    rw [if_neg (by decide), if_neg (by decide), if_pos rfl, h0, h1, if_neg (by omega),
      show (units + 2) * 4 = 8 + 4 * units by omega]

/-- The walk passes the whole chain. -/
theorem v6Chain_chain {protocol : UInt8} {payload : Bytes} (hp : v6Extension protocol.toNat payload = none) :
    ∀ {extensions : List Extension} {n : ℕ}, extensions.length < n →
    v6Chain n (first protocol extensions).toNat (chain protocol extensions ++ payload) =
      (protocol.toNat, (extensions.map length).sum) := by
  intro extensions
  induction extensions with
  | nil =>
    intro n hn
    obtain ⟨n, rfl⟩ : ∃ m, n = m + 1 := ⟨n - 1, by omega⟩
    rw [chain, List.nil_append, first, v6Chain, hp]
    rfl
  | cons e rest ih =>
    intro n hn
    obtain ⟨n, rfl⟩ : ∃ m, n = m + 1 := ⟨n - 1, by omega⟩
    have hdrop : (e.bytes (first protocol rest) ++ (chain protocol rest ++ payload)).drop e.length =
        chain protocol rest ++ payload := List.drop_left' (e.length_bytes _)
    have hfirst : first protocol (e :: rest) = e.type := rfl
    rw [chain, List.append_assoc, v6Chain, hfirst, v6Extension_bytes]
    dsimp only
    rw [hdrop, ih (by simpa using hn)]
    rfl

end Extension

/-! ### IP headers and what follows the packet -/

/-- An IP header with its extension headers. `trailer` is what stands behind the
packet's end. -/
structure IPCover where
  header : IPHeader
  extensions : List Extension
  noExtensions : header.etherType = kEthIPv4 → extensions = []
  trailer : Bytes

namespace IPCover

def etherType (c : IPCover) : ℕ := c.header.etherType

def addresses (sys : Platform) (c : IPCover) : String × String := c.header.addresses sys

def length (c : IPCover) : ℕ := c.header.length + (c.extensions.map Extension.length).sum

/-- The length field has room for the payload. -/
def Room (n : ℕ) (c : IPCover) : Prop := c.header.Room ((c.extensions.map Extension.length).sum + n)

instance (n : ℕ) (c : IPCover) : Decidable (c.Room n) := inferInstanceAs (Decidable (c.header.Room _))

/-- The packet around `payload`. -/
def wrap (protocol : UInt8) (payload : Bytes) (c : IPCover) : Bytes :=
  let content := Extension.chain protocol c.extensions ++ payload
  c.header.bytes (Extension.first protocol c.extensions) content.length ++ content ++ c.trailer

theorem etherType_cases (c : IPCover) : c.etherType = kEthIPv4 ∨ c.etherType = kEthIPv6 :=
  Carrier.etherType_cases c.header

theorem versionAt_wrap (c : IPCover) (protocol : UInt8) (payload : Bytes) :
    versionAt (c.wrap protocol payload) 0 = some c.etherType := by
  rw [wrap, List.append_assoc]
  exact IPHeader.versionAt_bytes ..

theorem at_wrap (c : IPCover) (protocol : UInt8) (payload : Bytes) : At (c.wrap protocol payload) c.length payload := by
  refine ⟨c.header.bytes (Extension.first protocol c.extensions)
    (Extension.chain protocol c.extensions ++ payload).length ++ Extension.chain protocol c.extensions, c.trailer, ?_,
      ?_⟩
  · simp [wrap]
  · rw [List.length_append, IPHeader.length_bytes, Extension.length_chain, length]

/-- The layer of the packet is its transport layer under the addresses. -/
theorem layer_wrap (sys : Platform) (c : IPCover) (protocol : UInt8) {payload : Bytes}
    (hp : v6Extension protocol.toNat payload = none) (hroom : c.Room payload.length) :
    layer sys (c.wrap protocol payload) c.etherType =
      { transportLayer payload protocol.toNat with
        addresses := some (c.addresses sys), origin := c.length } := by
  obtain ⟨header, extensions, noExtensions, trailer⟩ := c
  cases header with
  | v4 h =>
    obtain rfl : extensions = [] := noExtensions rfl
    have hroom : (IPHeader.v4 h).Room payload.length := by simpa [Room] using hroom
    exact IPHeader.layer_bytes sys (.v4 h) protocol trailer hp hroom
  | v6 h =>
    have hlen : (Extension.chain protocol extensions ++ payload).length =
        (extensions.map Extension.length).sum + payload.length := by
      rw [List.length_append, Extension.length_chain]
    have hroom : (extensions.map Extension.length).sum + payload.length < 65536 := hroom
    have hcount := Extension.length_le_sum extensions
    have hchain := @Extension.v6Chain_chain protocol payload hp extensions
      (40 + (Extension.chain protocol extensions ++ payload).length) (by omega)
    have hdrop : (Extension.chain protocol extensions ++ payload).drop (extensions.map Extension.length).sum =
        payload := List.drop_left' (Extension.length_chain protocol extensions)
    have hlayer := IPHeader.layer_v6 sys h (Extension.first protocol extensions) trailer hchain (by omega)
    rw [hdrop] at hlayer
    exact hlayer

end IPCover

/-! ### Tunnels over IP -/

/-- `u` is nothing but a tunnel `name` with the layer of `etherType` in `b`,
`offset` bytes on; its label only replaces a protocol that is not known. -/
def Upper.Leads (u : Upper) (name : String) (offset : ℕ) (b : Bytes) (etherType : ℕ) : Prop :=
  ∃ t : Tunnel, u = { tunnel := some t } ∧ t.name = some name ∧ t.inner = some ⟨offset, b, etherType⟩ ∧
    ∀ protocol ∈ t.placeholder, protocol = "" ∨ protocol = "Unknown"

/-- The length of the optional fields of a GRE header: checksum, key, sequence number. -/
def greFields (flags : ℕ) : ℕ :=
  (if flags &&& 0x8000 ≠ 0 then 4 else 0) + (if flags &&& 0x2000 ≠ 0 then 4 else 0)
    + (if flags &&& 0x1000 ≠ 0 then 4 else 0)

/-- A GRE header of version 0, but for the protocol type. -/
structure GreHeader where
  flags : ℕ
  flags_lt : flags < 65536
  version : flags &&& 0x0007 = 0
  fields : Block (greFields flags)

namespace GreHeader

def length (h : GreHeader) : ℕ := 4 + greFields h.flags

def bytes (type : ℕ) (h : GreHeader) : Bytes := be16 h.flags ++ (be16 type ++ h.fields.1)

variable (h : GreHeader) {type : ℕ} (b : Bytes)

theorem length_bytes : (h.bytes type).length = h.length := by
  simp only [bytes, length, List.length_append, length_be16, h.fields.2]
  omega

/-- The header is read whole, with its type and what follows. -/
theorem greHeaderLen_bytes (ht : type < 65536) :
    greHeaderLen (h.bytes type ++ b) = some h.length ∧ u16 (h.bytes type ++ b) 2 = type ∧
      (h.bytes type ++ b).drop h.length = b := by
  have hat : At (h.bytes type ++ b) 0 (h.bytes type) := ⟨[], b, rfl, rfl⟩
  have hlen : (h.bytes type ++ b).length = h.length + b.length := by
    rw [List.length_append, length_bytes]
  have hdrop : (h.bytes type ++ b).drop h.length = b := List.drop_left' h.length_bytes
  obtain ⟨hflags, hat⟩ := at_append.mp hat
  have htype := (at_append.mp hat).1.u16 ht
  have hflags := hflags.u16 h.flags_lt
  rw [length_be16, Nat.zero_add] at htype
  refine ⟨?_, htype, hdrop⟩
  have hlength : 4 + (if h.flags &&& 0x8000 ≠ 0 then 4 else 0) + (if h.flags &&& 0x2000 ≠ 0 then 4 else 0)
      + (if h.flags &&& 0x1000 ≠ 0 then 4 else 0) = h.length := by
    rw [length, greFields]
    omega
  have hfour : 4 ≤ h.length := Nat.le_add_right ..
  have hversion : ¬ h.flags &&& 0x0007 ≠ 0 := fun hne => hne h.version
  unfold greHeaderLen
  dsimp only
  rw [hflags, hlength, if_neg]
  rintro (hc | hc | hc)
  · omega
  · exact hversion hc
  · omega

end GreHeader

/-- An Ethernet header, but for the EtherType. -/
structure EthernetHeader where
  addresses : Block 12
  tags : List VlanTag

namespace EthernetHeader

def length (h : EthernetHeader) : ℕ := 14 + 4 * h.tags.length

def bytes (etherType : ℕ) (h : EthernetHeader) : Bytes :=
  h.addresses.1 ++ h.tags.flatMap VlanTag.bytes ++ be16 etherType

theorem length_bytes (h : EthernetHeader) (etherType : ℕ) : (h.bytes etherType).length = h.length := by
  simp only [bytes, length, List.length_append, length_tags, length_be16, h.addresses.2]
  omega

theorem ethernet_bytes (h : EthernetHeader) {etherType : ℕ} (htag : ¬ isVlanTag etherType)
    (hlt : etherType < 65536) (b : Bytes) : ethernet (h.bytes etherType ++ b) = some (h.length, etherType) := by
  have hlink : linkLayer (h.bytes etherType ++ b) .Ethernet = some ((h.bytes etherType).length, etherType) :=
    (LinkHeader.ethernet h.addresses h.tags).linkLayer_eq htag hlt fun hraw => by cases hraw
  rw [← h.length_bytes etherType]
  exact hlink

end EthernetHeader

/-- The tunnels directly over IP. -/
inductive OverIP
  | ipInIp
  | sixIn4
  | gre (h : GreHeader)
  | greBridged (h : GreHeader) (frame : EthernetHeader)

namespace OverIP

def protocol : OverIP → UInt8
  | ipInIp => 4
  | sixIn4 => 41
  | gre _ => 47
  | greBridged .. => 47

def name : OverIP → String
  | ipInIp => "IP-in-IP"
  | sixIn4 => "6in4"
  | gre _ => "GRE"
  | greBridged .. => "GRE"

def length : OverIP → ℕ
  | ipInIp => 0
  | sixIn4 => 0
  | gre h => h.length
  | greBridged h frame => h.length + frame.length

def bytes (etherType : ℕ) : OverIP → Bytes
  | ipInIp => []
  | sixIn4 => []
  | gre h => h.bytes etherType
  | greBridged h frame => h.bytes kEthTrBridge ++ frame.bytes etherType

/-- What the tunnel can bear. -/
def Bears (etherType : ℕ) : OverIP → Prop
  | ipInIp => etherType = kEthIPv4
  | sixIn4 => etherType = kEthIPv6
  | gre _ => etherType = kEthIPv4 ∨ etherType = kEthIPv6
  | greBridged .. => ¬ isVlanTag etherType ∧ etherType < 65536

instance (etherType : ℕ) : ∀ t : OverIP, Decidable (t.Bears etherType)
  | ipInIp => inferInstanceAs (Decidable (_ = _))
  | sixIn4 => inferInstanceAs (Decidable (_ = _))
  | gre _ => inferInstanceAs (Decidable (_ ∨ _))
  | greBridged .. => inferInstanceAs (Decidable (_ ∧ _))

variable (t : OverIP) {etherType : ℕ} (b : Bytes)

theorem length_bytes : (t.bytes etherType).length = t.length := by
  cases t with
  | ipInIp => rfl
  | sixIn4 => rfl
  | gre h => exact h.length_bytes
  | greBridged h frame => rw [bytes, List.length_append, h.length_bytes, frame.length_bytes, length]

theorem v6Extension_protocol (w : Bytes) : v6Extension t.protocol.toNat w = none := by
  cases t <;> rfl

theorem leads (h : t.Bears etherType) :
    (transportLayer (t.bytes etherType ++ b) t.protocol.toNat).Leads t.name t.length b etherType := by
  cases t with
  | ipInIp =>
    obtain rfl : etherType = kEthIPv4 := h
    exact ⟨ProtocolParser.ipInIp "IP-in-IP" 4 kEthIPv4 b, rfl, rfl, rfl, by simp [ProtocolParser.ipInIp]⟩
  | sixIn4 =>
    obtain rfl : etherType = kEthIPv6 := h
    exact ⟨ProtocolParser.ipInIp "6in4" 41 kEthIPv6 b, rfl, rfl, rfl, by simp [ProtocolParser.ipInIp]⟩
  | gre header =>
    have hbare : etherType ≠ kEthTrBridge := by rcases h with rfl | rfl <;> decide
    have hlt : etherType < 65536 := by rcases h with rfl | rfl <;> decide
    obtain ⟨hheader, htype, hdrop⟩ := header.greHeaderLen_bytes b hlt
    refine ⟨ProtocolParser.gre (header.bytes etherType ++ b), rfl, ?_, ?_, by simp [ProtocolParser.gre]⟩
    · simp [ProtocolParser.gre, hheader, name]
    · have hip : etherType = kEthIPv4 ∨ etherType = kEthIPv6 := h
      simp only [ProtocolParser.gre, hheader, Option.bind_some, htype]
      rw [innerType, if_neg hbare, if_pos hip, hdrop]
      rfl
  | greBridged header frame =>
    obtain ⟨hheader, htype, hdrop⟩ := header.greHeaderLen_bytes (frame.bytes etherType ++ b)
      (show kEthTrBridge < 65536 by decide)
    have hframe := frame.ethernet_bytes h.1 h.2 b
    refine ⟨ProtocolParser.gre (header.bytes kEthTrBridge ++ (frame.bytes etherType ++ b)), ?_, ?_, ?_,
      by simp [ProtocolParser.gre]⟩
    · rw [bytes, List.append_assoc]
      rfl
    · simp [ProtocolParser.gre, hheader, name]
    · simp only [ProtocolParser.gre, hheader, Option.bind_some, htype]
      rw [innerType, if_pos rfl, innerEthernet, hdrop, hframe, Option.map_some, ← List.drop_drop, hdrop,
        List.drop_left' (frame.length_bytes etherType)]
      rfl

end OverIP

/-! ### Tunnels over Ethernet -/

theorem versionAt_append (pre b : Bytes) : versionAt (pre ++ b) pre.length = versionAt b 0 := by
  have hu8 : u8 (pre ++ b) pre.length = u8 b 0 := by
    simp only [u8, List.getD_eq_getElem?_getD]
    rw [List.getElem?_append_right le_rfl, Nat.sub_self]
  have hlen : (pre ++ b).length ≤ pre.length ↔ b.length ≤ 0 := by
    rw [List.length_append]
    omega
  unfold versionAt
  rw [hu8]
  simp only [hlen]

/-- An MPLS label that is not the last one of its stack. -/
abbrev MplsLabel := { label : Block 4 // u8 label.1 2 &&& 0x01 = 0 }

/-- The label at the bottom of a stack. -/
abbrev MplsBottom := { label : Block 4 // u8 label.1 2 &&& 0x01 ≠ 0 }

def mplsStack (labels : List MplsLabel) (bottom : MplsBottom) : Bytes :=
  labels.flatMap (fun label => label.1.1) ++ bottom.1.1

theorem length_mplsStack (labels : List MplsLabel) (bottom : MplsBottom) :
    (mplsStack labels bottom).length = 4 * labels.length + 4 := by
  have hlabels : (labels.flatMap fun label => label.1.1).length = 4 * labels.length := by
    induction labels with
    | nil => rfl
    | cons label rest ih =>
      simp only [List.flatMap_cons, List.length_append, List.length_cons, label.1.2, ih]
      omega
  rw [mplsStack, List.length_append, hlabels, bottom.1.2]

/-- The labels are passed one by one down to the bottom one. -/
theorem mplsInner_mplsStack {b : Bytes} {etherType : ℕ} (hv : versionAt b 0 = some etherType)
    (bottom : MplsBottom) : ∀ {labels : List MplsLabel} {pre : Bytes} {n : ℕ}, labels.length < n →
    mplsInner (pre ++ (mplsStack labels bottom ++ b)) n pre.length =
      some ⟨pre.length + (4 * labels.length + 4), b, etherType⟩ := by
  have hthird : ∀ (label : Block 4) (pre rest : Bytes),
      u8 (pre ++ (label.1 ++ rest)) (pre.length + 2) = u8 label.1 2 := by
    intro label pre rest
    have hlen := label.2
    simp only [u8, List.getD_eq_getElem?_getD]
    rw [List.getElem?_append_right (by omega), Nat.add_sub_cancel_left, List.getElem?_append_left (by omega)]
  intro labels
  induction labels with
  | nil =>
    intro pre n hn
    obtain ⟨n, rfl⟩ : ∃ m, n = m + 1 := ⟨n - 1, by omega⟩
    have hstack : mplsStack [] bottom = bottom.1.1 := rfl
    have hlen : (pre ++ bottom.1.1).length = pre.length + 4 := by rw [List.length_append, bottom.1.2]
    have hinner : versionAt (pre ++ (bottom.1.1 ++ b)) (pre.length + 4) = some etherType := by
      rw [← List.append_assoc, ← hlen, versionAt_append, hv]
    have hdrop : (pre ++ (bottom.1.1 ++ b)).drop (pre.length + 4) = b := by
      rw [← List.append_assoc]
      exact List.drop_left' hlen
    rw [hstack, mplsInner, hthird, if_neg, if_neg bottom.2, hinner, Option.map_some, hdrop]
    · rfl
    · simp only [List.length_append, bottom.1.2]
      omega
  | cons label rest ih =>
    intro pre n hn
    obtain ⟨n, rfl⟩ : ∃ m, n = m + 1 := ⟨n - 1, by omega⟩
    have hsplit : mplsStack (label :: rest) bottom ++ b = label.1.1 ++ (mplsStack rest bottom ++ b) := by
      simp [mplsStack]
    have hlen : (pre ++ label.1.1).length = pre.length + 4 := by rw [List.length_append, label.1.2]
    have hih := @ih (pre ++ label.1.1) n (by simpa using hn)
    rw [hlen, List.append_assoc] at hih
    rw [hsplit, mplsInner, hthird, if_neg, if_pos label.2, hih, List.length_cons]
    · congr 2
      omega
    · simp only [List.length_append, label.1.2]
      omega

/-- The PPP protocol id of an IP packet. -/
def pppProtocol (etherType : ℕ) : ℕ := if etherType = kEthIPv4 then 0x0021 else 0x0057

/-- A PPPoE session header around `b`: `head` is version, type, code and session. -/
def pppoeBytes (head : Block 4) (etherType : ℕ) (b : Bytes) : Bytes :=
  head.1 ++ (be16 (2 + b.length) ++ (be16 (pppProtocol etherType) ++ b))

theorem pppoeInner_pppoeBytes (head : Block 4) {etherType : ℕ} (h : etherType = kEthIPv4 ∨ etherType = kEthIPv6)
    (b : Bytes) : pppoeInner (pppoeBytes head etherType b) = some ⟨8, b, etherType⟩ := by
  have hat : At (pppoeBytes head etherType b) 0 (pppoeBytes head etherType b) := At.refl _
  obtain ⟨-, hat⟩ := at_append.mp hat
  obtain ⟨-, hat⟩ := at_append.mp hat
  obtain ⟨hppp, hb⟩ := at_append.mp hat
  simp only [head.2, length_be16, Nat.zero_add, Nat.reduceAdd] at hppp hb
  have hlt : pppProtocol etherType < 65536 := by rcases h with rfl | rfl <;> decide
  have hppp := hppp.u16 hlt
  have hlen := hb.le
  have hdrop : (pppoeBytes head etherType b).drop 8 = b := by
    have hsplit : pppoeBytes head etherType b =
        (head.1 ++ (be16 (2 + b.length) ++ be16 (pppProtocol etherType))) ++ b := by simp [pppoeBytes]
    rw [hsplit]
    refine List.drop_left' ?_
    simp only [List.length_append, head.2, length_be16]
  unfold pppoeInner
  rw [if_neg (by omega), hppp, hdrop]
  rcases h with rfl | rfl <;> rfl

/-! ### Stacks -/

/-- One carrier: a tunnel over IP, MPLS of up to eight labels, or a PPPoE session. -/
inductive Encapsulation
  | overIP (ip : IPCover) (tunnel : OverIP)
  | mpls (multicast : Bool) (labels : List MplsLabel) (labels_le : labels.length ≤ 7) (bottom : MplsBottom)
  | pppoe (head : Block 4)

namespace Encapsulation

/-- What the carrier itself is announced as. -/
def etherType : Encapsulation → ℕ
  | overIP ip _ => ip.etherType
  | mpls multicast .. => if multicast then kEthMplsMul else kEthMplsUni
  | pppoe _ => kEthPppoeSess

def name : Encapsulation → String
  | overIP _ tunnel => tunnel.name
  | mpls .. => "MPLS"
  | pppoe _ => "PPPoE"

/-- The addresses of its IP header. -/
def addresses (sys : Platform) : Encapsulation → Option (String × String)
  | overIP ip _ => some (ip.addresses sys)
  | mpls .. => none
  | pppoe _ => none

/-- The bytes ahead of what it carries. -/
def length : Encapsulation → ℕ
  | overIP ip tunnel => ip.length + tunnel.length
  | mpls _ labels _ _ => 4 * labels.length + 4
  | pppoe _ => 8

/-- The carrier around `b`, a layer of `etherType`. -/
def wrap (etherType : ℕ) (b : Bytes) : Encapsulation → Bytes
  | overIP ip tunnel => ip.wrap tunnel.protocol (tunnel.bytes etherType ++ b)
  | mpls _ labels _ bottom => mplsStack labels bottom ++ b
  | pppoe head => pppoeBytes head etherType b

/-- The carrier can announce `b`, and its length field has room for it. Under an
MPLS stack nothing announces the packet but its own version nibble. -/
def Bears (etherType : ℕ) (b : Bytes) : Encapsulation → Prop
  | overIP ip tunnel => tunnel.Bears etherType ∧ ip.Room (tunnel.length + b.length)
  | mpls .. => versionAt b 0 = some etherType
  | pppoe _ => etherType = kEthIPv4 ∨ etherType = kEthIPv6

instance (etherType : ℕ) (b : Bytes) : ∀ c : Encapsulation, Decidable (c.Bears etherType b)
  | overIP .. => inferInstanceAs (Decidable (_ ∧ _))
  | mpls .. => inferInstanceAs (Decidable (_ = _))
  | pppoe _ => inferInstanceAs (Decidable (_ ∨ _))

variable (c : Encapsulation) {etherType : ℕ} {b : Bytes}

theorem at_wrap : At (c.wrap etherType b) c.length b := by
  cases c with
  | overIP ip tunnel =>
    have hb : At (tunnel.bytes etherType ++ b) tunnel.length b :=
      ⟨tunnel.bytes etherType, [], by simp, tunnel.length_bytes⟩
    exact (ip.at_wrap tunnel.protocol _).trans hb
  | mpls multicast labels labels_le bottom =>
    exact ⟨mplsStack labels bottom, [], by simp [wrap], length_mplsStack labels bottom⟩
  | pppoe head =>
    refine ⟨head.1 ++ (be16 (2 + b.length) ++ be16 (pppProtocol etherType)), [], by simp [wrap, pppoeBytes], ?_⟩
    simp only [List.length_append, head.2, length_be16]
    rfl

/-- A carrier is one layer: its addresses, and under them a tunnel. -/
theorem leads_wrap (sys : Platform) (h : c.Bears etherType b) :
    ∃ origin offset, origin + offset = c.length ∧
      (layer sys (c.wrap etherType b) c.etherType).origin = origin ∧
      (layer sys (c.wrap etherType b) c.etherType).addresses = c.addresses sys ∧
      (layer sys (c.wrap etherType b) c.etherType).toUpper.Leads c.name offset b etherType := by
  cases c with
  | overIP ip tunnel =>
    have hroom : ip.Room (tunnel.bytes etherType ++ b).length := by
      rw [List.length_append, tunnel.length_bytes]
      exact h.2
    refine ⟨ip.length, tunnel.length, rfl, ?_⟩
    simp only [wrap, Encapsulation.etherType]
    rw [ip.layer_wrap sys tunnel.protocol (tunnel.v6Extension_protocol _) hroom]
    exact ⟨rfl, rfl, tunnel.leads b h.1⟩
  | mpls multicast labels labels_le bottom =>
    have hinner := @mplsInner_mplsStack b etherType h bottom labels [] 8 (by omega)
    rw [List.nil_append, List.length_nil, Nat.zero_add] at hinner
    have hlayer : layer sys ((Encapsulation.mpls multicast labels labels_le bottom).wrap etherType b)
        (Encapsulation.mpls multicast labels labels_le bottom).etherType =
        { tunnel := some (ProtocolParser.mpls (mplsStack labels bottom ++ b)) } := by
      cases multicast <;> rfl
    refine ⟨0, 4 * labels.length + 4, Nat.zero_add _, ?_⟩
    rw [hlayer]
    refine ⟨rfl, rfl, _, rfl, ?_, ?_, by simp [ProtocolParser.mpls]⟩
    · simp [ProtocolParser.mpls, hinner, name]
    · exact hinner
  | pppoe head =>
    have hinner := pppoeInner_pppoeBytes head h b
    have hlayer : layer sys ((Encapsulation.pppoe head).wrap etherType b) (Encapsulation.pppoe head).etherType =
        { tunnel := some (ProtocolParser.pppoe (pppoeBytes head etherType b)) } := rfl
    refine ⟨0, 8, rfl, ?_⟩
    rw [hlayer]
    refine ⟨rfl, rfl, _, rfl, ?_, ?_, by simp [ProtocolParser.pppoe]⟩
    · simp [ProtocolParser.pppoe, hinner, name]
    · exact hinner

end Encapsulation

/-- The packet, an EtherType and its bytes, in a stack of carriers, outermost first. -/
def nest (packet : ℕ × Bytes) : List Encapsulation → ℕ × Bytes
  | [] => packet
  | c :: stack => (c.etherType, c.wrap (nest packet stack).1 (nest packet stack).2)

/-- Every carrier of the stack can bear what is inside it. -/
def Bears (packet : ℕ × Bytes) : List Encapsulation → Prop
  | [] => True
  | c :: stack => c.Bears (nest packet stack).1 (nest packet stack).2 ∧ Bears packet stack

instance decidableBears (packet : ℕ × Bytes) : ∀ stack : List Encapsulation, Decidable (Bears packet stack)
  | [] => inferInstanceAs (Decidable True)
  | _ :: stack =>
    have := decidableBears packet stack
    inferInstanceAs (Decidable (_ ∧ _))

/-- The bytes ahead of the packet. -/
def headersLength (stack : List Encapsulation) : ℕ := (stack.map Encapsulation.length).sum

theorem at_nest (packet : ℕ × Bytes) : ∀ stack : List Encapsulation,
    At (nest packet stack).2 (headersLength stack) packet.2
  | [] => At.refl _
  | c :: stack => by
    have hinner := at_nest packet stack
    rw [headersLength, List.map_cons, List.sum_cons]
    exact c.at_wrap.trans hinner

/-- No layer of a stack is announced as a VLAN tag. -/
theorem etherType_nest {packet : ℕ × Bytes} (hp : packet.1 = kEthIPv4 ∨ packet.1 = kEthIPv6)
    (stack : List Encapsulation) : ¬ isVlanTag (nest packet stack).1 ∧ (nest packet stack).1 < 65536 := by
  have hip : ∀ e, e = kEthIPv4 ∨ e = kEthIPv6 → ¬ isVlanTag e ∧ e < 65536 := by
    rintro e (rfl | rfl) <;> decide
  cases stack with
  | nil => exact hip _ hp
  | cons c stack =>
    have hmpls : ∀ multicast : Bool, ¬ isVlanTag (if multicast then kEthMplsMul else kEthMplsUni) ∧
        (if multicast then kEthMplsMul else kEthMplsUni) < 65536 := by decide
    have hpppoe : ¬ isVlanTag kEthPppoeSess ∧ kEthPppoeSess < 65536 := by decide
    cases c with
    | overIP ip tunnel => exact hip _ ip.etherType_cases
    | mpls multicast labels labels_le bottom => exact hmpls multicast
    | pppoe head => exact hpppoe

end ProtocolParser
end NetProbe
