/-
# The same packet elsewhere in a frame

A packet is decoded alike under every link header (`parse_linkHeader`), behind
any chain of IPv6 extension headers (`parse_extensions`) and in front of any
link padding (`parse_padded`): every position is counted from the start of its
layer and every window ends where the length field of the enclosing packet says.

Key definitions: `moveTo`, `firstIP`, `Whole`.
Key theorems: `parse_moved`, `parse_linkHeader`, `parse_extensions`, `parse_padded`.
-/
import NetProbe.Nesting

namespace NetProbe
namespace ProtocolParser

open Checked Bytes Wire

/-- `p` as it is reported of `frame`, where the payload lies `d` bytes further on. -/
def moveTo (frame : PacketData) (d : ℕ) (p : ParsedPacket) : ParsedPacket :=
  { p with
    timestamp := frame.timestamp, length := frame.length
    payloadOffset := if p.payloadLength = 0 then p.payloadOffset else p.payloadOffset + d }

/-- `p` is `q`, decoded `d` bytes further on in `frame`. -/
def Moved (frame : PacketData) (d : ℕ) (p q : ParsedPacket) : Prop := p = moveTo frame d q

section Moved

variable {frame : PacketData} {d base : ℕ} {p q : ParsedPacket}

theorem moveTo_moveTo (inner : PacketData) (k : ℕ) : moveTo frame d (moveTo inner k p) = moveTo frame (k + d) p := by
  unfold moveTo
  by_cases h : p.payloadLength = 0
  · simp [h]
  · simp [h, Nat.add_assoc]

theorem Moved.apply {u : Upper} {n : ℕ} (hu : u.WellFormed n) (h : Moved frame d p q) :
    Moved frame d (u.report.apply (base + d) p) (u.report.apply base q) := by
  obtain rfl : p = moveTo frame d q := h
  obtain ⟨⟨protocol, ports, tcp, service, encryptedTunnel⟩, tunnel⟩ := u
  rcases ports with _ | ⟨src, dst, _ | ⟨offset, length⟩⟩
  · cases tcp <;> rfl
  · cases tcp <;> rfl
  · have hpos : length ≠ 0 := (hu.payload _ rfl _ rfl).1.ne'
    cases tcp <;> simp [Moved, moveTo, Report.apply, Ports.apply, TcpFields.apply, hpos, Nat.add_right_comm]

theorem moved_preserved (frame : PacketData) (size d : ℕ) : Preserved size d (Moved frame d) (Moved frame d) where
  stop h := h
  addresses a h := by
    obtain rfl := h
    cases a <;> rfl
  through hu _ _ h := h.apply hu
  last hu _ h := h.apply hu
  push name h := by
    obtain rfl := h
    unfold Moved moveTo pushTunnel
    dsimp only
    split_ifs <;> rfl
  settle _ h := by
    obtain rfl := h
    unfold Moved moveTo Tunnel.settle
    dsimp only
    split_ifs <;> rfl

theorem moved_blank (frame inner : PacketData) (d : ℕ) : Moved frame d (blank frame) (blank inner) := rfl

end Moved

section

variable {sys : Platform} {inner outer : PacketData} {network network' : ℕ × ℕ} {d : ℕ}

/-- Frames decoded alike, `d` bytes apart, to the same payload bytes are parsed alike. -/
theorem parse_moved (hb : inner.payload ≠ []) (hbo : outer.payload ≠ [])
    (hn : linkLayer inner.payload inner.linkType = some network)
    (hno : linkLayer outer.payload outer.linkType = some network')
    (h : Moved outer d (decoded sys outer network') (decoded sys inner network))
    (hslice : ∀ n, (decoded sys inner network).payloadLength = n → n ≠ 0 →
      slice outer.payload ((decoded sys inner network).payloadOffset + d) n =
        slice inner.payload (decoded sys inner network).payloadOffset n) :
    parse sys outer = moveTo outer d <$> parse sys inner := by
  obtain ⟨r, hr, -⟩ := parse_fits sys inner
  obtain ⟨q, -, rfl, hen⟩ := enriches_of_parse hb hn hr
  unfold Moved at h
  have hrecast := parse_recast hb hbo hn hno hr (by rw [h]; rfl) (fun hz => by
    rw [h, ← hslice _ rfl hz, moveTo]
    dsimp only
    rw [if_neg hz])
  rw [hrecast, hr, map_ok, h]
  unfold Enriches at hen
  rw [hen]
  rfl

/-! ### Link headers -/

/-- **The link layer does not change what is decoded.** A packet is reported
under any header of any link type as on its own, the payload further on by the
length of the header. -/
theorem parse_linkHeader {b header : Bytes} {etherType : ℕ} {link : LinkType} (hv : versionAt b 0 = some etherType)
    (hlink : LinkHeader etherType link header) (hi : inner.linkType = .RawIP ∧ inner.payload = b)
    (ho : outer.linkType = link ∧ outer.payload = header ++ b) :
    parse sys outer = moveTo outer header.length <$> parse sys inner := by
  obtain ⟨hil, rfl⟩ := hi
  obtain ⟨rfl, ho⟩ := ho
  have hn : linkLayer inner.payload inner.linkType = some (0, etherType) := by
    rw [hil]
    exact Option.map_eq_some_iff.mpr ⟨etherType, hv, rfl⟩
  have hip : etherType = kEthIPv4 ∨ etherType = kEthIPv6 := by
    obtain ⟨hpair, -⟩ := linkLayer_bare (hil ▸ hn)
    obtain rfl : etherType = (bare inner.payload).1 := congrArg Prod.snd hpair
    exact bare_ip inner.payload
  have hb : inner.payload ≠ [] := by
    intro he
    rw [he] at hv
    cases hv
  have hno : linkLayer outer.payload outer.linkType = some (header.length, etherType) := by
    rw [ho]
    exact hlink.linkLayer_append hip hv
  have hat : At outer.payload header.length inner.payload := ⟨header, [], by simp [ho], rfl⟩
  refine parse_moved hb (hat.ne_nil hb) hn hno ?_ fun n hlen hz => ?_
  · have hdescend := @descend_preserved sys _ _ _ _ (moved_preserved outer inner.payload.length header.length)
      (kMaxTunnelDepth + 1) 0 etherType inner.payload _ _ (Nat.zero_add _).le (moved_blank outer inner _)
    rw [Nat.zero_add] at hdescend
    rw [decoded, ho, List.drop_left]
    exact hdescend
  · have hfits := (decoded_fits sys hn).resolve_left (hlen ▸ hz)
    exact slice_at hat (hlen ▸ hfits)

/-! ### IPv6 extension headers -/

/-- An upper-layer header and what is under it, decoded at the start of a frame. -/
def upperAlone (sys : Platform) (u : Upper) (addresses : String × String) (frame : PacketData) : ParsedPacket :=
  u.decode (descend sys kMaxTunnelDepth) true 0 (setAddresses (some addresses) (blank frame))

theorem upperAlone_fits {u : Upper} {n : ℕ} (hu : u.WellFormed n) (a : String × String) (frame : PacketData) :
    Fits n (upperAlone sys u a frame) :=
  @upper_preserved _ _ _ _ (fits_preserved n) (descend sys kMaxTunnelDepth) true
    (fun hbase hq => @descend_preserved sys _ _ _ _ (fits_preserved n) _ _ _ _ {} _ hbase hq) u n 0 {} _ hu
    (Nat.zero_add n).le (.inl rfl)

/-- What is under an IP header is decoded the same wherever it stands. -/
theorem decoded_cover {header payload : Bytes} {protocol : UInt8} {c : IPCover} (frame : PacketData)
    (hp : v6Extension protocol.toNat payload = none) (hroom : c.Room payload.length)
    (ho : outer.payload = header ++ c.wrap protocol payload) :
    decoded sys outer (header.length, c.etherType) = moveTo outer (header.length + c.length)
      (upperAlone sys (transportLayer payload protocol.toNat) (c.addresses sys) frame) := by
  have hmoved := moved_preserved outer payload.length (header.length + c.length)
  have hupper := @upper_preserved _ _ _ _ hmoved (descend sys kMaxTunnelDepth) true (descend_preserved hmoved) _ _ 0 _ _
    (transportLayer_wellFormed payload protocol.toNat) (Nat.zero_add _).le
    (hmoved.addresses (some (c.addresses sys)) (moved_blank outer frame _))
  rw [Nat.zero_add] at hupper
  rw [decoded, ho, List.drop_left, descend, c.layer_wrap sys protocol hp hroom]
  exact hupper

/-- A packet under a link header is found, and what it carries stands in the frame. -/
theorem cover_frame {frame : PacketData} {link : LinkType} {header payload : Bytes} {protocol : UInt8} {c : IPCover}
    (hlink : LinkHeader c.etherType link header)
    (hf : frame.linkType = link ∧ frame.payload = header ++ c.wrap protocol payload) :
    linkLayer frame.payload frame.linkType = some (header.length, c.etherType) ∧ frame.payload ≠ [] ∧
      At frame.payload (header.length + c.length) payload := by
  obtain ⟨rfl, hf⟩ := hf
  have hat : At frame.payload (header.length + c.length) payload :=
    hf ▸ At.trans ⟨header, [], by simp, rfl⟩ (c.at_wrap protocol payload)
  refine ⟨?_, fun he => ?_, hat⟩
  · rw [hf]
    exact hlink.linkLayer_append c.etherType_cases (c.versionAt_wrap protocol payload)
  · have hlen : 0 < c.length := by
      unfold IPCover.length
      cases c.header <;> simp only [IPHeader.length] <;> omega
    have hle := hat.le
    rw [he, List.length_nil] at hle
    omega

/-- The walk over a chain ends inside the packet. -/
theorem walkV6Chain_le {buffer : Bytes} {size fuel nextHeader pos : ℕ} (hsize : size ≤ buffer.length)
    (hpos : pos ≤ size)
    (hfuel : size < pos + fuel) : Safe (walkV6Chain buffer size fuel nextHeader pos) fun e => e.2 ≤ size := by
  have hspan := length_span (i := pos) hsize
  refine .of_eq (walkV6Chain_eq hsize (n := fuel) (by omega) (by omega)) ?_
  have hle := @v6Chain_le fuel nextHeader (span buffer pos size)
  dsimp only
  omega

/-- An IPv6 packet with its extension headers. -/
def IPv6Header.cover (h : IPv6Header) (extensions : List Extension) (trailer : Bytes) : IPCover :=
  ⟨.v6 h, extensions, fun he => absurd he (show kEthIPv6 ≠ kEthIPv4 by decide), trailer⟩

/-- **IPv6 extension headers are transparent.** A packet with a chain of them is
reported as without, the payload further on by the length of the chain, and no
walk over a chain leaves the packet. -/
theorem parse_extensions {h : IPv6Header} {extensions : List Extension} {protocol : UInt8} {link : LinkType}
    {header payload trailer trailer' : Bytes} (hp : protocol.toNat ∉ [0, 43, 44, 51, 60, 135])
    (hroom : (Extension.chain protocol extensions).length + payload.length < 65536)
    (hlink : LinkHeader kEthIPv6 link header)
    (hi : inner.linkType = link ∧ inner.payload = header ++ (h.cover [] trailer).wrap protocol payload)
    (ho : outer.linkType = link ∧ outer.payload = header ++ (h.cover extensions trailer').wrap protocol payload) :
    parse sys outer = moveTo outer (Extension.chain protocol extensions).length <$> parse sys inner ∧
      ∀ (buffer : Bytes) {size fuel nextHeader pos : ℕ}, size ≤ buffer.length → pos ≤ size → size < pos + fuel →
        Safe (walkV6Chain buffer size fuel nextHeader pos) fun e => e.2 ≤ size := by
  refine ⟨?_, fun buffer => walkV6Chain_le⟩
  have hnone := v6Extension_none hp payload
  rw [Extension.length_chain] at hroom ⊢
  have hroom0 : (h.cover [] trailer).Room payload.length := by
    show 0 + payload.length < 65536
    omega
  obtain ⟨hn, hb, hat⟩ := @cover_frame inner link header payload protocol (h.cover [] trailer) hlink hi
  obtain ⟨hno, hbo, hato⟩ := @cover_frame outer link header payload protocol (h.cover extensions trailer') hlink ho
  have hinner := @decoded_cover sys inner header payload protocol (h.cover [] trailer) inner hnone hroom0 hi.2
  have houter := @decoded_cover sys outer header payload protocol (h.cover extensions trailer') inner hnone hroom ho.2
  have hfits := @upperAlone_fits sys _ _ (transportLayer_wellFormed payload protocol.toNat)
    ((h.cover [] trailer).addresses sys) inner
  have hlength : header.length + (h.cover extensions trailer').length =
      header.length + (h.cover [] trailer).length + (extensions.map Extension.length).sum := by
    simp only [IPCover.length, IPv6Header.cover, List.map_nil, List.sum_nil]
    omega
  -- one header and what is under it, at two places
  change decoded sys outer _ = moveTo outer _ (upperAlone sys _ ((h.cover [] trailer).addresses sys) inner) at houter
  rw [hlength] at houter hato
  generalize header.length + (h.cover [] trailer).length = base at *
  generalize upperAlone sys _ _ inner = x at *
  refine parse_moved hb hbo hn hno ?_ fun n hlen hz => ?_
  · rw [houter, hinner]
    exact (moveTo_moveTo inner base).symm
  · rw [hinner] at hlen ⊢
    have hx : x.payloadLength = n := hlen
    have hfits := hfits.resolve_left (hx ▸ hz)
    rw [hx] at hfits
    have hoffset : (moveTo inner base x).payloadOffset = x.payloadOffset + base := if_neg (hx ▸ hz)
    rw [hoffset, Nat.add_assoc, slice_at hato hfits, slice_at hat hfits]

end

namespace Relocated

def tags : List VlanTag := [⟨0x88A8, by decide, ⟨[0, 1], rfl⟩⟩, ⟨0x8100, by decide, ⟨[0, 2], rfl⟩⟩]

/-- The packet under two VLAN tags. -/
def tagged : PacketData :=
  Vxlan.captured (Vxlan.macs ++ tags.flatMap VlanTag.bytes ++ be16 kEthIPv4 ++ Nested.packet) (by decide)

def v6Header : IPv6Header :=
  ⟨2, by decide, ⟨[0, 0, 5], rfl⟩, 64, ⟨List.replicate 16 3, rfl⟩, ⟨List.replicate 16 4, rfl⟩⟩

/-- A destination options header and a fragment header of offset zero. -/
def extensions : List Extension :=
  [.options 60 (by decide) 1 (by decide) ⟨1 :: 12 :: List.replicate 12 0, rfl⟩, .fragment ⟨[0, 0, 1, 0, 0, 0, 7], rfl⟩]

def ntpDatagram : Bytes := udpDatagram 41000 123 ⟨[0x12, 0x34], rfl⟩ [0x23]

def framed (extensions : List Extension) (h : ((v6Header.cover extensions []).wrap 17 ntpDatagram).length < 2 ^ 63) :
    PacketData :=
  { Vxlan.captured ((v6Header.cover extensions []).wrap 17 ntpDatagram) h with linkType := .RawIP }

end Relocated

open Relocated

theorem parse_linkHeader_tagged : parse Nested.sys tagged = moveTo tagged 22 <$> parse Nested.sys Nested.inner :=
  @parse_linkHeader Nested.sys Nested.inner tagged Nested.packet _ kEthIPv4 .Ethernet (by decide)
    (.ethernet ⟨Vxlan.macs, rfl⟩ tags) ⟨rfl, rfl⟩ ⟨rfl, rfl⟩

theorem parse_extensions_ntp : parse Nested.sys (framed extensions (by decide)) =
    moveTo (framed extensions (by decide)) 24 <$> parse Nested.sys (framed [] (by decide)) :=
  (@parse_extensions Nested.sys (framed [] (by decide)) (framed extensions (by decide)) v6Header extensions 17
    .RawIP [] ntpDatagram [] [] (by decide) (by decide) .rawIP ⟨rfl, rfl⟩ ⟨rfl, rfl⟩).1

/-! ### Link padding -/

section Append

variable {w t : Bytes}

theorem u16_append_left {i : ℕ} (h : i + 1 < w.length) : u16 (w ++ t) i = u16 w i := by
  rw [u16, u16, u8_append_left (by omega), u8_append_left h]

theorem u32_append_left {i : ℕ} (h : i + 3 < w.length) : u32 (w ++ t) i = u32 w i := by
  rw [u32, u32, u16_append_left (by omega), u16_append_left (by omega)]

theorem versionAt_append_left {i etherType : ℕ} (h : versionAt w i = some etherType) :
    i < w.length ∧ versionAt (w ++ t) i = some etherType := by
  have hlt := (versionAt_eq_some h).1
  refine ⟨hlt, ?_⟩
  unfold versionAt at h ⊢
  rw [if_neg (by omega)] at h
  rw [if_neg (by rw [List.length_append]; omega), u8_append_left hlt]
  exact h

theorem skipTags_append_left : ∀ {fuel fuel' offset etherType : ℕ} {e : ℕ × ℕ}, fuel ≤ fuel' →
    skipTags w fuel offset etherType = some e → skipTags (w ++ t) fuel' offset etherType = some e := by
  intro fuel
  induction fuel with
  | zero => intro fuel' offset etherType e _ h; simp [skipTags] at h
  | succ fuel ih =>
    intro fuel' offset etherType e hf h
    obtain ⟨fuel', rfl⟩ : ∃ n, fuel' = n + 1 := ⟨fuel' - 1, by omega⟩
    unfold skipTags at h ⊢
    split_ifs at h with ht hl
    · rw [if_pos ht, if_neg (by rw [List.length_append]; omega), u16_append_left (by omega)]
      exact ih (by omega) h
    · rw [if_neg ht, h]

/-- The link header of a frame is found again in a longer one. -/
theorem linkLayer_append_left {link : LinkType} {network : ℕ × ℕ} (h : linkLayer w link = some network) :
    linkLayer (w ++ t) link = some network := by
  have hlen : ∀ {n}, ¬ w.length < n → ¬ (w ++ t).length < n := by
    intro n hn
    rw [List.length_append]
    omega
  have hversion : ∀ {families : Option ℕ} {i etherType : ℕ}, (families <|> versionAt w i) = some etherType →
      (families <|> versionAt (w ++ t) i) = some etherType := by
    rintro (_ | family) i etherType hf
    · exact (versionAt_append_left hf).2
    · exact hf
  cases link with
  | Ethernet =>
    simp only [linkLayer, ethernet] at h ⊢
    split_ifs at h with h14
    rw [if_neg (hlen h14), u16_append_left (by omega)]
    exact skipTags_append_left (by rw [List.length_append]; omega) h
  | LinuxSLL =>
    simp only [linkLayer] at h ⊢
    split_ifs at h with h16
    rw [if_neg (hlen h16), u16_append_left (by omega), h]
  | LinuxSLL2 =>
    simp only [linkLayer] at h ⊢
    split_ifs at h with h20
    rw [if_neg (hlen h20), u16_append_left (by omega), h]
  | NullLoopback =>
    simp only [linkLayer] at h ⊢
    split_ifs at h with h4
    obtain ⟨etherType, he, rfl⟩ := Option.map_eq_some_iff.mp h
    rw [if_neg (hlen h4), u8_append_left (by omega), u8_append_left (by omega), u8_append_left (by omega),
      u8_append_left (by omega), u32_append_left (by omega), hversion he]
    rfl
  | Loop =>
    simp only [linkLayer] at h ⊢
    split_ifs at h with h4
    obtain ⟨etherType, he, rfl⟩ := Option.map_eq_some_iff.mp h
    rw [if_neg (hlen h4), u32_append_left (by omega), hversion he]
    rfl
  | RawIP =>
    obtain ⟨etherType, he, rfl⟩ := Option.map_eq_some_iff.mp h
    simp only [linkLayer, (versionAt_append_left he).2]
    rfl
  | IPv4 | IPv6 => exact h
  | Unsupported => cases h

end Append

/-- The first IP packet of a frame, under the labels or the session header it may stand under. -/
def firstIP (w : Bytes) (etherType : ℕ) : Option Inner :=
  if etherType = kEthMplsUni ∨ etherType = kEthMplsMul then mplsInner w 8 0
  else if etherType = kEthPppoeSess then pppoeInner w
  else if etherType = kEthIPv4 ∨ etherType = kEthIPv6 then some ⟨0, w, etherType⟩
  else none

namespace Inner

/-- What is inside with `t` behind it. -/
def append (i : Inner) (t : Bytes) : Inner := { i with bytes := i.bytes ++ t }

/-- The packet lies in its window, by its own length field. -/
def Whole (i : Inner) : Prop :=
  if i.etherType = kEthIPv6 then 40 + u16 i.bytes 4 ≤ i.bytes.length
  else 4 ≤ i.bytes.length ∧ u16 i.bytes 2 ≤ i.bytes.length

instance (i : Inner) : Decidable i.Whole := inferInstanceAs (Decidable (ite _ _ _))

end Inner

section Padding

variable {sys : Platform} {w t : Bytes} {etherType : ℕ} {i : Inner}

/-- A header reads nothing behind the end of its packet. -/
theorem layer_append (he : i.etherType = kEthIPv4 ∨ i.etherType = kEthIPv6) (h : i.Whole) :
    layer sys (i.append t).bytes i.etherType = layer sys i.bytes i.etherType := by
  obtain ⟨offset, w, etherType⟩ := i
  have hlen : (w ++ t).length = w.length + t.length := List.length_append
  show layer sys (w ++ t) etherType = layer sys w etherType
  rcases he with rfl | rfl
  · obtain ⟨h4, htotal⟩ : 4 ≤ w.length ∧ u16 w 2 ≤ w.length := h
    have hlayer : ∀ w, layer sys w kEthIPv4 = ipv4Layer sys w := fun w => rfl
    rw [hlayer, hlayer]
    unfold ipv4Layer
    dsimp only
    rw [u8_append_left (by omega), u16_append_left (by omega)]
    -- an incomplete header announces less than itself
    by_cases hc : u8 w 0 >>> 4 ≠ 4 ∨ (u8 w 0 &&& 0x0F) * 4 < 20 ∨ u16 w 2 < (u8 w 0 &&& 0x0F) * 4
    · rw [if_pos (by omega), if_pos (by omega)]
    · rw [u16_append_left (show 6 + 1 < w.length by omega), u8_append_left (show 9 < w.length by omega),
        slice_append_left (by omega), slice_append_left (by omega), List.take_append_of_le_length htotal]
      exact if_congr (by omega) rfl rfl
  · have htotal : 40 + u16 w 4 ≤ w.length := h
    have hlayer : ∀ w, layer sys w kEthIPv6 = ipv6Layer sys w := fun w => rfl
    rw [hlayer, hlayer]
    unfold ipv6Layer
    dsimp only
    rw [u16_append_left (by omega), u8_append_left (by omega), slice_append_left (by omega),
      slice_append_left (by omega),
      List.take_append_of_le_length htotal]
    exact if_congr (by omega) rfl rfl

theorem mplsInner_append : ∀ {labels pos : ℕ}, mplsInner w labels pos = some i →
    mplsInner (w ++ t) labels pos = some (i.append t) := by
  intro labels
  induction labels with
  | zero => intro pos h; cases h
  | succ labels ih =>
    intro pos h
    unfold mplsInner at h ⊢
    split_ifs at h with hl hb
    · rw [if_neg (by rw [List.length_append]; omega), u8_append_left (by omega), if_pos hb]
      exact ih h
    · obtain ⟨e, he, rfl⟩ := Option.map_eq_some_iff.mp h
      obtain ⟨hlt, he⟩ := @versionAt_append_left w t _ _ he
      rw [if_neg (by rw [List.length_append]; omega), u8_append_left (by omega), if_neg hb, he,
        List.drop_append_of_le_length (by omega)]
      rfl

theorem pppoeInner_append (h : pppoeInner w = some i) : pppoeInner (w ++ t) = some (i.append t) := by
  unfold pppoeInner at h ⊢
  split_ifs at h with hl h4 h6
  · cases h
    rw [if_neg (by rw [List.length_append]; omega), u16_append_left (by omega), if_pos h4,
      List.drop_append_of_le_length (by omega)]
    rfl
  · cases h
    rw [if_neg (by rw [List.length_append]; omega), u16_append_left (by omega), if_neg h4, if_pos h6,
      List.drop_append_of_le_length (by omega)]
    rfl

/-- A descent reads nothing behind the end of the first IP packet. -/
theorem descend_append (hi : firstIP w etherType = some i) (h : i.Whole) (n base : ℕ) (p : ParsedPacket) :
    descend sys (n + 1) base (w ++ t) etherType p = descend sys (n + 1) base w etherType p := by
  have hinside : i.etherType = kEthIPv4 ∨ i.etherType = kEthIPv6 → ∀ base p,
      descend sys n base (i.append t).bytes i.etherType p = descend sys n base i.bytes i.etherType p := by
    intro he base p
    cases n with
    | zero => rfl
    | succ n => rw [descend, descend, layer_append he h]
  unfold firstIP at hi
  unfold descend layer
  split_ifs at hi with hm hp hip
  · have hip : i.etherType = kEthIPv4 ∨ i.etherType = kEthIPv6 := by
      obtain ⟨offset, etherType, -, hv, rfl⟩ := mplsInner_eq_some hi
      exact (versionAt_eq_some hv).2.imp And.right And.right
    rw [if_pos hm, if_pos hm, mpls, mpls, hi, mplsInner_append hi]
    exact congrArg (Tunnel.settle _) (hinside hip _ _)
  · have hip : i.etherType = kEthIPv4 ∨ i.etherType = kEthIPv6 := by
      obtain ⟨etherType, -, hip, rfl⟩ := pppoeInner_eq_some hi
      exact hip
    rw [if_neg hm, if_neg hm, if_pos hp, if_pos hp, pppoe, pppoe, hi, pppoeInner_append hi]
    exact congrArg (Tunnel.settle _) (hinside hip _ _)
  · obtain rfl := Option.some.inj hi
    have hlayer := @layer_append sys t _ hip h
    unfold layer at hlayer
    exact congrArg (fun l => Layer.decode (descend sys n) (0 < n) base l p) hlayer

end Padding

/-- The frame has a first IP packet, and it is in the frame as a whole. -/
def HoldsFirstIP (frame : PacketData) : Prop :=
  ∃ network, linkLayer frame.payload frame.linkType = some network ∧
    ∃ i, firstIP (frame.payload.drop network.1) network.2 = some i ∧ i.Whole

/-- **The IP length delimits a packet, not the captured size.** Whatever stands
behind the first IP packet of a frame leaves every field as it is. -/
theorem parse_padded {sys : Platform} {frame padded : PacketData} {t : Bytes} (h : HoldsFirstIP frame)
    (hl : padded.linkType = frame.linkType) (hp : padded.payload = frame.payload ++ t)
    (htime : padded.timestamp = frame.timestamp) (hlength : padded.length = frame.length) :
    parse sys padded = parse sys frame := by
  obtain ⟨network, hn, i, hi, hwhole⟩ := h
  have hle := linkLayer_le hn
  have hb : frame.payload ≠ [] := by
    intro he
    rw [he, List.drop_nil] at hi
    unfold firstIP at hi
    split_ifs at hi
    · cases hi
    · cases hi
    · cases hi
      unfold Inner.Whole at hwhole
      dsimp only [List.length_nil] at hwhole
      split_ifs at hwhole <;> omega
  have hno : linkLayer padded.payload padded.linkType = some network := by
    rw [hp, hl]
    exact linkLayer_append_left hn
  have hdecoded : decoded sys padded network = decoded sys frame network := by
    have hblank : blank padded = blank frame := by rw [blank, htime, hlength, blank]
    rw [decoded, decoded, hblank, hp, List.drop_append_of_le_length hle, descend_append hi hwhole]
  obtain ⟨r, hr, -⟩ := parse_fits sys frame
  obtain ⟨q, -, rfl, hen⟩ := enriches_of_parse hb hn hr
  have hparse := parse_recast hb (by rw [hp]; simp [hb]) hn hno hr (by rw [hdecoded]; rfl) fun hz => by
    have hfits := (decoded_fits sys hn).resolve_left hz
    rw [hdecoded, hp, slice_append_left hfits]
  rw [hparse, hr, hdecoded]
  unfold Enriches at hen
  rw [hen]
  rfl

/-- The frame of 43 bytes on a link whose frames have at least 60. -/
theorem parse_padded_ntp : parse Vxlan.sys
    { Vxlan.captured (Vxlan.frame [0x23] ++ List.replicate 17 0) (by decide) with length := 43 } =
      parse Vxlan.sys Vxlan.inner :=
  @parse_padded Vxlan.sys Vxlan.inner _ (List.replicate 17 0)
    ⟨(14, kEthIPv4), by decide, ⟨0, (Vxlan.frame [0x23]).drop 14, kEthIPv4⟩, rfl, by decide⟩ rfl rfl rfl rfl

end ProtocolParser
end NetProbe
