/-
# Flow statistics and the snap length

A frame cut to a smaller snap length keeps its headers, its wire length and its
timestamp. The parser reads the same headers (`TcpFrame.parse_headers`), but
measures the payload on what was captured. So the totals of a flow do not depend
on the cuts; the loss counters of a direction do, unless no segment of that
direction loses payload (`flows_snapped`).

Key definitions: `tcpSegment`, `TcpFrame`, `Snapped`, `SnapCut`, `KeepsPayload`.
Key theorems: `linkLayer_take`, `tcpSegment_take`, `TcpFrame.parse_headers`,
`flows_snapped`.
-/
import NetProbe.SessionRuns

namespace NetProbe

open Checked Bytes

namespace ProtocolParser

/-! ### A window that ends early -/

section Take

variable {w : Bytes} {m : ℕ}

theorem u16_take {i : ℕ} (h : i + 1 < m) : u16 (w.take m) i = u16 w i := by
  rw [u16, u16, u8_take (by omega), u8_take h]

theorem u32_take {i : ℕ} (h : i + 3 < m) : u32 (w.take m) i = u32 w i := by
  rw [u32, u32, u16_take (by omega), u16_take (by omega)]

theorem slice_take {i n : ℕ} (h : i + n ≤ m) : slice (w.take m) i n = slice w i n := by
  rw [← slice_zero w m, slice_slice h, Nat.zero_add]

theorem versionAt_take {i : ℕ} (h : i < m) : versionAt (w.take m) i = versionAt w i := by
  have hl : (w.take m).length ≤ i ↔ w.length ≤ i := by
    rw [List.length_take]
    omega
  simp only [versionAt, hl, u8_take h]

/-- The tags of a frame are found again, whatever the fuel, when the cut is
after them. -/
theorem skipTags_take : ∀ {fuel offset etherType : ℕ} {e : ℕ × ℕ},
    skipTags w fuel offset etherType = some e →
      offset ≤ e.1 ∧ (e.1 < m → ∀ fuel', e.1 < offset + fuel' →
        skipTags (w.take m) fuel' offset etherType = some e) := by
  intro fuel
  induction fuel with
  | zero => intro offset etherType e h; simp [skipTags] at h
  | succ fuel ih =>
    intro offset etherType e h
    unfold skipTags at h
    split_ifs at h with ht hl
    · obtain ⟨hle, hcut⟩ := ih h
      refine ⟨by omega, fun hm fuel' hf => ?_⟩
      cases fuel' with
      | zero => omega
      | succ fuel' =>
        rw [skipTags, if_pos ht, if_neg (by rw [List.length_take]; omega), u16_take (by omega)]
        exact hcut hm fuel' (by omega)
    · cases h
      refine ⟨le_rfl, fun hm fuel' hf => ?_⟩
      cases fuel' with
      | zero => omega
      | succ fuel' => rw [skipTags, if_neg ht]

/-- The link layer of a frame cut after it. -/
theorem linkLayer_take {link : LinkType} {network : ℕ × ℕ} (h : linkLayer w link = some network)
    (hm : network.1 < m) : linkLayer (w.take m) link = some network := by
  have hlen : ∀ n, n ≤ m → ((w.take m).length < n ↔ w.length < n) := by
    intro n hn
    rw [List.length_take]
    omega
  cases link with
  | Ethernet =>
    simp only [linkLayer, ethernet] at h ⊢
    split_ifs at h with h14
    obtain ⟨hle, hcut⟩ := skipTags_take h
    have hwle := skipTags_le (by omega) h
    rw [if_neg (by rw [hlen 14 (by omega)]; exact h14), u16_take (by omega)]
    exact hcut hm _ (by rw [List.length_take]; omega)
  | LinuxSLL =>
    simp only [linkLayer] at h ⊢
    split_ifs at h with h16
    cases h
    dsimp only at hm
    rw [if_neg (by rw [hlen 16 hm.le]; exact h16), u16_take (by omega)]
  | LinuxSLL2 =>
    simp only [linkLayer] at h ⊢
    split_ifs at h with h20
    cases h
    dsimp only at hm
    rw [if_neg (by rw [hlen 20 hm.le]; exact h20), u16_take (by omega)]
  | NullLoopback =>
    simp only [linkLayer] at h ⊢
    split_ifs at h with h4
    obtain ⟨etherType, he, rfl⟩ := Option.map_eq_some_iff.mp h
    dsimp only at hm
    rw [if_neg (by rw [hlen 4 hm.le]; exact h4), u8_take (by omega), u8_take (by omega), u8_take (by omega),
      u8_take (by omega), u32_take (by omega), versionAt_take hm, he]
    rfl
  | Loop =>
    simp only [linkLayer] at h ⊢
    split_ifs at h with h4
    obtain ⟨etherType, he, rfl⟩ := Option.map_eq_some_iff.mp h
    dsimp only at hm
    rw [if_neg (by rw [hlen 4 hm.le]; exact h4), u32_take (by omega), versionAt_take hm, he]
    rfl
  | RawIP =>
    simp only [linkLayer] at h ⊢
    obtain ⟨etherType, he, rfl⟩ := Option.map_eq_some_iff.mp h
    rw [versionAt_take hm, he]
    rfl
  | IPv4 | IPv6 => exact h
  | Unsupported => cases h

theorem v6Extension_take {nh : ℕ} {e : ℕ × ℕ} (h : v6Extension nh w = some e) (hm : e.1 ≤ m) :
    v6Extension nh (w.take m) = some e := by
  have h8 := v6Extension_le h
  have hlen : ∀ n, n ≤ m → ((w.take m).length < n ↔ w.length < n) := by
    intro n hn
    rw [List.length_take]
    omega
  unfold v6Extension at h ⊢
  rw [u8_take (by omega), u8_take (by omega)]
  split_ifs at h with h1 h2 h3 h4 h5 h6 <;> cases h
  · rw [if_pos h1, if_neg (by rwa [hlen 2 (by omega), hlen _ hm])]
  · rw [if_neg h1, if_pos h3, if_neg (by rwa [hlen 8 hm])]
  · rw [if_neg h1, if_neg h3, if_pos h5, if_neg (by rwa [hlen 2 (by omega), hlen _ hm])]

/-- A chain of extension headers that leads to TCP does so when the cut is after
it, whatever the fuel. -/
theorem v6Chain_take : ∀ {n nh : ℕ} {w : Bytes} {m len fuel : ℕ}, v6Chain n nh w = (6, len) → len ≤ m →
    len < fuel → v6Chain fuel nh (w.take m) = (6, len) := by
  have hlast : ∀ {w : Bytes} {fuel : ℕ}, v6Chain (fuel + 1) 6 w = (6, 0) := fun {w fuel} => by
    rw [v6Chain, v6Extension, if_neg (by decide), if_neg (by decide), if_neg (by decide)]
  intro n
  induction n with
  | zero =>
    intro nh w m len fuel h hm hf
    obtain ⟨rfl, rfl⟩ := Prod.mk.inj h
    obtain ⟨fuel, rfl⟩ := Nat.exists_eq_add_of_lt hf
    rw [Nat.zero_add]
    exact hlast
  | succ n ih =>
    intro nh w m len fuel h hm hf
    obtain ⟨fuel, rfl⟩ := Nat.exists_eq_add_of_lt hf
    rw [v6Chain] at h
    cases he : v6Extension nh w with
    | none =>
      rw [he] at h
      obtain ⟨rfl, rfl⟩ := Prod.mk.inj h
      rw [Nat.zero_add]
      exact hlast
    | some e =>
      have h8 := v6Extension_le he
      rw [he] at h
      dsimp only at h
      obtain ⟨hupper, hlen⟩ := Prod.mk.inj h
      have hrest : v6Chain n e.2 (w.drop e.1) = (6, (v6Chain n e.2 (w.drop e.1)).2) := Prod.ext hupper rfl
      have hcut : v6Chain (len + fuel) e.2 ((w.drop e.1).take (m - e.1)) = (6, _) :=
        ih hrest (by omega) (by omega)
      rw [v6Chain, v6Extension_take he (by omega)]
      dsimp only
      rw [List.drop_take, hcut, hlen]

end Take

/-! ### TCP in an IP packet -/

/-- The TCP segment an IP packet carries: where it starts, and its bytes up to
the end of the packet. None for a continuation fragment. -/
def tcpSegment (w : Bytes) (etherType : ℕ) : Option (ℕ × Bytes) :=
  if etherType = kEthIPv4 then
    let ihl := (u8 w 0 &&& 0x0F) * 4
    if w.length < 20 ∨ u8 w 0 >>> 4 ≠ 4 ∨ ihl < 20 ∨ w.length < ihl ∨ u16 w 2 < ihl
        ∨ u16 w 6 &&& 0x1FFF ≠ 0 ∨ u8 w 9 ≠ 6 then none
    else some (ihl, (w.take (u16 w 2)).drop ihl)
  else if etherType = kEthIPv6 then
    let packet := w.take (40 + u16 w 4)
    let chain := v6Chain packet.length (u8 w 6) (packet.drop 40)
    if w.length < 40 ∨ chain.1 ≠ 6 then none else some (40 + chain.2, packet.drop (40 + chain.2))
  else none

/-- The addresses of an IP packet. -/
def ipAddresses (sys : Platform) (w : Bytes) (etherType : ℕ) : String × String :=
  if etherType = kEthIPv4 then (sys.inetNtop4 (slice w 12 4), sys.inetNtop4 (slice w 16 4))
  else (sys.inetNtop6 (slice w 8 16), sys.inetNtop6 (slice w 24 16))

section Segment

variable {w segment : Bytes} {etherType origin m : ℕ}

theorem layer_of_tcpSegment (sys : Platform) (h : tcpSegment w etherType = some (origin, segment)) :
    layer sys w etherType =
      { report := tcpReport segment, addresses := some (ipAddresses sys w etherType), origin } := by
  unfold tcpSegment at h
  dsimp only at h
  split_ifs at h with h4 hv h6 hv
  · cases h
    subst h4
    simp only [not_or, not_not] at hv
    obtain ⟨h20, hversion, hihl, hl, htotal, hfrag, hproto⟩ := hv
    rw [layer, if_neg (by decide), if_neg (by decide), if_pos rfl, ipv4Layer]
    dsimp only
    rw [if_neg (by omega), if_neg (not_not.mpr hfrag), hproto]
    rfl
  · cases h
    subst h6
    simp only [not_or, not_not] at hv
    rw [layer, if_neg (by decide), if_neg (by decide), if_neg (by decide), if_pos rfl, ipv6Layer]
    dsimp only
    rw [if_neg hv.1, hv.2]
    rfl

/-- A complete header lies inside the packet, behind the IP header. -/
theorem tcpSegment_bounds (h : tcpSegment w etherType = some (origin, segment)) :
    20 ≤ origin ∧ (20 ≤ segment.length → (etherType = kEthIPv6 → 40 ≤ origin) ∧
      origin + segment.length ≤ w.length) := by
  unfold tcpSegment at h
  dsimp only at h
  split_ifs at h with h4 hv h6 hv
  · cases h
    refine ⟨by omega, fun hs => ⟨fun h6 => absurd (h4.symm.trans h6) (by decide), ?_⟩⟩
    simp only [List.length_drop, List.length_take] at hs ⊢
    omega
  · cases h
    refine ⟨by omega, fun hs => ⟨fun _ => by omega, ?_⟩⟩
    simp only [List.length_drop, List.length_take] at hs ⊢
    omega

/-- The segment of a packet cut behind the TCP header. -/
theorem tcpSegment_take (h : tcpSegment w etherType = some (origin, segment)) (hs : 20 ≤ segment.length)
    (hm : origin + 20 ≤ m) : tcpSegment (w.take m) etherType = some (origin, segment.take (m - origin)) := by
  obtain ⟨ho, hbounds⟩ := tcpSegment_bounds h
  obtain ⟨ho6, hle⟩ := hbounds hs
  have hlen : ∀ n, n ≤ m → ((w.take m).length < n ↔ w.length < n) := by
    intro n hn
    rw [List.length_take]
    omega
  unfold tcpSegment at h ⊢
  dsimp only at h ⊢
  split_ifs at h with h4 hv h6 hv
  · rw [if_pos h4]
    obtain ⟨rfl, rfl⟩ := Prod.mk.inj (Option.some.inj h)
    rw [u8_take (by omega), u16_take (by omega), u16_take (by omega), u8_take (by omega),
      if_neg (by rw [hlen 20 (by omega), hlen _ (by omega)]; exact hv), List.take_take, min_comm, ← List.take_take,
      List.drop_take]
  · rw [if_neg h4, if_pos h6]
    obtain ⟨rfl, rfl⟩ := Prod.mk.inj (Option.some.inj h)
    obtain ⟨hl, hchain⟩ := not_or.mp hv
    have hcut : (w.take m).take (40 + u16 w 4) = (w.take (40 + u16 w 4)).take m := by
      rw [List.take_take, List.take_take, min_comm]
    rw [u16_take (by omega), u8_take (by omega), hcut]
    generalize w.take (40 + u16 w 4) = packet at *
    have hrest : v6Chain packet.length (u8 w 6) (packet.drop 40) =
        (6, (v6Chain packet.length (u8 w 6) (packet.drop 40)).2) := Prod.ext (not_not.mp hchain) rfl
    generalize (v6Chain packet.length (u8 w 6) (packet.drop 40)).2 = len at *
    rw [List.length_drop] at hs
    have hnew : v6Chain (packet.take m).length (u8 w 6) ((packet.take m).drop 40) = (6, len) := by
      rw [List.drop_take]
      exact v6Chain_take hrest (by omega) (by rw [List.length_take]; omega)
    rw [hnew, if_neg (by rw [hlen 40 (by omega)]; simp [hl]), List.drop_take]

end Segment

/-! ### A TCP frame and what the parser reads of it -/

def tcpHeaderLength (segment : Bytes) : ℕ := (u8 segment 12 >>> 4) * 4

/-- An untunnelled TCP/IP frame: a known link layer, an IP packet that carries
TCP, and a whole TCP header with its options. -/
structure TcpFrame (packet : PacketData) where
  network : ℕ × ℕ
  origin : ℕ
  segment : Bytes
  link : linkLayer packet.payload packet.linkType = some network
  ip : tcpSegment (packet.payload.drop network.1) network.2 = some (origin, segment)
  header : 20 ≤ tcpHeaderLength segment ∧ tcpHeaderLength segment ≤ segment.length

/-- `q` differs from `p` at most in the payload window and in what payload and
ports tell. -/
def SameHeaders (p q : ParsedPacket) : Prop :=
  q = { p with
    payloadOffset := q.payloadOffset, payloadLength := q.payloadLength, sni := q.sni, service := q.service
    hostname := q.hostname, info := q.info, encryptedTunnel := q.encryptedTunnel }

theorem Enriches.sameHeaders {p q : ParsedPacket} (h : Enriches p q) : SameHeaders p q := by
  unfold Enriches at h
  rw [h]
  rfl

theorem Enriches.payloadLength {p q : ParsedPacket} (h : Enriches p q) : q.payloadLength = p.payloadLength := by
  rw [h]

theorem SameHeaders.trans {p q r : ParsedPacket} (h : SameHeaders p q) (h' : SameHeaders q r) :
    SameHeaders p r := by
  unfold SameHeaders at *
  rw [h', h]

theorem SameHeaders.symm {p q : ParsedPacket} (h : SameHeaders p q) : SameHeaders q p := by
  unfold SameHeaders at *
  rw [h]

namespace TcpFrame

variable {packet : PacketData} (f : TcpFrame packet)

/-- Where the TCP header ends. -/
def headersEnd : ℕ := f.network.1 + f.origin + tcpHeaderLength f.segment

/-- Where the segment ends. -/
def stop : ℕ := f.network.1 + f.origin + f.segment.length

/-- The packet as far as the headers tell. -/
def headers (sys : Platform) : ParsedPacket :=
  (tcpReport (f.segment.take 20)).apply 0
    (setAddresses (some (ipAddresses sys (packet.payload.drop f.network.1) f.network.2)) (blank packet))

theorem stop_le : f.stop ≤ packet.payload.length := by
  have hlink := linkLayer_le f.link
  obtain ⟨-, hbounds⟩ := tcpSegment_bounds f.ip
  have hlen := (hbounds (f.header.1.trans f.header.2)).2
  rw [List.length_drop] at hlen
  have := f.header
  unfold stop
  omega

theorem headersEnd_le : f.headersEnd ≤ f.stop := Nat.add_le_add_left f.header.2 _

/-- The decoders stop at the TCP header. -/
theorem decoded_eq (sys : Platform) : decoded sys packet f.network =
    (tcpReport f.segment).apply (f.network.1 + f.origin)
      (setAddresses (some (ipAddresses sys (packet.payload.drop f.network.1) f.network.2)) (blank packet)) := by
  unfold decoded
  rw [descend, layer_of_tcpSegment sys f.ip]
  rfl

theorem decoded_headers (sys : Platform) : SameHeaders (f.headers sys) (decoded sys packet f.network) ∧
    (decoded sys packet f.network).payloadLength = f.stop - f.headersEnd := by
  have h20 : 20 ≤ f.segment.length := f.header.1.trans f.header.2
  have hlen : (f.segment.take 20).length = 20 := by rw [List.length_take]; omega
  have hpayload : f.stop - f.headersEnd = f.segment.length - tcpHeaderLength f.segment := by
    unfold stop headersEnd
    omega
  obtain ⟨hh20, hhl⟩ := f.header
  rw [decoded_eq, headers, hpayload]
  unfold tcpHeaderLength at *
  unfold tcpReport
  rw [if_neg (by omega), if_neg (by omega), u16_take (by omega), u16_take (by omega), u32_take (by omega),
    u8_take (by omega), u8_take (by omega)]
  dsimp only
  rw [if_pos (show _ ∨ (f.segment.take 20).length ≤ _ from .inr (by omega))]
  by_cases hend : f.segment.length ≤ (u8 f.segment 12 >>> 4) * 4
  · rw [if_pos (.inr hend), Nat.sub_eq_zero_of_le hend]
    exact ⟨rfl, rfl⟩
  · rw [if_neg (by omega)]
    exact ⟨rfl, rfl⟩

/-- **What `parse` reads of a TCP frame**: the headers, and as payload what was
captured of the segment behind them. -/
theorem parse_headers (sys : Platform) : Safe (parse sys packet) fun p =>
    SameHeaders (f.headers sys) p ∧ p.payloadLength = f.stop - f.headersEnd := by
  have hne : packet.payload ≠ [] := by
    intro h
    have hstop := f.stop_le
    have := f.headersEnd_le
    have := f.header.1
    rw [h, List.length_nil] at hstop
    unfold headersEnd at *
    omega
  obtain ⟨hsame, hlength⟩ := f.decoded_headers sys
  rw [parse_some sys f.link hne]
  refine (inspectPayload_safe sys packet.fits _).map fun q hq => ?_
  have hq' := hq.trans (enriches_markEncrypted q)
  exact ⟨hsame.trans hq'.sameHeaders, hq'.payloadLength.trans hlength⟩

end TcpFrame

/-! ### The cut -/

/-- `cut` is the frame as captured with a smaller snap length: the first bytes
of it, with all its headers, and the same wire length and timestamp. -/
structure Snapped {full : PacketData} (f : TcpFrame full) (cut : PacketData) : Prop where
  timestamp : cut.timestamp = full.timestamp
  length : cut.length = full.length
  linkType : cut.linkType = full.linkType
  bytes : cut.payload <+: full.payload
  headers : f.headersEnd ≤ cut.payload.length

namespace Snapped

variable {full cut : PacketData} {f : TcpFrame full}

theorem payload_eq (h : Snapped f cut) : cut.payload = full.payload.take cut.payload.length :=
  List.prefix_iff_eq_take.mp h.bytes

/-- The cut frame is a TCP frame, its segment ends at the cut. -/
theorem frame (h : Snapped f cut) : ∃ f' : TcpFrame cut, f'.network = f.network ∧ f'.origin = f.origin ∧
    f'.segment = f.segment.take (cut.payload.length - f.network.1 - f.origin) := by
  have hheaders := h.headers
  obtain ⟨hh20, hhl⟩ := f.header
  unfold TcpFrame.headersEnd at hheaders
  obtain ⟨ho, -⟩ := tcpSegment_bounds f.ip
  have hlink : linkLayer cut.payload cut.linkType = some f.network := by
    rw [h.payload_eq, h.linkType]
    exact linkLayer_take f.link (by omega)
  have hip : tcpSegment (cut.payload.drop f.network.1) f.network.2 =
      some (f.origin, f.segment.take (cut.payload.length - f.network.1 - f.origin)) := by
    rw [h.payload_eq, List.drop_take, ← h.payload_eq]
    exact tcpSegment_take f.ip (by omega) (by omega)
  have hheader : tcpHeaderLength (f.segment.take (cut.payload.length - f.network.1 - f.origin)) =
      tcpHeaderLength f.segment := by
    rw [tcpHeaderLength, u8_take (by omega)]
    rfl
  refine ⟨⟨f.network, f.origin, _, hlink, hip, ?_⟩, rfl, rfl, rfl⟩
  rw [hheader, List.length_take]
  omega

/-- The cut changes no header, and of the payload only how much there is. -/
theorem parse_headers (sys : Platform) (h : Snapped f cut) : Safe (parse sys cut) fun p =>
    SameHeaders (f.headers sys) p ∧ p.payloadLength = min f.stop cut.payload.length - f.headersEnd := by
  obtain ⟨f', hn, ho, hs⟩ := h.frame
  have hheaders := h.headers
  obtain ⟨hh20, hhl⟩ := f.header
  obtain ⟨ho20, hbounds⟩ := tcpSegment_bounds f.ip
  unfold TcpFrame.headersEnd at hheaders
  have hm : 20 ≤ cut.payload.length - f.network.1 - f.origin := by omega
  have hlen : tcpHeaderLength f'.segment = tcpHeaderLength f.segment := by
    rw [hs, tcpHeaderLength, u8_take (by omega)]
    rfl
  have hsame : f'.headers sys = f.headers sys := by
    have hblank : blank cut = blank full := by rw [blank, blank, h.timestamp, h.length]
    have hdrop : cut.payload.drop f.network.1 =
        (full.payload.drop f.network.1).take (cut.payload.length - f.network.1) := by
      rw [← List.drop_take, ← h.payload_eq]
    have haddresses : ipAddresses sys (cut.payload.drop f.network.1) f.network.2 =
        ipAddresses sys (full.payload.drop f.network.1) f.network.2 := by
      have h6 : f.network.2 ≠ kEthIPv4 → 40 ≤ f.origin := by
        intro h4
        refine (hbounds (by omega)).1 ?_
        by_contra h6
        have hip := f.ip
        rw [tcpSegment, if_neg h4, if_neg h6] at hip
        cases hip
      rw [hdrop, ipAddresses, ipAddresses]
      by_cases h4 : f.network.2 = kEthIPv4
      · rw [if_pos h4, if_pos h4, slice_take (by omega), slice_take (by omega)]
      · have := h6 h4
        rw [if_neg h4, if_neg h4, slice_take (by omega), slice_take (by omega)]
    rw [TcpFrame.headers, TcpFrame.headers, hn, hs, hblank, haddresses, List.take_take, min_eq_left hm]
  refine (f'.parse_headers sys).mono fun p hp => ⟨hsame ▸ hp.1, hp.2.trans ?_⟩
  rw [TcpFrame.stop, TcpFrame.headersEnd, TcpFrame.stop, TcpFrame.headersEnd, hn, ho, hlen, hs, List.length_take]
  omega

end Snapped

end ProtocolParser

namespace FlowAggregator

open ProtocolParser

/-! ### What the statistics of a flow read -/

/-- The counts a flow keeps of all its packets. -/
structure Totals where
  packets : UInt64
  bytesUp : UInt64
  bytesDown : UInt64
  firstSeen : ℤ
  lastSeen : ℤ
  initialRttMicroseconds : ℤ
  deriving DecidableEq, Repr

def totals (flow : Flow) : Totals :=
  ⟨flow.packets, flow.bytesUp, flow.bytesDown, flow.firstSeen, flow.lastSeen, flow.initialRttMicroseconds⟩

/-- Retransmitted and out-of-order segments of one direction. -/
def losses (downstream : Bool) (flow : Flow) : UInt64 × UInt64 :=
  if downstream then (flow.retransmissionsDown, flow.outOfOrderDown)
  else (flow.retransmissionsUp, flow.outOfOrderUp)

/-- The part of a flow's state the totals come from: they and the handshake timer. -/
def counted (state : FlowState) : FlowState :=
  { flow :=
      { key := state.flow.key, bytesUp := state.flow.bytesUp, bytesDown := state.flow.bytesDown
        packets := state.flow.packets, firstSeen := state.flow.firstSeen, lastSeen := state.flow.lastSeen
        initialRttMicroseconds := state.flow.initialRttMicroseconds }
    synTimestamp := state.synTimestamp, synSeen := state.synSeen }

theorem counted_timeHandshake (packet : ParsedPacket) (downstream : Bool) (s : FlowState) :
    counted (timeHandshake packet downstream s) = counted (timeHandshake packet downstream (counted s)) := by
  have hrtt : (counted s).flow.initialRttMicroseconds = s.flow.initialRttMicroseconds := rfl
  have hsyn : (counted s).synTimestamp = s.synTimestamp := rfl
  have hseen : (counted s).synSeen = s.synSeen := rfl
  simp only [timeHandshake, hrtt, hsyn, hseen]
  split_ifs <;> rfl

/-- A packet counted and, in a handshake, timed. -/
def count (packet : ParsedPacket) (downstream : Bool) (state : FlowState) : FlowState :=
  counted (timeHandshake packet downstream (countPacket packet downstream state))

theorem observes_counted : Observes counted count where
  hostname _ _ := rfl
  update packet hostname process downstream state := by
    have hlabel : ∀ s, counted (labelFlow packet hostname process s) = counted s := fun s =>
      (congrArg counted (labelFlow_frame packet s hostname process)).trans rfl
    have hreset : ∀ s, counted (resetSequences packet s) = counted s := fun s =>
      (congrArg counted (resetSequences_frame packet s)).trans rfl
    have htrack : ∀ s, counted (trackDelivery packet downstream s) = counted s := fun s =>
      (congrArg counted (trackDelivery_frame packet downstream s)).trans rfl
    have hcount : ∀ s, counted (countPacket packet downstream s) =
        counted (countPacket packet downstream (counted s)) := fun s => by
      cases downstream <;> rfl
    calc counted (updateState packet hostname process downstream state)
        = counted (labelFlow packet hostname process <| resetSequences packet <| trackDelivery packet downstream <|
            timeHandshake packet downstream <| countPacket packet downstream state) := rfl
      _ = counted (timeHandshake packet downstream (countPacket packet downstream state)) := by
          rw [hlabel, hreset, htrack]
      _ = counted (timeHandshake packet downstream (countPacket packet downstream (counted state))) := by
          rw [counted_timeHandshake, hcount, ← counted_timeHandshake]

/-- A packet judged in its own direction; a reset takes the baseline away. -/
def deliver (dir : Bool) (packet : ParsedPacket) (downstream : Bool) (d : Delivery) : Delivery :=
  let d := if carriesData packet = true ∧ dir = downstream then judge packet d else d
  if packet.tcpRst then { d with sequence := {} } else d

theorem observes_delivery (dir : Bool) : Observes (·.delivery dir) (deliver dir) where
  hostname _ _ := by cases dir <;> rfl
  update packet hostname process downstream state := by
    exact delivery_updateState packet state downstream dir hostname process

section SameHeaders

variable {p q : ParsedPacket}

theorem keyFor_sameHeaders (h : SameHeaders p q) : keyFor q = keyFor p := by rw [h]; rfl

theorem isDownstream_sameHeaders (h : SameHeaders p q) (k : FlowKey) : isDownstream q k = isDownstream p k := by
  rw [h]; rfl

theorem count_sameHeaders (h : SameHeaders p q) (downstream : Bool) : count q downstream = count p downstream := by
  funext state
  have hcount : ∀ s, counted (countPacket q downstream s) = counted (countPacket p downstream s) := fun s => by
    rw [h]
    cases downstream <;> rfl
  have htime : ∀ s, timeHandshake q downstream s = timeHandshake p downstream s := fun s => by
    rw [h]
    rfl
  rw [count, count, htime, counted_timeHandshake, hcount, ← counted_timeHandshake]

theorem deliver_sameHeaders (h : SameHeaders p q) {dir downstream : Bool}
    (hp : downstream = dir → q.payloadLength = p.payloadLength) :
    deliver dir q downstream = deliver dir p downstream := by
  funext d
  by_cases hd : downstream = dir
  · have hlen := hp hd
    rw [h, hlen]
    rfl
  · have hd' : dir ≠ downstream := Ne.symm hd
    rw [h]
    simp only [deliver, hd', and_false, if_false]

/-- A packet with the same headers is credited alike. -/
theorem credit_sameHeaders {α : Type} (h : SameHeaders p q) {k : FlowKey} {start : ℤ → α}
    {step : ParsedPacket → Bool → α → α}
    (hstep : keyFor p = some k → step q (isDownstream p k) = step p (isDownstream p k)) (seen : Option α) :
    credit k start step seen q = credit k start step seen p := by
  have ht : q.timestamp = p.timestamp := by rw [h]
  unfold credit
  rw [keyFor_sameHeaders h, isDownstream_sameHeaders h, ht]
  by_cases hk : keyFor p = some k
  · rw [if_pos hk, if_pos hk, hstep hk]
  · rw [if_neg hk, if_neg hk]

end SameHeaders

end FlowAggregator

namespace AnalysisSession

open ProtocolParser FlowAggregator

/-! ### Two runs -/

/-- `a` brings a TCP frame, `a'` the same frame as captured with a smaller snap length. -/
def SnapCut (a a' : Arrival) : Prop := ∃ f : TcpFrame a.packet, Snapped f a'.packet

/-- Where `a` brings a segment of one direction of the flow `k`, `a'` brings it whole. -/
def KeepsPayload (sys : Platform) (k : FlowKey) (downstream : Bool) (a a' : Arrival) : Prop :=
  ∀ f : TcpFrame a.packet, keyFor (f.headers sys) = some k → isDownstream (f.headers sys) k = downstream →
    f.stop ≤ a'.packet.payload.length

theorem Recovers.enriches {p q : ParsedPacket} (h : Recovers p q) : Enriches p q := by
  rcases h with rfl | ⟨-, sni, hne, rfl⟩
  · exact rfl
  · rw [applyRecovered, if_neg hne]
    exact enriches_mk p sni _ p.hostname p.info p.encryptedTunnel

/-- The packets a frame and its cut are analysed as. -/
theorem analyses_snapped {sys : Platform} {a a' : Arrival} {r r' : Result} (h : SnapCut a a')
    (hr : Analyses sys a.packet r) (hr' : Analyses sys a'.packet r') :
    SameHeaders r.parsed r'.parsed ∧ ∀ k, keyFor r.parsed = some k →
      KeepsPayload sys k (isDownstream r.parsed k) a a' → r'.parsed.payloadLength = r.parsed.payloadLength := by
  obtain ⟨f, hcut⟩ := h
  obtain ⟨p, hp, hrec⟩ := hr
  obtain ⟨p', hp', hrec'⟩ := hr'
  obtain ⟨q, hq, hsame, hlen⟩ := f.parse_headers sys
  obtain ⟨q', hq', hsame', hlen'⟩ := hcut.parse_headers sys
  obtain rfl : p = q := Except.ok.inj (hp.symm.trans hq)
  obtain rfl : p' = q' := Except.ok.inj (hp'.symm.trans hq')
  have hall := hsame.trans hrec.enriches.sameHeaders
  refine ⟨hall.symm.trans (hsame'.trans hrec'.enriches.sameHeaders), fun k hk hkeeps => ?_⟩
  have hstop := hkeeps f (by rw [← hk, keyFor_sameHeaders hall]) (by rw [isDownstream_sameHeaders hall])
  rw [hrec'.enriches.payloadLength, hrec.enriches.payloadLength, hlen', hlen, min_eq_left hstop]

/-- The results of two runs, side by side. -/
theorem forall₂_results {sys : Platform} {R : Arrival → Arrival → Prop} :
    ∀ {l l' : List Arrival} {rs rs' : List Result},
    List.Forall₂ R l l' → List.Forall₂ (fun a r => Analyses sys a.packet r) l rs →
      List.Forall₂ (fun a r => Analyses sys a.packet r) l' rs' →
        List.Forall₂ (fun r r' => ∃ a a', R a a' ∧ Analyses sys a.packet r ∧ Analyses sys a'.packet r') rs rs'
  | [], [], _, _, .nil, .nil, .nil => .nil
  | _ :: _, _ :: _, _, _, .cons h hl, .cons hr hrs, .cons hr' hrs' =>
    .cons ⟨_, _, h, hr, hr'⟩ (forall₂_results hl hrs hrs')

theorem forall₂_and {α : Type} {R S : α → α → Prop} {l l' : List α} (h : List.Forall₂ R l l')
    (h' : List.Forall₂ S l l') : List.Forall₂ (fun a b => R a b ∧ S a b) l l' := by
  induction h with
  | nil => exact .nil
  | cons hr _ ih =>
    cases h' with
    | cons hs hrest => exact .cons ⟨hr, hs⟩ (ih hrest)

theorem foldl_map_forall₂ {α β γ : Type} {R : α → α → Prop} {g : α → β} {f : γ → β → γ} {l l' : List α}
    (h : List.Forall₂ R l l') (hf : ∀ seen a a', R a a' → f seen (g a) = f seen (g a')) :
    ∀ seen, (l.map g).foldl f seen = (l'.map g).foldl f seen := by
  induction h with
  | nil => exact fun _ => rfl
  | cons ha _ ih =>
    intro seen
    rw [List.map_cons, List.map_cons, List.foldl_cons, List.foldl_cons, hf seen _ _ ha]
    exact ih _

/-- **Statistics and cuts.** Two runs on the same TCP frames, captured whole and
cut behind their headers, have the same flows with the same totals; and the same
losses in each direction of a flow whose segments keep their payload. -/
theorem flows_snapped (sys : Platform) {whole cut : List Arrival} (h : List.Forall₂ SnapCut whole cut) :
    Safe (feedAll sys {} whole) fun r => Safe (feedAll sys {} cut) fun r' => ∀ k now,
      (flowOf r.2 now k).map totals = (flowOf r'.2 now k).map totals ∧
      ∀ downstream, List.Forall₂ (KeepsPayload sys k downstream) whole cut →
        (flowOf r.2 now k).map (losses downstream) = (flowOf r'.2 now k).map (losses downstream) := by
  obtain ⟨⟨results, s⟩, hrun, hall, -⟩ := feedAll_safe sys whole (s := {}) QuicTracker.aligned_empty
  obtain ⟨⟨results', s'⟩, hrun', hall', -⟩ := feedAll_safe sys cut (s := {}) QuicTracker.aligned_empty
  dsimp only at hall hall'
  refine .of_eq hrun (.of_eq hrun' fun k now => ⟨?_, fun downstream hkeeps => ?_⟩)
  · rw [flowOf_observe observes_counted totals (fun state => totals state.flow) (fun _ _ => rfl) hrun,
      flowOf_observe observes_counted totals (fun state => totals state.flow) (fun _ _ => rfl) hrun']
    refine congrArg _ (foldl_map_forall₂ (forall₂_results h hall hall') ?_ none)
    rintro seen r r' ⟨a, a', hcut, hr, hr'⟩
    obtain ⟨hsame, -⟩ := analyses_snapped hcut hr hr'
    exact (credit_sameHeaders hsame (fun _ => count_sameHeaders hsame _) seen).symm
  · let counters : Delivery → UInt64 × UInt64 := fun d => (d.retransmissions, d.outOfOrder)
    have hshown : ∀ now state, losses downstream (report now state) = counters (state.delivery downstream) := by
      intro now state
      cases downstream <;> rfl
    rw [flowOf_observe (observes_delivery downstream) (losses downstream) counters hshown hrun,
      flowOf_observe (observes_delivery downstream) (losses downstream) counters hshown hrun']
    refine congrArg _ (foldl_map_forall₂ (forall₂_results (forall₂_and h hkeeps) hall hall') ?_ none)
    rintro seen r r' ⟨a, a', ⟨hcut, hkeep⟩, hr, hr'⟩
    obtain ⟨hsame, hlen⟩ := analyses_snapped hcut hr hr'
    refine (credit_sameHeaders hsame (fun hk => deliver_sameHeaders hsame fun hd => hlen k hk ?_) seen).symm
    rw [hd]
    exact hkeep

/-! Two segments in order, of which the first loses six of its ten bytes. -/

namespace Web

def first : Bytes := frame 1000 [1, 2, 3, 4, 5, 6, 7, 8, 9, 10]

def second : Bytes := frame 1010 [11, 12, 13, 14, 15, 16, 17, 18, 19, 20]

def whole : List Arrival := [arrival first 64 (by decide), arrival second 64 (by decide)]

def cut : List Arrival := [arrival first 58 (by decide), arrival second 64 (by decide)]

theorem snapCut_cut : List.Forall₂ SnapCut whole cut := by
  have hfirst : SnapCut (arrival first 64 (by decide)) (arrival first 58 (by decide)) :=
    ⟨⟨(14, kEthIPv4), 20, first.drop 34, by decide, by decide, by decide⟩, rfl, rfl, rfl, by decide, by decide⟩
  have hsecond : SnapCut (arrival second 64 (by decide)) (arrival second 64 (by decide)) :=
    ⟨⟨(14, kEthIPv4), 20, second.drop 34, by decide, by decide, by decide⟩, rfl, rfl, rfl, by decide, by decide⟩
  exact .cons hfirst (.cons hsecond .nil)

end Web

theorem flows_snapped_cut : Safe (feedAll Web.sys {} Web.whole) fun r =>
    Safe (feedAll Web.sys {} Web.cut) fun r' => ∀ k now,
      (flowOf r.2 now k).map totals = (flowOf r'.2 now k).map totals ∧
      ∀ downstream, List.Forall₂ (KeepsPayload Web.sys k downstream) Web.whole Web.cut →
        (flowOf r.2 now k).map (losses downstream) = (flowOf r'.2 now k).map (losses downstream) :=
  flows_snapped Web.sys Web.snapCut_cut

/-- The cut shows up as a segment out of order. -/
theorem losses_depend_on_cut : List.Forall₂ SnapCut Web.whole Web.cut ∧
    (fun r => (flowOf r.2 0 Web.key).map (losses false)) <$> feedAll Web.sys {} Web.whole = .ok (some (0, 0)) ∧
    (fun r => (flowOf r.2 0 Web.key).map (losses false)) <$> feedAll Web.sys {} Web.cut = .ok (some (0, 1)) :=
  ⟨Web.snapCut_cut, by decide +kernel, by decide +kernel⟩

end AnalysisSession
end NetProbe
