/-
# What a carrier is read from

A layer with a tunnel is read from the bytes ahead of what is inside: two windows
that agree up to there have the same layer, but for the window inside
(`layer_agree`). A frame rewritten inside one of its headers is therefore decoded
through the same headers down to it (`descend_agree`).

Key definitions: `AgreeTo`, `Inner.within`, `Local`.
Key theorems: `layer_agree`, `descend_agree`, `linkLayer_agree`.
-/
import NetProbe.Relocation
import NetProbe.SnapLength
import NetProbe.Visits

namespace NetProbe
namespace ProtocolParser

open Checked Bytes

/-- Windows of one length with the same first `k` bytes. -/
def AgreeTo (k : ℕ) (w w' : Bytes) : Prop := w'.length = w.length ∧ w'.take k = w.take k

namespace AgreeTo

variable {k : ℕ} {w w' : Bytes}

theorem mono {m : ℕ} (h : AgreeTo k w w') (hm : m ≤ k) : AgreeTo m w w' := by
  refine ⟨h.1, ?_⟩
  have htake := congrArg (List.take m) h.2
  rwa [List.take_take, List.take_take, min_eq_left hm] at htake

theorem drop (h : AgreeTo k w w') (m : ℕ) : AgreeTo (k - m) (w.drop m) (w'.drop m) := by
  refine ⟨by rw [List.length_drop, List.length_drop, h.1], ?_⟩
  rw [← List.drop_take, ← List.drop_take, h.2]

theorem take (h : AgreeTo k w w') (m : ℕ) : AgreeTo k (w.take m) (w'.take m) := by
  refine ⟨by rw [List.length_take, List.length_take, h.1], ?_⟩
  rw [List.take_take, List.take_take, min_comm, ← List.take_take, ← List.take_take, h.2]

theorem slice (h : AgreeTo k w w') (i n : ℕ) : AgreeTo (k - i) (slice w i n) (slice w' i n) := (h.drop i).take n

theorem u8_eq {j : ℕ} (h : AgreeTo k w w') (hj : j < k) : u8 w' j = u8 w j := by
  rw [← u8_take hj, h.2, u8_take hj]

theorem u16_eq {j : ℕ} (h : AgreeTo k w w') (hj : j + 1 < k) : u16 w' j = u16 w j := by
  rw [u16, u16, h.u8_eq (by omega), h.u8_eq hj]

theorem slice_eq {i n : ℕ} (h : AgreeTo k w w') (hn : i + n ≤ k) : Bytes.slice w' i n = Bytes.slice w i n := by
  rw [← slice_take hn, h.2, slice_take hn]

end AgreeTo

/-- The link header, with the first byte of the packet under it. -/
theorem linkLayer_agree {k : ℕ} {w w' : Bytes} {link : LinkType} {network : ℕ × ℕ} (h : AgreeTo k w w')
    (hn : linkLayer w link = some network) (hk : network.1 < k) : linkLayer w' link = some network := by
  have hcut := linkLayer_take hn hk
  rw [← h.2] at hcut
  rw [← List.take_append_drop k w']
  exact linkLayer_append_left hcut

/-! ### What is inside -/

/-- The window `i` in the bytes `w`. -/
def Inner.within (w : Bytes) (i : Inner) : Inner := { i with bytes := slice w i.offset i.bytes.length }

/-- `inner` is read from the bytes ahead of what it finds, and finds it where it says. -/
def Local (inner : Bytes → Option Inner) : Prop :=
  ∀ {k : ℕ} {w w' : Bytes} {i : Inner}, AgreeTo k w w' → inner w = some i → i.offset < k →
    i.within w = i ∧ inner w' = some (i.within w')

/-- The same of a tunnel header. -/
def LocalTunnel (tunnel : Bytes → Option Tunnel) : Prop :=
  ∀ {k : ℕ} {w w' : Bytes} {t : Tunnel} {i : Inner}, AgreeTo k w w' → tunnel w = some t → t.inner = some i →
    i.offset < k → i.within w = i ∧ tunnel w' = some { t with inner := some (i.within w') }

/-- The same of a header with a tunnel header under it. -/
def LocalUpper (upper : Bytes → Upper) : Prop :=
  ∀ {k : ℕ} {w w' : Bytes} {t : Tunnel} {i : Inner}, AgreeTo k w w' → (upper w).tunnel = some t → t.inner = some i →
    i.offset < k → i.within w = i ∧ upper w' = { upper w with tunnel := some { t with inner := some (i.within w') } }

section Local

variable {k : ℕ} {w w' : Bytes} {i : Inner}

/-- The rest of a window, in a window of the same length. -/
theorem within_drop (h : w'.length = w.length) (n e : ℕ) : Inner.within w' ⟨n, w.drop n, e⟩ = ⟨n, w'.drop n, e⟩ := by
  unfold Inner.within slice
  rw [List.take_of_length_le]
  simp only [List.length_drop, h]
  exact le_rfl

theorem innerEthernet_local (offset : ℕ) : Local (innerEthernet · offset) := by
  intro k w w' i h hi hk
  obtain ⟨e, he, rfl⟩ := Option.map_eq_some_iff.mp hi
  have hdrop := h.drop offset
  dsimp only at hk
  have he' : ethernet (w'.drop offset) = some e := @linkLayer_agree _ _ _ .Ethernet e hdrop he (by omega)
  refine ⟨within_drop rfl .., ?_⟩
  dsimp only
  rw [innerEthernet, he', within_drop h.1]
  rfl

theorem innerType_local (offset type : ℕ) : Local (innerType · offset type) := by
  intro k w w' i h hi hk
  dsimp only at hi ⊢
  unfold innerType at hi ⊢
  split_ifs at hi with ht hip
  · rw [if_pos ht]
    exact innerEthernet_local offset h hi hk
  · cases hi
    rw [if_neg ht, if_pos hip, within_drop h.1]
    exact ⟨within_drop rfl .., rfl⟩

theorem vxlan_local : LocalTunnel vxlan := by
  intro k w w' t i h ht hi hk
  unfold vxlan at ht ⊢
  split_ifs at ht with hc
  cases ht
  have hoffset := innerEthernet_offset hi
  obtain ⟨hw, hw'⟩ := innerEthernet_local 16 h hi hk
  have hw' : innerEthernet w' 16 = some (i.within w') := hw'
  refine ⟨hw, ?_⟩
  rw [h.1, h.u8_eq (by omega), if_neg hc, hw']

theorem geneve_local : LocalTunnel geneve := by
  intro k w w' t i h ht hi hk
  unfold geneve at ht ⊢
  dsimp only at ht ⊢
  split_ifs at ht with hc
  cases ht
  have hoffset := innerType_offset hi
  obtain ⟨hw, hw'⟩ := innerType_local _ _ h hi hk
  have hw' : innerType w' (8 + (8 + (u8 w 8 &&& 0x3F) * 4)) (u16 w 10) = some (i.within w') := hw'
  refine ⟨hw, ?_⟩
  rw [h.1, h.u8_eq (by omega), h.u16_eq (by omega), if_neg hc, hw']

theorem udpTunnel_local : LocalTunnel udpTunnel := by
  intro k w w' t i h ht hi hk
  have hoffset := (udpTunnel_carrier ht).2 i hi
  unfold udpTunnel at ht ⊢
  rw [h.u16_eq (by omega), h.u16_eq (by omega)]
  split_ifs at ht with hv hg
  · rw [if_pos hv]
    exact vxlan_local h ht hi hk
  · rw [if_neg hv, if_pos hg]
    exact geneve_local h ht hi hk

theorem gre_local : LocalTunnel fun w => some (gre w) := by
  intro k w w' t i h ht hi hk
  cases ht
  obtain ⟨headerLen, hlen, hi⟩ := Option.bind_eq_some_iff.mp hi
  have hoffset := innerType_offset hi
  have hfour := (greHeaderLen_eq_some hlen).1
  have hlen' : greHeaderLen w' = some headerLen := by
    rw [← hlen]
    unfold greHeaderLen
    rw [h.1, h.u16_eq (by omega)]
  obtain ⟨hw, hw'⟩ := innerType_local _ _ h hi hk
  have hw' : innerType w' headerLen (u16 w 2) = some (i.within w') := hw'
  refine ⟨hw, ?_⟩
  simp only [gre, hlen, hlen', Option.bind_some, Option.map_some, h.u16_eq (show 2 + 1 < k by omega), hw']

theorem ipInIp_local (name : String) (l4Proto e : ℕ) : LocalTunnel fun w => some (ipInIp name l4Proto e w) := by
  intro k w w' t i h ht hi hk
  cases ht
  cases hi
  have hzero : ∀ w : Bytes, (⟨0, w, e⟩ : Inner) = ⟨0, w.drop 0, e⟩ := fun w => rfl
  rw [hzero w, within_drop h.1, within_drop rfl]
  exact ⟨rfl, rfl⟩

theorem mplsInner_local : ∀ labels pos : ℕ, Local (mplsInner · labels pos) := by
  intro labels
  induction labels with
  | zero => intro pos k w w' i h hi; cases hi
  | succ labels ih =>
    intro pos k w w' i h hi hk
    have hpos : pos + 4 ≤ i.offset := by
      obtain ⟨offset, etherType, hoffset, -, rfl⟩ := mplsInner_eq_some hi
      exact hoffset
    dsimp only at hi ⊢
    unfold mplsInner at hi ⊢
    rw [h.1, h.u8_eq (by omega)]
    split_ifs at hi with hl hb
    · rw [if_neg hl, if_pos hb]
      exact ih (pos + 4) h hi hk
    · obtain ⟨e, he, rfl⟩ := Option.map_eq_some_iff.mp hi
      dsimp only at hk
      rw [if_neg hl, if_neg hb, within_drop h.1]
      have he' : versionAt w' (pos + 4) = some e := by
        rw [← he]
        unfold versionAt
        rw [h.1, h.u8_eq (by omega)]
      rw [he']
      exact ⟨within_drop rfl .., rfl⟩

theorem pppoeInner_local : Local pppoeInner := by
  intro k w w' i h hi hk
  have height : i.offset = 8 := by
    obtain ⟨etherType, -, -, rfl⟩ := pppoeInner_eq_some hi
    rfl
  unfold pppoeInner at hi ⊢
  rw [h.1, h.u16_eq (by omega)]
  split_ifs at hi with hl h4 h6
  · cases hi
    rw [if_neg hl, if_pos h4, within_drop h.1]
    exact ⟨within_drop rfl .., rfl⟩
  · cases hi
    rw [if_neg hl, if_neg h4, if_pos h6, within_drop h.1]
    exact ⟨within_drop rfl .., rfl⟩

end Local

/-! ### Layers -/

section Layers

variable {k : ℕ} {w w' : Bytes} {t : Tunnel} {i : Inner}

theorem datagram_agree (h : AgreeTo k w w') (hk : 6 ≤ k) : AgreeTo k (datagram w) (datagram w') := by
  unfold datagram
  rw [h.u16_eq (by omega)]
  split_ifs
  · exact h.take _
  · exact h

/-- A window inside a part of the bytes is one inside all of them. -/
theorem within_take {n : ℕ} (h : i.offset + i.bytes.length ≤ n) : i.within (w.take n) = i.within w := by
  unfold Inner.within
  rw [slice_take h]

theorem within_datagram (h : i.offset + i.bytes.length ≤ (datagram w).length) : i.within (datagram w) = i.within w := by
  unfold datagram at h ⊢
  split_ifs at h ⊢
  · rw [List.length_take] at h
    exact within_take (by omega)
  · rfl

theorem udpLayer_local : LocalUpper udpLayer := by
  intro k w w' t i h ht hi hk
  obtain ⟨hl, ht⟩ := udpLayer_tunnel ht
  have hoffset := (udpTunnel_carrier ht).2 i hi
  have hdata := datagram_agree h (by omega)
  obtain ⟨hw, hw'⟩ := udpTunnel_local hdata ht hi hk
  have hle := (udpTunnel_wellFormed ht).inner i hi
  have hl' : 8 < (datagram w').length := by rwa [hdata.1]
  rw [within_datagram hle] at hw
  rw [within_datagram (by rwa [hdata.1])] at hw'
  refine ⟨hw, ?_⟩
  unfold udpLayer
  rw [udpReport_payload hl, udpReport_payload hl', h.u16_eq (by omega), h.u16_eq (by omega), hdata.1,
    if_neg (by omega), hw']

theorem transportLayer_local (l4Proto : ℕ) : LocalUpper (transportLayer · l4Proto) := by
  have hbare : ∀ {tunnel : Bytes → Tunnel}, LocalTunnel (fun w => some (tunnel w)) →
      LocalUpper fun w => { tunnel := some (tunnel w) } := by
    intro tunnel htunnel k w w' t i h ht hi hk
    obtain ⟨hw, hw'⟩ := htunnel h ht hi hk
    exact ⟨hw, congrArg (Upper.mk {}) hw'⟩
  have hipInIp := fun name l4Proto e => @hbare _ (@ipInIp_local name l4Proto e)
  intro k w w' t i h ht hi hk
  dsimp only at ht ⊢
  unfold transportLayer at ht ⊢
  split_ifs at ht ⊢
  · exact udpLayer_local h ht hi hk
  · exact hipInIp _ _ _ h ht hi hk
  · exact hipInIp _ _ _ h ht hi hk
  · exact @hbare _ @gre_local _ _ _ _ _ h ht hi hk

theorem v6Extension_agree {nh : ℕ} {e : ℕ × ℕ} (h : AgreeTo k w w') (he : v6Extension nh w = some e) (hk : e.1 ≤ k) :
    v6Extension nh w' = some e := by
  have hle := v6Extension_le he
  rw [← he]
  unfold v6Extension
  rw [h.1, h.u8_eq (by omega), h.u8_eq (by omega)]

/-- A chain of extension headers is read from its own bytes when no extension
header can follow it. -/
theorem v6Chain_agree {upper : ℕ} (hupper : ∀ w, v6Extension upper w = none) : ∀ {n nh k length : ℕ} {w w' : Bytes},
    AgreeTo k w w' → v6Chain n nh w = (upper, length) → length ≤ k → v6Chain n nh w' = (upper, length) := by
  intro n
  induction n with
  | zero => intro nh k length w w' _ hc _; exact hc
  | succ n ih =>
    intro nh k length w w' h hc hk
    rw [v6Chain] at hc ⊢
    cases he : v6Extension nh w with
    | none =>
      rw [he] at hc
      obtain ⟨rfl, rfl⟩ := Prod.mk.inj hc
      rw [hupper]
    | some e =>
      rw [he] at hc
      obtain ⟨hfirst, hsecond⟩ := Prod.mk.inj hc
      have hlength : e.1 + (v6Chain n e.2 (w.drop e.1)).2 = length := hsecond
      have hle : (v6Chain n e.2 (w.drop e.1)).2 ≤ k - e.1 := by omega
      have hrest := ih (h.drop e.1) (Prod.ext hfirst rfl) hle
      rw [v6Extension_agree h he (by omega)]
      dsimp only
      rw [hrest, hlength]

/-- Only TCP, UDP and the tunnels over IP are looked into. -/
theorem v6Extension_upper {l4Proto : ℕ} (h : (transportLayer w l4Proto).report.ports.isSome ∨
    (transportLayer w l4Proto).tunnel.isSome) (b : Bytes) : v6Extension l4Proto b = none := by
  have hproto : l4Proto = 6 ∨ l4Proto = 17 ∨ l4Proto = 4 ∨ l4Proto = 41 ∨ l4Proto = 47 := by
    unfold transportLayer at h
    split_ifs at h <;> first | omega | simp [icmpReport] at h
  rcases hproto with rfl | rfl | rfl | rfl | rfl
  all_goals exact v6Extension_none (by decide) b

/-- What is under a header of `o` bytes, in a packet that ends at `m`. -/
theorem transportLayer_agree {o m l4Proto : ℕ} (h : AgreeTo k w w')
    (ht : (transportLayer ((w.take m).drop o) l4Proto).tunnel = some t) (hi : t.inner = some i)
    (hk : o + i.offset < k) :
    i.within (w.drop o) = i ∧ transportLayer ((w'.take m).drop o) l4Proto =
      { transportLayer ((w.take m).drop o) l4Proto with tunnel := some { t with inner := some (i.within (w'.drop o)) } } := by
  have hsegment := (h.take m).drop o
  obtain ⟨hw, hw'⟩ := transportLayer_local l4Proto hsegment ht hi (by omega)
  have hle := ((transportLayer_wellFormed _ _).tunnel t ht).inner i hi
  rw [List.length_drop, List.length_take] at hle
  rw [List.drop_take, within_take (by omega)] at hw
  have hcut : i.within ((w'.take m).drop o) = i.within (w'.drop o) := by rw [List.drop_take, within_take (by omega)]
  refine ⟨hw, ?_⟩
  calc transportLayer ((w'.take m).drop o) l4Proto
      = { transportLayer ((w.take m).drop o) l4Proto with
          tunnel := some { t with inner := some (i.within ((w'.take m).drop o)) } } := hw'
    _ = { transportLayer ((w.take m).drop o) l4Proto with
          tunnel := some { t with inner := some (i.within (w'.drop o)) } } := by rw [hcut]

variable {sys : Platform} {etherType : ℕ}

/-- A layer with something inside is read from the bytes ahead of it. -/
theorem layer_agree (h : AgreeTo k w w') (ht : (layer sys w etherType).tunnel = some t) (hi : t.inner = some i)
    (hk : (layer sys w etherType).origin + i.offset < k) :
    i.within (w.drop (layer sys w etherType).origin) = i ∧ layer sys w' etherType = { layer sys w etherType with
      tunnel := some { t with inner := some (i.within (w'.drop (layer sys w etherType).origin)) } } := by
  unfold layer at ht hk ⊢
  split_ifs at ht hk ⊢ with hm hp h4 h6 ha
  · obtain rfl := Option.some.inj ht
    obtain ⟨hw, hw'⟩ := mplsInner_local 8 0 h hi (by omega)
    have hw' : mplsInner w' 8 0 = some (i.within w') := hw'
    have hi : mplsInner w 8 0 = some i := hi
    refine ⟨hw, ?_⟩
    simp only [mpls, hi, hw', Option.map_some, List.drop_zero]
  · obtain rfl := Option.some.inj ht
    obtain ⟨hw, hw'⟩ := pppoeInner_local h hi (by omega)
    have hi : pppoeInner w = some i := hi
    refine ⟨hw, ?_⟩
    simp only [pppoe, hi, hw', Option.map_some, List.drop_zero]
  · unfold ipv4Layer at ht hk ⊢
    dsimp only at ht hk ⊢
    split_ifs at ht with hc hf
    simp only [if_neg hc, if_neg hf] at hk ⊢
    obtain ⟨hw, hw'⟩ := transportLayer_agree h ht hi hk
    refine ⟨hw, ?_⟩
    rw [h.1, h.u8_eq (by omega), h.u8_eq (by omega), h.u16_eq (by omega), h.u16_eq (by omega), h.slice_eq (by omega),
      h.slice_eq (by omega), if_neg hc, if_neg hf, hw']
  · unfold ipv6Layer at ht hk ⊢
    dsimp only at ht hk ⊢
    split_ifs at ht with hc
    simp only [if_neg hc] at hk ⊢
    have hpacket := h.take (40 + u16 w 4)
    have hchain := v6Chain_agree (v6Extension_upper (.inr (by rw [ht]; rfl))) (hpacket.drop 40) rfl (by omega)
    obtain ⟨hw, hw'⟩ := transportLayer_agree h ht hi hk
    refine ⟨hw, ?_⟩
    rw [h.1, h.u8_eq (by omega), h.u16_eq (by omega), h.slice_eq (by omega), h.slice_eq (by omega), if_neg hc,
      hpacket.1, hchain, hw']
  · unfold arpLayer at ht
    dsimp only at ht
    split_ifs at ht

end Layers

/-! ### Headers on the way -/

section Visited

variable {sys : Platform} {n base etherType : ℕ} {w w' : Bytes} {carriers : List String} {p : ParsedPacket} {v : Visit}

theorem slice_drop (b : Bytes) (m i n : ℕ) : slice (b.drop m) i n = slice b (m + i) n := by
  rw [slice, slice, List.drop_drop]

/-- What is inside a layer lies in its window. -/
theorem inner_window {t : Tunnel} {i : Inner} (ht : t ∈ (layer sys w etherType).tunnel) (hi : i ∈ t.inner) :
    (layer sys w etherType).origin + i.offset + i.bytes.length ≤ w.length ∧
      i.bytes = slice w ((layer sys w etherType).origin + i.offset) i.bytes.length := by
  obtain ⟨ho, hu⟩ := layer_wellFormed sys w etherType
  have hle := (hu.tunnel t ht).inner i hi
  have hsame : AgreeTo ((layer sys w etherType).origin + i.offset + 1) w w := ⟨rfl, rfl⟩
  obtain ⟨hw, -⟩ := layer_agree hsame ht hi (Nat.lt_succ_self _)
  refine ⟨by omega, ?_⟩
  rw [← slice_drop]
  exact (congrArg Inner.bytes hw).symm

/-- A header on the way starts in the window it is found in. -/
theorem visited_window (h : Visited sys n base w etherType carriers p v) :
    base ≤ v.base ∧ v.base - base + v.bytes.length ≤ w.length ∧
      v.bytes = slice w (v.base - base) v.bytes.length := by
  induction h with
  | @here n base w etherType carriers p =>
    dsimp only
    rw [Nat.sub_self, slice_zero, List.take_length]
    exact ⟨le_rfl, (Nat.zero_add _).le, rfl⟩
  | @inside n base w etherType carriers p t i v ht hi h ih =>
    obtain ⟨hbase, hle, hbytes⟩ := ih
    obtain ⟨hile, hib⟩ := inner_window ht (inside_le hi)
    have hsplit : v.base - base = (layer sys w etherType).origin + i.offset +
        (v.base - (base + (layer sys w etherType).origin + i.offset)) := by omega
    refine ⟨by omega, by omega, ?_⟩
    rw [hsplit, ← slice_slice hle, ← hib]
    exact hbytes

theorem inside_replace {t : Tunnel} {i : Inner} {deeper : Bool} (hi : i ∈ t.inside deeper) (j : Inner) :
    j ∈ Tunnel.inside { t with inner := some j } deeper := by
  unfold Tunnel.inside at hi ⊢
  split at hi
  · cases hi
  · rfl

/-- Windows that agree up to a header are decoded through the same headers down
to it, and differ by what it is decoded to. -/
theorem descend_agree {R : ParsedPacket → ParsedPacket → Prop}
    (hsettle : ∀ (t : Tunnel) p q, R p q → R (t.settle p) (t.settle q))
    (h : Visited sys n base w etherType carriers p v)
    (hw : AgreeTo (v.base - base + 1) w w')
    (hR : R (v.decode sys) ({ v with bytes := slice w' (v.base - base) v.bytes.length }.decode sys)) :
    R (descend sys n base w etherType p) (descend sys n base w' etherType p) := by
  induction h generalizing w' with
  | @here n base w etherType carriers p =>
    rw [Visit.decode, Visit.decode] at hR
    dsimp only at hR hw
    rw [Nat.sub_self, slice_zero, ← hw.1, List.take_length] at hR
    exact hR
  | @inside n base w etherType carriers p t i v ht hi h ih =>
    obtain ⟨hbase, hle, -⟩ := visited_window h
    have hsplit : v.base - base = (layer sys w etherType).origin + i.offset +
        (v.base - (base + (layer sys w etherType).origin + i.offset)) := by omega
    obtain ⟨hwithin, hlayer⟩ := layer_agree hw ht (inside_le hi) (by omega)
    have hdecode : descend sys (n + 1) base w etherType p =
        t.settle (descend sys n (base + (layer sys w etherType).origin + i.offset) i.bytes i.etherType
          (t.push ((layer sys w etherType).read base p))) := by
      rw [descend_succ, Option.mem_def.mp ht, decodeTunnel, decode_inside hi]
    have hdecode' : descend sys (n + 1) base w' etherType p =
        t.settle (descend sys n (base + (layer sys w etherType).origin + i.offset)
          (slice w' ((layer sys w etherType).origin + i.offset) i.bytes.length) i.etherType
          (t.push ((layer sys w etherType).read base p))) := by
      rw [descend_succ, hlayer, ← slice_drop]
      exact decode_inside (inside_replace hi _)
    have hinside := (hw.slice ((layer sys w etherType).origin + i.offset) i.bytes.length).mono
      (show v.base - (base + (layer sys w etherType).origin + i.offset) + 1 ≤ _ by omega)
    rw [← (inner_window ht (inside_le hi)).2] at hinside
    rw [hdecode, hdecode']
    refine hsettle t _ _ (ih hinside ?_)
    rw [slice_slice hle, ← hsplit]
    exact hR

end Visited

end ProtocolParser
end NetProbe
