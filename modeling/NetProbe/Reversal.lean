/-
# The reverse of a frame

The reverse of a frame has the addresses and the ports of its last headers
exchanged and is the same frame elsewhere (`Reverse`). It is decoded through the
same headers, to the same packet with its ends exchanged (`decoded_reverse`):
every header is read alike but for the field itself (`layer_swapPorts`,
`layer_swapAddresses`), and nothing further in writes the field again
(`descend_carried`).

Key definitions: `swapAt`, `Carried`, `Last`, `Reverse`, `Reversed`.
Key theorems: `layer_swapPorts`, `layer_swapAddresses`, `decoded_rewrites`, `decoded_reverse`, `exists_reverse`.
-/
import NetProbe.Prefixes

namespace NetProbe
namespace ProtocolParser

open Checked Bytes

/-! ### Two fields exchanged -/

/-- The `n` bytes at `i` and the `n` bytes after them in each other's place. -/
def swapAt (b : Bytes) (i n : ℕ) : Bytes :=
  b.take i ++ (slice b (i + n) n ++ (slice b i n ++ b.drop (i + 2 * n)))

section SwapAt

variable {b b' : Bytes} {i n s : ℕ}

/-- Bytes are what is read of them one by one. -/
theorem bytes_ext (hlen : b'.length = b.length) (h : ∀ j < b.length, u8 b' j = u8 b j) : b' = b := by
  refine List.ext_getElem hlen fun j hj' hj => ?_
  have hj8 := h j hj
  rw [u8, u8, List.getD_eq_getElem?_getD, List.getD_eq_getElem?_getD, List.getElem?_eq_getElem hj',
    List.getElem?_eq_getElem hj] at hj8
  exact UInt8.toNat_inj.mp hj8

theorem length_swapAt (h : i + 2 * n ≤ b.length) : (swapAt b i n).length = b.length := by
  simp only [swapAt, slice, List.length_append, List.length_take, List.length_drop]
  omega

theorem u8_swapAt (h : i + 2 * n ≤ b.length) (j : ℕ) : u8 (swapAt b i n) j =
    if j < i then u8 b j else if j < i + n then u8 b (j + n) else if j < i + 2 * n then u8 b (j - n) else u8 b j := by
  have hfirst := length_slice b (i := i + n) (n := n) (by omega)
  have hsecond := length_slice b (i := i) (n := n) (by omega)
  have htake : (b.take i).length = i := by
    rw [List.length_take]
    omega
  have hright : ∀ {pre post : Bytes} {j : ℕ}, pre.length ≤ j → u8 (pre ++ post) j = u8 post (j - pre.length) := by
    intro pre post j hj
    obtain ⟨j, rfl⟩ := Nat.exists_eq_add_of_le hj
    rw [Nat.add_sub_cancel_left, ← u8_drop, List.drop_left]
  unfold swapAt
  split_ifs with h1 h2 h3
  · rw [u8_append_left (by omega), u8_take h1]
  · rw [hright (by omega), u8_append_left (by omega), u8_slice (by omega)]
    congr 1
    omega
  · rw [hright (by omega), hright (by omega), u8_append_left (by omega), u8_slice (by omega)]
    congr 1
    omega
  · rw [hright (by omega), hright (by omega), hright (by omega), u8_drop]
    congr 1
    omega

theorem agreeTo_swapAt (h : i + 2 * n ≤ b.length) : AgreeTo i b (swapAt b i n) := by
  refine ⟨length_swapAt h, bytes_ext (by rw [List.length_take, List.length_take, length_swapAt h]) fun j hj => ?_⟩
  rw [List.length_take] at hj
  rw [u8_take (by omega), u8_take (by omega), u8_swapAt h, if_pos (by omega)]

theorem drop_swapAt (h : i + 2 * n ≤ b.length) (hs : s ≤ i) : (swapAt b i n).drop s = swapAt (b.drop s) (i - s) n := by
  unfold swapAt
  rw [List.drop_append_of_le_length (by rw [List.length_take]; omega), List.drop_take, slice_drop, slice_drop,
    List.drop_drop, ← Nat.add_assoc, ← Nat.add_assoc, Nat.add_sub_cancel' hs]

theorem take_swapAt (h : i + 2 * n ≤ b.length) (hs : i + 2 * n ≤ s) :
    (swapAt b i n).take s = swapAt (b.take s) i n := by
  have htake : i + 2 * n ≤ (b.take s).length := by
    rw [List.length_take]
    omega
  refine bytes_ext ?_ fun j hj => ?_
  · rw [length_swapAt htake, List.length_take, List.length_take, length_swapAt h]
  · rw [length_swapAt htake, List.length_take] at hj
    rw [u8_take (by omega), u8_swapAt h, u8_swapAt htake]
    split_ifs
    all_goals rw [u8_take (by omega)]

/-- Nothing changes behind the fields. -/
theorem drop_swapAt_after (h : i + 2 * n ≤ b.length) (hs : i + 2 * n ≤ s) : (swapAt b i n).drop s = b.drop s := by
  refine bytes_ext (by rw [List.length_drop, List.length_drop, length_swapAt h]) fun j _ => ?_
  rw [u8_drop, u8_drop, u8_swapAt h, if_neg (by omega), if_neg (by omega), if_neg (by omega)]

theorem slice_swapAt_first (h : i + 2 * n ≤ b.length) : slice (swapAt b i n) i n = slice b (i + n) n := by
  have hlen := length_swapAt h
  refine bytes_ext (by rw [length_slice _ (by omega), length_slice _ (by omega)]) fun j hj => ?_
  rw [length_slice _ (by omega)] at hj
  rw [u8_slice hj, u8_slice hj, u8_swapAt h, if_neg (by omega), if_pos (by omega), Nat.add_right_comm]

theorem slice_swapAt_second (h : i + 2 * n ≤ b.length) : slice (swapAt b i n) (i + n) n = slice b i n := by
  have hlen := length_swapAt h
  refine bytes_ext (by rw [length_slice _ (by omega), length_slice _ (by omega)]) fun j hj => ?_
  rw [length_slice _ (by omega)] at hj
  rw [u8_slice hj, u8_slice hj, u8_swapAt h, if_neg (by omega), if_neg (by omega), if_pos (by omega)]
  congr 1
  omega

/-- A window around the fields. -/
theorem slice_swapAt {m : ℕ} (h : i + 2 * n ≤ b.length) (hs : s ≤ i) (hm : i + 2 * n ≤ s + m) :
    slice (swapAt b i n) s m = swapAt (slice b s m) (i - s) n := by
  unfold slice
  rw [drop_swapAt h hs, take_swapAt (by rw [List.length_drop]; omega) (by omega)]

end SwapAt

/-! ### A header with its ports exchanged -/

def Ports.turn (r : Ports) : Ports := { r with src := r.dst, dst := r.src }

def Upper.turn (u : Upper) : Upper := { u with report := { u.report with ports := u.report.ports.map Ports.turn } }

section SwapPorts

variable {w w' : Bytes} {l4Proto : ℕ}

theorem u16_swapAt_first (h : 4 ≤ w.length) : u16 (swapAt w 0 2) 0 = u16 w 2 := by
  rw [u16, u16, u8_swapAt h, u8_swapAt h]
  rfl

theorem u16_swapAt_second (h : 4 ≤ w.length) : u16 (swapAt w 0 2) 2 = u16 w 0 := by
  rw [u16, u16, u8_swapAt h, u8_swapAt h]
  rfl

theorem u8_swapAt_after {i : ℕ} (h : 4 ≤ w.length) (hi : 4 ≤ i) : u8 (swapAt w 0 2) i = u8 w i := by
  rw [u8_swapAt h, if_neg (by omega), if_neg (by omega), if_neg (by omega)]

theorem u16_swapAt_after {i : ℕ} (h : 4 ≤ w.length) (hi : 4 ≤ i) : u16 (swapAt w 0 2) i = u16 w i := by
  rw [u16, u16, u8_swapAt_after h hi, u8_swapAt_after h (by omega)]

theorem tcpReport_turn (h : 20 ≤ w.length) : tcpReport (swapAt w 0 2) =
    { tcpReport w with ports := (tcpReport w).ports.map Ports.turn } := by
  have h4 : 4 ≤ w.length := by omega
  have hlen : (swapAt w 0 2).length = w.length := length_swapAt h4
  have hseq : u32 (swapAt w 0 2) 4 = u32 w 4 := by
    rw [u32, u32, u16_swapAt_after h4 le_rfl, u16_swapAt_after h4 (by omega)]
  have hshort : ¬ w.length < 20 := by omega
  rw [tcpReport, tcpReport, hlen, if_neg hshort, if_neg hshort]
  dsimp only
  rw [u16_swapAt_first h4, u16_swapAt_second h4, hseq, u8_swapAt_after h4 (by omega), u8_swapAt_after h4 (by omega)]
  rfl

/-- What is inside is looked for behind the ports. -/
theorem innerEthernet_drop {o : ℕ} (h : w'.drop o = w.drop o) : innerEthernet w' o = innerEthernet w o := by
  unfold innerEthernet
  simp only [← List.drop_drop, h]

theorem innerType_drop {o type : ℕ} (h : w'.drop o = w.drop o) : innerType w' o type = innerType w o type := by
  unfold innerType
  rw [innerEthernet_drop h, h]

/-- VXLAN and GENEVE are announced by either port. -/
theorem udpTunnel_turn (h : 4 ≤ w.length) : udpTunnel (swapAt w 0 2) = udpTunnel w := by
  have hlen : (swapAt w 0 2).length = w.length := length_swapAt h
  have hdrop : ∀ {o}, 4 ≤ o → (swapAt w 0 2).drop o = w.drop o := fun ho => drop_swapAt_after h ho
  have hvxlan : vxlan (swapAt w 0 2) = vxlan w := by
    unfold vxlan
    rw [hlen, u8_swapAt_after h (by omega), innerEthernet_drop (hdrop (by omega))]
  have hgeneve : geneve (swapAt w 0 2) = geneve w := by
    unfold geneve
    dsimp only
    rw [hlen, u8_swapAt_after h (by omega), u16_swapAt_after h (by omega), innerType_drop (hdrop (by omega))]
  unfold udpTunnel
  rw [u16_swapAt_first h, u16_swapAt_second h, hvxlan, hgeneve]
  exact if_congr or_comm rfl (if_congr or_comm rfl rfl)

theorem datagram_turn (h : 8 ≤ w.length) : datagram (swapAt w 0 2) = swapAt (datagram w) 0 2 := by
  unfold datagram
  rw [u16_swapAt_after (by omega) le_rfl]
  split_ifs
  · exact take_swapAt (by omega) (by omega)
  · rfl

theorem udpLayer_turn (h : 8 ≤ w.length) : udpLayer (swapAt w 0 2) = (udpLayer w).turn := by
  have h4 : 4 ≤ w.length := by omega
  have hlen : ¬ (swapAt w 0 2).length < 8 := by
    rw [length_swapAt h4]
    omega
  have hdata : 4 ≤ (datagram w).length := by
    unfold datagram
    split_ifs
    · rw [List.length_take]
      omega
    · exact h4
  have hdatalen : (datagram (swapAt w 0 2)).length = (datagram w).length := by
    rw [datagram_turn h]
    exact length_swapAt hdata
  have hreport : udpReport (swapAt w 0 2) = { udpReport w with ports := (udpReport w).ports.map Ports.turn } := by
    rw [udpReport, udpReport, if_neg hlen, if_neg (show ¬ w.length < 8 by omega), u16_swapAt_first h4,
      u16_swapAt_second h4, hdatalen]
    rfl
  rw [udpLayer, hreport, hdatalen, datagram_turn h, udpTunnel_turn hdata]
  rfl

/-- A transport header with ports is the same one with its ports exchanged. -/
theorem transportLayer_turn (hp : (transportLayer w l4Proto).report.ports.isSome) :
    4 ≤ w.length ∧ transportLayer (swapAt w 0 2) l4Proto = (transportLayer w l4Proto).turn := by
  unfold transportLayer at hp ⊢
  split_ifs at hp ⊢ with htcp hudp
  · have hlen : 20 ≤ w.length := by
      unfold tcpReport at hp
      by_contra hc
      rw [if_pos (by omega)] at hp
      cases hp
    refine ⟨by omega, ?_⟩
    rw [tcpReport_turn hlen]
    rfl
  · have hlen : 8 ≤ w.length := by
      unfold udpLayer udpReport at hp
      by_contra hc
      rw [if_pos (by omega)] at hp
      cases hp
    exact ⟨by omega, udpLayer_turn hlen⟩
  all_goals cases hp

/-- The same under a header of `o` bytes, in a packet that ends at `m`. -/
theorem segment_turn {o m : ℕ} (hp : (transportLayer ((w.take m).drop o) l4Proto).report.ports.isSome) :
    o + 2 * 2 ≤ w.length ∧ transportLayer (((swapAt w o 2).take m).drop o) l4Proto =
      (transportLayer ((w.take m).drop o) l4Proto).turn := by
  obtain ⟨hlen, hturn⟩ := transportLayer_turn hp
  rw [List.length_drop, List.length_take] at hlen
  have hdrop : (swapAt (w.take m) o 2).drop o = swapAt ((w.take m).drop o) 0 2 := by
    rw [drop_swapAt (by rw [List.length_take]; omega) le_rfl, Nat.sub_self]
  refine ⟨by omega, ?_⟩
  rw [take_swapAt (by omega) (by omega), hdrop, hturn]

variable {sys : Platform} {etherType : ℕ}

/-- A layer with ports is the same one with its ports exchanged. -/
theorem layer_swapPorts (hp : (layer sys w etherType).report.ports.isSome) :
    0 < (layer sys w etherType).origin ∧ (layer sys w etherType).origin + 2 * 2 ≤ w.length ∧
      layer sys (swapAt w (layer sys w etherType).origin 2) etherType =
        { layer sys w etherType with toUpper := (layer sys w etherType).toUpper.turn } := by
  unfold layer at hp ⊢
  split_ifs at hp ⊢
  · cases hp
  · cases hp
  · unfold ipv4Layer at hp ⊢
    dsimp only at hp ⊢
    split_ifs at hp with hc hf
    · cases hp
    · cases hp
    · simp only [if_neg hc, if_neg hf]
      obtain ⟨hle, hturn⟩ := segment_turn hp
      have h := agreeTo_swapAt hle
      refine ⟨by omega, hle, ?_⟩
      rw [h.1, h.u8_eq (by omega), h.u8_eq (by omega), h.u16_eq (by omega), h.u16_eq (by omega), h.slice_eq (by omega),
        h.slice_eq (by omega), if_neg hc, if_neg hf, hturn]
  · unfold ipv6Layer at hp ⊢
    dsimp only at hp ⊢
    split_ifs at hp with hc
    · cases hp
    · simp only [if_neg hc]
      obtain ⟨hle, hturn⟩ := segment_turn hp
      have h := agreeTo_swapAt hle
      have hpacket := h.take (40 + u16 w 4)
      have hchain := v6Chain_agree (v6Extension_upper (.inl hp)) (hpacket.drop 40) rfl (by omega)
      refine ⟨by omega, hle, ?_⟩
      rw [h.1, h.u8_eq (by omega), h.u16_eq (by omega), h.slice_eq (by omega), h.slice_eq (by omega), if_neg hc,
        hpacket.1, hchain, hturn]
  · unfold arpLayer at hp
    dsimp only at hp
    split_ifs at hp <;> cases hp
  · cases hp

end SwapPorts

/-! ### A header with its addresses exchanged -/

/-- Where the addresses of an IP header start, and how long each of them is. -/
def addressField (etherType : ℕ) : ℕ × ℕ := if etherType = kEthIPv6 then (8, 16) else (12, 4)

section SwapAddresses

variable {sys : Platform} {w : Bytes}

theorem ipv4Layer_swapAddresses (ha : (ipv4Layer sys w).addresses.isSome) :
    12 + 2 * 4 ≤ w.length ∧ ipv4Layer sys (swapAt w 12 4) =
      { ipv4Layer sys w with addresses := (ipv4Layer sys w).addresses.map Prod.swap } := by
  unfold ipv4Layer at ha ⊢
  dsimp only at ha ⊢
  by_cases hc : w.length < 20 ∨ u8 w 0 >>> 4 ≠ 4 ∨ (u8 w 0 &&& 0x0F) * 4 < 20 ∨ w.length < (u8 w 0 &&& 0x0F) * 4 ∨
      u16 w 2 < (u8 w 0 &&& 0x0F) * 4
  · rw [if_pos hc] at ha
    cases ha
  · have hle : 12 + 2 * 4 ≤ w.length := by omega
    have h := agreeTo_swapAt hle
    have hfirst : slice (swapAt w 12 4) 12 4 = slice w 16 4 := slice_swapAt_first hle
    have hsecond : slice (swapAt w 12 4) 16 4 = slice w 12 4 := slice_swapAt_second hle
    refine ⟨hle, ?_⟩
    rw [h.1, h.u8_eq (by omega), h.u8_eq (by omega), h.u16_eq (by omega), h.u16_eq (by omega), hfirst, hsecond,
      if_neg hc, if_neg hc, take_swapAt hle (by omega),
      drop_swapAt_after (by rw [List.length_take]; omega) (by omega)]
    split_ifs <;> rfl

theorem ipv6Layer_swapAddresses (ha : (ipv6Layer sys w).addresses.isSome) :
    8 + 2 * 16 ≤ w.length ∧ ipv6Layer sys (swapAt w 8 16) =
      { ipv6Layer sys w with addresses := (ipv6Layer sys w).addresses.map Prod.swap } := by
  unfold ipv6Layer at ha ⊢
  dsimp only at ha ⊢
  by_cases hc : w.length < 40
  · rw [if_pos hc] at ha
    cases ha
  · have hle : 8 + 2 * 16 ≤ w.length := by omega
    have h := agreeTo_swapAt hle
    have hfirst : slice (swapAt w 8 16) 8 16 = slice w 24 16 := slice_swapAt_first hle
    have hsecond : slice (swapAt w 8 16) 24 16 = slice w 8 16 := slice_swapAt_second hle
    have htake : 8 + 2 * 16 ≤ (w.take (40 + u16 w 4)).length := by
      rw [List.length_take]
      omega
    refine ⟨hle, ?_⟩
    rw [h.1, h.u8_eq (by omega), h.u16_eq (by omega), hfirst, hsecond, if_neg hc, if_neg hc, take_swapAt hle (by omega),
      length_swapAt htake, drop_swapAt_after htake (by omega), drop_swapAt_after htake (by omega)]
    rfl

/-- An IP header with addresses is the same one with its addresses exchanged. -/
theorem layer_swapAddresses {etherType : ℕ} (h : decodesIP sys w etherType = true) :
    (addressField etherType).1 + 2 * (addressField etherType).2 ≤ w.length ∧
      layer sys (swapAt w (addressField etherType).1 (addressField etherType).2) etherType =
        { layer sys w etherType with addresses := (layer sys w etherType).addresses.map Prod.swap } := by
  obtain ⟨he, ha⟩ := Bool.and_eq_true_iff.mp h
  rcases (Bool.or_eq_true_iff.mp he).imp of_decide_eq_true of_decide_eq_true with rfl | rfl
  · exact ipv4Layer_swapAddresses ha
  · exact ipv6Layer_swapAddresses ha

end SwapAddresses

/-! ### Descents side by side

Two packets that go through the same layers, all of them with `P`, stay related. -/

structure Carried (P : Layer → Prop) (R : ParsedPacket → ParsedPacket → Prop) : Prop where
  read : ∀ {l base p q}, P l → R p q → R (l.read base p) (l.read base q)
  plain : ∀ {r : Report}, r.ports = none → P { report := r }
  push : ∀ {p q} name, R p q → R (pushTunnel p name) (pushTunnel q name)
  settle : ∀ (t : Tunnel) p q, R p q → R (t.settle p) (t.settle q)

def Visit.layer (sys : Platform) (v : Visit) : Layer := ProtocolParser.layer sys v.bytes v.etherType

theorem visited_descents {sys : Platform} {n base etherType : ℕ} {w : Bytes} {carriers : List String} {p : ParsedPacket}
    {v : Visit} (h : Visited sys n base w etherType carriers p v) : v.descents < n := by
  induction h with
  | here => exact Nat.lt_succ_self _
  | inside _ _ _ ih => exact ih.trans (Nat.lt_succ_self _)

section Carried

variable {sys : Platform} {P : Layer → Prop} {R : ParsedPacket → ParsedPacket → Prop} (h : Carried P R)
  {n base etherType : ℕ} {w : Bytes} {carriers : List String} {p q : ParsedPacket} {u v : Visit}
include h

/-- A tunnel, given what holds of the layers inside. -/
theorem decodeTunnel_carried {inside : Inside} {deeper : Bool} {tunnel : Option Tunnel}
    (hlimit : ∀ t ∈ tunnel, ∀ r ∈ t.atLimit, r.ports = none)
    (hinside : ∀ t ∈ tunnel, ∀ i ∈ t.inside deeper, R (t.push p) (t.push q) →
      R (inside (base + i.offset) i.bytes i.etherType (t.push p)) (inside (base + i.offset) i.bytes i.etherType (t.push q)))
    (hR : R p q) : R (decodeTunnel inside deeper base tunnel p) (decodeTunnel inside deeper base tunnel q) := by
  cases tunnel with
  | none => exact hR
  | some t =>
    have hpush : R (t.push p) (t.push q) := by
      unfold Tunnel.push
      cases t.name with
      | none => exact hR
      | some name => exact h.push name hR
    rw [decodeTunnel, decodeTunnel]
    obtain ⟨r, hl, -, -, hdecode⟩ | ⟨-, hinner, hdecode⟩ := t.inside_cases deeper
    · have hread : R (r.apply base p) (r.apply base q) := h.read (h.plain (hlimit t rfl r hl)) hR
      rw [hdecode, hdecode]
      exact hread
    · rw [hdecode, hdecode]
      refine h.settle t _ _ ?_
      cases hi : t.inner with
      | none => exact hpush
      | some i => exact hinside t rfl i (hinner.trans hi) hpush

theorem descend_carried (hP : ∀ u, Visited sys n base w etherType carriers p u → P (u.layer sys)) (hR : R p q) :
    R (descend sys n base w etherType p) (descend sys n base w etherType q) := by
  induction n generalizing base w etherType carriers p q with
  | zero => exact hR
  | succ n ih =>
    obtain ⟨-, hu⟩ := layer_wellFormed sys w etherType
    have hread : R ((layer sys w etherType).read base p) ((layer sys w etherType).read base q) := h.read (hP _ .here) hR
    rw [descend_succ, descend_succ]
    exact decodeTunnel_carried h (fun t ht r hr => ((hu.tunnel t ht).atLimit r hr).1)
      (fun t ht i hi hpush => ih (fun u hu => hP u (.inside ht hi hu)) hpush) hread

/-- A header read differently, over the same tunnel. -/
theorem decode_carried {b : Bytes}
    (hP : ∀ u, Visited sys (v.descents + 1) v.base v.bytes v.etherType v.carriers v.before u →
      u.descents < v.descents → P (u.layer sys))
    (htunnel : (layer sys b v.etherType).tunnel = (v.layer sys).tunnel)
    (horigin : (layer sys b v.etherType).origin = (v.layer sys).origin)
    (hread : R ((v.layer sys).read v.base v.before) ((layer sys b v.etherType).read v.base v.before)) :
    R (v.decode sys) ({ v with bytes := b }.decode sys) := by
  obtain ⟨-, hu⟩ := layer_wellFormed sys v.bytes v.etherType
  unfold Visit.decode
  dsimp only
  rw [descend_succ, descend_succ, htunnel, horigin]
  refine decodeTunnel_carried h (fun t ht r hr => ((hu.tunnel t ht).atLimit r hr).1) (fun t ht i hi hpush => ?_) hread
  exact descend_carried h (fun u hu => hP u (.inside ht hi hu) (visited_descents hu)) hpush

end Carried

/-! ### The reverse of a frame -/

def HasPorts (l : Layer) : Prop := l.report.ports.isSome

instance (l : Layer) : Decidable (HasPorts l) := inferInstanceAs (Decidable (_ = true))

def HasAddresses (l : Layer) : Prop := l.addresses.isSome

instance (l : Layer) : Decidable (HasAddresses l) := inferInstanceAs (Decidable (_ = true))

/-- The last header of the frame with `P`. -/
structure Last (sys : Platform) (frame : PacketData) (P : Layer → Prop) (v : Visit) : Prop where
  decodes : Decodes sys frame v
  has : P (v.layer sys)
  last : ∀ u, Decodes sys frame u → P (u.layer sys) → v.descents ≤ u.descents

/-- `frame'` is `frame` but for its bytes. -/
structure Rewrites (frame : PacketData) (b : Bytes) (frame' : PacketData) : Prop where
  timestamp : frame'.timestamp = frame.timestamp
  length : frame'.length = frame.length
  capturedLength : frame'.capturedLength = frame.capturedLength
  linkType : frame'.linkType = frame.linkType
  payload : frame'.payload = b

/-- The ports reported of the frame in each other's place, if there are any. -/
def SwapsPorts (sys : Platform) (frame frame' : PacketData) : Prop :=
  (∃ v, Last sys frame HasPorts v ∧
    Rewrites frame (swapAt frame.payload (v.base + (v.layer sys).origin) 2) frame') ∨
  ((∀ v, Decodes sys frame v → ¬ HasPorts (v.layer sys)) ∧ frame' = frame)

/-- The addresses reported of the frame in each other's place. -/
def SwapsAddresses (sys : Platform) (frame frame' : PacketData) : Prop :=
  ∃ v, Last sys frame HasAddresses v ∧ (v.etherType = kEthIPv4 ∨ v.etherType = kEthIPv6) ∧
    Rewrites frame (swapAt frame.payload (v.base + (addressField v.etherType).1) (addressField v.etherType).2) frame'

/-- The frame with its ports and its addresses exchanged and nothing else. -/
def Reverse (sys : Platform) (frame frame' : PacketData) : Prop :=
  ∃ turned, SwapsPorts sys frame turned ∧ SwapsAddresses sys turned frame'

/-- The only header of a frame without tunnels is its last one. -/
theorem last_untunnelled {sys : Platform} {frame : PacketData} {network : ℕ × ℕ} {P : Layer → Prop}
    (hn : linkLayer frame.payload frame.linkType = some network)
    (ht : (layer sys (frame.payload.drop network.1) network.2).tunnel = none)
    (hP : P (layer sys (frame.payload.drop network.1) network.2)) :
    Last sys frame P ⟨kMaxTunnelDepth, network.1, frame.payload.drop network.1, network.2, [], blank frame⟩ := by
  refine ⟨⟨network, hn, .here⟩, hP, ?_⟩
  rintro u ⟨network', hn', hu⟩ -
  obtain rfl : network' = network := Option.some.inj (hn'.symm.trans hn)
  cases hu with
  | here => exact le_rfl
  | inside ht' =>
    rw [ht] at ht'
    cases ht'

/-- The reverse of a frame without tunnels: the ports and then the addresses of
its only headers are exchanged. -/
theorem reverse_untunnelled {sys : Platform} {frame turned frame' : PacketData} {network : ℕ × ℕ}
    (hn : linkLayer frame.payload frame.linkType = some network)
    (ht : (layer sys (frame.payload.drop network.1) network.2).tunnel.isNone)
    (hports : HasPorts (layer sys (frame.payload.drop network.1) network.2))
    (hturned : Rewrites frame (swapAt frame.payload
      (network.1 + (layer sys (frame.payload.drop network.1) network.2).origin) 2) turned)
    (hn' : linkLayer turned.payload turned.linkType = some network)
    (ht' : (layer sys (turned.payload.drop network.1) network.2).tunnel.isNone)
    (haddresses : HasAddresses (layer sys (turned.payload.drop network.1) network.2))
    (hip : network.2 = kEthIPv4 ∨ network.2 = kEthIPv6)
    (hreverse : Rewrites turned (swapAt turned.payload
      (network.1 + (addressField network.2).1) (addressField network.2).2) frame') : Reverse sys frame frame' :=
  ⟨turned, .inl ⟨_, last_untunnelled hn (Option.isNone_iff_eq_none.mp ht) hports, hturned⟩,
    _, last_untunnelled hn' (Option.isNone_iff_eq_none.mp ht') haddresses, hip, hreverse⟩

theorem Visited.trans {sys : Platform} {n base etherType : ℕ} {w : Bytes} {carriers : List String} {p : ParsedPacket}
    {u v : Visit} (h : Visited sys n base w etherType carriers p v)
    (hu : Visited sys (v.descents + 1) v.base v.bytes v.etherType v.carriers v.before u) :
    Visited sys n base w etherType carriers p u := by
  induction h with
  | here => exact hu
  | inside ht hi _ ih => exact .inside ht hi (ih hu)

section Rewrites

variable {sys : Platform} {frame frame' : PacketData} {network : ℕ × ℕ} {P : Layer → Prop}
  {R : ParsedPacket → ParsedPacket → Prop} {v : Visit} {b : Bytes}

/-- A frame rewritten inside the last header with `P` is decoded to a related packet. -/
theorem decoded_rewrites (h : Carried (fun l => ¬ P l) R) (hv : Last sys frame P v) (hb : Rewrites frame b frame')
    (hn : linkLayer frame.payload frame.linkType = some network) (hagree : AgreeTo (v.base + 1) frame.payload b)
    (htunnel : (layer sys (slice b v.base v.bytes.length) v.etherType).tunnel = (v.layer sys).tunnel)
    (horigin : (layer sys (slice b v.base v.bytes.length) v.etherType).origin = (v.layer sys).origin)
    (hread : R ((v.layer sys).read v.base v.before)
      ((layer sys (slice b v.base v.bytes.length) v.etherType).read v.base v.before)) :
    linkLayer frame'.payload frame'.linkType = some network ∧
      R (decoded sys frame network) (decoded sys frame' network) := by
  obtain ⟨network', hn', hvisited⟩ := hv.decodes
  obtain rfl : network' = network := Option.some.inj (hn'.symm.trans hn)
  obtain ⟨hbase, -, -⟩ := visited_window hvisited
  have hblank : blank frame' = blank frame := by rw [blank, hb.timestamp, hb.length, blank]
  have hinside : ∀ u, Visited sys (v.descents + 1) v.base v.bytes v.etherType v.carriers v.before u →
      u.descents < v.descents → ¬ P (u.layer sys) := by
    intro u hu hlt hP
    have := hv.last u ⟨network', hn, hvisited.trans hu⟩ hP
    omega
  have hdecode := decode_carried h hinside htunnel horigin hread
  have hslice : slice b v.base v.bytes.length = slice (b.drop network'.1) (v.base - network'.1) v.bytes.length := by
    rw [slice_drop, Nat.add_sub_cancel' hbase]
  rw [hslice] at hdecode
  refine ⟨?_, ?_⟩
  · rw [hb.payload, hb.linkType]
    exact linkLayer_agree hagree hn (by omega)
  · rw [decoded, decoded, hblank, hb.payload]
    exact descend_agree h.settle hvisited ((hagree.drop network'.1).mono (by omega)) hdecode

end Rewrites

def PortsTurned (p q : ParsedPacket) : Prop := q = { p with srcPort := p.dstPort, dstPort := p.srcPort }

/-- The outer addresses are those of a tunnel under the same header, if any. -/
def AddressesTurned (p q : ParsedPacket) : Prop :=
  ∃ outerSrcIP outerDstIP, q = { p with srcIP := p.dstIP, dstIP := p.srcIP, outerSrcIP, outerDstIP }

theorem carried_ports : Carried (fun l => ¬ HasPorts l) PortsTurned where
  read := by
    rintro ⟨⟨⟨protocol, _ | ports, tcp, service, encryptedTunnel⟩, tunnel⟩, addresses, origin⟩ base p q hl rfl
    · cases tcp <;> cases addresses <;> rfl
    · exact absurd rfl hl
  plain h := by simp [HasPorts, h]
  push name h := by
    obtain rfl := h
    unfold PortsTurned pushTunnel
    dsimp only
    split_ifs <;> rfl
  settle t p q h := by
    obtain rfl := h
    unfold PortsTurned Tunnel.settle
    dsimp only
    split_ifs <;> rfl

theorem carried_addresses : Carried (fun l => ¬ HasAddresses l) AddressesTurned where
  read := by
    rintro ⟨⟨⟨protocol, ports, tcp, service, encryptedTunnel⟩, tunnel⟩, _ | addresses, origin⟩ base p q hl ⟨a, b, rfl⟩
    · refine ⟨a, b, ?_⟩
      rcases ports with _ | ⟨src, dst, _ | payload⟩ <;> cases tcp <;> rfl
    · exact absurd rfl hl
  plain _ := by simp [HasAddresses]
  push name h := by
    obtain ⟨a, b, rfl⟩ := h
    unfold AddressesTurned pushTunnel
    dsimp only
    split_ifs <;> exact ⟨_, _, rfl⟩
  settle t p q h := by
    obtain ⟨a, b, rfl⟩ := h
    refine ⟨a, b, ?_⟩
    unfold Tunnel.settle
    dsimp only
    split_ifs <;> rfl

theorem read_turn {l : Layer} (h : HasPorts l) (base : ℕ) (p : ParsedPacket) :
    PortsTurned (l.read base p) (Layer.read { l with toUpper := l.toUpper.turn } base p) := by
  obtain ⟨⟨⟨protocol, _ | ⟨src, dst, payload⟩, tcp, service, encryptedTunnel⟩, tunnel⟩, addresses, origin⟩ := l
  · cases h
  · cases payload <;> cases tcp <;> rfl

theorem read_swap {l : Layer} (h : HasAddresses l) (base : ℕ) (p : ParsedPacket) :
    AddressesTurned (l.read base p) (Layer.read { l with addresses := l.addresses.map Prod.swap } base p) := by
  obtain ⟨⟨⟨protocol, ports, tcp, service, encryptedTunnel⟩, tunnel⟩, _ | addresses, origin⟩ := l
  · cases h
  · refine ⟨p.outerSrcIP, p.outerDstIP, ?_⟩
    rcases ports with _ | ⟨src, dst, _ | payload⟩ <;> cases tcp <;> rfl

section Reverse

variable {sys : Platform} {frame frame' : PacketData} {network : ℕ × ℕ}

/-- The window of a header around two of its fields. -/
theorem window_swapAt {v : Visit} {i n : ℕ} (hv : Decodes sys frame v) (hi : i + 2 * n ≤ v.bytes.length) :
    AgreeTo (v.base + i) frame.payload (swapAt frame.payload (v.base + i) n) ∧
      slice (swapAt frame.payload (v.base + i) n) v.base v.bytes.length = swapAt v.bytes i n := by
  obtain ⟨network, hn, hvisited⟩ := hv
  obtain ⟨hbase, hle, hbytes⟩ := visited_window hvisited
  rw [List.length_drop] at hle
  rw [slice_drop, Nat.add_sub_cancel' hbase] at hbytes
  have hfits : v.base + i + 2 * n ≤ frame.payload.length := by
    have := linkLayer_le hn
    omega
  refine ⟨agreeTo_swapAt hfits, ?_⟩
  rw [slice_swapAt hfits (by omega) (by omega), ← hbytes, Nat.add_sub_cancel_left]

theorem decoded_swapsPorts (h : SwapsPorts sys frame frame')
    (hn : linkLayer frame.payload frame.linkType = some network) :
    linkLayer frame'.payload frame'.linkType = some network ∧
      PortsTurned (decoded sys frame network) (decoded sys frame' network) := by
  rcases h with ⟨v, hv, hb⟩ | ⟨hnone, rfl⟩
  · obtain ⟨hpos, hle, hlayer⟩ := layer_swapPorts hv.has
    obtain ⟨hagree, hwindow⟩ := window_swapAt hv.decodes hle
    refine decoded_rewrites carried_ports hv hb hn (hagree.mono (Nat.add_le_add_left hpos _)) ?_ ?_ ?_
    all_goals rw [Visit.layer, hwindow, hlayer]
    · rfl
    · exact read_turn hv.has ..
  · refine ⟨hn, descend_carried carried_ports (fun u hu => hnone u ⟨network, hn, hu⟩) ?_⟩
    rfl

theorem decoded_swapsAddresses (h : SwapsAddresses sys frame frame')
    (hn : linkLayer frame.payload frame.linkType = some network) :
    linkLayer frame'.payload frame'.linkType = some network ∧
      AddressesTurned (decoded sys frame network) (decoded sys frame' network) := by
  obtain ⟨v, hv, hip, hb⟩ := h
  have hdecodes : decodesIP sys v.bytes v.etherType = true :=
    Bool.and_eq_true_iff.mpr ⟨by rcases hip with he | he <;> simp [he], hv.has⟩
  obtain ⟨hle, hlayer⟩ := layer_swapAddresses hdecodes
  obtain ⟨hagree, hwindow⟩ := window_swapAt hv.decodes hle
  have hpos : 1 ≤ (addressField v.etherType).1 := by
    unfold addressField
    split_ifs <;> decide
  refine decoded_rewrites carried_addresses hv hb hn (hagree.mono (by omega)) ?_ ?_ ?_
  all_goals rw [hwindow, hlayer]
  · rfl
  · rfl
  · exact read_swap hv.has ..

/-- `q` is `p` with its ends exchanged. -/
def Reversed (p q : ParsedPacket) : Prop :=
  ∃ outerSrcIP outerDstIP, q = { p with
    srcIP := p.dstIP, dstIP := p.srcIP, srcPort := p.dstPort, dstPort := p.srcPort, outerSrcIP, outerDstIP }

/-- **The reverse of a frame is decoded to the same packet, its ends exchanged.** -/
theorem decoded_reverse (h : Reverse sys frame frame') (hn : linkLayer frame.payload frame.linkType = some network) :
    linkLayer frame'.payload frame'.linkType = some network ∧
      Reversed (decoded sys frame network) (decoded sys frame' network) := by
  obtain ⟨turned, hports, haddresses⟩ := h
  obtain ⟨hnt, hp⟩ := decoded_swapsPorts hports hn
  obtain ⟨hn', a, b, hq⟩ := decoded_swapsAddresses haddresses hnt
  unfold PortsTurned at hp
  refine ⟨hn', a, b, ?_⟩
  rw [hq, hp]

/-! ### Every TCP or UDP frame has a reverse -/

theorem exists_last {P : Layer → Prop} {v : Visit} (hv : Decodes sys frame v) (hP : P (v.layer sys)) :
    ∃ u, Last sys frame P u := by
  obtain ⟨u, ⟨hu, hPu⟩, hmin⟩ :=
    (measure Visit.descents).wf.has_min {u | Decodes sys frame u ∧ P (u.layer sys)} ⟨v, hv, hP⟩
  exact ⟨u, hu, hPu, fun x hx hPx => not_lt.mp (hmin x ⟨hx, hPx⟩)⟩

/-- The frame with other bytes of the same number. -/
theorem exists_rewrites {k : ℕ} {b : Bytes} (h : AgreeTo k frame.payload b) : ∃ frame', Rewrites frame b frame' :=
  ⟨{ frame with payload := b, fits := h.1 ▸ frame.fits }, rfl, rfl, rfl, rfl, rfl⟩

theorem exists_swapsPorts (sys : Platform) (frame : PacketData) : ∃ turned, SwapsPorts sys frame turned := by
  by_cases hports : ∃ v, Decodes sys frame v ∧ HasPorts (v.layer sys)
  · obtain ⟨v, hv, hP⟩ := hports
    obtain ⟨u, hu⟩ := exists_last hv hP
    obtain ⟨-, hle, -⟩ := layer_swapPorts hu.has
    obtain ⟨turned, hturned⟩ := exists_rewrites (window_swapAt hu.decodes hle).1
    exact ⟨turned, .inl ⟨u, hu, hturned⟩⟩
  · exact ⟨frame, .inr ⟨fun v hv hP => hports ⟨v, hv, hP⟩, rfl⟩⟩

/-- Addresses are those of an IP header or of ARP, which ends a descent. -/
theorem etherType_of_addresses {w : Bytes} {etherType : ℕ} (h : HasAddresses (layer sys w etherType)) :
    (etherType = kEthIPv4 ∨ etherType = kEthIPv6) ∨
      ((layer sys w etherType).report.protocol = some "ARP" ∧ (layer sys w etherType).tunnel = none) := by
  unfold HasAddresses at h
  unfold layer at h ⊢
  split_ifs at h ⊢ with hm hp h4 h6 ha
  · cases h
  · cases h
  · exact .inl (.inl h4)
  · exact .inl (.inr h6)
  · right
    unfold arpLayer
    dsimp only
    split_ifs <;> exact ⟨rfl, rfl⟩
  · cases h

theorem exists_swapsAddresses (hn : linkLayer frame.payload frame.linkType = some network)
    (ht : IsTransport (decoded sys frame network)) : ∃ frame', SwapsAddresses sys frame frame' := by
  have hip : ∃ v, Decodes sys frame v ∧ HasAddresses (v.layer sys) := by
    cases hv : innermost sys (kMaxTunnelDepth + 1) network.1 (frame.payload.drop network.1) network.2 [] (blank frame) with
    | none =>
      obtain ⟨hblank, -⟩ := (descend_kept hv).2.mp ht
      exact absurd (show "Unknown" = "TCP" ∨ "Unknown" = "UDP" from hblank) (by decide)
    | some v =>
      obtain ⟨-, hip, -⟩ := entry_innermost hv (entry_blank _ frame)
      exact ⟨v, ⟨network, hn, visited_innermost hv⟩, (Bool.and_eq_true_iff.mp hip).2⟩
  obtain ⟨v, hv, hP⟩ := hip
  obtain ⟨u, hu⟩ := exists_last hv hP
  have hether : u.etherType = kEthIPv4 ∨ u.etherType = kEthIPv6 := by
    rcases etherType_of_addresses hu.has with he | ⟨hprotocol, htunnel⟩
    · exact he
    · obtain ⟨network', hn', hvisited⟩ := hu.decodes
      obtain rfl : network' = network := Option.some.inj (hn'.symm.trans hn)
      have hdecode : (u.decode sys).protocol = "ARP" := by
        rw [Visit.decode, descend_succ, htunnel, decodeTunnel, Layer.read, protocol_apply, hprotocol]
        rfl
      have harp := (descend_visited hvisited).2.mp ht
      rw [IsTransport, hdecode] at harp
      exact absurd harp (by decide)
  have hdecodes : decodesIP sys u.bytes u.etherType = true :=
    Bool.and_eq_true_iff.mpr ⟨by rcases hether with he | he <;> simp [he], hu.has⟩
  obtain ⟨frame', hframe'⟩ := exists_rewrites (window_swapAt hu.decodes (layer_swapAddresses hdecodes).1).1
  exact ⟨frame', u, hu, hether, hframe'⟩

theorem network_of_transport {r : ParsedPacket} (hr : parse sys frame = .ok r) (ht : IsTransport r) :
    ∃ network, linkLayer frame.payload frame.linkType = some network ∧ IsTransport (decoded sys frame network) ∧
      Enriches (decoded sys frame network) r := by
  have hnone : ¬ (linkLayer frame.payload frame.linkType = none ∨ frame.payload = []) := by
    intro h
    obtain ⟨protocol, hprotocol, hp⟩ := parse_none sys h
    obtain rfl := Except.ok.inj (hp.symm.trans hr)
    simp only [List.mem_cons, List.not_mem_nil, or_false] at hprotocol
    have ht : protocol = "TCP" ∨ protocol = "UDP" := ht
    rcases hprotocol with rfl | rfl | rfl <;> simp at ht
  rw [not_or] at hnone
  obtain ⟨network, hn⟩ := Option.ne_none_iff_exists'.mp hnone.1
  obtain ⟨q, -, -, hen⟩ := enriches_of_parse hnone.2 hn hr
  exact ⟨network, hn, (isTransport_enriches hen).mp ht, hen⟩

/-- **Every frame reported as TCP or UDP has a reverse.** -/
theorem exists_reverse {r : ParsedPacket} (hr : parse sys frame = .ok r) (ht : IsTransport r) :
    ∃ frame', Reverse sys frame frame' := by
  obtain ⟨network, hn, hdecoded, -⟩ := network_of_transport hr ht
  obtain ⟨turned, hturned⟩ := exists_swapsPorts sys frame
  obtain ⟨hnt, hports⟩ := decoded_swapsPorts hturned hn
  obtain ⟨frame', hframe'⟩ := exists_swapsAddresses hnt (by rw [hports]; exact hdecoded)
  exact ⟨frame', turned, hturned, hframe'⟩

end Reverse

end ProtocolParser
end NetProbe
