/-
# Nested tunnels are transparent

A packet in any stack of carriers over IP and Ethernet is decoded as it is on
its own. The carriers write nothing but addresses, tunnel names and the outer
addresses; the packet's own layers write the addresses again, so that only the
route to them differs: `passed` lists the tunnels a descent enters, and `Route`
is what entering them leaves.

Key definitions: `Route`, `passed`, `Rerouted`.
Key theorems: `route_descend`, `descend_nest`, `descend_echoes`, `parse_nest_transparent`.
-/
import NetProbe.Encapsulations

namespace NetProbe
namespace ProtocolParser

open Checked Bytes Wire

/-! ### Texts that are never empty -/

structure Tunnel.Named (t : Tunnel) : Prop where
  name : t.name ≠ some ""
  unnamed : t.name = none → t.inner = none
  atLimit : ∀ r ∈ t.atLimit, r.protocol ≠ some ""
  label : t.label ≠ "" ∨ t.placeholder = []

structure Upper.Named (u : Upper) : Prop where
  protocol : u.report.protocol ≠ some ""
  tunnel : ∀ t ∈ u.tunnel, t.Named

theorem Upper.Named.plain {r : Report} (h : r.protocol ≠ some "") : Upper.Named { report := r } :=
  ⟨h, by simp⟩

theorem Upper.Named.bare {t : Tunnel} (h : t.Named) : Upper.Named { tunnel := some t } :=
  ⟨by simp, by simpa using h⟩

theorem ipInIp_named {name : String} (h : name ≠ "") (l4Proto etherType : ℕ) (w : Bytes) :
    (ipInIp name l4Proto etherType w).Named :=
  ⟨by simpa [ipInIp] using h, by simp [ipInIp], by simp [ipInIp], .inr rfl⟩

theorem gre_named (w : Bytes) : (gre w).Named := by
  refine ⟨?_, ?_, by simp [gre], .inl (by simp [gre])⟩
  · cases h : greHeaderLen w <;> simp [gre, h]
  · cases h : greHeaderLen w <;> simp [gre, h]

theorem udpTunnel_named {w : Bytes} {t : Tunnel} (h : udpTunnel w = some t) : t.Named := by
  unfold udpTunnel at h
  split_ifs at h
  · unfold vxlan at h
    split_ifs at h
    cases h
    exact ⟨by simp, by simp, by simp, .inr rfl⟩
  · unfold geneve at h
    dsimp only at h
    split_ifs at h
    cases h
    exact ⟨by simp, by simp, by simp, .inr rfl⟩

theorem transportLayer_named (w : Bytes) (l4Proto : ℕ) : (transportLayer w l4Proto).Named := by
  have hname : ∀ n, ipProtocolName n ≠ some "" := by
    intro n
    unfold ipProtocolName
    split <;> simp
  unfold transportLayer
  split_ifs
  · exact .plain (by unfold tcpReport; split <;> simp)
  · refine ⟨by unfold udpLayer udpReport; split <;> simp, fun t ht => ?_⟩
    unfold udpLayer at ht
    dsimp only at ht
    split_ifs at ht
    · cases ht
    · exact udpTunnel_named ht
  · exact .plain (by simp [icmpReport])
  · exact .plain (by simp [icmpReport])
  · exact .bare (ipInIp_named (by decide) ..)
  · exact .bare (ipInIp_named (by decide) ..)
  · exact .bare (gre_named w)
  · exact .plain (by simp)
  · refine .plain ?_
    cases hn : ipProtocolName l4Proto with
    | none => simp
    | some name => simpa [hn] using hname l4Proto

theorem layer_named (sys : Platform) (w : Bytes) (etherType : ℕ) : (layer sys w etherType).toUpper.Named := by
  apply layer_cases (P := fun u _ => u.Named) sys w etherType
  case transport => exact fun _ _ _ _ => transportLayer_named ..
  case mpls =>
    refine .bare ⟨?_, ?_, by simp [mpls], .inl (by simp [mpls])⟩
    · cases h : mplsInner w 8 0 <;> simp [mpls, h]
    · cases h : mplsInner w 8 0 <;> simp [mpls, h]
  case pppoe =>
    refine .bare ⟨?_, ?_, by simp [pppoe], .inl (by simp [pppoe])⟩
    · cases h : pppoeInner w <;> simp [pppoe, h]
    · cases h : pppoeInner w <;> simp [pppoe, h]
  case empty => exact .plain (by simp)
  case unlabelled => exact fun protocol h => .plain (by simpa using h)
  case arp => exact fun _ => .plain (by simp)

/-- A descent leaves no packet without a protocol. -/
theorem protocol_descend_ne {sys : Platform} : ∀ {n base etherType : ℕ} {w : Bytes} {p : ParsedPacket},
    p.protocol ≠ "" → (descend sys n base w etherType p).protocol ≠ "" := by
  have hreport : ∀ (r : Report) (base : ℕ) (p : ParsedPacket), r.protocol ≠ some "" → p.protocol ≠ "" →
      (r.apply base p).protocol ≠ "" := by
    intro r base p hr hp
    rw [protocol_apply]
    cases h : r.protocol with
    | none => exact hp
    | some protocol => exact fun he => hr (by rw [h, ← he]; rfl)
  intro n
  induction n with
  | zero => intro base etherType w p hp; exact hp
  | succ n ih =>
    intro base etherType w p hp
    obtain ⟨hprotocol, htunnel⟩ := layer_named sys w etherType
    unfold descend Layer.decode Upper.decode
    generalize layer sys w etherType = l at *
    have haddresses : (setAddresses l.addresses p).protocol ≠ "" := by cases l.addresses <;> exact hp
    have happly := hreport l.report (base + l.origin) _ hprotocol haddresses
    generalize l.report.apply (base + l.origin) (setAddresses l.addresses p) = q at *
    cases ht : l.tunnel with
    | none => exact happly
    | some t =>
      obtain ⟨-, -, hlimit, hlabel⟩ := htunnel t ht
      have hpush : (t.push q).protocol ≠ "" := by
        rw [t.push_frame]
        exact happly
      have hinner : (enterInner (descend sys n) (base + l.origin) t.inner (t.push q)).protocol ≠ "" := by
        cases t.inner with
        | none => exact hpush
        | some i => exact ih hpush
      have henter : (t.enter (descend sys n) (base + l.origin) q).protocol ≠ "" := by
        unfold Tunnel.enter Tunnel.settle
        split_ifs with hm
        · rcases hlabel with hl | he
          · exact hl
          · simp [he] at hm
        · exact hinner
      rw [decodeTunnel]
      obtain ⟨r, hl, -, hdecode⟩ | ⟨-, hdecode⟩ := t.decode_cases (0 < n)
      · rw [hdecode]
        exact hreport r _ q (hlimit r hl) happly
      · rw [hdecode]
        exact henter

/-! ### Routes -/

/-- The addresses and the tunnel fields of a packet. -/
structure Route where
  srcIP : String
  dstIP : String
  tunnel : String
  outerSrcIP : String
  outerDstIP : String

/-- A tunnel header, with the addresses of the IP header it stands under, if any. -/
abbrev Passage := Option (String × String) × String

namespace Route

def address (addresses : Option (String × String)) (r : Route) : Route :=
  match addresses with
  | some (srcIP, dstIP) => { r with srcIP, dstIP }
  | none => r

def push (name : String) (r : Route) : Route :=
  let r := if r.outerSrcIP = "" ∧ r.srcIP ≠ "" then { r with outerSrcIP := r.srcIP, outerDstIP := r.dstIP } else r
  { r with tunnel := if r.tunnel = "" then name else r.tunnel ++ ("/" ++ name) }

/-- The IP header first, then the tunnel under it. -/
def enter (r : Route) (t : Passage) : Route := (r.address t.1).push t.2

/-- The names so far, joined. -/
def Joins (names : List String) (r : Route) : Prop := r.tunnel = "/".intercalate names

theorem intercalate_ne {names : List String} (hne : names ≠ []) (h : ∀ name ∈ names, name ≠ "") :
    "/".intercalate names ≠ "" := by
  cases names with
  | nil => exact absurd rfl hne
  | cons name rest =>
    cases rest with
    | nil =>
      rw [String.intercalate_singleton]
      exact h name List.mem_cons_self
    | cons next rest =>
      rw [String.intercalate_cons_cons]
      simp

theorem joins_push {names : List String} {r : Route} (h : r.Joins names) (hnames : ∀ name ∈ names, name ≠ "")
    (name : String) : (r.push name).Joins (names ++ [name]) := by
  have htunnel : (r.push name).tunnel = if r.tunnel = "" then name else r.tunnel ++ ("/" ++ name) := by
    unfold push
    dsimp only
    split_ifs <;> rfl
  rw [Joins, htunnel, h]
  by_cases hn : names = []
  · simp [hn]
  · rw [if_neg (intercalate_ne hn hnames), String.intercalate_append_of_ne_nil hn (by simp),
      String.intercalate_singleton, String.append_assoc]

/-- Names are joined in the order the tunnels are entered. -/
theorem joins_foldl {ts : List Passage} : ∀ {names : List String} {r : Route}, r.Joins names →
    (∀ name ∈ names ++ ts.map Prod.snd, name ≠ "") → (ts.foldl enter r).Joins (names ++ ts.map Prod.snd) := by
  induction ts with
  | nil =>
    intro names r h _
    simpa using h
  | cons t ts ih =>
    intro names r h hnames
    have haddress : (r.address t.1).Joins names := by
      unfold address
      split <;> exact h
    have hpush := joins_push haddress (fun name hm => hnames name (List.mem_append_left _ hm)) t.2
    have hih := ih hpush
    rw [List.append_assoc, List.singleton_append] at hih
    exact hih hnames

/-- Outer addresses, once there, stay. -/
theorem outer_fixed {r : Route} (h : r.outerSrcIP ≠ "") (ts : List Passage) :
    (ts.foldl enter r).outerSrcIP = r.outerSrcIP ∧ (ts.foldl enter r).outerDstIP = r.outerDstIP := by
  induction ts generalizing r with
  | nil => exact ⟨rfl, rfl⟩
  | cons t ts ih =>
    have hkeep : (r.enter t).outerSrcIP = r.outerSrcIP ∧ (r.enter t).outerDstIP = r.outerDstIP := by
      obtain ⟨_ | a, name⟩ := t <;> simp [enter, address, push, h]
    obtain ⟨h1, h2⟩ := ih (r := r.enter t) (by rw [hkeep.1]; exact h)
    exact ⟨h1.trans hkeep.1, h2.trans hkeep.2⟩

/-- The outer addresses are the first ones a tunnel is entered under. -/
theorem outer_foldl {ts : List Passage} (hts : ∀ t ∈ ts, ∀ a ∈ t.1, a.1 ≠ "") {r : Route} (hsrc : r.srcIP = "")
    (houter : r.outerSrcIP = "" ∧ r.outerDstIP = "") :
    ((ts.foldl enter r).outerSrcIP, (ts.foldl enter r).outerDstIP) = (ts.findSome? Prod.fst).getD ("", "") := by
  induction ts generalizing r with
  | nil => exact Prod.ext houter.1 houter.2
  | cons t ts ih =>
    obtain ⟨_ | a, name⟩ := t
    · have hsrc' : (r.enter (none, name)).srcIP = "" := by simp [enter, address, push, hsrc]
      have houter' : (r.enter (none, name)).outerSrcIP = "" ∧ (r.enter (none, name)).outerDstIP = "" := by
        simp [enter, address, push, hsrc, houter]
      exact ih (fun t ht => hts t (List.mem_cons_of_mem _ ht)) hsrc' houter'
    · have ha : a.1 ≠ "" := hts (some a, name) List.mem_cons_self a rfl
      have hset : (r.enter (some a, name)).outerSrcIP = a.1 ∧ (r.enter (some a, name)).outerDstIP = a.2 := by
        simp [enter, address, push, houter.1, ha]
      obtain ⟨h1, h2⟩ := outer_fixed (r := r.enter (some a, name)) (by rw [hset.1]; exact ha) ts
      exact Prod.ext (h1.trans hset.1) (h2.trans hset.2)

end Route

def route (p : ParsedPacket) : Route := ⟨p.srcIP, p.dstIP, p.tunnel, p.outerSrcIP, p.outerDstIP⟩

/-- A packet past an IP header and the tunnel header under it. -/
def enterTunnel (p : ParsedPacket) (t : Passage) : ParsedPacket := pushTunnel (setAddresses t.1 p) t.2

theorem route_pushTunnel (p : ParsedPacket) (name : String) : route (pushTunnel p name) = (route p).push name := by
  unfold route pushTunnel Route.push
  dsimp only
  split_ifs <;> rfl

theorem route_setAddresses (a : Option (String × String)) (p : ParsedPacket) :
    route (setAddresses a p) = (route p).address a := by
  cases a <;> rfl

theorem route_apply (r : Report) (base : ℕ) (p : ParsedPacket) : route (r.apply base p) = route p := by
  obtain ⟨protocol, _ | ⟨src, dst, _ | payload⟩, _ | tcp, service, encryptedTunnel⟩ := r <;> rfl

theorem route_settle (t : Tunnel) (p : ParsedPacket) : route (t.settle p) = route p := by
  rw [t.settle_frame]
  rfl

theorem route_foldl_enterTunnel (ts : List Passage) (p : ParsedPacket) :
    route (ts.foldl enterTunnel p) = ts.foldl Route.enter (route p) := by
  induction ts generalizing p with
  | nil => rfl
  | cons t ts ih =>
    rw [List.foldl_cons, List.foldl_cons, ih, enterTunnel, route_pushTunnel, route_setAddresses, Route.enter]

/-- The tunnels a descent enters, outermost first. -/
def passed (sys : Platform) : (n : ℕ) → Bytes → (etherType : ℕ) → List Passage
  | 0, _, _ => []
  | n + 1, w, etherType =>
    match (layer sys w etherType).tunnel with
    | none => []
    | some t =>
      if n = 0 ∧ t.atLimit.isSome then []
      else
        match t.name with
        | none => []
        | some name =>
          ((layer sys w etherType).addresses, name) ::
            match t.inner with
            | none => []
            | some i => passed sys n i.bytes i.etherType

/-- The tunnel fields, without the addresses. -/
def Route.SameTunnels (r s : Route) : Prop :=
  r.tunnel = s.tunnel ∧ r.outerSrcIP = s.outerSrcIP ∧ r.outerDstIP = s.outerDstIP

theorem Route.sameTunnels_address (a : Option (String × String)) (r : Route) : (r.address a).SameTunnels r := by
  cases a <;> exact ⟨rfl, rfl, rfl⟩

/-- What a descent leaves in the tunnel fields is what entering the tunnels it
passes does. -/
theorem route_descend {sys : Platform} : ∀ {n base etherType : ℕ} {w : Bytes} {p : ParsedPacket},
    (route (descend sys n base w etherType p)).SameTunnels ((passed sys n w etherType).foldl Route.enter (route p)) := by
  intro n
  induction n with
  | zero => intro base etherType w p; exact ⟨rfl, rfl, rfl⟩
  | succ n ih =>
    intro base etherType w p
    have hnamed := (layer_named sys w etherType).tunnel
    unfold descend passed Layer.decode Upper.decode
    generalize layer sys w etherType = l at *
    have happly := (route_apply l.report (base + l.origin) (setAddresses l.addresses p)).trans
      (route_setAddresses l.addresses p)
    generalize l.report.apply (base + l.origin) (setAddresses l.addresses p) = q at *
    have hstop : (route q).SameTunnels (route p) := happly ▸ Route.sameTunnels_address l.addresses (route p)
    cases ht : l.tunnel with
    | none => exact hstop
    | some t =>
      have hunnamed := (hnamed t ht).unnamed
      have henter : (route (t.enter (descend sys n) (base + l.origin) q)).SameTunnels
          ((match t.name with
            | none => []
            | some name => (l.addresses, name) :: match t.inner with
              | none => []
              | some i => passed sys n i.bytes i.etherType).foldl Route.enter (route p)) := by
        rw [Tunnel.enter, route_settle]
        cases hn : t.name with
        | none =>
          rw [hunnamed hn, Tunnel.push, hn]
          exact hstop
        | some name =>
          have hpush : route (t.push q) = (route p).enter (l.addresses, name) := by
            rw [Tunnel.push, hn, route_pushTunnel, happly, Route.enter]
          cases t.inner with
          | none =>
            rw [enterInner, hpush]
            exact ⟨rfl, rfl, rfl⟩
          | some i =>
            have hinner := @ih (base + l.origin + i.offset) i.etherType i.bytes (t.push q)
            rw [hpush] at hinner
            exact hinner
      -- at the limit a tunnel the decoder does not look into is not entered
      rw [decodeTunnel]
      obtain ⟨r, hl, hdeeper, hdecode⟩ | ⟨hdeeper, hdecode⟩ := t.decode_cases (0 < n)
      · obtain rfl : n = 0 := Nat.eq_zero_of_not_pos (of_decide_eq_false hdeeper)
        have hpassed : 0 = 0 ∧ t.atLimit.isSome = true := ⟨rfl, Option.isSome_of_mem hl⟩
        rw [hdecode, route_apply]
        dsimp only
        rw [if_pos hpassed]
        exact hstop
      · have hpassed : ¬ (n = 0 ∧ t.atLimit.isSome = true) := by
          rintro ⟨rfl, hl⟩
          rcases hdeeper with hnone | hlt
          · rw [hnone] at hl
            cases hl
          · exact absurd hlt (by decide)
        rw [hdecode]
        dsimp only
        rw [if_neg hpassed]
        exact henter

/-! ### Addresses -/

/-- `inet_ntop` prints something for every address. -/
def PrintsAddresses (sys : Platform) : Prop :=
  (∀ a : Block 4, sys.inetNtop4 a.1 ≠ "") ∧ ∀ a : Block 16, sys.inetNtop6 a.1 ≠ ""

/-- The EtherType and the bytes of a bare IP packet. -/
def bare (b : Bytes) : ℕ × Bytes := (if u8 b 0 >>> 4 = 6 then kEthIPv6 else kEthIPv4, b)

theorem bare_ip (b : Bytes) : (bare b).1 = kEthIPv4 ∨ (bare b).1 = kEthIPv6 := by
  unfold bare
  dsimp only
  split_ifs
  · exact .inr rfl
  · exact .inl rfl

/-- The addresses in the header of a bare IP packet. -/
def bareAddresses (sys : Platform) (b : Bytes) : String × String :=
  if u8 b 0 >>> 4 = 6 then (sys.inetNtop6 (slice b 8 16), sys.inetNtop6 (slice b 24 16))
  else (sys.inetNtop4 (slice b 12 4), sys.inetNtop4 (slice b 16 4))

section Addresses

variable {sys : Platform} (hsys : PrintsAddresses sys)
include hsys

theorem inetNtop4_ne {b : Bytes} {i : ℕ} (h : i + 4 ≤ b.length) : sys.inetNtop4 (slice b i 4) ≠ "" :=
  hsys.1 ⟨_, length_slice b h⟩

theorem inetNtop6_ne {b : Bytes} {i : ℕ} (h : i + 16 ≤ b.length) : sys.inetNtop6 (slice b i 16) ≠ "" :=
  hsys.2 ⟨_, length_slice b h⟩

/-- The addresses of a layer are never empty. -/
theorem layer_addresses_ne {w : Bytes} {etherType : ℕ} {a : String × String}
    (h : a ∈ (layer sys w etherType).addresses) : a.1 ≠ "" ∧ a.2 ≠ "" := by
  unfold layer at h
  split_ifs at h
  · cases h
  · cases h
  · unfold ipv4Layer at h
    dsimp only at h
    split_ifs at h
    · cases h
    · cases h
      exact ⟨inetNtop4_ne hsys (by omega), inetNtop4_ne hsys (by omega)⟩
    · cases h
      exact ⟨inetNtop4_ne hsys (by omega), inetNtop4_ne hsys (by omega)⟩
  · unfold ipv6Layer at h
    dsimp only at h
    split_ifs at h
    · cases h
    · cases h
      exact ⟨inetNtop6_ne hsys (by omega), inetNtop6_ne hsys (by omega)⟩
  · unfold arpLayer at h
    dsimp only at h
    generalize (if u16 w 6 = 1 then "ARP request" else if u16 w 6 = 2 then "ARP reply" else "") = service at h
    split_ifs at h
    · cases h
    · cases h
      exact ⟨inetNtop4_ne hsys (by omega), inetNtop4_ne hsys (by omega)⟩
    · cases h
  · cases h

theorem passed_addresses_ne : ∀ {n etherType : ℕ} {w : Bytes}, ∀ t ∈ passed sys n w etherType, ∀ a ∈ t.1, a.1 ≠ "" := by
  intro n
  induction n with
  | zero => intro etherType w t ht; cases ht
  | succ n ih =>
    intro etherType w t ht a ha
    have haddresses := @layer_addresses_ne sys hsys w etherType
    unfold passed at ht
    split at ht
    · cases ht
    split_ifs at ht
    · cases ht
    split at ht
    · cases ht
    rcases List.mem_cons.mp ht with rfl | ht
    · exact (haddresses ha).1
    · split at ht
      · cases ht
      · exact ih t ht a ha

end Addresses

theorem passed_names_ne {sys : Platform} :
    ∀ {n etherType : ℕ} {w : Bytes}, ∀ t ∈ passed sys n w etherType, t.2 ≠ "" := by
  intro n
  induction n with
  | zero => intro etherType w t ht; cases ht
  | succ n ih =>
    intro etherType w t ht
    have hnamed := (layer_named sys w etherType).tunnel
    unfold passed at ht
    split at ht
    · cases ht
    next tunnel htunnel =>
      split_ifs at ht
      · cases ht
      split at ht
      · cases ht
      next name hname =>
        rcases List.mem_cons.mp ht with rfl | ht
        · intro he
          have hne := (hnamed tunnel htunnel).name
          rw [hname] at hne
          exact hne (congrArg some he)
        · split at ht
          · cases ht
          · exact ih t ht

/-- An IP layer has the addresses of its header, or nothing. -/
theorem layer_bare (sys : Platform) (b : Bytes) :
    layer sys b (bare b).1 = {} ∨ (layer sys b (bare b).1).addresses = some (bareAddresses sys b) := by
  unfold bare bareAddresses
  dsimp only
  by_cases h6 : u8 b 0 >>> 4 = 6
  · rw [if_pos h6, if_pos h6]
    have hlayer : layer sys b kEthIPv6 = ipv6Layer sys b := rfl
    rw [hlayer]
    unfold ipv6Layer
    dsimp only
    split_ifs
    · exact .inl rfl
    · exact .inr rfl
  · rw [if_neg h6, if_neg h6]
    have hlayer : layer sys b kEthIPv4 = ipv4Layer sys b := rfl
    rw [hlayer]
    unfold ipv4Layer
    dsimp only
    split_ifs
    · exact .inl rfl
    · exact .inr rfl
    · exact .inr rfl

/-! ### Through the carriers -/

def Encapsulation.passage (sys : Platform) (c : Encapsulation) : Passage := (c.addresses sys, c.name)

theorem Encapsulation.name_ne (c : Encapsulation) : c.name ≠ "" := by
  cases c with
  | overIP ip tunnel => cases tunnel <;> simp [Encapsulation.name, OverIP.name]
  | mpls multicast labels labels_le bottom => simp [Encapsulation.name]
  | pppoe head => simp [Encapsulation.name]

theorem Encapsulation.addresses_ne {sys : Platform} (hsys : PrintsAddresses sys) (c : Encapsulation) :
    ∀ a ∈ c.addresses sys, a.1 ≠ "" := by
  intro a ha
  cases c with
  | overIP ip tunnel =>
    obtain rfl := Option.some.inj ha
    rw [IPCover.addresses]
    cases ip.header with
    | v4 h => exact hsys.1 h.src
    | v6 h => exact hsys.2 h.src
  | mpls multicast labels labels_le bottom => cases ha
  | pppoe head => cases ha

/-- The packet a stack hands to what is inside it. -/
def through (sys : Platform) (stack : List Encapsulation) (p : ParsedPacket) : ParsedPacket :=
  (stack.map (·.passage sys)).foldl enterTunnel p

/-- A carrier only leads on, unless what is inside leaves no protocol. -/
theorem descend_wrap {sys : Platform} {c : Encapsulation} {etherType : ℕ} {b : Bytes} (h : c.Bears etherType b)
    {n base : ℕ} {p : ParsedPacket}
    (hp : (descend sys (n + 1) (base + c.length) b etherType (enterTunnel p (c.passage sys))).protocol ∉
      ["", "Unknown"]) :
    descend sys (n + 2) base (c.wrap etherType b) c.etherType p =
      descend sys (n + 1) (base + c.length) b etherType (enterTunnel p (c.passage sys)) := by
  obtain ⟨origin, offset, hlength, horigin, haddresses, t, hupper, hname, hinner, hplaceholder⟩ :=
    c.leads_wrap sys h
  have hreport : ∀ q : ParsedPacket, ({} : Report).apply (base + origin) q = q := fun q => by
    simp [Report.apply]
  rw [descend, Layer.decode, horigin, haddresses, hupper, Upper.decode, hreport]
  have hdecode : ∀ q, decodeTunnel (descend sys (n + 1)) (decide (0 < n + 1)) (base + origin) (some t) q =
      t.enter (descend sys (n + 1)) (base + origin) q := by
    intro q
    rw [decide_eq_true (Nat.succ_pos n), decodeTunnel]
    obtain ⟨r, -, hdeeper, -⟩ | ⟨-, hdecode⟩ := t.decode_cases true
    · cases hdeeper
    · exact hdecode ..
  rw [hdecode, Tunnel.enter, hinner, Tunnel.push, hname]
  simp only [enterInner]
  rw [Nat.add_assoc, hlength]
  show t.settle (descend sys (n + 1) (base + c.length) b etherType (enterTunnel p (c.passage sys))) = _
  unfold Tunnel.settle
  rw [if_neg]
  intro hm
  exact hp (by simpa using hplaceholder _ hm)

/-- A whole stack is gone through carrier by carrier. -/
theorem descend_nest {sys : Platform} {packet : ℕ × Bytes} : ∀ {stack : List Encapsulation}, Bears packet stack →
    ∀ {n base : ℕ} {p : ParsedPacket},
    (descend sys (n + 1) (base + headersLength stack) packet.2 packet.1 (through sys stack p)).protocol ∉
      ["", "Unknown"] →
    descend sys (stack.length + (n + 1)) base (nest packet stack).2 (nest packet stack).1 p =
      descend sys (n + 1) (base + headersLength stack) packet.2 packet.1 (through sys stack p) := by
  intro stack
  induction stack with
  | nil =>
    intro _ n base p _
    rw [List.length_nil, Nat.zero_add]
    rfl
  | cons c stack ih =>
    intro h n base p hp
    have hlength : headersLength (c :: stack) = c.length + headersLength stack := by
      rw [headersLength, List.map_cons, List.sum_cons, headersLength]
    have hthrough : through sys (c :: stack) p = through sys stack (enterTunnel p (c.passage sys)) := rfl
    have hbase : base + (c.length + headersLength stack) = base + c.length + headersLength stack :=
      (Nat.add_assoc ..).symm
    rw [hlength, hthrough, hbase] at hp ⊢
    have hinner := ih h.2 hp
    rw [List.length_cons, show stack.length + 1 + (n + 1) = (stack.length + n) + 2 by omega, nest,
      descend_wrap h.1]
    · exact hinner
    · rw [show stack.length + n + 1 = stack.length + (n + 1) by omega, hinner]
      exact hp

/-- `p` is `q` but for the addresses and the tunnel fields. -/
def Rerouted (q p : ParsedPacket) : Prop :=
  p = { q with
    srcIP := p.srcIP, dstIP := p.dstIP, tunnel := p.tunnel, outerSrcIP := p.outerSrcIP
    outerDstIP := p.outerDstIP }

theorem rerouted_enterTunnel {q p : ParsedPacket} (h : Rerouted q p) (t : Passage) : Rerouted q (enterTunnel p t) := by
  have haddress : Rerouted q (setAddresses t.1 p) := by
    cases t.1 with
    | none => exact h
    | some a =>
      unfold Rerouted at h
      rw [h]
      rfl
  unfold Rerouted at haddress
  unfold enterTunnel pushTunnel
  dsimp only
  rw [haddress]
  split_ifs <;> rfl

/-- The carriers write nothing else. -/
theorem rerouted_through (sys : Platform) {q p : ParsedPacket} (stack : List Encapsulation) (h : Rerouted q p) :
    Rerouted q (through sys stack p) := by
  unfold through
  generalize stack.map (·.passage sys) = ts
  induction ts generalizing p with
  | nil => exact h
  | cons t ts ih => exact ih (rerouted_enterTunnel h t)

/-! ### The packet inside -/

namespace Echoes

variable {d base : ℕ} {p q : ParsedPacket}

theorem apply (r : Report) (h : Echoes d p q) : Echoes d (r.apply (base + d) p) (r.apply base q) := by
  refine ⟨?_, ?_⟩
  · rw [h.fields]
    obtain ⟨protocol, _ | ⟨src, dst, _ | payload⟩, _ | tcp, service, encryptedTunnel⟩ := r <;> rfl
  · have hoffset : ∀ offset, base + d + offset = base + offset + d := fun offset => Nat.add_right_comm ..
    obtain ⟨protocol, _ | ⟨src, dst, _ | payload⟩, _ | tcp, service, encryptedTunnel⟩ := r
    case some.some.none => exact .inr (hoffset payload.1)
    case some.some.some => exact .inr (hoffset payload.1)
    all_goals exact h.payload

theorem address (a : Option (String × String)) (h : Echoes d p q) : Echoes d (setAddresses a p) (setAddresses a q) := by
  cases a with
  | none => exact h
  | some a =>
    refine ⟨?_, h.payload⟩
    rw [h.fields]
    rfl

theorem push (name : String) (h : Echoes d p q) : Echoes d (pushTunnel p name) (pushTunnel q name) := by
  refine ⟨?_, by simpa using h.payload⟩
  rw [h.fields]
  unfold pushTunnel
  dsimp only
  split_ifs <;> rfl

theorem settle (t : Tunnel) (h : Echoes d p q) : Echoes d (t.settle p) (t.settle q) := by
  refine ⟨?_, by simpa using h.payload⟩
  rw [h.fields]
  unfold Tunnel.settle
  show (if q.protocol ∈ t.placeholder then _ else _) = _
  split_ifs <;> rfl

end Echoes

theorem echoes_preserved (size d : ℕ) : Preserved size d (Echoes d) (Echoes d) where
  stop h := h
  addresses a h := h.address a
  through _ _ _ h := h.apply _
  last _ _ h := h.apply _
  push name h := h.push name
  settle _ h := h.settle _

/-- A layer with addresses of its own is decoded alike wherever it stands and
whatever addresses stood there before. -/
theorem descend_echoes {sys : Platform} {b : Bytes} {etherType n d : ℕ} {a : String × String}
    (ha : (layer sys b etherType).addresses = some a) {inner outer : PacketData} {p : ParsedPacket}
    (hp : Rerouted (blank outer) p) :
    Echoes d (descend sys (n + 1) d b etherType p) (descend sys (n + 1) 0 b etherType (blank inner)) := by
  have hset : ∀ base q, descend sys (n + 1) base b etherType (setAddresses (some a) q) =
      descend sys (n + 1) base b etherType q := by
    intro base q
    simp only [descend, Layer.decode, ha]
    rfl
  have hstart : Echoes d (setAddresses (some a) p) (setAddresses (some a) (blank inner)) := by
    refine ⟨?_, .inl rfl⟩
    unfold Rerouted at hp
    rw [hp]
    rfl
  have hdescend := @descend_preserved sys _ _ _ _ (echoes_preserved b.length d) (n + 1) 0 etherType b _ _
    (Nat.zero_add _).le hstart
  rwa [hset, hset, Nat.zero_add] at hdescend

/-- The network layer of raw IP is the packet itself. -/
theorem linkLayer_bare {b : Bytes} {network : ℕ × ℕ} (h : linkLayer b .RawIP = some network) :
    network = (0, (bare b).1) ∧ versionAt b 0 = some (bare b).1 := by
  obtain ⟨etherType, hv, rfl⟩ := Option.map_eq_some_iff.mp h
  have he : etherType = (bare b).1 := by
    unfold bare
    dsimp only
    obtain ⟨-, ⟨h4, rfl⟩ | ⟨h6, rfl⟩⟩ := versionAt_eq_some hv
    · rw [if_neg (by omega)]
    · rw [if_pos h6]
  exact ⟨by rw [he], by rw [hv, he]⟩

/-- A stack that is IP on the outside starts with the version nibble of IP. -/
theorem versionAt_nest {packet : ℕ × Bytes} (hv : versionAt packet.2 0 = some packet.1) (stack : List Encapsulation)
    (hip : (nest packet stack).1 = kEthIPv4 ∨ (nest packet stack).1 = kEthIPv6) :
    versionAt (nest packet stack).2 0 = some (nest packet stack).1 := by
  cases stack with
  | nil => exact hv
  | cons c stack =>
    cases c with
    | overIP ip tunnel => exact ip.versionAt_wrap ..
    | mpls multicast labels labels_le bottom =>
      have hno : ∀ multicast : Bool, ¬ ((if multicast then kEthMplsMul else kEthMplsUni) = kEthIPv4 ∨
          (if multicast then kEthMplsMul else kEthMplsUni) = kEthIPv6) := by decide
      exact absurd hip (hno multicast)
    | pppoe head =>
      have hno : ¬ (kEthPppoeSess = kEthIPv4 ∨ kEthPppoeSess = kEthIPv6) := by decide
      exact absurd hip hno

/-! ### The route of a nested packet -/

/-- The first tunnel of a packet is entered under the addresses of its own layer. -/
theorem passed_head (sys : Platform) (n : ℕ) (w : Bytes) (etherType : ℕ) :
    passed sys (n + 1) w etherType = [] ∨
      ∃ name rest, passed sys (n + 1) w etherType = ((layer sys w etherType).addresses, name) :: rest := by
  unfold passed
  split
  · exact .inl rfl
  split_ifs
  · exact .inl rfl
  split
  · exact .inl rfl
  · exact .inr ⟨_, _, rfl⟩

theorem intercalate_tail (names : List String) {own : List String} (h : own ≠ []) :
    "/".intercalate (names ++ own) = "/".intercalate (names ++ ["/".intercalate own]) := by
  by_cases hn : names = []
  · simp [hn]
  · rw [String.intercalate_append_of_ne_nil hn h, String.intercalate_append_of_ne_nil hn (by simp),
      String.intercalate_singleton]

/-- The tunnel fields of a packet decoded inside a stack, from those of the
packet on its own. -/
theorem route_nest {sys : Platform} (hsys : PrintsAddresses sys) {stack : List Encapsulation} {b : Bytes}
    {etherType n d : ℕ} {a : String × String} (ha : (layer sys b etherType).addresses = some a)
    (inner outer : PacketData) :
    let q := descend sys (n + 1) 0 b etherType (blank inner)
    let p := descend sys (n + 1) d b etherType (through sys stack (blank outer))
    p.tunnel = "/".intercalate (stack.map Encapsulation.name ++ if q.tunnel = "" then [] else [q.tunnel]) ∧
      (p.outerSrcIP, p.outerDstIP) =
        (stack.findSome? (·.addresses sys)).getD (if q.tunnel = "" then ("", "") else a) := by
  intro q p
  have hown := @passed_names_ne sys (n + 1) etherType b
  have howna := @passed_addresses_ne sys hsys (n + 1) etherType b
  obtain ⟨htunnelq, -, -⟩ := @route_descend sys (n + 1) 0 etherType b (blank inner)
  obtain ⟨htunnel, hsrc, hdst⟩ := @route_descend sys (n + 1) d etherType b (through sys stack (blank outer))
  have hhead := passed_head sys n b etherType
  rw [ha] at hhead
  generalize passed sys (n + 1) b etherType = own at *
  rw [through, route_foldl_enterTunnel, ← List.foldl_append] at htunnel hsrc hdst
  have hnames : ∀ name ∈ [] ++ (stack.map (·.passage sys) ++ own).map Prod.snd, name ≠ "" := by
    intro name hm
    rw [List.nil_append, List.map_append, List.mem_append, List.map_map] at hm
    rcases hm with hm | hm
    · obtain ⟨c, -, rfl⟩ := List.mem_map.mp hm
      exact c.name_ne
    · obtain ⟨t, ht, rfl⟩ := List.mem_map.mp hm
      exact hown t ht
  have haddresses : ∀ t ∈ stack.map (·.passage sys) ++ own, ∀ a ∈ t.1, a.1 ≠ "" := by
    intro t ht
    rcases List.mem_append.mp ht with ht | ht
    · obtain ⟨c, -, rfl⟩ := List.mem_map.mp ht
      exact c.addresses_ne hsys
    · exact howna t ht
  have hblank : ∀ packet, (route (blank packet)).Joins [] := fun _ => rfl
  have hjoin := Route.joins_foldl (hblank outer) hnames
  have hjoinq : q.tunnel = "/".intercalate (own.map Prod.snd) :=
    htunnelq.trans (Route.joins_foldl (hblank inner) (fun name hm => by
      obtain ⟨t, ht, rfl⟩ := List.mem_map.mp (by simpa using hm : name ∈ own.map Prod.snd)
      exact hown t ht))
  have houter := Route.outer_foldl haddresses (r := route (blank outer)) rfl ⟨rfl, rfl⟩
  have hstackNames : (stack.map (·.passage sys)).map Prod.snd = stack.map Encapsulation.name := by
    rw [List.map_map]
    rfl
  have hstackFirst : (stack.map (·.passage sys)).findSome? Prod.fst = stack.findSome? (·.addresses sys) := by
    rw [List.findSome?_map]
    rfl
  have hp : p.tunnel = "/".intercalate (stack.map Encapsulation.name ++ own.map Prod.snd) := by
    refine htunnel.trans (hjoin.trans ?_)
    rw [List.nil_append, List.map_append, hstackNames]
  have hpo : (p.outerSrcIP, p.outerDstIP) =
      ((stack.findSome? (·.addresses sys)).or (own.findSome? Prod.fst)).getD ("", "") := by
    rw [← hstackFirst, ← List.findSome?_append, ← houter]
    exact Prod.ext hsrc hdst
  rcases hhead with rfl | ⟨name, rest, rfl⟩
  · have hq : q.tunnel = "" := hjoinq
    refine ⟨?_, ?_⟩
    · rw [hp, if_pos hq]
      rfl
    · rw [hpo, if_pos hq]
      cases stack.findSome? (·.addresses sys) <;> rfl
  · have hq : q.tunnel ≠ "" := by
      rw [hjoinq]
      exact Route.intercalate_ne (by simp) (fun name hm => by
        obtain ⟨t, ht, rfl⟩ := List.mem_map.mp hm
        exact hown t ht)
    refine ⟨?_, ?_⟩
    · rw [hp, if_neg hq, hjoinq, intercalate_tail _ (by simp)]
    · rw [hpo, if_neg hq]
      cases stack.findSome? (·.addresses sys) <;> rfl

/-! ### Transparency -/

/-- A packet in which something was found has the addresses of its header. -/
theorem layer_bare_addresses {sys : Platform} {b : Bytes} {n : ℕ} {packet : PacketData}
    (h : (descend sys (n + 1) 0 b (bare b).1 (blank packet)).srcIP ≠ "") :
    (layer sys b (bare b).1).addresses = some (bareAddresses sys b) := by
  refine (layer_bare sys b).resolve_left fun hempty => h ?_
  rw [descend, hempty]
  rfl

/-- A frame with a stack is decoded as the packet inside, once the carriers have
written what they write. -/
theorem decoded_nest {sys : Platform} {packet : ℕ × Bytes} {stack : List Encapsulation} {outer : PacketData}
    {header : Bytes} {n : ℕ} (hbears : Bears packet stack) (hn : stack.length + (n + 1) = kMaxTunnelDepth + 1)
    (ho : outer.payload = header ++ (nest packet stack).2)
    (hprotocol : (descend sys (n + 1) (header.length + headersLength stack) packet.2 packet.1
      (through sys stack (blank outer))).protocol ∉ ["", "Unknown"]) :
    decoded sys outer (header.length, (nest packet stack).1) =
      descend sys (n + 1) (header.length + headersLength stack) packet.2 packet.1 (through sys stack (blank outer)) := by
  have hwhole := descend_nest hbears hprotocol
  rw [hn] at hwhole
  rw [decoded, ho, List.drop_left]
  exact hwhole

/-- **Tunnels over IP and Ethernet are transparent, in any nesting.** A bare IP
packet in a stack of carriers under a link header is reported as on its own; the
tunnel names are the carriers' and then the packet's own, and the outer addresses
those of the first IP header with a tunnel under it. -/
theorem parse_nest_transparent {sys : Platform} (hsys : PrintsAddresses sys) {inner outer : PacketData}
    {r : ParsedPacket} {stack : List Encapsulation} {link : LinkType} {header : Bytes} {m : ℕ}
    (hi : inner.linkType = .RawIP) (hr : parse sys inner = .ok r) (hs : r.srcIP ≠ "") (hp : r.protocol ≠ "Unknown")
    (hbears : Bears (bare inner.payload) stack) (hm : EncapsulatedWithin sys m inner)
    (hdepth : stack.length + m ≤ kMaxTunnelDepth)
    (hlink : LinkHeader (nest (bare inner.payload) stack).1 link header)
    (hraw : link = .RawIP → (nest (bare inner.payload) stack).1 = kEthIPv4 ∨
      (nest (bare inner.payload) stack).1 = kEthIPv6)
    (hl : outer.linkType = link) (ho : outer.payload = header ++ (nest (bare inner.payload) stack).2) :
    ∃ r', parse sys outer = .ok r' ∧ Transparent (header.length + headersLength stack) inner outer r r' ∧
      r'.tunnel = "/".intercalate (stack.map Encapsulation.name ++ if r.tunnel = "" then [] else [r.tunnel]) ∧
      (r'.outerSrcIP, r'.outerDstIP) = (stack.findSome? (·.addresses sys)).getD
        (if r.tunnel = "" then ("", "") else bareAddresses sys inner.payload) := by
  obtain ⟨hb, network, hn⟩ := network_of_parse hr hs
  obtain ⟨rfl, hv⟩ := linkLayer_bare (hi ▸ hn)
  obtain ⟨q, -, hrq, hen⟩ := enriches_of_parse hb hn hr
  have hnest : NestsWithin sys m inner.payload (bare inner.payload).1 := hm _ hn
  unfold Enriches at hen
  have hdecoded : decoded sys inner (0, (bare inner.payload).1) =
      descend sys 5 0 inner.payload (bare inner.payload).1 (blank inner) := rfl
  have haddresses : (layer sys inner.payload (bare inner.payload).1).addresses =
      some (bareAddresses sys inner.payload) := by
    rw [hen, hdecoded] at hs
    exact layer_bare_addresses hs
  -- the stack leaves more descents than the packet has tunnels
  obtain ⟨n, hn5⟩ : ∃ n, stack.length + (n + 1) = kMaxTunnelDepth + 1 := ⟨kMaxTunnelDepth - stack.length, by omega⟩
  have hmn : m < n + 1 := by omega
  have hm5 : m < 5 := by unfold kMaxTunnelDepth at hdepth; omega
  obtain ⟨htag, hlt⟩ := etherType_nest (bare_ip inner.payload) stack
  have hno : linkLayer outer.payload outer.linkType =
      some (header.length, (nest (bare inner.payload) stack).1) := by
    rw [ho, hl]
    exact hlink.linkLayer_eq htag hlt fun hlraw => versionAt_nest hv stack (hraw hlraw)
  have hat : At outer.payload (header.length + headersLength stack) inner.payload := by
    rw [ho]
    exact At.trans ⟨header, [], by simp, rfl⟩ (at_nest (bare inner.payload) stack)
  have hechoes := @descend_echoes sys inner.payload (bare inner.payload).1 n (header.length + headersLength stack) _
    haddresses inner outer _ (rerouted_through sys stack (rfl : Rerouted (blank outer) (blank outer)))
  rw [descend_depth hnest hmn hm5 0, ← hdecoded] at hechoes
  have hprotocol : (descend sys (n + 1) (header.length + headersLength stack) inner.payload (bare inner.payload).1
      (through sys stack (blank outer))).protocol ∉ ["", "Unknown"] := by
    have hsame := congrArg ParsedPacket.protocol hechoes.fields
    have hne : (decoded sys inner (0, (bare inner.payload).1)).protocol ≠ "" :=
      protocol_descend_ne (by simp [blank])
    have hunknown : (decoded sys inner (0, (bare inner.payload).1)).protocol ≠ "Unknown" := by
      rw [hen] at hp
      exact hp
    rw [hsame]
    simpa using ⟨hne, hunknown⟩
  have houter : decoded sys outer (header.length, (nest (bare inner.payload) stack).1) =
      descend sys (n + 1) (header.length + headersLength stack) inner.payload (bare inner.payload).1
        (through sys stack (blank outer)) := decoded_nest hbears hn5 ho hprotocol
  obtain ⟨hparse, htransparent⟩ := parse_echoes hb hn hno hat hr (houter ▸ hechoes)
  obtain ⟨htunnel, haddr⟩ := @route_nest sys hsys stack inner.payload (bare inner.payload).1 n
    (header.length + headersLength stack) _ haddresses inner outer
  rw [descend_depth hnest hmn hm5 0, ← hdecoded, ← houter] at htunnel haddr
  have hown : r.tunnel = (decoded sys inner (0, (bare inner.payload).1)).tunnel := by rw [hen]
  refine ⟨_, hparse, htransparent, ?_, ?_⟩
  · rw [hown]
    exact htunnel
  · rw [hown]
    exact haddr

/-! ### An NTP datagram in four carriers

MPLS over Ethernet, GRE with a key and a bridged frame, a PPPoE session, and
IP-in-IP under an IPv6 header with a hop-by-hop header. -/

namespace Nested

/-- Dotted addresses, and IPv6 ones by groups. -/
def sys : Platform where
  inetNtop4 b := ".".intercalate (b.map fun byte => toString byte.toNat)
  inetNtop6 := Vxlan.groups
  mbedtls := Vxlan.sys.mbedtls

theorem printsAddresses : PrintsAddresses sys := by
  constructor
  · rintro ⟨b, hb⟩
    obtain ⟨x, y, z, w, rfl⟩ := List.length_eq_four.mp hb
    simp [sys]
  · intro a h
    have hlen := congrArg String.length h
    simp [sys, Vxlan.groups, List.range_succ] at hlen

/-- The packet in the frame of `Vxlan`. -/
def packet : Bytes := (Vxlan.frame [0x23]).drop 14

def label (bottom : UInt8) : Block 4 := ⟨[0, 1, bottom, 64], rfl⟩

def mpls : Encapsulation := .mpls false [⟨label 0, by decide⟩] (by decide) ⟨label 1, by decide⟩

def gre : Encapsulation :=
  .overIP
    { header := Vxlan.carrier.ip, extensions := [], noExtensions := fun _ => rfl, trailer := [] }
    (.greBridged ⟨0x2000, by decide, by decide, ⟨[0, 0, 0, 7], rfl⟩⟩ ⟨⟨List.replicate 12 2, rfl⟩, []⟩)

def pppoe : Encapsulation := .pppoe ⟨[0x11, 0, 0, 1], rfl⟩

def ipInIp : Encapsulation :=
  .overIP
    { header := .v6 ⟨0, by decide, ⟨[0, 0, 0], rfl⟩, 64, ⟨List.replicate 16 1, rfl⟩, ⟨List.replicate 16 2, rfl⟩⟩
      extensions := [.options 0 (by decide) 0 (by decide) ⟨[1, 4, 0, 0, 0, 0], rfl⟩]
      noExtensions := fun h => absurd h (by decide), trailer := [] }
    .ipInIp

def stack : List Encapsulation := [mpls, gre, pppoe, ipInIp]

def inner : PacketData := { Vxlan.captured packet (by decide) with linkType := .RawIP }

def outer : PacketData :=
  Vxlan.captured (Vxlan.macs ++ [] ++ be16 kEthMplsUni ++ (nest (bare packet) stack).2) (by decide +kernel)

/-- The result of `inner`. -/
def parsed : ParsedPacket :=
  { srcIP := "172.16.0.9", dstIP := "172.16.0.1", srcPort := 41000, dstPort := 123, protocol := "UDP"
    length := 29, payloadOffset := 28, payloadLength := 1, service := "NTP" }

theorem encapsulatedWithin : EncapsulatedWithin sys 0 inner := by
  intro network hn
  obtain ⟨rfl, -⟩ := linkLayer_bare hn
  decide

end Nested

theorem parse_nest_transparent_ntp : ∃ r', parse Nested.sys Nested.outer = .ok r' ∧
    Transparent 120 Nested.inner Nested.outer Nested.parsed r' ∧ r'.tunnel = "MPLS/GRE/PPPoE/IP-in-IP" ∧
      (r'.outerSrcIP, r'.outerDstIP) = ("10.1.1.1", "10.1.1.2") := by
  obtain ⟨r', hr, ht, htunnel, houter⟩ :=
    @parse_nest_transparent Nested.sys Nested.printsAddresses Nested.inner Nested.outer Nested.parsed Nested.stack
      .Ethernet _ 0 rfl (by decide +kernel) (by decide) (by decide) (by decide +kernel) Nested.encapsulatedWithin
      (by decide)
      (.ethernet ⟨Vxlan.macs, rfl⟩ []) (fun h => absurd h (by decide)) rfl rfl
  exact ⟨r', hr, ht, htunnel, houter⟩

end ProtocolParser
end NetProbe
