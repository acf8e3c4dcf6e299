/-
# Flow keys are canonical and faithful

`keyFor` orients the endpoints of a packet: the one that looks like a server
goes second, and a lexicographic order breaks ties. The orientation depends on
the unordered pair only (`orient_eq_iff`), so that the two directions of a
conversation share a key and two conversations never do (`keyFor_eq_iff`).

Key theorems: `keyFor_reverse`, `keyFor_canonical`.
-/
import NetProbe.FlowAggregator
import Mathlib.Data.Sym.Sym2
import Mathlib.Order.Basic
import Mathlib.Data.String.Basic

/-! ### Orienting an unordered pair -/

section Orient

variable {α : Type} (before : α → α → Prop) [DecidableRel before]

/-- The pair with the element that goes first in front. -/
def orient (a b : α) : α × α := if before a b then (a, b) else (b, a)

theorem orient_mem (a b : α) : orient before a b = (a, b) ∨ orient before a b = (b, a) := by
  unfold orient; split <;> simp

/-- Either order of two distinct elements: exactly one of them goes first. -/
def Decides : Prop := ∀ a b, a ≠ b → (before a b ↔ ¬ before b a)

variable {before}

theorem orient_swap (h : Decides before) (a b : α) : orient before a b = orient before b a := by
  by_cases hab : a = b
  · rw [hab]
  · by_cases hb : before a b
    · simp [orient, hb, (h a b hab).mp hb]
    · have : before b a := (h b a (Ne.symm hab)).mpr hb
      simp [orient, hb, this]

theorem orient_eq_iff (h : Decides before) (a b c d : α) :
    orient before a b = orient before c d ↔ s(a, b) = s(c, d) := by
  rw [Sym2.eq_iff]
  constructor
  · intro he
    rcases orient_mem before a b with h1 | h1 <;> rcases orient_mem before c d with h2 | h2 <;>
      rw [h1, h2, Prod.mk.injEq] at he <;> tauto
  · rintro (⟨rfl, rfl⟩ | ⟨rfl, rfl⟩)
    · rfl
    · exact orient_swap h a b

end Orient

namespace NetProbe
namespace FlowAggregator

/-! ### Endpoints -/

/-- An address and a port. -/
abbrev Endpoint := String × ℕ

def srcEndpoint (packet : ParsedPacket) : Endpoint := (packet.srcIP, packet.srcPort)

def dstEndpoint (packet : ParsedPacket) : Endpoint := (packet.dstIP, packet.dstPort)

/-- The packet with its endpoints swapped. -/
def reverse (packet : ParsedPacket) : ParsedPacket :=
  { packet with
    srcIP := packet.dstIP, dstIP := packet.srcIP, srcPort := packet.dstPort, dstPort := packet.srcPort }

/-- `a` is the endpoint the key names `src`: `b` alone looks like a server, or
neither or both do and `a` comes first. -/
def ClientFirst (a b : Endpoint) : Prop :=
  if isLikelyServerPort a.2 = isLikelyServerPort b.2 then endpointLe a.1 a.2 b.1 b.2
  else isLikelyServerPort b.2 = true

instance : DecidableRel ClientFirst := fun a b => by unfold ClientFirst; infer_instance

theorem endpointLe_swap {a b : Endpoint} (h : a ≠ b) :
    endpointLe a.1 a.2 b.1 b.2 ↔ ¬ endpointLe b.1 b.2 a.1 a.2 := by
  obtain ⟨s, m⟩ := a
  obtain ⟨t, n⟩ := b
  simp only [ne_eq, Prod.mk.injEq, not_and] at h
  simp only [endpointLe, not_or, not_and, not_lt, not_le]
  rcases lt_trichotomy s t with hst | rfl | hst
  · simp [hst, hst.le, hst.ne, hst.ne']
  · have := h rfl
    simp only [lt_irrefl, true_and, false_or, le_refl, forall_const]
    omega
  · simp [hst, hst.not_gt, hst.ne']

theorem clientFirst_decides : Decides ClientFirst := by
  intro a b h
  unfold ClientFirst
  by_cases he : isLikelyServerPort a.2 = isLikelyServerPort b.2
  · rw [if_pos he, if_pos he.symm]
    exact endpointLe_swap h
  · rw [if_neg he, if_neg (Ne.symm he)]
    cases ha : isLikelyServerPort a.2 <;> cases hb : isLikelyServerPort b.2 <;> simp_all

/-! ### keyFor -/

/-- The packets `keyFor` has a key for. -/
def Tracked (packet : ParsedPacket) : Prop :=
  packet.srcIP ≠ "" ∧ packet.dstIP ≠ "" ∧ (packet.protocol = "TCP" ∨ packet.protocol = "UDP")

/-- The key with the endpoints `e` and a protocol. -/
def keyOf (e : Endpoint × Endpoint) (protocol : String) : FlowKey := ⟨e.1.1, e.2.1, e.1.2, e.2.2, protocol⟩

theorem keyOf_inj {e e' : Endpoint × Endpoint} {s s' : String} :
    keyOf e s = keyOf e' s' ↔ s = s' ∧ e = e' := by
  obtain ⟨⟨a, b⟩, c, d⟩ := e
  obtain ⟨⟨a', b'⟩, c', d'⟩ := e'
  simp only [keyOf, FlowKey.mk.injEq, Prod.mk.injEq]
  tauto

/-- The four cases of `keyFor` are one orientation. -/
theorem keyFor_eq (p : ParsedPacket) (h : Tracked p) :
    keyFor p = some (keyOf (orient ClientFirst (srcEndpoint p) (dstEndpoint p)) p.protocol) := by
  obtain ⟨h1, h2, h3⟩ := h
  have hg : ¬ (p.srcIP = "" ∨ p.dstIP = "" ∨ (p.protocol ≠ "TCP" ∧ p.protocol ≠ "UDP")) := by tauto
  rw [keyFor, if_neg hg]
  simp only [orient, ClientFirst, srcEndpoint, dstEndpoint]
  rcases Bool.eq_false_or_eq_true (isLikelyServerPort p.srcPort) with hs | hs <;>
    rcases Bool.eq_false_or_eq_true (isLikelyServerPort p.dstPort) with hd | hd <;>
    simp [hs, hd, keyOf, forward, reversed] <;> split <;> rfl

theorem tracked_of_keyFor {p : ParsedPacket} {k : FlowKey} (h : keyFor p = some k) : Tracked p := by
  unfold keyFor at h
  split at h
  · cases h
  · rename_i hg
    unfold Tracked
    tauto

theorem keyFor_eq_some {p : ParsedPacket} {k : FlowKey} (h : keyFor p = some k) :
    k = keyOf (orient ClientFirst (srcEndpoint p) (dstEndpoint p)) p.protocol := by
  rw [keyFor_eq p (tracked_of_keyFor h)] at h
  exact (Option.some.inj h).symm

theorem tracked_reverse {p : ParsedPacket} (h : Tracked p) : Tracked (reverse p) := ⟨h.2.1, h.1, h.2.2⟩

/-- Both directions of a conversation have one key. -/
theorem keyFor_reverse {p : ParsedPacket} {k : FlowKey} (h : keyFor p = some k) :
    keyFor (reverse p) = some k := by
  rw [keyFor_eq _ (tracked_reverse (tracked_of_keyFor h)), keyFor_eq_some h]
  exact congrArg (fun e => some (keyOf e p.protocol)) (orient_swap clientFirst_decides _ _)

/-- Two packets share a key exactly when they share the protocol and the
unordered pair of endpoints. -/
theorem keyFor_eq_iff {p q : ParsedPacket} {k l : FlowKey} (hk : keyFor p = some k)
    (hl : keyFor q = some l) : k = l ↔ p.protocol = q.protocol ∧
      s(srcEndpoint p, dstEndpoint p) = s(srcEndpoint q, dstEndpoint q) := by
  rw [keyFor_eq_some hk, keyFor_eq_some hl, keyOf_inj, orient_eq_iff clientFirst_decides]

/-! ### Direction -/

theorem isDownstream_keyOf (p : ParsedPacket) (e : Endpoint × Endpoint) (s : String) :
    isDownstream p (keyOf e s) = true ↔ srcEndpoint p = e.2 := by
  rw [isDownstream, Bool.and_eq_true, decide_eq_true_iff, decide_eq_true_iff, Prod.ext_iff]
  rfl

theorem downstream_iff {p : ParsedPacket} {k : FlowKey} :
    isDownstream p k = true ↔ srcEndpoint p = (k.dstIP, k.dstPort) :=
  isDownstream_keyOf p ((k.srcIP, k.srcPort), k.dstIP, k.dstPort) k.protocol

/-- Of a packet between distinct endpoints and its reverse, exactly one
travels toward the key's `src`. -/
theorem isDownstream_reverse {p : ParsedPacket} {k : FlowKey} (hk : keyFor p = some k)
    (hne : srcEndpoint p ≠ dstEndpoint p) :
    isDownstream p k = true ↔ ¬ isDownstream (reverse p) k = true := by
  rw [keyFor_eq_some hk, isDownstream_keyOf, isDownstream_keyOf]
  have hr : srcEndpoint (reverse p) = dstEndpoint p := rfl
  rw [hr]
  rcases orient_mem ClientFirst (srcEndpoint p) (dstEndpoint p) with h | h <;> rw [h]
  · simp [hne]
  · simp [Ne.symm hne]

/-! ### update -/

/-- The packets credited to the flow stored under a key. -/
def packetsOf (flows : Flows) (key : FlowKey) : UInt64 :=
  ((flows.lookup key).map (·.flow.packets)).getD 0

@[simp] theorem setDelivery_packets (s : FlowState) (downstream : Bool) (d : Delivery) :
    (s.setDelivery downstream d).flow.packets = s.flow.packets := by
  cases downstream <;> rfl

theorem updateState_packets (p : ParsedPacket) (hostname process : String) (downstream : Bool)
    (s : FlowState) :
    (updateState p hostname process downstream s).flow.packets = s.flow.packets + 1 := by
  have h1 : (countPacket p downstream s).flow.packets = s.flow.packets + 1 := by
    cases downstream <;> rfl
  have h2 : ∀ s, (timeHandshake p downstream s).flow.packets = s.flow.packets := by
    intro s; unfold timeHandshake; split_ifs <;> try rfl
    simp only; split <;> rfl
  have h3 : ∀ s, (trackDelivery p downstream s).flow.packets = s.flow.packets := by
    intro s; unfold trackDelivery; split <;> simp
  have h4 : ∀ s, (resetSequences p s).flow.packets = s.flow.packets := by
    intro s; unfold resetSequences; split <;> rfl
  have h5 : ∀ s, (labelFlow p hostname process s).flow.packets = s.flow.packets := by
    intro s; unfold labelFlow; simp only; split_ifs <;> rfl
  show (labelFlow p hostname process _).flow.packets = _
  rw [h5, h4, h3, h2, h1]

theorem update_lookup_self {flows : Flows} {p : ParsedPacket} {k : FlowKey} (hk : keyFor p = some k)
    (hostname process : String) : (update flows p hostname process).lookup k =
      some (updateState p hostname process (isDownstream p k)
        ((flows.lookup k).getD (newState k p.timestamp))) := by
  simp only [update, hk]
  exact AList.lookup_insert _

/-- An update changes no flow but its own. -/
theorem update_lookup_ne {flows : Flows} {p : ParsedPacket} {k : FlowKey} (hk : keyFor p ≠ some k)
    (hostname process : String) : (update flows p hostname process).lookup k = flows.lookup k := by
  unfold update
  split
  · rfl
  · rename_i key hkey
    exact AList.lookup_insert_ne fun h => hk (h ▸ hkey)

theorem matchesKey_iff {p : ParsedPacket} {k : FlowKey} :
    matchesKey p k = true ↔ keyFor p = some k := by simp [matchesKey]

/-- `matches` says which flow an update credits. -/
theorem matchesKey_iff_credits (flows : Flows) (p : ParsedPacket) (hostname process : String)
    (k : FlowKey) :
    matchesKey p k = true ↔ packetsOf (update flows p hostname process) k = packetsOf flows k + 1 := by
  rw [matchesKey_iff]
  by_cases h : keyFor p = some k
  · simp only [h, true_iff, packetsOf, update_lookup_self h, Option.map_some, Option.getD_some,
      updateState_packets]
    cases flows.lookup k <;> rfl
  · simp only [h, false_iff, packetsOf, update_lookup_ne h]
    intro he
    have : (1 : UInt64) = 0 := by simp at he
    exact absurd this (by decide)

/-- **Flow keys are canonical and faithful.** -/
theorem keyFor_canonical {p q : ParsedPacket} {k l : FlowKey} (hk : keyFor p = some k)
    (hl : keyFor q = some l) :
    (k = l ↔ p.protocol = q.protocol ∧
      s(srcEndpoint p, dstEndpoint p) = s(srcEndpoint q, dstEndpoint q)) ∧
    (srcEndpoint p ≠ dstEndpoint p →
      (isDownstream p k = true ↔ ¬ isDownstream (reverse p) k = true)) ∧
    ∀ (flows : Flows) (hostname process : String) (key : FlowKey),
      matchesKey p key = true ↔
        packetsOf (update flows p hostname process) key = packetsOf flows key + 1 :=
  ⟨keyFor_eq_iff hk hl, isDownstream_reverse hk, fun flows hostname process key =>
    matchesKey_iff_credits flows p hostname process key⟩

/-- A query to a DNS server. -/
def dnsQuery : ParsedPacket :=
  { srcIP := "192.168.1.10", dstIP := "8.8.8.8", srcPort := 53000, dstPort := 53, protocol := "UDP" }

theorem keyFor_canonical_dnsQuery :
    isDownstream dnsQuery (forward dnsQuery) = true ↔
      ¬ isDownstream (reverse dnsQuery) (forward dnsQuery) = true :=
  (@keyFor_canonical dnsQuery (reverse dnsQuery) (forward dnsQuery) (forward dnsQuery)
    (by decide) (by decide)).2.1 (by decide)

end FlowAggregator
end NetProbe
