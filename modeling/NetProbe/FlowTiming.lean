/-
# When a flow was seen

A flow keeps its latest samples for the rate, and the times of its first and of
its last packet. What `update` drops from the samples is older than a second
for every later query, in whatever order the packets come, so the rate is exact
(`rate_exact`). The time span is that of the flow as long as its packets come
in the order of their timestamps, and only then (`span_consistent_iff`).

Key definitions: `pushPruned`, `packetsWithin`, `SpanConsistent`.
Key theorems: `exists_dropped`, `rate_exact`, `span_consistent_iff`.
-/
import NetProbe.FlowTraffic
import Mathlib.Data.List.TakeWhile

/-! ### Queues pruned from the front -/

section Pruning

variable {α : Type} (time : α → ℤ) (span : ℤ)

/-- Puts `a` at the back and drops from the front what is more than `span`
before it. -/
def pushPruned (queue : List α) (a : α) : List α := (queue ++ [a]).dropWhile fun b => time b < time a - span

/-- The queue is what was pushed less a front; each element of the front was
more than `span` before one pushed later. -/
theorem exists_dropped (pushed : List α) :
    ∃ dropped, pushed = dropped ++ pushed.foldl (pushPruned time span) [] ∧
      ∀ b ∈ dropped, ∃ a ∈ pushed, time b < time a - span := by
  induction pushed using List.reverseRecOn with
  | nil => exact ⟨[], rfl, by simp⟩
  | append_singleton pushed a ih =>
    obtain ⟨dropped, hsplit, hold⟩ := ih
    rw [List.foldl_append, List.foldl_cons, List.foldl_nil]
    let queue := pushed.foldl (pushPruned time span) []
    let pruned := (queue ++ [a]).takeWhile fun b => time b < time a - span
    have hpruned : queue ++ [a] = pruned ++ pushPruned time span queue a := List.takeWhile_append_dropWhile.symm
    refine ⟨dropped ++ pruned, ?_, fun b hb => ?_⟩
    · calc pushed ++ [a] = dropped ++ (queue ++ [a]) := by rw [← List.append_assoc, ← hsplit]
        _ = dropped ++ pruned ++ pushPruned time span queue a := by rw [hpruned, List.append_assoc]
    · rcases List.mem_append.mp hb with hb | hb
      · obtain ⟨c, hc, hlt⟩ := hold b hb
        exact ⟨c, List.mem_append_left _ hc, hlt⟩
      · have hlt := List.mem_takeWhile_imp hb
        exact ⟨a, List.mem_append_right _ (List.mem_singleton_self a), by simpa using hlt⟩

/-- What was dropped is out of the window of every query that is not older than
what was pushed. -/
theorem dropped_old {pushed dropped : List α} {now : ℤ} (hold : ∀ b ∈ dropped, ∃ a ∈ pushed, time b < time a - span)
    (hnow : ∀ a ∈ pushed, time a ≤ now) : ∀ b ∈ dropped, time b < now - span := by
  intro b hb
  obtain ⟨a, ha, hlt⟩ := hold b hb
  have := hnow a ha
  omega

end Pruning

namespace NetProbe
namespace FlowAggregator

/-! ### What the packets of a flow leave -/

section Credit

variable {α : Type} {k : FlowKey} {start : ℤ → α} {step : ParsedPacket → Bool → α → α}

/-- Only the packets of a flow are credited to it. -/
theorem foldl_credit (packets : List ParsedPacket) (seen : Option α) :
    packets.foldl (credit k start step) seen = (packetsFor k packets).foldl (credit k start step) seen := by
  induction packets generalizing seen with
  | nil => rfl
  | cons p packets ih =>
    by_cases h : keyFor p = some k
    · rw [packetsFor, List.filter_cons_of_pos (by simpa using h), List.foldl_cons, List.foldl_cons, ih]
      rfl
    · rw [packetsFor, List.filter_cons_of_neg (by simpa using h), List.foldl_cons, credit, if_neg h, ih]
      rfl

theorem foldl_credit_some : ∀ {packets : List ParsedPacket} {a : α}, (∀ p ∈ packets, keyFor p = some k) →
    packets.foldl (credit k start step) (some a) =
      some (packets.foldl (fun a p => step p (isDownstream p k) a) a)
  | [], _, _ => rfl
  | p :: packets, a, h => by
    rw [List.foldl_cons, credit, if_pos (h p List.mem_cons_self), Option.getD_some, List.foldl_cons]
    exact foldl_credit_some fun q hq => h q (List.mem_cons_of_mem _ hq)

/-- What is seen of a flow: every packet of it in turn, from the start at the first. -/
theorem credit_packetsFor (k : FlowKey) (start : ℤ → α) (step : ParsedPacket → Bool → α → α)
    (packets : List ParsedPacket) :
    packets.foldl (credit k start step) none = (packetsFor k packets).head?.map fun first =>
      (packetsFor k packets).foldl (fun a p => step p (isDownstream p k) a) (start first.timestamp) := by
  have hkeys : ∀ p ∈ packetsFor k packets, keyFor p = some k := fun p hp => by
    simpa using (List.mem_filter.mp hp).2
  rw [foldl_credit]
  cases hp : packetsFor k packets with
  | nil => rfl
  | cons p rest =>
    rw [hp] at hkeys
    rw [List.foldl_cons, credit, if_pos (hkeys p List.mem_cons_self), Option.getD_none,
      foldl_credit_some fun q hq => hkeys q (List.mem_cons_of_mem _ hq)]
    rfl

end Credit

theorem packetsFor_ne_nil {calls : List Call} {now : ℤ} {f : Flow} (hf : f ∈ snapshot (run ∅ calls) now) :
    packetsFor f.key (updatesOf calls) ≠ [] := by
  have hkey := (mem_snapshot_keys calls now f.key).mp (List.mem_map_of_mem hf)
  rwa [ne_eq, packetsFor_eq_nil, not_not]

/-! ### The rate -/

def sampleOf (packet : ParsedPacket) : TrafficSample := ⟨packet.timestamp, packet.length⟩

theorem observes_samples : Observes (·.recentTraffic) fun packet _ queue =>
    pushPruned TrafficSample.timestamp oneSecondInMicroseconds queue (sampleOf packet) where
  hostname _ _ := rfl
  update packet hostname process downstream state := by
    have hcount : ∀ s, (countPacket packet downstream s).recentTraffic = s.recentTraffic := fun s =>
      (congrArg (·.recentTraffic) (countPacket_frame packet downstream s)).trans rfl
    have htime : ∀ s, (timeHandshake packet downstream s).recentTraffic = s.recentTraffic := fun s =>
      (congrArg (·.recentTraffic) (timeHandshake_frame packet downstream s)).trans rfl
    have htrack : ∀ s, (trackDelivery packet downstream s).recentTraffic = s.recentTraffic := fun s =>
      (congrArg (·.recentTraffic) (trackDelivery_frame packet downstream s)).trans rfl
    have hreset : ∀ s, (resetSequences packet s).recentTraffic = s.recentTraffic := fun s =>
      (congrArg (·.recentTraffic) (resetSequences_frame packet s)).trans rfl
    have hlabel : ∀ s, (labelFlow packet hostname process s).recentTraffic = s.recentTraffic := fun s =>
      (congrArg (·.recentTraffic) (labelFlow_frame packet s hostname process)).trans rfl
    show pushPruned TrafficSample.timestamp oneSecondInMicroseconds
      (labelFlow packet hostname process _).recentTraffic (sampleOf packet) = _
    rw [hlabel, hreset, htrack, htime, hcount]

/-- The samples kept for a flow after a run. -/
theorem samples_run {calls : List Call} {k : FlowKey} {state : FlowState} (hs : (run ∅ calls).lookup k = some state) :
    state.recentTraffic = ((packetsFor k (updatesOf calls)).map sampleOf).foldl
      (pushPruned TrafficSample.timestamp oneSecondInMicroseconds) [] := by
  have hrun := observes_samples.run k calls ∅
  rw [hs, AList.lookup_empty, Option.map_none, credit_packetsFor] at hrun
  obtain ⟨first, -, hfold⟩ := Option.map_eq_some_iff.mp hrun.symm
  rw [List.foldl_map]
  exact hfold.symm

/-- The packets of the second that ends at `now`. -/
def packetsWithin (now : ℤ) (packets : List ParsedPacket) : List ParsedPacket :=
  packets.filter fun p => now - oneSecondInMicroseconds ≤ p.timestamp ∧ p.timestamp ≤ now

/-- The bytes of the packets of a flow, as the 64-bit count of `snapshot` adds them up. -/
theorem toNat_bytesOf (packets : List ParsedPacket) :
    (bytesOf packets).toNat = (packets.map (·.length)).sum % 2 ^ 64 := by
  induction packets with
  | nil => rfl
  | cons p packets ih =>
    have hcons : bytesOf (p :: packets) = UInt64.ofNat p.length + bytesOf packets := List.sum_cons
    rw [hcons, UInt64.toNat_add, ih, UInt64.toNat_ofNat', List.map_cons, List.sum_cons, ← Nat.add_mod]

/-- **The reported rate is exact**, in whatever order the packets of the flow
came: what was pruned is too old for any query as late as the packets, and every
other sample is there once. -/
theorem rate_exact {calls : List Call} {now : ℤ} {f : Flow} (hf : f ∈ snapshot (run ∅ calls) now)
    (hnow : ∀ p ∈ packetsFor f.key (updatesOf calls), p.timestamp ≤ now) :
    f.rateBytesPerSecond.toNat =
      ((packetsWithin now (packetsFor f.key (updatesOf calls))).map (·.length)).sum % 2 ^ 64 ∧
    ∀ state, (run ∅ calls).lookup f.key = some state →
      ∃ dropped, (packetsFor f.key (updatesOf calls)).map sampleOf = dropped ++ state.recentTraffic ∧
        ∀ s ∈ dropped, s.timestamp < now - oneSecondInMicroseconds := by
  have hkept : ∀ state, (run ∅ calls).lookup f.key = some state →
      ∃ dropped, (packetsFor f.key (updatesOf calls)).map sampleOf = dropped ++ state.recentTraffic ∧
        ∀ s ∈ dropped, s.timestamp < now - oneSecondInMicroseconds := by
    intro state hs
    obtain ⟨dropped, hsplit, hold⟩ := exists_dropped TrafficSample.timestamp oneSecondInMicroseconds
      ((packetsFor f.key (updatesOf calls)).map sampleOf)
    rw [← samples_run hs] at hsplit
    refine ⟨dropped, hsplit, dropped_old _ _ hold fun s hs => ?_⟩
    obtain ⟨p, hp, rfl⟩ := List.mem_map.mp hs
    exact hnow p hp
  refine ⟨?_, hkept⟩
  have hreported := reported_of_mem (filed_run filed_empty calls) hf
  rw [reported_eq (filed_run filed_empty calls)] at hreported
  obtain ⟨state, hs, hreport⟩ := Option.map_eq_some_iff.mp hreported
  obtain ⟨dropped, hsplit, hold⟩ := hkept state hs
  have hwindow : (state.recentTraffic.filter fun s => s.timestamp ≥ now - oneSecondInMicroseconds ∧ s.timestamp ≤ now) =
      (packetsWithin now (packetsFor f.key (updatesOf calls))).map sampleOf := by
    have hnone : (dropped.filter fun s => s.timestamp ≥ now - oneSecondInMicroseconds ∧ s.timestamp ≤ now) = [] := by
      refine List.filter_eq_nil_iff.mpr fun s hs => ?_
      have := hold s hs
      simp only [decide_eq_true_eq, not_and]
      omega
    calc (state.recentTraffic.filter fun s => s.timestamp ≥ now - oneSecondInMicroseconds ∧ s.timestamp ≤ now)
        = (dropped ++ state.recentTraffic).filter fun s =>
            s.timestamp ≥ now - oneSecondInMicroseconds ∧ s.timestamp ≤ now := by
          rw [List.filter_append, hnone, List.nil_append]
      _ = ((packetsFor f.key (updatesOf calls)).map sampleOf).filter fun s =>
            s.timestamp ≥ now - oneSecondInMicroseconds ∧ s.timestamp ≤ now := by rw [hsplit]
      _ = (packetsWithin now (packetsFor f.key (updatesOf calls))).map sampleOf := List.filter_map ..
  have hrate : f.rateBytesPerSecond = bytesOf (packetsWithin now (packetsFor f.key (updatesOf calls))) := by
    calc f.rateBytesPerSecond = (report now state).rateBytesPerSecond := by rw [hreport]
      _ = (((packetsWithin now (packetsFor f.key (updatesOf calls))).map sampleOf).map
            fun s => UInt64.ofNat s.bytes).sum := by rw [← hwindow]; rfl
      _ = bytesOf (packetsWithin now (packetsFor f.key (updatesOf calls))) := by rw [List.map_map]; rfl
  rw [hrate, toNat_bytesOf]

/-- A packet of one flow. -/
def clientPacket (timestamp : ℤ) (length : ℕ) : ParsedPacket :=
  { timestamp, length, srcIP := "192.168.1.10", dstIP := "1.1.1.1", srcPort := 51000, dstPort := 443,
    protocol := "TCP" }

/-- The run of packets that come with no hostname and no process. -/
def plainUpdates (packets : List ParsedPacket) : List Call := packets.map fun p => .update p "" ""

def clientKey : FlowKey := ⟨"192.168.1.10", "1.1.1.1", 51000, 443, "TCP"⟩

/-- The third packet is older than the second, and drops nothing. -/
def unsortedPackets : List ParsedPacket :=
  [clientPacket 1000000 1000, clientPacket 3000000 500, clientPacket 2500000 200, clientPacket 2200000 70]

theorem rate_exact_unsorted :
    ∃ f ∈ snapshot (run ∅ (plainUpdates unsortedPackets)) 3400000, f.rateBytesPerSecond.toNat = 700 := by
  have hf : (snapshot (run ∅ (plainUpdates unsortedPackets)) 3400000).map (·.key) = [clientKey] := by decide +kernel
  obtain ⟨f, hmem, hkey⟩ := List.mem_map.mp (hf ▸ List.mem_singleton_self clientKey)
  have hnow : ∀ p ∈ packetsFor f.key (updatesOf (plainUpdates unsortedPackets)), p.timestamp ≤ 3400000 := by
    rw [hkey]
    decide +kernel
  refine ⟨f, hmem, (rate_exact hmem hnow).1.trans ?_⟩
  rw [hkey]
  decide +kernel

/-! ### The time span -/

theorem observes_span : Observes (fun state => (state.flow.firstSeen, state.flow.lastSeen))
    fun packet _ span => (span.1, packet.timestamp) where
  hostname _ _ := rfl
  update packet hostname process downstream state := by
    let span := fun state : FlowState => (state.flow.firstSeen, state.flow.lastSeen)
    have hcount : ∀ s, span (countPacket packet downstream s) = (s.flow.firstSeen, packet.timestamp) := fun s => by
      cases downstream <;> rfl
    have htime : ∀ s, span (timeHandshake packet downstream s) = span s := fun s =>
      (congrArg span (timeHandshake_frame packet downstream s)).trans rfl
    have htrack : ∀ s, span (trackDelivery packet downstream s) = span s := fun s =>
      (congrArg span (trackDelivery_frame packet downstream s)).trans rfl
    have hreset : ∀ s, span (resetSequences packet s) = span s := fun s =>
      (congrArg span (resetSequences_frame packet s)).trans rfl
    have hlabel : ∀ s, span (labelFlow packet hostname process s) = span s := fun s =>
      (congrArg span (labelFlow_frame packet s hostname process)).trans rfl
    show span (labelFlow packet hostname process _) = _
    rw [hlabel, hreset, htrack, htime, hcount]

/-- A fold that keeps the first component and sets the second ends with the last element. -/
theorem foldl_span (packets : List ParsedPacket) (span : ℤ × ℤ) :
    packets.foldl (fun span p => (span.1, p.timestamp)) span =
      (span.1, (packets.getLast?.map (·.timestamp)).getD span.2) := by
  induction packets using List.reverseRecOn with
  | nil => rfl
  | append_singleton packets p ih => rw [List.foldl_append, ih, List.getLast?_append]; rfl

/-- A flow spans from its first packet to its last one. -/
theorem span_run {calls : List Call} {now : ℤ} {f : Flow} (hf : f ∈ snapshot (run ∅ calls) now) :
    (packetsFor f.key (updatesOf calls)).head?.map (·.timestamp) = some f.firstSeen ∧
      (packetsFor f.key (updatesOf calls)).getLast?.map (·.timestamp) = some f.lastSeen := by
  have hspan := reported_observe observes_span (fun f => (f.firstSeen, f.lastSeen)) id (fun _ _ => rfl) calls now f.key
  rw [reported_of_mem (filed_run filed_empty calls) hf, credit_packetsFor, Option.map_id, id] at hspan
  obtain ⟨first, hfirst, hfold⟩ := Option.map_eq_some_iff.mp hspan.symm
  obtain ⟨last, hlast⟩ : ∃ last, (packetsFor f.key (updatesOf calls)).getLast? = some last :=
    ⟨_, List.getLast?_eq_some_getLast (packetsFor_ne_nil hf)⟩
  rw [foldl_span, hlast] at hfold
  rw [hfirst, hlast]
  exact ⟨congrArg some (congrArg Prod.fst hfold), congrArg some (congrArg Prod.snd hfold)⟩

/-- The times at which packets of the flow `k` were seen. -/
def timesOf (k : FlowKey) (packets : List ParsedPacket) : Set ℤ := {t | ∃ p ∈ packetsFor k packets, p.timestamp = t}

/-- The flow begins with the earliest of its packets and ends with the latest. -/
structure SpanConsistent (packets : List ParsedPacket) (f : Flow) : Prop where
  ordered : f.firstSeen ≤ f.lastSeen
  first : IsLeast (timesOf f.key packets) f.firstSeen
  last : IsGreatest (timesOf f.key packets) f.lastSeen

/-- The packets of every flow come in the order of their timestamps. -/
def InTimeOrder (packets : List ParsedPacket) : Prop :=
  ∀ k, (packetsFor k packets).Pairwise fun p q => p.timestamp ≤ q.timestamp

theorem prefix_packetsFor {calls before : List Call} (h : before <+: calls) (k : FlowKey) :
    packetsFor k (updatesOf before) <+: packetsFor k (updatesOf calls) := (h.filterMap _).filter _

/-- In time order the first packet is the earliest and the last one the latest. -/
theorem InTimeOrder.spanConsistent {calls : List Call} (h : InTimeOrder (updatesOf calls)) {now : ℤ} {f : Flow}
    (hf : f ∈ snapshot (run ∅ calls) now) : SpanConsistent (updatesOf calls) f := by
  have horder := h f.key
  obtain ⟨hfirst, hlast⟩ := span_run hf
  obtain ⟨first, hhead, hfirst⟩ := Option.map_eq_some_iff.mp hfirst
  obtain ⟨last, hend, hlast⟩ := Option.map_eq_some_iff.mp hlast
  have hleast : IsLeast (timesOf f.key (updatesOf calls)) f.firstSeen := by
    refine ⟨⟨first, List.mem_of_mem_head? hhead, hfirst⟩, ?_⟩
    rintro _ ⟨p, hp, rfl⟩
    obtain ⟨rest, hrest⟩ := List.head?_eq_some_iff.mp hhead
    rw [hrest] at horder hp
    rw [← hfirst]
    rcases List.mem_cons.mp hp with rfl | hp
    · exact le_rfl
    · exact (List.pairwise_cons.mp horder).1 p hp
  have hgreatest : IsGreatest (timesOf f.key (updatesOf calls)) f.lastSeen := by
    refine ⟨⟨last, List.mem_of_getLast? hend, hlast⟩, ?_⟩
    rintro _ ⟨p, hp, rfl⟩
    obtain ⟨rest, hrest⟩ := List.getLast?_eq_some_iff.mp hend
    rw [hrest] at horder hp
    rw [← hlast]
    rcases List.mem_append.mp hp with hp | hp
    · exact (List.pairwise_append.mp horder).2.2 p hp last (List.mem_singleton_self last)
    · rw [List.mem_singleton.mp hp]
  exact ⟨hleast.2 hgreatest.1, hleast, hgreatest⟩

/-- **The time span of every flow is that of its packets all along a run
exactly when the packets of each flow come in the order of their timestamps.** -/
theorem span_consistent_iff (calls : List Call) :
    (∀ before, before <+: calls → ∀ now, ∀ f ∈ snapshot (run ∅ before) now, SpanConsistent (updatesOf before) f) ↔
      InTimeOrder (updatesOf calls) := by
  constructor
  · induction calls using List.reverseRecOn with
    | nil => exact fun _ k => List.Pairwise.nil
    | append_singleton calls c ih =>
      intro h k
      have hbefore : InTimeOrder (updatesOf calls) :=
        ih fun before hb => h before (hb.trans (List.prefix_append calls [c]))
      have hsplit : updatesOf (calls ++ [c]) = updatesOf calls ++ updatesOf [c] := List.filterMap_append
      cases c with
      | setHostnameForAddress ip hostname =>
        rw [hsplit]
        exact (List.append_nil (updatesOf calls)).symm ▸ hbefore k
      | update p hostname process =>
        by_cases hk : keyFor p = some k
        · have hpackets : packetsFor k (updatesOf (calls ++ [.update p hostname process])) =
              packetsFor k (updatesOf calls) ++ [p] := by rw [hsplit]; exact packetsFor_concat_self hk
          have hkey : k ∈ (snapshot (run ∅ (calls ++ [.update p hostname process])) 0).map (·.key) := by
            rw [mem_snapshot_keys]
            exact ⟨p, by rw [hsplit]; exact List.mem_append_right _ List.mem_cons_self, hk⟩
          obtain ⟨f, hf, rfl⟩ := List.mem_map.mp hkey
          -- the new packet is the last, so it is no earlier than any before it
          obtain ⟨-, hlast⟩ := span_run hf
          rw [hpackets, List.getLast?_concat, Option.map_some, Option.some_inj] at hlast
          have hgreatest := (h _ List.prefix_rfl 0 f hf).last.2
          rw [hpackets, List.pairwise_append]
          refine ⟨hbefore f.key, List.pairwise_singleton _ p, fun q hq r hr => ?_⟩
          rw [List.mem_singleton.mp hr, hlast]
          exact hgreatest ⟨q, by rw [hpackets]; exact List.mem_append_left _ hq, rfl⟩
        · have hpackets : packetsFor k (updatesOf (calls ++ [.update p hostname process])) =
              packetsFor k (updatesOf calls) := by rw [hsplit]; exact packetsFor_concat_ne hk
          rw [hpackets]
          exact hbefore k
  · intro h before hb now f hf
    exact InTimeOrder.spanConsistent (fun k => (h k).sublist (prefix_packetsFor hb k).sublist) hf

/-- Two packets in the order in which two merged captures may have them. -/
def mergedUpdates : List Call := plainUpdates [clientPacket 5000000 100, clientPacket 3000000 100]

theorem span_inconsistent_merged :
    ¬ ∀ before, before <+: mergedUpdates → ∀ now, ∀ f ∈ snapshot (run ∅ before) now,
      SpanConsistent (updatesOf before) f := by
  intro h
  have hspan : (snapshot (run ∅ mergedUpdates) 6000000).map (fun f => (f.firstSeen, f.lastSeen)) =
      [(5000000, 3000000)] := by decide +kernel
  obtain ⟨f, hf, hvalues⟩ := List.mem_map.mp (hspan ▸ List.mem_singleton_self ((5000000, 3000000) : ℤ × ℤ))
  obtain ⟨hfirst, hlast⟩ := Prod.mk.inj hvalues
  have hordered := (h mergedUpdates List.prefix_rfl 6000000 f hf).ordered
  rw [hfirst, hlast] at hordered
  exact absurd hordered (by decide)

end FlowAggregator
end NetProbe
