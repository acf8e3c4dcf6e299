/-
# Flow aggregation conserves traffic

The counters of a flow are those of the packets filed under its key
(`reported_traffic`), each credited to the endpoint that sent it; the flows
together hold every packet that has a key, once (`sum_fibers`). The counters do
not depend on the order of the packets.

Key definitions: `Traffic`, `packetsFor`, `bytesOf`.
Key theorem: `traffic_conserved`.
-/
import NetProbe.FlowRuns
import Mathlib.Algebra.BigOperators.Group.List.Basic

/-! ### Sums over the fibers of a partial map -/

section Fibers

variable {K α M : Type} [DecidableEq K] [AddCommMonoid M]

theorem sum_map_ite_eq {k : K} (m : M) {ks : List K} (hks : ks.Nodup) :
    (ks.map fun k' => if k = k' then m else 0).sum = if k ∈ ks then m else 0 := by
  induction ks with
  | nil => rfl
  | cons k' ks ih =>
    obtain ⟨hk', hks⟩ := List.nodup_cons.mp hks
    rw [List.map_cons, List.sum_cons, ih hks]
    by_cases h : k = k'
    · subst h
      rw [if_pos rfl, if_neg hk', if_pos List.mem_cons_self, add_zero]
    · rw [if_neg h, zero_add]
      simp only [List.mem_cons, h, false_or]

/-- What is filed under the keys `ks` adds up to all that is filed. -/
theorem sum_fibers (key : α → Option K) (g : α → M) {ks : List K} (hks : ks.Nodup) (l : List α)
    (h : ∀ a ∈ l, ∀ k, key a = some k → k ∈ ks) :
    (ks.map fun k => ((l.filter fun a => key a = some k).map g).sum).sum =
      ((l.filter fun a => (key a).isSome).map g).sum := by
  induction l with
  | nil => simp
  | cons a l ih =>
    have ih := ih fun b hb => h b (List.mem_cons_of_mem _ hb)
    cases hk : key a with
    | none => simpa [List.filter_cons, hk] using ih
    | some k =>
      have hcons : ∀ k', (((a :: l).filter fun b => key b = some k').map g).sum =
          (if k = k' then g a else 0) + ((l.filter fun b => key b = some k').map g).sum := by
        intro k'
        rw [List.filter_cons, hk]
        by_cases hkk : k = k'
        · simp [hkk]
        · simp [hkk]
      rw [List.map_congr_left fun k' _ => hcons k', List.sum_map_add, ih, sum_map_ite_eq _ hks,
        if_pos (h a List.mem_cons_self k hk), List.filter_cons, hk]
      simp

end Fibers

namespace NetProbe
namespace FlowAggregator

/-! ### The counters of a flow -/

structure Traffic where
  packets : UInt64
  bytesUp : UInt64
  bytesDown : UInt64

def trafficOf (flow : Flow) : Traffic := ⟨flow.packets, flow.bytesUp, flow.bytesDown⟩

/-- The counters after one more packet. -/
def Traffic.add (packet : ParsedPacket) (downstream : Bool) (t : Traffic) : Traffic where
  packets := t.packets + 1
  bytesUp := if downstream then t.bytesUp else t.bytesUp + UInt64.ofNat packet.length
  bytesDown := if downstream then t.bytesDown + UInt64.ofNat packet.length else t.bytesDown

theorem observes_traffic : Observes (fun state => trafficOf state.flow) Traffic.add where
  hostname _ _ := rfl
  update packet hostname process downstream state := by
    have hcount : trafficOf (countPacket packet downstream state).flow =
        Traffic.add packet downstream (trafficOf state.flow) := by
      cases downstream <;> rfl
    have htime : ∀ s, trafficOf (timeHandshake packet downstream s).flow = trafficOf s.flow := fun s =>
      (congrArg (trafficOf ·.flow) (timeHandshake_frame packet downstream s)).trans rfl
    have htrack : ∀ s, trafficOf (trackDelivery packet downstream s).flow = trafficOf s.flow := fun s =>
      (congrArg (trafficOf ·.flow) (trackDelivery_frame packet downstream s)).trans rfl
    have hreset : ∀ s, trafficOf (resetSequences packet s).flow = trafficOf s.flow := fun s =>
      (congrArg (trafficOf ·.flow) (resetSequences_frame packet s)).trans rfl
    have hlabel : ∀ s, trafficOf (labelFlow packet hostname process s).flow = trafficOf s.flow := fun s =>
      (congrArg (trafficOf ·.flow) (labelFlow_frame packet s hostname process)).trans rfl
    show trafficOf (labelFlow packet hostname process _).flow = _
    rw [hlabel, hreset, htrack, htime, hcount]

/-- The packets filed under `k`, in order. -/
def packetsFor (k : FlowKey) (packets : List ParsedPacket) : List ParsedPacket :=
  packets.filter fun p => keyFor p = some k

/-- The bytes of the packets, as the 64-bit counters add them up. -/
def bytesOf (packets : List ParsedPacket) : UInt64 := (packets.map fun p => UInt64.ofNat p.length).sum

/-- The counters the packets make for the flow `k`. -/
def trafficFor (k : FlowKey) (packets : List ParsedPacket) : Traffic where
  packets := UInt64.ofNat (packetsFor k packets).length
  bytesUp := bytesOf ((packetsFor k packets).filter fun p => !isDownstream p k)
  bytesDown := bytesOf ((packetsFor k packets).filter fun p => isDownstream p k)

section Counters

variable {k : FlowKey} {packets : List ParsedPacket} {p : ParsedPacket}

theorem packetsFor_concat_self (h : keyFor p = some k) :
    packetsFor k (packets ++ [p]) = packetsFor k packets ++ [p] := by
  simp [packetsFor, List.filter_append, h]

theorem packetsFor_concat_ne (h : keyFor p ≠ some k) : packetsFor k (packets ++ [p]) = packetsFor k packets := by
  simp [packetsFor, List.filter_append, h]

theorem bytesOf_concat : bytesOf (packets ++ [p]) = bytesOf packets + UInt64.ofNat p.length := by
  simp [bytesOf]

theorem trafficFor_concat_self (h : keyFor p = some k) :
    trafficFor k (packets ++ [p]) = (trafficFor k packets).add p (isDownstream p k) := by
  simp only [trafficFor, Traffic.add, packetsFor_concat_self h, List.filter_append, List.length_append,
    List.length_singleton, UInt64.ofNat_add]
  cases hd : isDownstream p k <;> simp [hd, bytesOf_concat]

theorem trafficFor_concat_ne (h : keyFor p ≠ some k) : trafficFor k (packets ++ [p]) = trafficFor k packets := by
  simp only [trafficFor, packetsFor_concat_ne h]

theorem foldl_traffic (k : FlowKey) (packets : List ParsedPacket) :
    packets.foldl (credit k (fun _ => ⟨0, 0, 0⟩) Traffic.add) none =
      if packetsFor k packets = [] then none else some (trafficFor k packets) := by
  induction packets using List.reverseRecOn with
  | nil => rfl
  | append_singleton packets p ih =>
    rw [List.foldl_append, List.foldl_cons, List.foldl_nil, ih, credit]
    by_cases h : keyFor p = some k
    · rw [if_pos h, packetsFor_concat_self h, if_neg (List.concat_ne_nil p _), trafficFor_concat_self h]
      split_ifs with hnil
      · simp only [trafficFor, hnil]
        rfl
      · rfl
    · rw [if_neg h, packetsFor_concat_ne h, trafficFor_concat_ne h]

end Counters

/-- **The counters of a flow after a run.** -/
theorem reported_traffic (calls : List Call) (now : ℤ) (k : FlowKey) :
    (reported (run ∅ calls) now k).map trafficOf =
      if packetsFor k (updatesOf calls) = [] then none else some (trafficFor k (updatesOf calls)) := by
  calc (reported (run ∅ calls) now k).map trafficOf
      = ((updatesOf calls).foldl (credit k (fun _ => ⟨0, 0, 0⟩) Traffic.add) none).map id :=
        reported_observe observes_traffic trafficOf id (fun _ _ => rfl) calls now k
    _ = (updatesOf calls).foldl (credit k (fun _ => ⟨0, 0, 0⟩) Traffic.add) none := congrFun Option.map_id _
    _ = _ := foldl_traffic k _

/-! ### All flows together -/

theorem snapshot_keys {flows : Flows} (h : Filed flows) (now : ℤ) :
    (snapshot flows now).map (·.key) = flows.keys := by
  rw [snapshot, List.map_map]
  exact List.map_congr_left fun e he => h e.1 e.2 (AList.mem_lookup_iff.mpr he)

theorem packetsFor_eq_nil {k : FlowKey} {packets : List ParsedPacket} :
    packetsFor k packets = [] ↔ ¬ ∃ p ∈ packets, keyFor p = some k := by
  simp [packetsFor]

theorem mem_snapshot_keys (calls : List Call) (now : ℤ) (k : FlowKey) :
    k ∈ (snapshot (run ∅ calls) now).map (·.key) ↔ ∃ p ∈ updatesOf calls, keyFor p = some k := by
  have htraffic := reported_traffic calls now k
  rw [reported_eq (filed_run filed_empty calls)] at htraffic
  rw [snapshot_keys (filed_run filed_empty calls), ← AList.mem_keys, ← AList.lookup_isSome, ← not_iff_not,
    ← packetsFor_eq_nil]
  by_cases hnil : packetsFor k (updatesOf calls) = []
  · rw [if_pos hnil, Option.map_eq_none_iff, Option.map_eq_none_iff] at htraffic
    simp [hnil, htraffic]
  · rw [if_neg hnil, Option.map_map] at htraffic
    obtain ⟨state, hstate, -⟩ := Option.map_eq_some_iff.mp htraffic
    simp [hnil, hstate]

/-- The two counters of bytes hold what all packets of the flow brought. -/
theorem bytes_partition (test : ParsedPacket → Bool) (packets : List ParsedPacket) :
    bytesOf (packets.filter fun p => !test p) + bytesOf (packets.filter test) = bytesOf packets := by
  induction packets with
  | nil => rfl
  | cons p packets ih =>
    have hcons : ∀ l, bytesOf (p :: l) = UInt64.ofNat p.length + bytesOf l := fun l => List.sum_cons
    cases h : test p
    · rw [List.filter_cons_of_pos (by simp [h]), List.filter_cons_of_neg (by simp [h]), hcons, hcons, add_assoc, ih]
    · rw [List.filter_cons_of_neg (by simp [h]), List.filter_cons_of_pos h, hcons, hcons, add_left_comm, ih]

/-- A packet of a flow between distinct endpoints travels upstream exactly when
the key's `src` sent it. -/
theorem upstream_iff {p : ParsedPacket} {k : FlowKey} (hk : keyFor p = some k)
    (hne : (k.srcIP, k.srcPort) ≠ (k.dstIP, k.dstPort)) :
    isDownstream p k = false ↔ srcEndpoint p = (k.srcIP, k.srcPort) := by
  obtain rfl := keyFor_eq_some hk
  rw [← Bool.not_eq_true, isDownstream_keyOf]
  change (orient ClientFirst (srcEndpoint p) (dstEndpoint p)).1 ≠
    (orient ClientFirst (srcEndpoint p) (dstEndpoint p)).2 at hne
  show _ ↔ srcEndpoint p = (orient ClientFirst (srcEndpoint p) (dstEndpoint p)).1
  rcases orient_mem ClientFirst (srcEndpoint p) (dstEndpoint p) with h | h
  · rw [h] at hne ⊢
    exact iff_of_true hne rfl
  · rw [h] at hne ⊢
    exact iff_of_false (not_not.mpr rfl) hne.symm

/-- What the packets of its key make of the counters of a flow. -/
structure Accounted (packets : List ParsedPacket) (f : Flow) : Prop where
  count : f.packets = UInt64.ofNat (packetsFor f.key packets).length
  bytes : f.bytesUp + f.bytesDown = bytesOf (packetsFor f.key packets)
  sides : (f.key.srcIP, f.key.srcPort) ≠ (f.key.dstIP, f.key.dstPort) →
    f.bytesUp = bytesOf ((packetsFor f.key packets).filter fun p => srcEndpoint p = (f.key.srcIP, f.key.srcPort)) ∧
    f.bytesDown = bytesOf ((packetsFor f.key packets).filter fun p => srcEndpoint p = (f.key.dstIP, f.key.dstPort))

theorem accounted_of_mem {calls : List Call} {now : ℤ} {f : Flow} (hf : f ∈ snapshot (run ∅ calls) now) :
    Accounted (updatesOf calls) f := by
  have htraffic := reported_traffic calls now f.key
  rw [reported_of_mem (filed_run filed_empty calls) hf, Option.map_some] at htraffic
  have hne : packetsFor f.key (updatesOf calls) ≠ [] := fun h => by simp [h] at htraffic
  rw [if_neg hne, Option.some_inj] at htraffic
  obtain ⟨hp, hup, hdown⟩ := Traffic.mk.inj htraffic
  refine ⟨hp, by rw [hup, hdown, bytes_partition], fun hsides => ⟨?_, ?_⟩⟩
  · rw [hup]
    refine congrArg bytesOf (List.filter_congr fun p hp => ?_)
    have hk : keyFor p = some f.key := by simpa using (List.mem_filter.mp hp).2
    rw [Bool.eq_iff_iff, Bool.not_eq_true', upstream_iff hk hsides, decide_eq_true_iff]
  · rw [hdown]
    refine congrArg bytesOf (List.filter_congr fun p _ => ?_)
    rw [Bool.eq_iff_iff, downstream_iff, decide_eq_true_iff]

/-- The counters do not depend on the order of the packets. -/
theorem reported_traffic_perm {calls calls' : List Call} (h : (updatesOf calls').Perm (updatesOf calls)) (now : ℤ)
    (k : FlowKey) :
    (reported (run ∅ calls') now k).map trafficOf = (reported (run ∅ calls) now k).map trafficOf := by
  have hpackets : (packetsFor k (updatesOf calls')).Perm (packetsFor k (updatesOf calls)) := h.filter _
  have hbytes : ∀ {l l' : List ParsedPacket}, l'.Perm l → bytesOf l' = bytesOf l := fun hl => (hl.map _).sum_eq
  have htraffic : trafficFor k (updatesOf calls') = trafficFor k (updatesOf calls) := by
    simp only [trafficFor, hpackets.length_eq, hbytes (hpackets.filter _)]
  have hnil : packetsFor k (updatesOf calls') = [] ↔ packetsFor k (updatesOf calls) = [] :=
    ⟨fun h => (h ▸ hpackets).nil_eq.symm, fun h => (h ▸ hpackets).eq_nil⟩
  simp only [reported_traffic, hnil, htraffic]

/-- **Flow aggregation conserves traffic.** -/
theorem traffic_conserved (calls : List Call) (now : ℤ) :
    ((snapshot (run ∅ calls) now).map (·.key)).Nodup ∧
    (∀ k, k ∈ (snapshot (run ∅ calls) now).map (·.key) ↔ ∃ p ∈ updatesOf calls, keyFor p = some k) ∧
    (∀ f ∈ snapshot (run ∅ calls) now, Accounted (updatesOf calls) f) ∧
    ((snapshot (run ∅ calls) now).map (·.packets)).sum =
      UInt64.ofNat ((updatesOf calls).filter fun p => (keyFor p).isSome).length ∧
    ((snapshot (run ∅ calls) now).map fun f => f.bytesUp + f.bytesDown).sum =
      bytesOf ((updatesOf calls).filter fun p => (keyFor p).isSome) ∧
    (∀ p hostname process k, keyFor p ≠ some k →
      reported (run ∅ (calls ++ [.update p hostname process])) now k = reported (run ∅ calls) now k) ∧
    (∀ calls', (updatesOf calls').Perm (updatesOf calls) → ∀ k,
      (reported (run ∅ calls') now k).map trafficOf = (reported (run ∅ calls) now k).map trafficOf) := by
  have hfiled := filed_run filed_empty calls
  have hnodup : ((snapshot (run ∅ calls) now).map (·.key)).Nodup := by
    rw [snapshot_keys hfiled]
    exact (run ∅ calls).keys_nodup
  have hkeys := mem_snapshot_keys calls now
  have hall : ∀ p ∈ updatesOf calls, ∀ k, keyFor p = some k → k ∈ (snapshot (run ∅ calls) now).map (·.key) :=
    fun p hp k hk => (hkeys k).mpr ⟨p, hp, hk⟩
  refine ⟨hnodup, hkeys, fun f hf => accounted_of_mem hf, ?_, ?_, ?_, ?_⟩
  · have hone : ∀ l : List ParsedPacket, (l.map fun _ => (1 : UInt64)).sum = UInt64.ofNat l.length := by
      intro l
      induction l with
      | nil => rfl
      | cons p l ih =>
        rw [List.map_cons, List.sum_cons, ih, add_comm, List.length_cons, UInt64.ofNat_add]
        rfl
    have hsum := sum_fibers keyFor (fun _ => (1 : UInt64)) hnodup (updatesOf calls) hall
    rw [List.map_map, hone] at hsum
    rw [← hsum]
    refine congrArg List.sum (List.map_congr_left fun f hf => ?_)
    rw [(accounted_of_mem hf).count]
    exact (hone _).symm
  · have hsum := sum_fibers keyFor (fun p => UInt64.ofNat p.length) hnodup (updatesOf calls) hall
    rw [List.map_map] at hsum
    rw [bytesOf, ← hsum]
    exact congrArg List.sum (List.map_congr_left fun f hf => (accounted_of_mem hf).bytes)
  · intro p hostname process k hk
    rw [reported_eq (filed_run filed_empty _), reported_eq hfiled, run_concat, apply, update_lookup_ne hk]
  · exact fun calls' hperm k => reported_traffic_perm hperm now k

end FlowAggregator
end NetProbe
