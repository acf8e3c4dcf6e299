/-
# Runs of FlowAggregator

A run is a list of calls on an initially empty aggregator. Each stage of
`updateState` touches its own fields; what a call leaves in the delivery
accounts of one direction of a flow is one lemma (`deliveryOf_apply`), and over
a run without reset the accounts are the fold of `judgeSegment` over the data
segments of the direction (`deliveryOf_run`).

Key definitions: `Call`, `run`, `dataSegments`, `deliveryOf`.
-/
import NetProbe.FlowKeys
import Mathlib.Data.List.Find

namespace NetProbe
namespace FlowAggregator

/-- A call that changes the aggregator. -/
inductive Call
  | update (packet : ParsedPacket) (hostname process : String)
  | setHostnameForAddress (ip hostname : String)

def apply (flows : Flows) : Call → Flows
  | .update packet hostname process => update flows packet hostname process
  | .setHostnameForAddress ip hostname => setHostnameForAddress flows ip hostname

def run (flows : Flows) (calls : List Call) : Flows := calls.foldl apply flows

theorem run_append (flows : Flows) (a b : List Call) : run flows (a ++ b) = run (run flows a) b :=
  List.foldl_append

theorem run_concat (flows : Flows) (calls : List Call) (c : Call) :
    run flows (calls ++ [c]) = apply (run flows calls) c := by
  rw [run_append]; rfl

/-- A hostname learned for an address changes only hostnames. -/
theorem setHostnameForAddress_lookup (flows : Flows) (ip hostname : String) (k : FlowKey) :
    ∃ f : FlowState → FlowState, (∀ s, f s = s ∨ f s = { s with flow := { s.flow with hostname } }) ∧
      (setHostnameForAddress flows ip hostname).lookup k = (flows.lookup k).map f := by
  unfold setHostnameForAddress
  split
  · exact ⟨id, fun s => Or.inl rfl, by simp⟩
  · rw [Table.lookup_mapValues]
    refine ⟨_, fun s => ?_, rfl⟩
    split
    · exact Or.inr rfl
    · exact Or.inl rfl

/-! ### What each stage of an update writes -/

section Frames

variable (p : ParsedPacket) (downstream : Bool) (s : FlowState)

theorem countPacket_frame : countPacket p downstream s = { s with
    flow := { s.flow with
      bytesUp := (countPacket p downstream s).flow.bytesUp
      bytesDown := (countPacket p downstream s).flow.bytesDown
      packets := (countPacket p downstream s).flow.packets
      lastSeen := (countPacket p downstream s).flow.lastSeen
      encryptedTunnel := (countPacket p downstream s).flow.encryptedTunnel } } := by
  cases downstream <;> rfl

theorem timeHandshake_frame : timeHandshake p downstream s = { s with
    flow := { s.flow with initialRttMicroseconds := (timeHandshake p downstream s).flow.initialRttMicroseconds }
    synTimestamp := (timeHandshake p downstream s).synTimestamp
    synSeen := (timeHandshake p downstream s).synSeen } := by
  simp only [timeHandshake]
  split_ifs <;> rfl

theorem trackDelivery_frame : trackDelivery p downstream s = { s with
    flow := { s.flow with
      retransmissionsUp := (trackDelivery p downstream s).flow.retransmissionsUp
      retransmissionsDown := (trackDelivery p downstream s).flow.retransmissionsDown
      outOfOrderUp := (trackDelivery p downstream s).flow.outOfOrderUp
      outOfOrderDown := (trackDelivery p downstream s).flow.outOfOrderDown }
    upSequence := (trackDelivery p downstream s).upSequence
    downSequence := (trackDelivery p downstream s).downSequence } := by
  unfold trackDelivery FlowState.setDelivery
  split_ifs <;> rfl

theorem resetSequences_frame : resetSequences p s = { s with
    upSequence := (resetSequences p s).upSequence
    downSequence := (resetSequences p s).downSequence } := by
  unfold resetSequences
  split_ifs <;> rfl

theorem labelFlow_frame (hostname process : String) : labelFlow p hostname process s = { s with
    flow := { s.flow with
      hostname := (labelFlow p hostname process s).flow.hostname
      service := (labelFlow p hostname process s).flow.service
      process := (labelFlow p hostname process s).flow.process } } := by
  simp only [labelFlow]
  split_ifs <;> rfl

end Frames

/-! ### Observations of one flow -/

/-- The packets a run updates with, in order. -/
def updatesOf (calls : List Call) : List ParsedPacket := calls.filterMap fun
  | .update packet _ _ => some packet
  | .setHostnameForAddress _ _ => none

/-- `observe` does not see the hostname, and `step` says what an update does to
what it sees. -/
structure Observes {α : Type} (observe : FlowState → α) (step : ParsedPacket → Bool → α → α) : Prop where
  hostname : ∀ state hostname, observe { state with flow := { state.flow with hostname } } = observe state
  update : ∀ packet hostname process downstream state,
    observe (updateState packet hostname process downstream state) = step packet downstream (observe state)

/-- What is seen of the flow `k` after one more packet: `start t` of a flow that
begins at `t`, nothing as long as there is no flow. -/
def credit {α : Type} (k : FlowKey) (start : ℤ → α) (step : ParsedPacket → Bool → α → α) (seen : Option α)
    (packet : ParsedPacket) : Option α :=
  if keyFor packet = some k then
    some (step packet (isDownstream packet k) (seen.getD (start packet.timestamp)))
  else seen

section Credit

variable {α : Type} {k : FlowKey} {start : ℤ → α} {step : ParsedPacket → Bool → α → α}

/-- What the packets of a flow keep holds of what is seen of it. -/
theorem credit_invariant {P : α → Prop} (hstart : ∀ t, P (start t)) : ∀ (packets : List ParsedPacket)
    {seen : Option α}, (∀ p ∈ packets, keyFor p = some k → ∀ a, P a → P (step p (isDownstream p k) a)) →
      (∀ a ∈ seen, P a) → ∀ a ∈ packets.foldl (credit k start step) seen, P a
  | [], _, _, hseen => hseen
  | p :: packets, seen, hstep, hseen => by
    refine credit_invariant hstart packets (fun q hq => hstep q (List.mem_cons_of_mem _ hq)) fun a ha => ?_
    unfold credit at ha
    split at ha
    · rename_i hk
      obtain rfl := Option.some.inj ha
      refine hstep p List.mem_cons_self hk _ ?_
      cases seen with
      | none => exact hstart _
      | some a => exact hseen a rfl
    · exact hseen a ha

/-- Packets that change nothing leave what is seen. -/
theorem credit_fixed {a : α} : ∀ packets : List ParsedPacket,
    (∀ p ∈ packets, keyFor p = some k → step p (isDownstream p k) a = a) →
      packets.foldl (credit k start step) (some a) = some a
  | [], _ => rfl
  | p :: packets, h => by
    have hp : credit k start step (some a) p = some a := by
      unfold credit
      split
      · rename_i hk
        exact congrArg some (h p List.mem_cons_self hk)
      · rfl
    rw [List.foldl_cons, hp]
    exact credit_fixed packets fun q hq => h q (List.mem_cons_of_mem _ hq)

end Credit

section Observes

variable {α : Type} {observe : FlowState → α} {step : ParsedPacket → Bool → α → α}

theorem Observes.apply (h : Observes observe step) (k : FlowKey) (flows : Flows) (c : Call) :
    ((apply flows c).lookup k).map observe =
      (updatesOf [c]).foldl (credit k (fun t => observe (newState k t)) step) ((flows.lookup k).map observe) := by
  cases c with
  | setHostnameForAddress ip hostname =>
    obtain ⟨f, hf, he⟩ := setHostnameForAddress_lookup flows ip hostname k
    have hs : ∀ s, observe (f s) = observe s := by
      intro s
      rcases hf s with hs | hs
      · rw [hs]
      · rw [hs, h.hostname]
    show ((setHostnameForAddress flows ip hostname).lookup k).map observe = (flows.lookup k).map observe
    rw [he, Option.map_map]
    exact congrArg (Option.map · _) (funext hs)
  | update p hostname process =>
    show ((FlowAggregator.update flows p hostname process).lookup k).map observe =
      credit k (fun t => observe (newState k t)) step ((flows.lookup k).map observe) p
    by_cases hk : keyFor p = some k
    · rw [update_lookup_self hk, Option.map_some, h.update, credit, if_pos hk]
      cases flows.lookup k <;> rfl
    · rw [update_lookup_ne hk, credit, if_neg hk]

/-- **What is seen of a flow after a run** is what its packets made of it. -/
theorem Observes.run (h : Observes observe step) (k : FlowKey) (calls : List Call) :
    ∀ flows : Flows, ((run flows calls).lookup k).map observe =
      (updatesOf calls).foldl (credit k (fun t => observe (newState k t)) step)
        ((flows.lookup k).map observe) := by
  induction calls with
  | nil => exact fun flows => rfl
  | cons c calls ih =>
    intro flows
    have hcons : updatesOf (c :: calls) = updatesOf [c] ++ updatesOf calls := by
      rw [updatesOf, updatesOf, updatesOf, ← List.filterMap_append, List.singleton_append]
    rw [hcons, List.foldl_append, ← h.apply]
    exact ih (FlowAggregator.apply flows c)

end Observes

/-- The flows are filed under their own keys. -/
def Filed (flows : Flows) : Prop := ∀ k state, flows.lookup k = some state → state.flow.key = k

/-- What a flow is filed and reported under. -/
def FlowState.labels (state : FlowState) : FlowKey × String × String × String :=
  (state.flow.key, state.flow.hostname, state.flow.service, state.flow.process)

/-- The stages of an update before `labelFlow` leave the labels. -/
theorem labels_before_labelFlow (p : ParsedPacket) (downstream : Bool) (state : FlowState) :
    (resetSequences p <| trackDelivery p downstream <| timeHandshake p downstream <|
      countPacket p downstream state).labels = state.labels := by
  have hreset : ∀ s, (resetSequences p s).labels = s.labels := fun s =>
    (congrArg FlowState.labels (resetSequences_frame p s)).trans rfl
  have htrack : ∀ s, (trackDelivery p downstream s).labels = s.labels := fun s =>
    (congrArg FlowState.labels (trackDelivery_frame p downstream s)).trans rfl
  have htime : ∀ s, (timeHandshake p downstream s).labels = s.labels := fun s =>
    (congrArg FlowState.labels (timeHandshake_frame p downstream s)).trans rfl
  have hcount : ∀ s, (countPacket p downstream s).labels = s.labels := fun s =>
    (congrArg FlowState.labels (countPacket_frame p downstream s)).trans rfl
  rw [hreset, htrack, htime, hcount]

theorem observes_key : Observes (·.flow.key) fun _ _ key => key where
  hostname _ _ := rfl
  update packet hostname process downstream state := by
    have hlabel : ∀ s, (labelFlow packet hostname process s).flow.key = s.flow.key := fun s =>
      (congrArg (·.flow.key) (labelFlow_frame packet s hostname process)).trans rfl
    exact (hlabel _).trans (congrArg (·.1) (labels_before_labelFlow packet downstream state))

theorem filed_run {flows : Flows} (h : Filed flows) (calls : List Call) : Filed (run flows calls) := by
  intro k state hs
  have hrun := observes_key.run k calls flows
  have hseen : ∀ key ∈ (flows.lookup k).map (·.flow.key), key = k := by
    intro key hkey
    obtain ⟨state, hs, rfl⟩ := Option.map_eq_some_iff.mp hkey
    exact h k state hs
  have hkeys : ∀ key ∈ (updatesOf calls).foldl (credit k (fun _ => k) fun _ _ key => key)
      ((flows.lookup k).map (·.flow.key)), key = k :=
    credit_invariant (P := fun key => key = k) (fun _ => rfl) (updatesOf calls) (fun _ _ _ _ hkey => hkey) hseen
  exact hkeys state.flow.key (hrun.symm.trans (by rw [hs]; rfl))

theorem filed_empty : Filed ∅ := fun k state h => by simp at h

/-- The flow `snapshot` reports under the key `k`. -/
def reported (flows : Flows) (nowMicroseconds : ℤ) (k : FlowKey) : Option Flow :=
  (snapshot flows nowMicroseconds).find? fun flow => flow.key = k

theorem reported_eq {flows : Flows} (h : Filed flows) (now : ℤ) (k : FlowKey) :
    reported flows now k = (flows.lookup k).map (report now) := by
  have hkeys : ∀ e ∈ flows.entries, (report now e.2).key = e.1 := by
    intro e he
    exact h e.1 e.2 (AList.mem_lookup_iff.mpr he)
  rw [reported, snapshot, List.find?_map, Table.lookup_eq_find?, Option.map_map]
  exact congrArg _ (List.find?_congr fun e he => by simp only [Function.comp_apply, hkeys e he])

theorem reported_of_mem {flows : Flows} (h : Filed flows) {now : ℤ} {f : Flow} (hf : f ∈ snapshot flows now) :
    reported flows now f.key = some f := by
  obtain ⟨e, he, rfl⟩ := List.mem_map.mp hf
  have hl : flows.lookup e.1 = some e.2 := AList.mem_lookup_iff.mpr he
  have hk : (report now e.2).key = e.1 := h e.1 e.2 hl
  rw [reported_eq h, hk, hl]
  rfl

/-- What `snapshot` shows of a flow after a run on an initially empty aggregator. -/
theorem reported_observe {α β : Type} {observe : FlowState → α} {step : ParsedPacket → Bool → α → α}
    (h : Observes observe step) (shown : Flow → β) (view : α → β)
    (hview : ∀ now state, shown (report now state) = view (observe state)) (calls : List Call) (now : ℤ)
    (k : FlowKey) : (reported (run ∅ calls) now k).map shown =
      ((updatesOf calls).foldl (credit k (fun t => observe (newState k t)) step) none).map view := by
  calc (reported (run ∅ calls) now k).map shown
      = ((run ∅ calls).lookup k).map (shown ∘ report now) := by
        rw [reported_eq (filed_run filed_empty calls), Option.map_map]
    _ = ((run ∅ calls).lookup k).map (view ∘ observe) :=
        congrArg (Option.map · _) (funext fun state => hview now state)
    _ = (((run ∅ calls).lookup k).map observe).map view := (Option.map_map ..).symm
    _ = _ := congrArg (Option.map view) (h.run k calls ∅)

/-! ### The delivery accounts of one direction -/

section Delivery

variable (p : ParsedPacket) (s : FlowState) (downstream dir : Bool)

@[simp] theorem delivery_countPacket : (countPacket p downstream s).delivery dir = s.delivery dir :=
  (congrArg (·.delivery dir) (countPacket_frame p downstream s)).trans rfl

@[simp] theorem delivery_timeHandshake : (timeHandshake p downstream s).delivery dir = s.delivery dir :=
  (congrArg (·.delivery dir) (timeHandshake_frame p downstream s)).trans rfl

@[simp] theorem delivery_labelFlow (hostname process : String) :
    (labelFlow p hostname process s).delivery dir = s.delivery dir :=
  (congrArg (·.delivery dir) (labelFlow_frame p s hostname process)).trans rfl

@[simp] theorem delivery_sampleTraffic : (sampleTraffic p s).delivery dir = s.delivery dir := rfl

theorem delivery_resetSequences : (resetSequences p s).delivery dir =
    if p.tcpRst = true then { s.delivery dir with sequence := {} } else s.delivery dir := by
  unfold resetSequences
  split
  · cases dir <;> rfl
  · rfl

theorem delivery_setDelivery (d : Delivery) :
    (s.setDelivery downstream d).delivery dir = if dir = downstream then d else s.delivery dir := by
  cases downstream <;> cases dir <;> rfl

/-- A packet with TCP payload. -/
def carriesData : Bool := p.protocol = "TCP" ∧ p.payloadLength > 0

/-- The account of a direction after a segment of it. -/
def judge (d : Delivery) : Delivery :=
  judgeSegment p.tcpSeq (p.tcpSeq + BitVec.ofNat 32 p.payloadLength) d

theorem delivery_trackDelivery : (trackDelivery p downstream s).delivery dir =
    if carriesData p = true ∧ dir = downstream then judge p (s.delivery dir) else s.delivery dir := by
  unfold trackDelivery carriesData
  by_cases h : p.protocol = "TCP" ∧ p.payloadLength > 0
  · rw [if_pos h, delivery_setDelivery]
    by_cases hd : dir = downstream
    · subst hd; simp [h, judge]
    · simp [hd]
  · simp [h]

/-- A packet is judged in its own direction only, and a reset leaves no baseline. -/
theorem delivery_updateState (hostname process : String) :
    (updateState p hostname process downstream s).delivery dir =
      let d := if carriesData p = true ∧ dir = downstream then judge p (s.delivery dir) else s.delivery dir
      if p.tcpRst = true then { d with sequence := {} } else d := by
  rw [updateState, delivery_sampleTraffic, delivery_labelFlow, delivery_resetSequences, delivery_trackDelivery,
    delivery_timeHandshake, delivery_countPacket]

end Delivery

/-- The account of a direction of the flow under `k`. -/
def deliveryOf (flows : Flows) (k : FlowKey) (dir : Bool) : Delivery :=
  ((flows.lookup k).map (·.delivery dir)).getD ⟨{}, 0, 0⟩

/-- The packet a call credits to the flow `k`, if any. -/
def packetOf (k : FlowKey) : Call → Option ParsedPacket
  | .update packet _ _ => if keyFor packet = some k then some packet else none
  | .setHostnameForAddress _ _ => none

/-- The call ends the byte streams of the flow `k`. -/
def Resets (k : FlowKey) (c : Call) : Prop := (packetOf k c).any (·.tcpRst) = true

instance (k : FlowKey) (c : Call) : Decidable (Resets k c) := inferInstanceAs (Decidable (_ = true))

/-- The data segment a call adds to direction `dir` of the flow `k`, if any. -/
def segmentOf (k : FlowKey) (dir : Bool) (c : Call) : Option ParsedPacket :=
  (packetOf k c).filter fun p => carriesData p && isDownstream p k == dir

/-- The data segments of one direction of a flow, in order. -/
def dataSegments (k : FlowKey) (dir : Bool) (calls : List Call) : List ParsedPacket :=
  calls.filterMap (segmentOf k dir)

theorem deliveryOf_update_getD (flows : Flows) (k : FlowKey) (dir : Bool) (t : ℤ) :
    ((flows.lookup k).getD (newState k t)).delivery dir = deliveryOf flows k dir := by
  unfold deliveryOf
  cases flows.lookup k with
  | none => cases dir <;> rfl
  | some s => rfl

/-- What the data a call brings makes of the account of one direction. -/
def judgeCall (k : FlowKey) (dir : Bool) (c : Call) (d : Delivery) : Delivery :=
  ((segmentOf k dir c).map (judge · d)).getD d

/-- What a call does to the account of one direction. -/
theorem deliveryOf_apply (flows : Flows) (k : FlowKey) (dir : Bool) (c : Call) :
    deliveryOf (apply flows c) k dir =
      if Resets k c then { judgeCall k dir c (deliveryOf flows k dir) with sequence := {} }
      else judgeCall k dir c (deliveryOf flows k dir) := by
  cases c with
  | setHostnameForAddress ip hostname =>
    obtain ⟨f, hf, he⟩ := setHostnameForAddress_lookup flows ip hostname k
    simp only [apply, Resets, judgeCall, segmentOf, packetOf, Option.filter_none, Option.map_none, Option.getD_none,
      Option.any_none, Bool.false_eq_true, if_false]
    rw [deliveryOf, he, deliveryOf]
    cases flows.lookup k with
    | none => rfl
    | some s =>
      rcases hf s with hs | hs
      · simp [hs]
      · cases dir <;> simp [hs, FlowState.delivery]
  | update p hostname process =>
    by_cases hk : keyFor p = some k
    · have hjudge : judgeCall k dir (.update p hostname process) (deliveryOf flows k dir) =
          if carriesData p = true ∧ dir = isDownstream p k then judge p (deliveryOf flows k dir)
          else deliveryOf flows k dir := by
        by_cases hd : carriesData p = true ∧ dir = isDownstream p k
        · obtain ⟨hc, rfl⟩ := hd
          simp [judgeCall, segmentOf, packetOf, hk, hc, Option.filter_some]
        · have hd' : ¬ (carriesData p = true ∧ isDownstream p k = dir) := fun h => hd ⟨h.1, h.2.symm⟩
          simp [judgeCall, segmentOf, packetOf, hk, Option.filter_some, hd, hd']
      have hr : Resets k (.update p hostname process) ↔ p.tcpRst = true := by
        simp [Resets, packetOf, hk]
      rw [apply, deliveryOf, update_lookup_self hk, Option.map_some, Option.getD_some, delivery_updateState,
        deliveryOf_update_getD, hjudge]
      simp only [hr]
    · have hu : (apply flows (.update p hostname process)).lookup k = flows.lookup k :=
        update_lookup_ne hk hostname process
      simp [deliveryOf, hu, judgeCall, segmentOf, packetOf, Resets, hk]

/-- The accounts after a run without reset. -/
theorem deliveryOf_run (k : FlowKey) (dir : Bool) (calls : List Call) :
    ∀ flows : Flows, (∀ c ∈ calls, ¬ Resets k c) →
      deliveryOf (run flows calls) k dir =
        (dataSegments k dir calls).foldl (fun d p => judge p d) (deliveryOf flows k dir) := by
  induction calls with
  | nil => exact fun flows _ => rfl
  | cons c calls ih =>
    intro flows h
    have hc : deliveryOf (apply flows c) k dir = judgeCall k dir c (deliveryOf flows k dir) := by
      rw [deliveryOf_apply, if_neg (h c List.mem_cons_self)]
    show deliveryOf (run (apply flows c) calls) k dir = _
    rw [ih (apply flows c) fun c' hc' => h c' (List.mem_cons_of_mem _ hc'), hc, dataSegments, dataSegments,
      List.filterMap_cons, judgeCall]
    cases segmentOf k dir c <;> rfl

/-- The last call of the run ends the byte streams of the flow `k`. -/
def EndsInReset (k : FlowKey) (calls : List Call) : Prop :=
  ∃ before c, calls = before ++ [c] ∧ Resets k c

/-- At the start and right after a reset there is no baseline. -/
theorem deliveryOf_fresh {k : FlowKey} {calls : List Call} (h : calls = [] ∨ EndsInReset k calls)
    (dir : Bool) : (deliveryOf (run ∅ calls) k dir).sequence = {} := by
  rcases h with rfl | ⟨before, c, rfl, hr⟩
  · rfl
  · rw [run_concat, deliveryOf_apply, if_pos hr]

end FlowAggregator
end NetProbe
