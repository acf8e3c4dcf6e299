/-
# Sessions without processes

Two sessions that are fed the same packets, one that looks processes up and one
that does not, differ in the processes alone: leaving the processes out commutes
with every step of the analysis, so it commutes with a run (`feedAll_unattributed`).

Key definitions: `Flow.unattributed`, `Session.unattributed`.
Key theorems: `update_unattributed`, `feed_unattributed`, `feedAll_unattributed`.
-/
import NetProbe.SessionRuns

namespace NetProbe

def Flow.unattributed (flow : Flow) : Flow := { flow with process := "" }

namespace FlowAggregator

def FlowState.unattributed (state : FlowState) : FlowState := { state with flow := state.flow.unattributed }

def unattributed (flows : Flows) : Flows := Table.mapValues (fun _ state => state.unattributed) flows

variable (packet : ParsedPacket) (downstream : Bool) (state : FlowState)

theorem countPacket_unattributed :
    (countPacket packet downstream state).unattributed = countPacket packet downstream state.unattributed := by
  cases downstream <;> rfl

theorem timeHandshake_unattributed :
    (timeHandshake packet downstream state).unattributed = timeHandshake packet downstream state.unattributed := by
  unfold timeHandshake
  simp only [apply_ite FlowState.unattributed]
  rfl

theorem trackDelivery_unattributed :
    (trackDelivery packet downstream state).unattributed = trackDelivery packet downstream state.unattributed := by
  unfold trackDelivery
  rw [apply_ite FlowState.unattributed]
  cases downstream <;> rfl

theorem resetSequences_unattributed :
    (resetSequences packet state).unattributed = resetSequences packet state.unattributed := by
  unfold resetSequences
  rw [apply_ite FlowState.unattributed]
  rfl

theorem labelFlow_unattributed (hostname process : String) :
    (labelFlow packet hostname process state).unattributed = labelFlow packet hostname "" state.unattributed := by
  unfold labelFlow
  simp only [FlowState.unattributed, ne_eq, not_true_eq_false, and_false, if_false]
  split_ifs <;> simp [Flow.unattributed]

theorem updateState_unattributed (hostname process : String) :
    (updateState packet hostname process downstream state).unattributed =
      updateState packet hostname "" downstream state.unattributed := by
  rw [updateState, updateState, ← countPacket_unattributed, ← timeHandshake_unattributed, ← trackDelivery_unattributed,
    ← resetSequences_unattributed, ← labelFlow_unattributed _ _ _ process]
  rfl

theorem update_unattributed (flows : Flows) (hostname process : String) :
    unattributed (update flows packet hostname process) = update (unattributed flows) packet hostname "" := by
  unfold update
  cases keyFor packet with
  | none => rfl
  | some key =>
    dsimp only
    have hstate : (unattributed flows).lookup key = (flows.lookup key).map FlowState.unattributed :=
      Table.lookup_mapValues _ flows key
    rw [unattributed, Table.mapValues_insert, updateState_unattributed, ← unattributed, hstate]
    cases flows.lookup key <;> rfl

theorem setHostnameForAddress_unattributed (flows : Flows) (ip hostname : String) :
    unattributed (setHostnameForAddress flows ip hostname) =
      setHostnameForAddress (unattributed flows) ip hostname := by
  unfold setHostnameForAddress
  split_ifs
  · rfl
  · apply AList.ext
    simp only [unattributed, Table.mapValues, List.map_map]
    refine List.map_congr_left fun e _ => ?_
    dsimp only [Function.comp]
    split_ifs <;> rfl

theorem snapshot_unattributed (flows : Flows) (now : ℤ) :
    (snapshot flows now).map Flow.unattributed = snapshot (unattributed flows) now := by
  simp only [snapshot, unattributed, Table.mapValues, List.map_map]
  rfl

end FlowAggregator

namespace AnalysisSession

open Checked

def Session.unattributed (s : Session) : Session :=
  { s with flowAggregator := FlowAggregator.unattributed s.flowAggregator }

def Result.unattributed (result : Result) : Result := { result with process := "" }

variable (sys : Platform) (packet : PacketData) (parsed : ParsedPacket) (s : Session)

theorem recoverSni_unattributed : recoverSni sys packet parsed s.unattributed =
    (fun r => (r.1, r.2.unattributed)) <$> recoverSni sys packet parsed s := by
  unfold recoverSni
  simp only [apply_ite (Functor.map _), map_bind]
  rfl

theorem learnHostname_unattributed (ip hostname : String) :
    learnHostname ip hostname s.unattributed = (learnHostname ip hostname s).unattributed := by
  rw [learnHostname, Session.unattributed, Session.unattributed, learnHostname,
    FlowAggregator.setHostnameForAddress_unattributed]

theorem learnAnswer_unattributed (queryName : String) (answer : DNSParser.DNSRecord) :
    learnAnswer sys queryName s.unattributed answer = (learnAnswer sys queryName s answer).unattributed := by
  unfold learnAnswer
  split
  · exact learnHostname_unattributed s _ _
  · exact learnHostname_unattributed s _ _
  · split
    · exact learnHostname_unattributed s _ _
    · rfl
  · rfl

theorem learnResponse_unattributed (response : DNSParser.DNSResponse) :
    learnResponse sys response s.unattributed = (learnResponse sys response s).unattributed := by
  let counted : Session := { s with
    plaintextDnsResponses := s.plaintextDnsResponses + 1
    echAdvertised := response.encryptedClientHelloAdvertised || s.echAdvertised }
  show response.answers.foldl (learnAnswer sys response.queryName) counted.unattributed = _
  exact List.foldl_hom Session.unattributed fun s answer => learnAnswer_unattributed sys s response.queryName answer

theorem harvestDns_unattributed :
    harvestDns sys packet parsed s.unattributed = Session.unattributed <$> harvestDns sys packet parsed s := by
  unfold harvestDns
  rw [map_bind]
  refine bind_congr fun response => ?_
  cases response with
  | none => rfl
  | some response => exact congrArg Except.ok (learnResponse_unattributed sys s response)

theorem countEncryptedDns_unattributed :
    countEncryptedDns parsed s.unattributed = (countEncryptedDns parsed s).unattributed := by
  unfold countEncryptedDns
  rw [apply_ite Session.unattributed]
  rfl

/-- Leaving out the processes commutes with the analysis of a packet. -/
theorem feed_unattributed (lookupProcess : ParsedPacket → String) : feed sys s.unattributed packet (fun _ => "") =
    (fun r => (r.1.unattributed, r.2.unattributed)) <$> feed sys s packet lookupProcess := by
  unfold feed
  rw [map_bind]
  refine bind_congr fun parsed => ?_
  rw [recoverSni_unattributed, bind_map_left, map_bind]
  refine bind_congr fun r => ?_
  dsimp only
  rw [harvestDns_unattributed, bind_map_left, map_bind]
  refine bind_congr fun s => ?_
  rw [countEncryptedDns_unattributed]
  have hupdate := FlowAggregator.update_unattributed r.1 (countEncryptedDns r.1 s).flowAggregator
    (attributeHostname r.1 (countEncryptedDns r.1 s)) (lookupProcess r.1)
  exact congrArg (fun flows => Except.ok (_, { countEncryptedDns r.1 s with flowAggregator := flows })) hupdate.symm

def Arrival.unattributed (a : Arrival) : Arrival := { a with lookupProcess := fun _ => "" }

/-- **A session that looks no process up** is the other one without its processes. -/
theorem feedAll_unattributed : ∀ (arrivals : List Arrival) (s : Session),
    feedAll sys s.unattributed (arrivals.map Arrival.unattributed) =
      (fun r => (r.1.map Result.unattributed, r.2.unattributed)) <$> feedAll sys s arrivals
  | [], _ => rfl
  | a :: arrivals, s => by
    rw [List.map_cons, feedAll, feedAll, map_bind, Arrival.unattributed, feed_unattributed sys _ s a.lookupProcess,
      bind_map_left]
    refine bind_congr fun r => ?_
    dsimp only
    rw [feedAll_unattributed arrivals, bind_map_left, map_bind]
    rfl

theorem flows_unattributed (now : ℤ) : (flows s now).map Flow.unattributed = flows s.unattributed now :=
  FlowAggregator.snapshot_unattributed s.flowAggregator now

end AnalysisSession
end NetProbe
