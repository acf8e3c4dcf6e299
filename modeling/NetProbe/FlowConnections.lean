/-
# Successive connections on one port pair

A run on a port pair is cut into connections, each with its own numbers. Within
a connection every data segment starts where the last one of its direction
ended, so nothing is counted (`clean_run`); between two connections the
high-water mark has to be dropped, which only a reset does. The accounts stay
clean when each connection that finds a mark starts right at it
(`clean_connections`).

Key definitions: `Connection`, `openSegments`, `Clean`, `Seamless`.
-/
import NetProbe.FlowRuns
import Mathlib.Data.List.Chain
import Mathlib.Data.List.DropRight

namespace NetProbe
namespace FlowAggregator

/-- Where the data of a segment starts: a SYN takes the number before it. -/
def dataSeq (p : ParsedPacket) : BitVec 32 := if p.tcpSyn then p.tcpSeq + 1 else p.tcpSeq

/-- The calls of one TCP connection of the flow `k`, among calls for other
flows: opened by a SYN, its data delivered in order and exactly once in either
direction, and none after a reset. -/
structure Connection (k : FlowKey) (calls : List Call) : Prop where
  opened : ∃ p ∈ (calls.filterMap (packetOf k)).head?, p.tcpSyn = true ∧ p.tcpAck = false
  inOrder : ∀ dir, (dataSegments k dir calls).IsChain fun p q =>
    dataSeq q = dataSeq p + BitVec.ofNat 32 p.payloadLength
  reset : calls.Pairwise fun c c' => Resets k c → ∀ dir, segmentOf k dir c' = none

/-- The data segments of a direction since the last reset of the flow. -/
def openSegments (k : FlowKey) (dir : Bool) (calls : List Call) : List ParsedPacket :=
  dataSegments k dir (calls.rtakeWhile fun c => !decide (Resets k c))

/-- The segment `q` starts, by its number, where `p` ended. -/
def Follows (p q : ParsedPacket) : Prop := q.tcpSeq = p.tcpSeq + BitVec.ofNat 32 p.payloadLength

instance (p q : ParsedPacket) : Decidable (Follows p q) := inferInstanceAs (Decidable (_ = _))

/-- Each connection that finds data of a direction since the last reset starts
where that data ended, and no SYN carries data next to data without one. -/
inductive Seamless (k : FlowKey) : List (List Call) → Prop
  | nil : Seamless k []
  | concat {connections conn} (h : Seamless k connections)
    (seam : ∀ dir, ∀ p ∈ (openSegments k dir connections.flatten).getLast?, ∀ q ∈ (dataSegments k dir conn).head?,
      Follows p q)
    (syn : ∀ dir, (dataSegments k dir conn).IsChain fun p q => p.tcpSyn = q.tcpSyn) :
    Seamless k (connections ++ [conn])

/-- The account of a direction whose last segment since a reset is known, with
nothing counted. -/
def cleanDelivery (last : Option ParsedPacket) : Delivery where
  sequence := match last with
    | none => {}
    | some p => { nextExpected := p.tcpSeq + BitVec.ofNat 32 p.payloadLength, valid := true }
  retransmissions := 0
  outOfOrder := 0

/-- Nothing has been counted, and the marks are those of the last segments. -/
def Clean (k : FlowKey) (calls : List Call) : Prop :=
  ∀ dir, deliveryOf (run ∅ calls) k dir = cleanDelivery (openSegments k dir calls).getLast?

section Lemmas

variable {k : FlowKey} {dir : Bool} {calls : List Call} {c : Call}

theorem dataSegments_append (a b : List Call) :
    dataSegments k dir (a ++ b) = dataSegments k dir a ++ dataSegments k dir b :=
  List.filterMap_append

theorem dataSegments_singleton : dataSegments k dir [c] = (segmentOf k dir c).toList := by
  unfold dataSegments
  cases h : segmentOf k dir c <;> simp [h]

theorem openSegments_concat (h : ¬ Resets k c) :
    openSegments k dir (calls ++ [c]) = openSegments k dir calls ++ (segmentOf k dir c).toList := by
  rw [openSegments, List.rtakeWhile_concat_pos _ _ _ (by simpa using h), dataSegments_append, dataSegments_singleton]
  rfl

theorem openSegments_reset (h : Resets k c) : openSegments k dir (calls ++ [c]) = [] := by
  rw [openSegments, List.rtakeWhile_concat_neg _ _ _ (by simpa using h)]
  rfl

/-- A segment that follows the last one moves the mark, and is not counted. -/
theorem judge_follows {last : Option ParsedPacket} {q : ParsedPacket} (h : ∀ p ∈ last, Follows p q) :
    judge q (cleanDelivery last) = cleanDelivery (some q) := by
  cases last with
  | none => rfl
  | some p =>
    have hp : q.tcpSeq = p.tcpSeq + BitVec.ofNat 32 p.payloadLength := h p rfl
    have hzero : (q.tcpSeq - (p.tcpSeq + BitVec.ofNat 32 p.payloadLength)).toInt = 0 := by
      rw [hp, BitVec.sub_self]
      rfl
    rw [judge, judgeSegment, if_neg (by simp [cleanDelivery])]
    exact if_pos hzero

theorem Clean.concat (h : Clean k calls)
    (hc : ∀ dir, ∀ q ∈ segmentOf k dir c, ∀ p ∈ (openSegments k dir calls).getLast?, Follows p q) :
    Clean k (calls ++ [c]) := by
  intro dir
  have hjudge : judgeCall k dir c (cleanDelivery (openSegments k dir calls).getLast?) =
      cleanDelivery (openSegments k dir calls ++ (segmentOf k dir c).toList).getLast? := by
    cases hs : segmentOf k dir c with
    | none => simp [judgeCall, hs]
    | some q =>
      rw [judgeCall, hs, Option.toList_some, List.getLast?_concat]
      exact judge_follows (hc dir q hs)
  rw [run_concat, deliveryOf_apply, h dir, hjudge]
  by_cases hr : Resets k c
  · rw [if_pos hr, openSegments_reset hr]
    rfl
  · rw [if_neg hr, openSegments_concat hr]

/-- A run whose data segments all follow the open ones counts nothing. -/
theorem clean_run (h : Clean k calls) : ∀ more : List Call,
    (∀ before c after, more = before ++ c :: after → ∀ dir, ∀ q ∈ segmentOf k dir c,
      ∀ p ∈ (openSegments k dir (calls ++ before)).getLast?, Follows p q) → Clean k (calls ++ more) := by
  intro more
  induction more using List.reverseRecOn with
  | nil => exact fun _ => (List.append_nil calls).symm ▸ h
  | append_singleton more c ih =>
    intro hmore
    rw [← List.append_assoc]
    refine (ih fun before c' after he => hmore before c' (after ++ [c]) ?_).concat (hmore more c [] rfl)
    rw [he, List.append_assoc]
    rfl

theorem openSegments_append {more : List Call} (h : ∀ c ∈ more, ¬ Resets k c) :
    openSegments k dir (calls ++ more) = openSegments k dir calls ++ dataSegments k dir more := by
  induction more using List.reverseRecOn with
  | nil => simp [dataSegments]
  | append_singleton more c ih =>
    rw [← List.append_assoc, openSegments_concat (h c (by simp)), ih fun c' hc' => h c' (by simp [hc']),
      dataSegments_append, dataSegments_singleton, List.append_assoc]

/-- Within a connection that starts at the mark, every data segment follows the
open ones. -/
theorem Connection.follows {conn : List Call} (hconn : Connection k conn)
    (hseam : ∀ dir, ∀ p ∈ (openSegments k dir calls).getLast?, ∀ q ∈ (dataSegments k dir conn).head?, Follows p q)
    (hsyn : ∀ dir, (dataSegments k dir conn).IsChain fun p q => p.tcpSyn = q.tcpSyn)
    {before after : List Call} (he : conn = before ++ c :: after) (dir : Bool) (q : ParsedPacket)
    (hq : q ∈ segmentOf k dir c) : ∀ p ∈ (openSegments k dir (calls ++ before)).getLast?, Follows p q := by
  have hopen : ∀ c' ∈ before, ¬ Resets k c' := by
    intro c' hc' hreset
    have hpair := hconn.reset
    rw [he] at hpair
    have hnone := (List.pairwise_append.mp hpair).2.2 c' hc' c List.mem_cons_self hreset dir
    rw [hnone] at hq
    cases hq
  have hsplit : dataSegments k dir conn = dataSegments k dir before ++ q :: dataSegments k dir after := by
    have hcons : dataSegments k dir (c :: after) = q :: dataSegments k dir after :=
      List.filterMap_cons_some (Option.mem_def.mp hq)
    rw [he, dataSegments_append, hcons]
  rw [openSegments_append hopen]
  intro p hp
  rcases List.eq_nil_or_concat (dataSegments k dir before) with hnil | ⟨segs, last, hlast⟩
  · -- the first data of the connection
    rw [hnil, List.append_nil] at hp
    exact hseam dir p hp q (by rw [hsplit, hnil]; rfl)
  · rw [hlast, List.concat_eq_append, ← List.append_assoc, List.getLast?_concat] at hp
    obtain rfl := Option.some.inj hp
    have hchain : ∀ {R : ParsedPacket → ParsedPacket → Prop}, (dataSegments k dir conn).IsChain R → R last q := by
      intro R hR
      rw [hsplit, hlast, List.concat_eq_append, List.append_assoc] at hR
      exact (List.isChain_append_cons_cons.mp hR).2.1
    have hnumber := hchain (hconn.inOrder dir)
    have hsame := hchain (hsyn dir)
    unfold dataSeq at hnumber
    unfold Follows
    rw [← hsame] at hnumber
    split at hnumber
    · bv_omega
    · exact hnumber

theorem clean_nil : Clean k [] := fun dir => by cases dir <;> rfl

theorem clean_connections {connections : List (List Call)} (hall : ∀ c ∈ connections, Connection k c)
    (h : Seamless k connections) : Clean k connections.flatten := by
  induction h with
  | nil => exact clean_nil
  | @concat connections conn h seam syn ih =>
    rw [List.flatten_append, List.flatten_singleton]
    refine clean_run (ih fun c hc => hall c (by simp [hc])) conn fun before c after he => ?_
    exact (hall conn (by simp)).follows seam syn he

end Lemmas

/-- No retransmission and no segment out of order has been counted. -/
def LossFree (f : Flow) : Prop :=
  f.retransmissionsUp = 0 ∧ f.retransmissionsDown = 0 ∧ f.outOfOrderUp = 0 ∧ f.outOfOrderDown = 0

instance (f : Flow) : Decidable (LossFree f) := inferInstanceAs (Decidable (_ ∧ _))

/-- **Connections that reuse a port pair report no loss** as long as each one
that finds a high-water mark starts right at it. -/
theorem connections_loss_free {k : FlowKey} {connections : List (List Call)}
    (hall : ∀ c ∈ connections, Connection k c) (h : Seamless k connections) (now : ℤ) :
    ∀ f ∈ reported (run ∅ connections.flatten) now k, LossFree f := by
  intro f hf
  have hclean := clean_connections hall h
  rw [reported_eq (filed_run filed_empty _)] at hf
  obtain ⟨state, hstate, rfl⟩ := Option.map_eq_some_iff.mp hf
  have hdelivery : ∀ dir, state.delivery dir =
      cleanDelivery (openSegments k dir connections.flatten).getLast? := by
    intro dir
    rw [← hclean dir, deliveryOf, hstate]
    rfl
  have hup := hdelivery false
  have hdown := hdelivery true
  exact ⟨congrArg (·.retransmissions) hup, congrArg (·.retransmissions) hdown, congrArg (·.outOfOrder) hup,
    congrArg (·.outOfOrder) hdown⟩

/-! Two connections of a client with a web server. -/

def client : ParsedPacket :=
  { srcIP := "192.168.1.10", dstIP := "93.184.216.34", srcPort := 50000, dstPort := 443, protocol := "TCP" }

def webKey : FlowKey := ⟨"192.168.1.10", "93.184.216.34", 50000, 443, "TCP"⟩

/-- The client opens at `isn` and sends a hundred bytes. -/
def request (isn : BitVec 32) : List Call :=
  [.update { client with tcpSeq := isn, tcpSyn := true } "" "",
    .update { client with tcpSeq := isn + 1, tcpAck := true, payloadLength := 100 } "" ""]

/-- A connection the client resets. -/
def resetConnection (isn : BitVec 32) : List Call :=
  request isn ++ [.update { client with tcpSeq := isn + 101, tcpRst := true } "" ""]

/-- A connection both sides close. -/
def finConnection (isn : BitVec 32) : List Call :=
  request isn ++ [.update { client with tcpSeq := isn + 101, tcpAck := true, tcpFin := true } "" "",
    .update { reverse client with tcpSeq := 9001#32, tcpAck := true, tcpFin := true } "" ""]

theorem resetConnection_connection : Connection webKey (resetConnection 1000) :=
  ⟨⟨_, rfl, rfl, rfl⟩, by decide, by decide⟩

theorem finConnection_connection : Connection webKey (finConnection 500) ∧ Connection webKey (finConnection 1000) :=
  ⟨⟨⟨_, rfl, rfl, rfl⟩, by decide, by decide⟩, ⟨_, rfl, rfl, rfl⟩, by decide, by decide⟩

theorem connections_loss_free_reset :
    ∃ f ∈ reported (run ∅ [resetConnection 1000, finConnection 500].flatten) 0 webKey, LossFree f := by
  have hseamless : Seamless webKey ([] ++ [resetConnection 1000] ++ [finConnection 500]) :=
    (Seamless.nil.concat (by decide) (by decide)).concat (by decide) (by decide)
  have hall : ∀ c ∈ [resetConnection 1000, finConnection 500], Connection webKey c := by
    intro c hc
    rcases List.mem_cons.mp hc with rfl | hc
    · exact resetConnection_connection
    · obtain rfl := List.mem_singleton.mp hc
      exact finConnection_connection.1
  have hsome : (reported (run ∅ [resetConnection 1000, finConnection 500].flatten) 0 webKey).isSome := by decide
  obtain ⟨f, hf⟩ := Option.isSome_iff_exists.mp hsome
  exact ⟨f, hf, connections_loss_free hall hseamless 0 f hf⟩

/-- Closed by FINs, the first connection leaves its mark, and the second, whose
numbers lie below it, is counted as a retransmission. -/
theorem connections_lose_fin :
    (∀ c ∈ [finConnection 1000, finConnection 500], Connection webKey c) ∧
    (reported (run ∅ [finConnection 1000, finConnection 500].flatten) 0 webKey).map (·.retransmissionsUp) = some 1 := by
  refine ⟨?_, by decide⟩
  intro c hc
  rcases List.mem_cons.mp hc with rfl | hc
  · exact finConnection_connection.2
  · obtain rfl := List.mem_singleton.mp hc
    exact finConnection_connection.1

end FlowAggregator
end NetProbe
