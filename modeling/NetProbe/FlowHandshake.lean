/-
# The handshake timer of a flow

A SYN that travels upstream starts the timer and the SYN-ACK that comes back
stops it, once for the life of the flow. The timer looks at the direction of
the canonical key, so that a handshake is timed exactly when the endpoint that
opened the connection is the key's `src` (`handshake_timed_iff`).

Key definitions: `Timer`, `Handshaken`, `ReportsRtt`.
-/
import NetProbe.FlowRuns

namespace NetProbe
namespace FlowAggregator

/-- What `timeHandshake` keeps of a flow. -/
structure Timer where
  rtt : ℤ := 0
  synTimestamp : ℤ := 0
  synSeen : Bool := false

def timerOf (state : FlowState) : Timer :=
  ⟨state.flow.initialRttMicroseconds, state.synTimestamp, state.synSeen⟩

/-- A SYN without ACK. -/
def opens (p : ParsedPacket) : Bool := p.tcpSyn && !p.tcpAck

/-- A SYN with ACK. -/
def answers (p : ParsedPacket) : Bool := p.tcpSyn && p.tcpAck

def Timer.next (p : ParsedPacket) (downstream : Bool) (t : Timer) : Timer :=
  if p.protocol = "TCP" ∧ t.rtt = 0 then
    if opens p = true ∧ downstream = false ∧ t.synSeen = false then
      { t with synTimestamp := p.timestamp, synSeen := true }
    else if answers p = true ∧ downstream = true ∧ t.synSeen = true ∧ p.timestamp - t.synTimestamp > 0 then
      { t with rtt := p.timestamp - t.synTimestamp }
    else t
  else t

theorem timerOf_timeHandshake (p : ParsedPacket) (downstream : Bool) (state : FlowState) :
    timerOf (timeHandshake p downstream state) = (timerOf state).next p downstream := by
  unfold timeHandshake Timer.next
  by_cases h : p.protocol = "TCP" ∧ state.flow.initialRttMicroseconds = 0
  · rw [if_pos h, if_pos (show p.protocol = "TCP" ∧ (timerOf state).rtt = 0 from h)]
    cases hsyn : p.tcpSyn <;> cases hack : p.tcpAck <;> cases downstream <;> cases hseen : state.synSeen <;>
      simp [timerOf, opens, answers, hsyn, hack, hseen]
    split_ifs <;> simp_all
  · rw [if_neg h, if_neg (show ¬ (p.protocol = "TCP" ∧ (timerOf state).rtt = 0) from h)]

theorem observes_timer : Observes timerOf Timer.next where
  hostname _ _ := rfl
  update packet hostname process downstream state := by
    have hcount : timerOf (countPacket packet downstream state) = timerOf state :=
      (congrArg timerOf (countPacket_frame packet downstream state)).trans rfl
    have htrack : ∀ s, timerOf (trackDelivery packet downstream s) = timerOf s := fun s =>
      (congrArg timerOf (trackDelivery_frame packet downstream s)).trans rfl
    have hreset : ∀ s, timerOf (resetSequences packet s) = timerOf s := fun s =>
      (congrArg timerOf (resetSequences_frame packet s)).trans rfl
    have hlabel : ∀ s, timerOf (labelFlow packet hostname process s) = timerOf s := fun s =>
      (congrArg timerOf (labelFlow_frame packet s hostname process)).trans rfl
    show timerOf (labelFlow packet hostname process _) = _
    rw [hlabel, hreset, htrack, timerOf_timeHandshake, hcount]

/-! ### The timer over a run -/

/-- No SYN has started the timer. -/
def Timer.Idle (t : Timer) : Prop := t.rtt = 0 ∧ t.synSeen = false

theorem Timer.Idle.next {p : ParsedPacket} {downstream : Bool} {t : Timer} (ht : t.Idle)
    (h : opens p = true → downstream = true) : (t.next p downstream).Idle := by
  unfold Timer.next
  split_ifs with htcp hsyn hanswer
  · exact absurd (hsyn.2.1.symm.trans (h hsyn.1)) (by decide)
  · exact absurd (hanswer.2.2.1.symm.trans ht.2) (by decide)
  · exact ht
  · exact ht

/-- The first SYN that travels upstream starts the timer. -/
theorem Timer.Idle.next_syn {p : ParsedPacket} {t : Timer} (ht : t.Idle) (htcp : p.protocol = "TCP")
    (hp : opens p = true) : t.next p false = ⟨0, p.timestamp, true⟩ := by
  rw [Timer.next, if_pos ⟨htcp, ht.1⟩, if_pos ⟨hp, rfl, ht.2⟩, ht.1]

/-- A running timer waits for the SYN-ACK that travels downstream. -/
theorem Timer.next_running {p : ParsedPacket} {downstream : Bool} {synTimestamp : ℤ}
    (h : ¬ (answers p = true ∧ downstream = true)) :
    Timer.next p downstream ⟨0, synTimestamp, true⟩ = ⟨0, synTimestamp, true⟩ := by
  unfold Timer.next
  split_ifs with htcp hsyn hanswer
  · exact absurd hsyn.2.2 (by decide)
  · exact absurd ⟨hanswer.1, hanswer.2.1⟩ h
  · rfl
  · rfl

/-- The SYN-ACK stops it. -/
theorem Timer.next_synAck {p : ParsedPacket} {synTimestamp : ℤ} (htcp : p.protocol = "TCP")
    (hp : answers p = true) (hlater : synTimestamp < p.timestamp) :
    Timer.next p true ⟨0, synTimestamp, true⟩ = ⟨p.timestamp - synTimestamp, synTimestamp, true⟩ := by
  have hopen : ¬ (opens p = true ∧ true = false ∧ true = false) := fun h => absurd h.2.1 (by decide)
  rw [Timer.next, if_pos ⟨htcp, rfl⟩, if_neg hopen,
    if_pos ⟨hp, rfl, rfl, by show p.timestamp - synTimestamp > 0; omega⟩]

/-- Nothing changes the time it shows. -/
theorem Timer.next_stopped {p : ParsedPacket} {downstream : Bool} {t : Timer} (ht : t.rtt ≠ 0) :
    t.next p downstream = t := by
  rw [Timer.next, if_neg fun h => ht h.2]

/-- The packets of the flow `k` show a handshake: the first SYN, its sender `A`
the only one to send any, and the first SYN-ACK of the receiver `B` after it. -/
structure Handshaken (k : FlowKey) (before : List ParsedPacket) (syn : ParsedPacket) (between : List ParsedPacket)
    (synAck : ParsedPacket) (after : List ParsedPacket) : Prop where
  tcp : syn.protocol = "TCP"
  syn_key : keyFor syn = some k
  syn_opens : opens syn = true
  first : ∀ p ∈ before, keyFor p = some k → srcEndpoint p = srcEndpoint syn → opens p = false
  one_sided : ∀ p ∈ before ++ syn :: (between ++ synAck :: after), keyFor p = some k →
    srcEndpoint p = dstEndpoint syn → opens p = false
  synAck_key : keyFor synAck = some k
  synAck_src : srcEndpoint synAck = dstEndpoint syn
  synAck_answers : answers synAck = true
  prompt : ∀ p ∈ between, keyFor p = some k → srcEndpoint p = dstEndpoint syn → answers p = false
  later : syn.timestamp < synAck.timestamp

/-- Every run on the packets reports the round trip time `rtt` for the flow `k`. -/
def ReportsRtt (k : FlowKey) (packets : List ParsedPacket) (rtt : ℤ) : Prop :=
  ∀ calls now, updatesOf calls = packets →
    (reported (run ∅ calls) now k).map (·.initialRttMicroseconds) = some rtt

/-- What the packets make of the timer of the flow `k`. -/
abbrev timerFor (k : FlowKey) (seen : Option Timer) (packets : List ParsedPacket) : Option Timer :=
  packets.foldl (credit k (fun _ => {}) Timer.next) seen

section Run

variable {k : FlowKey} {before between after : List ParsedPacket} {syn synAck : ParsedPacket}

theorem reportsRtt_iff {packets : List ParsedPacket} {rtt : ℤ} :
    ReportsRtt k packets rtt ↔ (timerFor k none packets).map (·.rtt) = some rtt := by
  have hrun : ∀ calls now, (reported (run ∅ calls) now k).map (·.initialRttMicroseconds) =
      (timerFor k none (updatesOf calls)).map (·.rtt) := fun calls now =>
    reported_observe observes_timer (·.initialRttMicroseconds) (·.rtt) (fun _ _ => rfl) calls now k
  constructor
  · intro h
    have hcalls : updatesOf (packets.map fun p => .update p "" "") = packets := by
      rw [updatesOf, List.filterMap_map]
      exact List.filterMap_some
    rw [← h _ 0 hcalls, hrun, hcalls]
  · rintro h calls now rfl
    rw [hrun, h]

variable (h : Handshaken k before syn between synAck after)
include h

theorem Handshaken.ne : srcEndpoint syn ≠ dstEndpoint syn := fun he => by
  have hclosed := h.one_sided syn (by simp) h.syn_key he
  exact absurd (hclosed.symm.trans h.syn_opens) (by decide)

theorem Handshaken.src_cases {p : ParsedPacket} (hp : keyFor p = some k) :
    srcEndpoint p = srcEndpoint syn ∨ srcEndpoint p = dstEndpoint syn := by
  have hsame := ((keyFor_eq_iff hp h.syn_key).mp rfl).2
  rcases Sym2.eq_iff.mp hsame with hs | hs
  · exact .inl hs.1
  · exact .inr hs.1

/-- The opener is the key's `src` or its `dst`. -/
theorem Handshaken.dst_cases :
    keyFor syn = some (forward syn) ∧ dstEndpoint syn = (k.dstIP, k.dstPort) ∨
      keyFor syn ≠ some (forward syn) ∧ srcEndpoint syn = (k.dstIP, k.dstPort) := by
  have hkey := keyFor_eq_some h.syn_key
  rcases orient_mem ClientFirst (srcEndpoint syn) (dstEndpoint syn) with ho | ho
  · rw [ho] at hkey
    exact .inl ⟨h.syn_key.trans (congrArg some hkey), by rw [hkey]; rfl⟩
  · rw [ho] at hkey
    refine .inr ⟨fun hf => h.ne ?_, by rw [hkey]; rfl⟩
    have hk : keyOf (dstEndpoint syn, srcEndpoint syn) syn.protocol = forward syn :=
      hkey.symm.trans (Option.some.inj (h.syn_key.symm.trans hf))
    exact congrArg (fun k : FlowKey => (k.dstIP, k.dstPort)) hk

/-- A handshake opened by the key's `src` is timed. -/
theorem timerFor_upstream (hdst : dstEndpoint syn = (k.dstIP, k.dstPort)) (n : ℕ) :
    timerFor k none (before ++ syn :: (between ++ synAck :: after.take n)) =
      some ⟨synAck.timestamp - syn.timestamp, syn.timestamp, true⟩ := by
  have hdown : ∀ p, isDownstream p k = true ↔ srcEndpoint p = dstEndpoint syn := fun p => by
    rw [hdst, downstream_iff]
  have hsyn : isDownstream syn k = false := by
    rw [← Bool.not_eq_true, hdown]
    exact h.ne
  have hidle : ∀ t ∈ timerFor k none before, t.Idle := by
    refine credit_invariant (fun _ => ⟨rfl, rfl⟩) before (fun p hp hk t ht => ht.next fun ho => ?_) (by simp)
    rcases h.src_cases hk with hs | hs
    · exact absurd ((h.first p hp hk hs).symm.trans ho) (by decide)
    · exact (hdown p).mpr hs
  have hstart : credit k (fun _ => {}) Timer.next (timerFor k none before) syn = some ⟨0, syn.timestamp, true⟩ := by
    rw [credit, if_pos h.syn_key, hsyn]
    refine congrArg some (Timer.Idle.next_syn ?_ h.tcp h.syn_opens)
    cases ht : timerFor k none before with
    | none => exact ⟨rfl, rfl⟩
    | some t => exact hidle t ht
  have hwait : timerFor k (some ⟨0, syn.timestamp, true⟩) between = some ⟨0, syn.timestamp, true⟩ := by
    refine credit_fixed between fun p hp hk => Timer.next_running fun ha => ?_
    exact absurd ((h.prompt p hp hk ((hdown p).mp ha.2)).symm.trans ha.1) (by decide)
  have hstop : credit k (fun _ => {}) Timer.next (some ⟨0, syn.timestamp, true⟩) synAck =
      some ⟨synAck.timestamp - syn.timestamp, syn.timestamp, true⟩ := by
    have htcp : synAck.protocol = "TCP" := ((keyFor_eq_iff h.synAck_key h.syn_key).mp rfl).1.trans h.tcp
    rw [credit, if_pos h.synAck_key, (hdown synAck).mpr h.synAck_src]
    exact congrArg some (Timer.next_synAck htcp h.synAck_answers h.later)
  have hkeep : timerFor k (some ⟨synAck.timestamp - syn.timestamp, syn.timestamp, true⟩) (after.take n) =
      some ⟨synAck.timestamp - syn.timestamp, syn.timestamp, true⟩ := by
    refine credit_fixed _ fun p _ _ => Timer.next_stopped ?_
    have hlater := h.later
    show synAck.timestamp - syn.timestamp ≠ 0
    omega
  simp only [timerFor, List.foldl_append, List.foldl_cons] at hstart hwait hkeep ⊢
  rw [hstart, hwait, hstop, hkeep]

/-- A handshake opened by the key's `dst` never starts the timer. -/
theorem timerFor_downstream (hsrc : srcEndpoint syn = (k.dstIP, k.dstPort)) (n : ℕ) :
    ∀ t ∈ timerFor k none (before ++ syn :: (between ++ synAck :: after.take n)), t.Idle := by
  refine credit_invariant (fun _ => ⟨rfl, rfl⟩) _ (fun p hp hk t ht => ht.next fun ho => ?_) (by simp)
  have hmem : p ∈ before ++ syn :: (between ++ synAck :: after) := by
    have hsub : (after.take n).Sublist after := List.take_sublist n after
    exact ((((hsub.cons_cons synAck).append_left between).cons_cons syn).append_left before).subset hp
  rcases h.src_cases hk with hs | hs
  · exact downstream_iff.mpr (hs.trans hsrc)
  · exact absurd ((h.one_sided p hmem hk hs).symm.trans ho) (by decide)

/-- **A handshake is timed exactly when the key's `src` opened it**; the time
then stays. -/
theorem handshake_timed_iff :
    (∀ n, ReportsRtt k (before ++ syn :: (between ++ synAck :: after.take n)) (synAck.timestamp - syn.timestamp)) ↔
      keyFor syn = some (forward syn) := by
  rw [forall_congr' fun n => reportsRtt_iff]
  rcases h.dst_cases with ⟨hf, hdst⟩ | ⟨hf, hsrc⟩
  · refine iff_of_true (fun n => ?_) hf
    rw [timerFor_upstream h hdst n]
    rfl
  · refine iff_of_false (fun hall => ?_) hf
    obtain ⟨t, ht, hrtt⟩ := Option.map_eq_some_iff.mp (hall 0)
    have hidle := (timerFor_downstream h hsrc 0 t ht).1
    have hlater := h.later
    omega

end Run

/-- A SYN between two endpoints that both look like peers. -/
def peerSyn (srcIP dstIP : String) (srcPort dstPort : ℕ) (timestamp : ℤ) : ParsedPacket :=
  { srcIP, dstIP, srcPort, dstPort, protocol := "TCP", tcpSyn := true, timestamp }

def peerSynAck (srcIP dstIP : String) (srcPort dstPort : ℕ) (timestamp : ℤ) : ParsedPacket :=
  { peerSyn srcIP dstIP srcPort dstPort timestamp with tcpAck := true }

def peerKey : FlowKey := ⟨"10.0.0.1", "10.0.0.9", 50001, 50002, "TCP"⟩

/-- A handshake of two packets, opened by the key's `src`. -/
theorem handshaken_upstream : Handshaken peerKey [] (peerSyn "10.0.0.1" "10.0.0.9" 50001 50002 1000) []
    (peerSynAck "10.0.0.9" "10.0.0.1" 50002 50001 43000) [] := by
  constructor <;> decide

theorem handshake_timed_iff_upstream :
    (∀ n, ReportsRtt peerKey ([] ++ peerSyn "10.0.0.1" "10.0.0.9" 50001 50002 1000 ::
      ([] ++ peerSynAck "10.0.0.9" "10.0.0.1" 50002 50001 43000 :: List.take n [])) (43000 - 1000)) ↔
    keyFor (peerSyn "10.0.0.1" "10.0.0.9" 50001 50002 1000) =
      some (forward (peerSyn "10.0.0.1" "10.0.0.9" 50001 50002 1000)) :=
  handshake_timed_iff handshaken_upstream

/-- The same handshake opened by the key's `dst` is not timed. -/
theorem handshake_untimed_downstream :
    Handshaken peerKey [] (peerSyn "10.0.0.9" "10.0.0.1" 50002 50001 1000) []
      (peerSynAck "10.0.0.1" "10.0.0.9" 50001 50002 43000) [] ∧
    (reported (run ∅ [.update (peerSyn "10.0.0.9" "10.0.0.1" 50002 50001 1000) "" "",
      .update (peerSynAck "10.0.0.1" "10.0.0.9" 50001 50002 43000) "" ""]) 50000 peerKey).map
        (·.initialRttMicroseconds) = some 0 := by
  refine ⟨?_, by decide⟩
  constructor <;> decide

end FlowAggregator
end NetProbe
