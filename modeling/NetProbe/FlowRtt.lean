/-
# The handshake timer across resets

The timer of a flow runs from the first SYN that travels upstream to the first
later SYN-ACK that travels back, whatever comes between (`timerFor_history`). A
reset ends the connection but not the timer, so that the round trip reported is
one connection's where no reset arrives while the timer runs (`rtt_oneAttempt`).

Key definitions: `StartsTimer`, `StopsTimer`, `Times`, `OneAttempt`, `Undisturbed`.
Key theorems: `timerFor_history`, `rtt_oneAttempt`.
-/
import NetProbe.FlowHandshake

namespace NetProbe
namespace FlowAggregator

/-- A SYN of the flow `k` that travels upstream. -/
def StartsTimer (k : FlowKey) (p : ParsedPacket) : Prop :=
  keyFor p = some k ∧ p.protocol = "TCP" ∧ opens p = true ∧ isDownstream p k = false

/-- A SYN-ACK of the flow `k` that travels downstream, later than `syn`. -/
def StopsTimer (k : FlowKey) (syn p : ParsedPacket) : Prop :=
  keyFor p = some k ∧ answers p = true ∧ isDownstream p k = true ∧ syn.timestamp < p.timestamp

/-- The timer of the flow `k` is started by `syn`, and `between` has not stopped it. -/
structure Runs (k : FlowKey) (before : List ParsedPacket) (syn : ParsedPacket) (between : List ParsedPacket) :
    Prop where
  starts : StartsTimer k syn
  first : ∀ p ∈ before, ¬ StartsTimer k p
  pending : ∀ p ∈ between, ¬ StopsTimer k syn p

/-- It runs from `syn` to `synAck`. -/
structure Times (k : FlowKey) (packets before : List ParsedPacket) (syn : ParsedPacket) (between : List ParsedPacket)
    (synAck : ParsedPacket) (after : List ParsedPacket) : Prop where
  packets : packets = before ++ syn :: (between ++ synAck :: after)
  runs : Runs k before syn between
  stops : StopsTimer k syn synAck

/-- What the packets of a run have made of the timer of the flow `k`. -/
inductive History (k : FlowKey) : List ParsedPacket → Timer → Prop
  | idle {packets t} (h : ∀ p ∈ packets, ¬ StartsTimer k p) (ht : t.Idle) : History k packets t
  | running {before syn between} (h : Runs k before syn between) :
    History k (before ++ syn :: between) ⟨0, syn.timestamp, true⟩
  | stopped {packets before syn between synAck after} (h : Times k packets before syn between synAck after) :
    History k packets ⟨synAck.timestamp - syn.timestamp, syn.timestamp, true⟩

section History

variable {k : FlowKey} {packets before between after : List ParsedPacket} {p syn synAck : ParsedPacket} {t : Timer}

theorem Runs.concat (h : Runs k before syn between) (hp : ¬ StopsTimer k syn p) :
    Runs k before syn (between ++ [p]) :=
  ⟨h.starts, h.first, List.forall_mem_append.mpr ⟨h.pending, List.forall_mem_singleton.mpr hp⟩⟩

theorem Times.concat (h : Times k packets before syn between synAck after) (p : ParsedPacket) :
    Times k (packets ++ [p]) before syn between synAck (after ++ [p]) :=
  ⟨by simp only [h.packets, List.append_assoc, List.cons_append], h.runs, h.stops⟩

/-- A packet of another flow. -/
theorem History.other (h : History k packets t) (hp : keyFor p ≠ some k) : History k (packets ++ [p]) t := by
  cases h with
  | idle h ht => exact .idle (List.forall_mem_append.mpr ⟨h, List.forall_mem_singleton.mpr fun hs => hp hs.1⟩) ht
  | running h =>
    rw [List.append_assoc, List.cons_append]
    exact .running (h.concat fun hs => hp hs.1)
  | stopped h => exact .stopped (h.concat p)

/-- A packet of the flow. -/
theorem History.next (h : History k packets t) (hp : keyFor p = some k) :
    History k (packets ++ [p]) (t.next p (isDownstream p k)) := by
  cases h with
  | idle h ht =>
    by_cases hs : StartsTimer k p
    · rw [hs.2.2.2, ht.next_syn hs.2.1 hs.2.2.1]
      exact .running ⟨hs, h, by simp⟩
    · refine .idle (List.forall_mem_append.mpr ⟨h, List.forall_mem_singleton.mpr hs⟩) ?_
      by_cases htcp : p.protocol = "TCP"
      · refine ht.next fun ho => ?_
        by_contra hdown
        exact hs ⟨hp, htcp, ho, Bool.not_eq_true _ ▸ hdown⟩
      · rw [Timer.next, if_neg fun h => htcp h.1]
        exact ht
  | @running before syn between h =>
    by_cases hs : StopsTimer k syn p
    · have htcp : p.protocol = "TCP" := ((keyFor_eq_iff hp h.starts.1).mp rfl).1.trans h.starts.2.1
      rw [hs.2.2.1, Timer.next_synAck htcp hs.2.1 hs.2.2.2]
      exact .stopped ⟨by rw [List.append_assoc, List.cons_append], h, hs⟩
    · have hkeep : Timer.next p (isDownstream p k) ⟨0, syn.timestamp, true⟩ = ⟨0, syn.timestamp, true⟩ := by
        unfold Timer.next
        split_ifs with htcp hsyn hanswer
        · exact absurd hsyn.2.2 (by decide)
        · exact absurd ⟨hp, hanswer.1, hanswer.2.1, by have := hanswer.2.2.2; dsimp only at this; omega⟩ hs
        · rfl
        · rfl
      rw [hkeep, List.append_assoc, List.cons_append]
      exact .running (h.concat hs)
  | stopped h =>
    rw [Timer.next_stopped (by have := h.stops.2.2.2; show _ - _ ≠ (0 : ℤ); omega)]
    exact .stopped (h.concat p)

/-- **Where the timer of a flow stands** after any packets. -/
theorem timerFor_history (k : FlowKey) (packets : List ParsedPacket) :
    History k packets ((timerFor k none packets).getD {}) := by
  induction packets using List.reverseRecOn with
  | nil => exact .idle (by simp) ⟨rfl, rfl⟩
  | append_singleton packets p ih =>
    rw [timerFor, List.foldl_append, List.foldl_cons, List.foldl_nil, credit]
    by_cases hp : keyFor p = some k
    · rw [if_pos hp]
      exact ih.next hp
    · rw [if_neg hp]
      exact ih.other hp

end History

/-! ### The time of one connection -/

/-- `syn` and `synAck` open a connection of the flow `k` from opposite ends, with no
reset between them. -/
structure Opens (k : FlowKey) (syn : ParsedPacket) (between : List ParsedPacket) (synAck : ParsedPacket) : Prop where
  syn_key : keyFor syn = some k
  syn_opens : opens syn = true
  synAck_key : keyFor synAck = some k
  synAck_answers : answers synAck = true
  opposite : srcEndpoint synAck = dstEndpoint syn ∧ dstEndpoint synAck = srcEndpoint syn
  unreset : ∀ p ∈ between, keyFor p = some k → p.tcpRst = false

/-- Some connection of the flow `k` took the time `d` to open. -/
def OneAttempt (k : FlowKey) (packets : List ParsedPacket) (d : ℤ) : Prop :=
  ∃ before syn between synAck after, packets = before ++ syn :: (between ++ synAck :: after) ∧
    Opens k syn between synAck ∧ synAck.timestamp - syn.timestamp = d

/-- No reset of the flow `k` arrives while its timer runs. -/
def Undisturbed (k : FlowKey) (packets : List ParsedPacket) : Prop :=
  ∀ before syn between synAck after, Times k packets before syn between synAck after →
    ∀ p ∈ between, keyFor p = some k → p.tcpRst = false

/-- The SYN-ACK that stops the timer comes from the end that the SYN went to. -/
theorem StartsTimer.opposite {k : FlowKey} {syn synAck : ParsedPacket} (hsyn : StartsTimer k syn)
    (hstop : StopsTimer k syn synAck) :
    srcEndpoint synAck = dstEndpoint syn ∧ dstEndpoint synAck = srcEndpoint syn := by
  have hne : srcEndpoint synAck ≠ srcEndpoint syn := by
    intro he
    have hup := downstream_iff.mp hstop.2.2.1
    rw [he, ← downstream_iff, hsyn.2.2.2] at hup
    cases hup
  rcases Sym2.eq_iff.mp ((keyFor_eq_iff hstop.1 hsyn.1).mp rfl).2 with h | h
  · exact absurd h.1 hne
  · exact h

/-- **A reported round trip is that of one connection**, in every run in which no
reset of the flow arrives while its timer runs. -/
theorem rtt_oneAttempt {calls : List Call} {now : ℤ} {flow : Flow} (hflow : flow ∈ snapshot (run ∅ calls) now)
    (hrtt : flow.initialRttMicroseconds > 0) (h : Undisturbed flow.key (updatesOf calls)) :
    OneAttempt flow.key (updatesOf calls) flow.initialRttMicroseconds := by
  have hreported := reported_of_mem (filed_run filed_empty calls) hflow
  have htimer := reported_observe observes_timer (·.initialRttMicroseconds) (·.rtt) (fun _ _ => rfl) calls now flow.key
  rw [hreported] at htimer
  obtain ⟨t, ht, hshown⟩ := Option.map_eq_some_iff.mp htimer.symm
  have hhistory := timerFor_history flow.key (updatesOf calls)
  rw [show timerFor flow.key none (updatesOf calls) = some t from ht, Option.getD_some] at hhistory
  have hshown : t.rtt = flow.initialRttMicroseconds := hshown
  rw [← hshown] at hrtt ⊢
  generalize updatesOf calls = packets at h hhistory ⊢
  cases hhistory with
  | idle _ hidle => exact absurd hidle.1 hrtt.ne'
  | running _ => exact absurd hrtt (lt_irrefl 0)
  | stopped htimes =>
    refine ⟨_, _, _, _, _, htimes.packets, ⟨htimes.runs.starts.1, htimes.runs.starts.2.2.1, htimes.stops.1,
      htimes.stops.2.1, htimes.runs.starts.opposite htimes.stops, ?_⟩, rfl⟩
    exact h _ _ _ _ _ htimes

/-- A reset from the side of `peerKey` that is asked. -/
def peerRst (timestamp : ℤ) : ParsedPacket :=
  { srcIP := "10.0.0.9", dstIP := "10.0.0.1", srcPort := 50002, dstPort := 50001, protocol := "TCP", tcpRst := true,
    timestamp }

/-- A connection that opens and is reset. -/
def resetRun : List Call :=
  [.update (peerSyn "10.0.0.1" "10.0.0.9" 50001 50002 1000) "" "",
    .update (peerSynAck "10.0.0.9" "10.0.0.1" 50002 50001 43000) "" "", .update (peerRst 50000) "" ""]

theorem resetRun_undisturbed : Undisturbed peerKey (updatesOf resetRun) := by
  intro before syn between synAck after h p hp hk
  have hquiet : ∀ q ∈ (updatesOf resetRun).dropLast, q.tcpRst = false := by decide
  have hsplit : updatesOf resetRun = (before ++ syn :: between) ++ synAck :: after := by
    rw [h.packets, List.append_assoc, List.cons_append]
  -- the reset is the last packet, and the SYN-ACK comes after what is between
  refine hquiet p ?_
  rw [hsplit, List.dropLast_append_cons]
  simp [hp]

theorem rtt_oneAttempt_resetRun :
    ∃ flow ∈ snapshot (run ∅ resetRun) 60000, flow.key = peerKey ∧ flow.initialRttMicroseconds = 42000 ∧
      OneAttempt flow.key (updatesOf resetRun) flow.initialRttMicroseconds := by
  have hflow : (snapshot (run ∅ resetRun) 60000).any fun f => f.key = peerKey ∧ f.initialRttMicroseconds = 42000 := by
    decide
  obtain ⟨flow, hmem, hflow⟩ := List.any_eq_true.mp hflow
  obtain ⟨hkey, hrtt⟩ := of_decide_eq_true hflow
  exact ⟨flow, hmem, hkey, hrtt, rtt_oneAttempt hmem (by omega) (hkey ▸ resetRun_undisturbed)⟩

/-- A connection that is refused and tried again five seconds later. -/
def retriedRun : List Call :=
  [.update (peerSyn "10.0.0.1" "10.0.0.9" 50001 50002 1000) "" "", .update (peerRst 2000) "" "",
    .update (peerSyn "10.0.0.1" "10.0.0.9" 50001 50002 5001000) "" "",
    .update (peerSynAck "10.0.0.9" "10.0.0.1" 50002 50001 5043000) "" ""]

/-- The round trip reported is not that of the second attempt. -/
theorem rtt_across_reset :
    (reported (run ∅ retriedRun) 6000000 peerKey).map (·.initialRttMicroseconds) = some 5042000 ∧
      ¬ OneAttempt peerKey (updatesOf retriedRun) 5042000 := by
  refine ⟨by decide, ?_⟩
  rintro ⟨before, syn, between, synAck, after, hsplit, h, hd⟩
  have hsynAck : ∀ p ∈ updatesOf retriedRun, answers p = true → p.timestamp = 5043000 := by decide
  have hlate := hsynAck synAck (by rw [hsplit]; simp) h.synAck_answers
  cases before with
  | nil =>
    have hrst : (updatesOf retriedRun)[1]? = some (peerRst 2000) := rfl
    rw [hsplit] at hrst
    cases between with
    | nil =>
      obtain rfl : synAck = peerRst 2000 := Option.some.inj hrst
      exact absurd h.synAck_answers (by decide)
    | cons second between =>
      obtain rfl : second = peerRst 2000 := Option.some.inj hrst
      exact absurd (h.unreset _ List.mem_cons_self (by decide)) (by decide)
  | cons first before =>
    have hsyn : ∀ p ∈ (updatesOf retriedRun).tail, opens p = true → p.timestamp = 5001000 := by decide
    have hretry := hsyn syn (by rw [hsplit]; simp) h.syn_opens
    omega

end FlowAggregator
end NetProbe
