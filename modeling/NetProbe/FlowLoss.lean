/-
# Loss accounting refines accounting on unbounded sequence numbers

`judgeSegment` keeps a 32-bit high-water mark and compares with it by the
signed 32-bit difference. When every segment lies within half the sequence
space of the mark before it, this is the accounting on the absolute positions:
the mark is the furthest end so far, a segment that starts before it counts as
a retransmission and one that starts past it as out of order
(`judge_refines`), over every interleaving (`loss_accounting`).
-/
import NetProbe.FlowRuns
import NetProbe.Serial

namespace NetProbe
namespace FlowAggregator

open Serial

/-- The packet is the segment `s`: its sequence number is the residue of the
absolute start. -/
def Carries (s : Segment) (p : ParsedPacket) : Prop :=
  p.tcpSeq = BitVec.ofInt 32 s.start ∧ p.payloadLength = s.length

/-- `d` is the account of `segs` on the unbounded numbers, over the counters
`d₀` held before the first of them. -/
def Accounts (d₀ : Delivery) (segs : List Segment) (d : Delivery) : Prop :=
  (segs = [] → d.sequence.valid = false) ∧
  (segs ≠ [] → d.sequence = { nextExpected := BitVec.ofInt 32 (highWater segs), valid := true }) ∧
  d.retransmissions = d₀.retransmissions + UInt64.ofNat (countBehind segs) ∧
  d.outOfOrder = d₀.outOfOrder + UInt64.ofNat (countAhead segs)

theorem segmentEnd_eq {s : Segment} {p : ParsedPacket} (h : Carries s p) :
    p.tcpSeq + BitVec.ofNat 32 p.payloadLength = BitVec.ofInt 32 s.stop := by
  rw [h.1, h.2, Segment.stop, BitVec.ofInt_add, BitVec.ofInt_natCast]

theorem ofNat_succ (n : UInt64) (k : ℕ) : n + UInt64.ofNat k + 1 = n + UInt64.ofNat (k + 1) := by
  rw [UInt64.ofNat_add, UInt64.add_assoc]
  rfl

/-- The first segment sets the baseline. -/
theorem judge_first {d₀ d : Delivery} {s : Segment} {p : ParsedPacket} (h : Accounts d₀ [] d)
    (hs : Carries s p) : Accounts d₀ [s] (judge p d) := by
  obtain ⟨hv, -, hr, ho⟩ := h
  have hcount : ∀ q, countAgainst q [s] = countAgainst q [] := fun q => by
    simpa using countAgainst_concat q [] s
  rw [judge, segmentEnd_eq hs, judgeSegment, if_pos (by simp [hv rfl])]
  refine ⟨by simp, fun _ => by rw [highWater_singleton], ?_, ?_⟩
  · exact hr.trans (by simp only [countBehind, hcount])
  · exact ho.trans (by simp only [countAhead, hcount])

/-- A later segment, judged by the sign of the 32-bit difference, is judged by
its absolute start. -/
theorem judge_next {d₀ d : Delivery} {segs : List Segment} {s : Segment} {p : ParsedPacket}
    (h : Accounts d₀ segs d) (hne : segs ≠ []) (hs : Carries s p)
    (hw : s.start = highWater segs ∨
      (|s.start - highWater segs| < 2 ^ 31 ∧ |s.stop - highWater segs| < 2 ^ 31)) :
    Accounts d₀ (segs ++ [s]) (judge p d) := by
  obtain ⟨-, hv, hr, ho⟩ := h
  have hd := hv hne
  have h1 : (p.tcpSeq - d.sequence.nextExpected).toInt = s.start - highWater segs := by
    rw [hs.1, hd]
    rcases hw with heq | hw
    · simp [heq]
    · exact toInt_sub (by norm_num) hw.1
  have h2 : s.start < highWater segs →
      (BitVec.ofInt 32 s.stop - d.sequence.nextExpected).toInt = s.stop - highWater segs := by
    rw [hd]
    exact fun hlt => toInt_sub (by norm_num) (hw.resolve_left hlt.ne).2
  have hstop : s.start ≤ s.stop := by unfold Segment.stop; omega
  have hmark := highWater_concat hne s
  have hb := countAgainst_concat (fun start mark => decide (start < mark)) segs s
  have ha := countAgainst_concat (fun start mark => decide (start > mark)) segs s
  simp only [hne, ne_eq, not_false_eq_true, true_and, decide_eq_true_eq] at hb ha
  rw [judge, segmentEnd_eq hs, judgeSegment, if_neg (by simp [hd])]
  simp only [h1]
  rcases lt_trichotomy s.start (highWater segs) with hlt | heq | hgt
  · -- behind the mark: a retransmission, which may still carry new bytes
    rw [if_neg (by omega), if_pos (by omega)]
    rw [if_pos hlt] at hb
    rw [if_neg (by omega)] at ha
    rw [h2 hlt]
    refine ⟨by simp, fun _ => ?_, ?_, ?_⟩
    · by_cases hnew : s.stop - highWater segs > 0
      · rw [if_pos hnew, hmark, max_eq_right (by omega)]; simp [hd]
      · rw [if_neg hnew, hmark, max_eq_left (by omega), hd]
    · simp only [countBehind]
      rw [hb, hr, countBehind, ofNat_succ]
    · simp only [countAhead]
      rw [ha, ho, countAhead, Nat.add_zero]
  · rw [if_pos (by omega)]
    rw [if_neg (by omega)] at hb ha
    refine ⟨by simp, fun _ => by rw [hmark, max_eq_right (by omega)]; simp [hd], ?_, ?_⟩
    · simp only [countBehind]
      rw [hb, hr, countBehind, Nat.add_zero]
    · simp only [countAhead]
      rw [ha, ho, countAhead, Nat.add_zero]
  · -- past the mark: something before it is missing
    rw [if_neg (by omega), if_neg (by omega)]
    rw [if_neg (by omega)] at hb
    rw [if_pos hgt] at ha
    refine ⟨by simp, fun _ => by rw [hmark, max_eq_right (by omega)]; simp [hd], ?_, ?_⟩
    · simp only [countBehind]
      rw [hb, hr, countBehind, Nat.add_zero]
    · simp only [countAhead]
      rw [ha, ho, countAhead, ofNat_succ]

theorem forall₂_concat_left {R : Segment → ParsedPacket → Prop} {segs : List Segment} {s : Segment} :
    ∀ {packets : List ParsedPacket}, List.Forall₂ R (segs ++ [s]) packets →
      ∃ before p, packets = before ++ [p] ∧ List.Forall₂ R segs before ∧ R s p := by
  induction segs with
  | nil =>
    intro packets h
    obtain ⟨p, rest, hp, hrest, rfl⟩ := List.forall₂_cons_left_iff.mp h
    obtain rfl := List.forall₂_nil_left_iff.mp hrest
    exact ⟨[], p, rfl, .nil, hp⟩
  | cons t segs ih =>
    intro packets h
    obtain ⟨q, rest, hq, hrest, rfl⟩ := List.forall₂_cons_left_iff.mp h
    obtain ⟨before, p, rfl, hb, hp⟩ := ih hrest
    exact ⟨q :: before, p, rfl, .cons hq hb, hp⟩

/-- **The 32-bit accounts refine the unbounded ones.** -/
theorem judge_refines {d₀ : Delivery} (h₀ : d₀.sequence.valid = false) (segs : List Segment) :
    ∀ packets : List ParsedPacket, List.Forall₂ Carries segs packets → Comparable 32 segs →
      Accounts d₀ segs (packets.foldl (fun d p => judge p d) d₀) := by
  induction segs using List.reverseRecOn with
  | nil =>
    intro packets hp _
    obtain rfl := List.forall₂_nil_left_iff.mp hp
    exact ⟨fun _ => h₀, fun h => absurd rfl h, by simp [countBehind, countAgainst_nil],
      by simp [countAhead, countAgainst_nil]⟩
  | append_singleton segs s ih =>
    intro packets hp hw
    obtain ⟨hw', hs⟩ := hw.concat
    obtain ⟨before, p, rfl, h1, h2⟩ := forall₂_concat_left hp
    rw [List.foldl_append]
    have hd := ih before h1 hw'
    rcases eq_or_ne segs [] with rfl | hne
    · exact judge_first hd h2
    · exact judge_next hd hne h2 (hs hne)

/-- **Loss accounting.** After a run that ends at the start or in a reset of
the flow, and any calls without another reset, the account of a direction is
that of the absolute positions of its data segments; an in-order stream adds to
neither counter, for any starting number and any number of wraps. -/
theorem loss_accounting (k : FlowKey) (dir : Bool) (before calls : List Call)
    (hbefore : before = [] ∨ EndsInReset k before) (hcalls : ∀ c ∈ calls, ¬ Resets k c)
    (segs : List Segment) (hsegs : List.Forall₂ Carries segs (dataSegments k dir calls)) :
    (WithinWindow 32 segs →
      Accounts (deliveryOf (run ∅ before) k dir) segs (deliveryOf (run ∅ (before ++ calls)) k dir)) ∧
    (InOrder segs →
      (deliveryOf (run ∅ (before ++ calls)) k dir).retransmissions =
        (deliveryOf (run ∅ before) k dir).retransmissions ∧
      (deliveryOf (run ∅ (before ++ calls)) k dir).outOfOrder =
        (deliveryOf (run ∅ before) k dir).outOfOrder) := by
  have h₀ : (deliveryOf (run ∅ before) k dir).sequence.valid = false := by
    rw [deliveryOf_fresh hbefore]
  rw [run_append, deliveryOf_run k dir calls (run ∅ before) hcalls]
  refine ⟨fun hw => judge_refines h₀ segs _ hsegs hw.comparable, fun ho => ?_⟩
  obtain ⟨-, -, hr, hoo⟩ := judge_refines h₀ segs _ hsegs (ho.comparable 32)
  rw [hr, hoo, countBehind, countAhead, ho.countAgainst_eq (by simp), ho.countAgainst_eq (by simp)]
  simp

/-! A stream that wraps past 2^32 and repeats a segment. -/

/-- A client's segment at `start`. -/
def clientSegment (start : ℤ) (payloadLength : ℕ) : ParsedPacket :=
  { srcIP := "192.168.1.10", dstIP := "93.184.216.34", srcPort := 50000, dstPort := 443,
    protocol := "TCP", tcpAck := true, tcpSeq := BitVec.ofInt 32 start, payloadLength }

def wrappingCalls : List Call :=
  [.update (clientSegment 4294967290 10) "" "", .update (clientSegment 4294967300 5) "" "",
    .update (clientSegment 4294967290 10) "" ""]

theorem loss_accounting_wrapping :
    (deliveryOf (run ∅ ([] ++ wrappingCalls))
      ⟨"192.168.1.10", "93.184.216.34", 50000, 443, "TCP"⟩ false).retransmissions = 1 := by
  have h := (loss_accounting ⟨"192.168.1.10", "93.184.216.34", 50000, 443, "TCP"⟩ false [] wrappingCalls
    (Or.inl rfl) (by decide)
    [⟨4294967290, 10⟩, ⟨4294967300, 5⟩, ⟨4294967290, 10⟩]
    (.cons ⟨rfl, rfl⟩ (.cons ⟨rfl, rfl⟩ (.cons ⟨rfl, rfl⟩ .nil)))).1 (by
      intro pre s post he hne
      rcases pre with _ | ⟨a, _ | ⟨b, _ | ⟨c, pre⟩⟩⟩
      · exact absurd rfl hne
      · simp only [List.cons_append, List.nil_append, List.cons.injEq] at he
        obtain ⟨rfl, rfl, -⟩ := he
        decide
      · simp only [List.cons_append, List.nil_append, List.cons.injEq] at he
        obtain ⟨rfl, rfl, rfl, -⟩ := he
        decide
      · simp at he)
  exact h.2.2.1

end FlowAggregator
end NetProbe
