/-
# PacketQueue

The bounded queue between the capture thread and the analysis. A full queue
evicts its oldest packet and counts it. Every operation holds the queue's mutex,
so a run of any number of threads is a sequence of operations (`Run`), and each
packet pushed meets exactly one fate or is still queued (`run_settled`).

Key definitions: `PacketQueue`, `Call`, `Step`, `Run`, `Settled`.
Key theorems: `run_settled`, `run_accounts`.
-/
import Mathlib.Data.UInt
import Mathlib.Data.List.Basic

namespace NetProbe

/-- The queue does not look at its packets. There is room for at least one. -/
structure PacketQueue (Packet : Type) where
  queue : List Packet := []
  maxSize : ℕ
  droppedPackets : UInt64 := 0
  room : 0 < maxSize

namespace PacketQueue

variable {Packet : Type}

def make (maxSize : ℕ) : PacketQueue Packet :=
  if h : maxSize > 0 then { maxSize, room := h } else { maxSize := 1, room := Nat.one_pos }

def size (q : PacketQueue Packet) : ℕ := q.queue.length

/-- When full, the oldest packet goes. -/
def push (q : PacketQueue Packet) (packet : Packet) : PacketQueue Packet :=
  if q.size ≥ q.maxSize then
    { q with queue := q.queue.tail ++ [packet], droppedPackets := q.droppedPackets + 1 }
  else { q with queue := q.queue ++ [packet] }

/-- Non-blocking; nothing when empty. -/
def tryPop (q : PacketQueue Packet) : Option Packet × PacketQueue Packet :=
  match q.queue with
  | [] => (none, q)
  | packet :: rest => (some packet, { q with queue := rest })

def clear (q : PacketQueue Packet) : PacketQueue Packet := { q with queue := [] }

/-! ### Runs -/

/-- A call, with what it returned, and for `clear` with what it discarded. -/
inductive Call (Packet : Type)
  | push (packet : Packet)
  | tryPop (result : Option Packet)
  | pop (result : Packet)
  | clear (discarded : List Packet)

/-- One call under the mutex. `pop` waits until the queue is not empty. -/
inductive Step : PacketQueue Packet → Call Packet → PacketQueue Packet → Prop
  | push {q} (packet) : Step q (.push packet) (q.push packet)
  | tryPop {q} : Step q (.tryPop q.tryPop.1) q.tryPop.2
  | pop {q packet} (h : q.tryPop.1 = some packet) : Step q (.pop packet) q.tryPop.2
  | clear {q} : Step q (.clear q.queue) q.clear

/-- An interleaving of the calls of any number of threads, from a new queue. -/
inductive Run (maxSize : ℕ) : List (ℕ × Call Packet) → PacketQueue Packet → Prop
  | start : Run maxSize [] (make maxSize)
  | step {history q q' c} (h : Run maxSize history q) (thread : ℕ) (hs : Step q c q') :
    Run maxSize (history ++ [(thread, c)]) q'

/-- The packets pushed, in order. -/
def pushes (history : List (ℕ × Call Packet)) : List Packet := history.filterMap fun
  | (_, .push packet) => some packet
  | _ => none

/-- The packets returned, in order. -/
def returned (history : List (ℕ × Call Packet)) : List Packet := history.filterMap fun
  | (_, .tryPop (some packet)) => some packet
  | (_, .pop packet) => some packet
  | _ => none

/-- The packets `clear` discarded, in order. -/
def discarded (history : List (ℕ × Call Packet)) : List Packet := history.flatMap fun
  | (_, .clear packets) => packets
  | _ => []

/-- Where a packet went. -/
inductive Fate
  | returned
  | evicted
  | discarded
  deriving DecidableEq

/-- The packets that met the fate `f`, in order. -/
def fated (f : Fate) (gone : List (Fate × Packet)) : List Packet := (gone.filter fun g => g.1 = f).map (·.2)

/-- After `history` the packets in `gone` have left the queue `q`, in order, each
to its fate. -/
structure Settled (history : List (ℕ × Call Packet)) (q : PacketQueue Packet) (gone : List (Fate × Packet)) : Prop where
  order : pushes history = gone.map (·.2) ++ q.queue
  returned : PacketQueue.returned history = fated .returned gone
  discarded : PacketQueue.discarded history = fated .discarded gone
  dropped : q.droppedPackets = UInt64.ofNat (fated .evicted gone).length
  fits : q.size ≤ q.maxSize

section Lemmas

variable {q : PacketQueue Packet} {history : List (ℕ × Call Packet)} {gone : List (Fate × Packet)} {thread : ℕ}

theorem fated_append (f : Fate) (gone more : List (Fate × Packet)) :
    fated f (gone ++ more) = fated f gone ++ fated f more := by
  simp [fated]

theorem make_maxSize (maxSize : ℕ) : (make maxSize : PacketQueue Packet).maxSize = max maxSize 1 := by
  unfold make
  split
  · rename_i h
    exact (max_eq_left h).symm
  · rename_i h
    exact (max_eq_right (by omega)).symm

theorem make_queue (maxSize : ℕ) : (make maxSize : PacketQueue Packet).queue = [] := by
  unfold make
  split <;> rfl

theorem make_dropped (maxSize : ℕ) : (make maxSize : PacketQueue Packet).droppedPackets = 0 := by
  unfold make
  split <;> rfl

theorem settled_start (maxSize : ℕ) : Settled [] (make maxSize : PacketQueue Packet) [] where
  order := (make_queue maxSize).symm
  returned := rfl
  discarded := rfl
  dropped := make_dropped maxSize
  fits := by rw [size, make_queue]; exact Nat.zero_le _

variable {packet old : Packet} {rest : List Packet}

/-- Below its capacity the queue takes the packet. -/
theorem Settled.push_room (h : Settled history q gone) (hroom : q.size < q.maxSize) :
    Settled (history ++ [(thread, .push packet)]) (q.push packet) gone := by
  have hpush : q.push packet = { q with queue := q.queue ++ [packet] } := if_neg (by omega)
  rw [hpush]
  refine ⟨?_, ?_, ?_, h.dropped, ?_⟩
  · rw [pushes, List.filterMap_append, ← List.append_assoc, ← h.order]
    rfl
  · rw [PacketQueue.returned, List.filterMap_append, ← h.returned]
    exact List.append_nil _
  · rw [PacketQueue.discarded, List.flatMap_append, ← h.discarded]
    exact List.append_nil _
  · show (q.queue ++ [packet]).length ≤ q.maxSize
    rw [List.length_append]
    exact hroom

/-- At its capacity it evicts the oldest packet. -/
theorem Settled.push_full (h : Settled history q gone) (hfull : q.size ≥ q.maxSize) (hq : q.queue = old :: rest) :
    Settled (history ++ [(thread, .push packet)]) (q.push packet) (gone ++ [(.evicted, old)]) := by
  have hpush : q.push packet =
      { q with queue := rest ++ [packet], droppedPackets := q.droppedPackets + 1 } := by
    rw [push, if_pos hfull, hq]
    rfl
  have hsize : q.size = rest.length + 1 := by rw [size, hq]; rfl
  rw [hpush]
  refine ⟨?_, ?_, ?_, ?_, ?_⟩
  · have hp : pushes (history ++ [(thread, Call.push packet)]) = pushes history ++ [packet] := by
      rw [pushes, List.filterMap_append]
      rfl
    rw [hp, h.order, hq]
    simp
  · rw [PacketQueue.returned, List.filterMap_append, fated_append, ← h.returned]
    rfl
  · rw [PacketQueue.discarded, List.flatMap_append, fated_append, ← h.discarded]
    rfl
  · rw [fated_append, List.length_append, UInt64.ofNat_add, ← h.dropped]
    rfl
  · have hfits := h.fits
    show (rest ++ [packet]).length ≤ q.maxSize
    rw [List.length_append, List.length_singleton]
    omega

/-- The front of the queue is returned. -/
theorem Settled.take {c : Call Packet} (h : Settled history q gone) (hq : q.queue = packet :: rest)
    (hc : c = .tryPop (some packet) ∨ c = .pop packet) :
    Settled (history ++ [(thread, c)]) { q with queue := rest } (gone ++ [(.returned, packet)]) := by
  have hfits := h.fits
  rw [size, hq, List.length_cons] at hfits
  refine ⟨?_, ?_, ?_, ?_, Nat.le_of_succ_le hfits⟩
  · have hp : pushes (history ++ [(thread, c)]) = pushes history := by
      rw [pushes, List.filterMap_append]
      rcases hc with rfl | rfl
      · exact List.append_nil _
      · exact List.append_nil _
    rw [hp, h.order, hq]
    simp
  · rw [PacketQueue.returned, List.filterMap_append, fated_append, ← h.returned]
    rcases hc with rfl | rfl
    · rfl
    · rfl
  · rw [PacketQueue.discarded, List.flatMap_append, fated_append, ← h.discarded]
    rcases hc with rfl | rfl
    · rfl
    · rfl
  · rw [fated_append]
    exact h.dropped.trans (congrArg _ (congrArg _ (List.append_nil _).symm))

theorem Settled.tryPop_none (h : Settled history q gone) :
    Settled (history ++ [(thread, .tryPop none)]) q gone := by
  refine ⟨?_, ?_, ?_, h.dropped, h.fits⟩
  · rw [pushes, List.filterMap_append, ← h.order]
    exact List.append_nil _
  · rw [PacketQueue.returned, List.filterMap_append, ← h.returned]
    exact List.append_nil _
  · rw [PacketQueue.discarded, List.flatMap_append, ← h.discarded]
    exact List.append_nil _

theorem fated_map (f : Fate) (packets : List Packet) :
    fated f (packets.map (Fate.discarded, ·)) = if f = .discarded then packets else [] := by
  unfold fated
  induction packets with
  | nil => split <;> rfl
  | cons packet packets ih =>
    rw [List.map_cons, List.filter_cons]
    cases f
    · simp
    · simp
    · simpa using ih

theorem Settled.clear (h : Settled history q gone) :
    Settled (history ++ [(thread, .clear q.queue)]) q.clear (gone ++ q.queue.map (Fate.discarded, ·)) := by
  refine ⟨?_, ?_, ?_, ?_, Nat.zero_le _⟩
  · have hp : pushes (history ++ [(thread, Call.clear q.queue)]) = pushes history := by
      rw [pushes, List.filterMap_append]
      exact List.append_nil _
    rw [hp, h.order, PacketQueue.clear]
    simp
  · rw [PacketQueue.returned, List.filterMap_append, fated_append, ← h.returned, fated_map]
    rfl
  · rw [PacketQueue.discarded, List.flatMap_append, fated_append, ← h.discarded, fated_map, if_pos rfl]
    exact congrArg _ (List.append_nil _)
  · rw [fated_append, fated_map]
    exact h.dropped.trans (congrArg _ (congrArg _ (List.append_nil _).symm))

/-- One call settles the packets it takes out of the queue. -/
theorem Settled.step {q' : PacketQueue Packet} {c : Call Packet} (h : Settled history q gone) (hs : Step q c q') :
    ∃ gone', Settled (history ++ [(thread, c)]) q' gone' := by
  cases hs with
  | push packet =>
    by_cases hfull : q.size ≥ q.maxSize
    · cases hq : q.queue with
      | nil =>
        have hroom := q.room
        rw [size, hq, List.length_nil] at hfull
        omega
      | cons old rest => exact ⟨_, h.push_full hfull hq⟩
    · exact ⟨_, h.push_room (by omega)⟩
  | tryPop =>
    cases hq : q.queue with
    | nil =>
      have hpop : q.tryPop = (none, q) := by rw [tryPop, hq]
      rw [hpop]
      exact ⟨_, h.tryPop_none⟩
    | cons packet rest =>
      have hpop : q.tryPop = (some packet, { q with queue := rest }) := by rw [tryPop, hq]
      rw [hpop]
      exact ⟨_, h.take hq (.inl rfl)⟩
  | @pop packet hp =>
    cases hq : q.queue with
    | nil =>
      rw [tryPop, hq] at hp
      cases hp
    | cons front rest =>
      have hpop : q.tryPop = (some front, { q with queue := rest }) := by rw [tryPop, hq]
      rw [hpop] at hp ⊢
      obtain rfl := Option.some.inj hp
      exact ⟨_, h.take hq (.inr rfl)⟩
  | clear => exact ⟨_, h.clear⟩

end Lemmas

/-- **Every packet meets one fate**: in a run of any threads, what was pushed is
what has left the queue, in order, followed by what is still queued. -/
theorem run_settled {maxSize : ℕ} {history : List (ℕ × Call Packet)} {q : PacketQueue Packet}
    (h : Run maxSize history q) : ∃ gone, Settled history q gone := by
  induction h with
  | start => exact ⟨[], settled_start maxSize⟩
  | step h thread hs ih =>
    obtain ⟨gone, hgone⟩ := ih
    exact hgone.step hs

theorem run_maxSize {maxSize : ℕ} {history : List (ℕ × Call Packet)} {q : PacketQueue Packet}
    (h : Run maxSize history q) : q.maxSize = max maxSize 1 := by
  induction h with
  | start => exact make_maxSize maxSize
  | step h thread hs ih =>
    rw [← ih]
    cases hs with
    | push packet =>
      unfold push
      split <;> rfl
    | tryPop =>
      unfold tryPop
      split <;> rfl
    | pop hp =>
      unfold tryPop
      split <;> rfl
    | clear => rfl

theorem length_gone (gone : List (Fate × Packet)) : gone.length =
    (fated .returned gone).length + (fated .evicted gone).length + (fated .discarded gone).length := by
  induction gone with
  | nil => rfl
  | cons g gone ih =>
    obtain ⟨f, packet⟩ := g
    simp only [fated, List.length_map] at ih ⊢
    cases f <;> simp <;> omega

theorem Settled.returned_sublist {history : List (ℕ × Call Packet)} {q : PacketQueue Packet}
    {gone : List (Fate × Packet)}
    (h : Settled history q gone) : (PacketQueue.returned history).Sublist (pushes history) := by
  rw [h.order, h.returned]
  exact (List.filter_sublist.map _).trans (List.sublist_append_left _ _)

/-- **The queue loses only what it counts.** -/
theorem run_accounts {maxSize : ℕ} {history : List (ℕ × Call Packet)} {q : PacketQueue Packet}
    (h : Run maxSize history q) :
    q.size ≤ max maxSize 1 ∧
    (∃ evicted : ℕ, q.droppedPackets = UInt64.ofNat evicted ∧
      (pushes history).length = (returned history).length + evicted + (discarded history).length + q.size) ∧
    q.queue = (pushes history).drop ((pushes history).length - q.size) ∧
    (returned history).Sublist (pushes history) := by
  obtain ⟨gone, hgone⟩ := run_settled h
  have hlength : (pushes history).length = gone.length + q.size := by
    rw [hgone.order, List.length_append, List.length_map]
    rfl
  refine ⟨run_maxSize h ▸ hgone.fits, ⟨_, hgone.dropped, ?_⟩, ?_, hgone.returned_sublist⟩
  · rw [hlength, length_gone gone, hgone.returned, hgone.discarded]
  · rw [hlength, Nat.add_sub_cancel, hgone.order, List.drop_left' (List.length_map ..)]

/-! A producer fills a queue of two past its capacity while a consumer polls
and a third thread clears. -/

def busyHistory : List (ℕ × Call ℕ) :=
  [(1, .push 10), (1, .push 20), (1, .push 30), (2, .tryPop (some 20)), (3, .clear [30]), (1, .push 40), (2, .pop 40),
    (2, .tryPop none), (1, .push 50)]

theorem busyHistory_run : ∃ q, Run 2 busyHistory q ∧ q.droppedPackets = 1 ∧ q.queue = [50] := by
  have h0 : Run 2 [] (make 2 : PacketQueue ℕ) := .start
  have h1 := (h0.step 1 (.push 10)).step 1 (.push 20)
  have h2 := (h1.step 1 (.push 30)).step 2 .tryPop
  have h3 := ((h2.step 3 .clear).step 1 (.push 40)).step 2 (.pop rfl)
  exact ⟨_, (h3.step 2 .tryPop).step 1 (.push 50), rfl, rfl⟩

theorem run_accounts_busy : ∃ q, Run 2 busyHistory q ∧ q.size ≤ max 2 1 ∧
    (∃ evicted : ℕ, q.droppedPackets = UInt64.ofNat evicted ∧
      (pushes busyHistory).length = (returned busyHistory).length + evicted + (discarded busyHistory).length + q.size) ∧
    q.queue = (pushes busyHistory).drop ((pushes busyHistory).length - q.size) ∧
    (returned busyHistory).Sublist (pushes busyHistory) := by
  obtain ⟨q, h, -⟩ := busyHistory_run
  exact ⟨q, h, run_accounts h⟩

end PacketQueue
end NetProbe
