/-
# Runs of runLive

Whatever the order of the steps, the packets read are those pushed and the one
on its way to the queue, and the packets fed are those the queue returned but
for the one in hand (`Accounts`). At the end the queue is empty, so that every
packet read was either fed or evicted (`live_totals`). The filter covers the
packets read once it is installed (`fed_filtered`).

Key definitions: `MainMove`, `CaptureMove`, `Accounts`, `Phase`.
Key theorems: `reachable_inv`, `live_totals`, `fed_filtered`.
-/
import NetProbe.LiveCapture

namespace NetProbe

open CaptureEngine PacketQueue

namespace LiveCapture

variable {Packet : Type} {bpf : Bpf Packet} {opts : Options} {maxSize : ℕ} {s s' : Live Packet}
  {history : List (ℕ × Call Packet)} {hand : List Packet}

/-! ### The invariants -/

/-- The packet the capture thread has read and not pushed yet. -/
def pending : CapturePc Packet → List Packet
  | .consuming packet => [packet]
  | _ => []

/-- `hand` is what the main thread has popped and not fed. -/
def InHand (opts : Options) : MainPc Packet → List Packet → Prop
  | .feeding packet, hand => hand = [packet]
  | .drained packet, hand => hand = [packet]
  | .done, hand => opts.packetLimit = none → hand = []
  | _, hand => hand = []

/-- The queue has a history in which what was read has been pushed and what was
returned has been fed. -/
structure Accounts (opts : Options) (maxSize : ℕ) (s : Live Packet) (history : List (ℕ × Call Packet))
    (hand : List Packet) : Prop where
  run : Run maxSize history s.engine.queue
  pushed : s.reads.map (·.2) = pushes history ++ pending s.engine.captureThread
  popped : returned history = s.fed ++ hand
  inHand : InHand opts s.main hand
  kept : discarded history = []
  analyzed : s.packetsAnalyzed = UInt64.ofNat s.fed.length

/-- The capture thread has been joined. -/
def joined : MainPc Packet → Bool
  | .draining => true
  | .drained _ => true
  | .done => true
  | _ => false

/-- The loop has found the limit not reached. -/
def counting : MainPc Packet → Bool
  | .polling => true
  | .feeding _ => true
  | _ => false

structure Phase (opts : Options) (maxSize : ℕ) (s : Live Packet) : Prop where
  fresh : s.main = .start → s.engine = (init maxSize).engine
  joined : joined s.main = true → s.engine.captureThread = .idle
  emptied : s.main = .done → opts.packetLimit = none → s.engine.queue.queue = []
  within : ∀ n, opts.packetLimit = some n → s.packetsAnalyzed ≤ n ∧ (counting s.main = true → s.packetsAnalyzed < n)

/-- The only filter ever installed is the user's, and the packets read under it
pass. -/
structure Filtered (bpf : Bpf Packet) (opts : Options) (s : Live Packet) : Prop where
  installed : ∀ f, s.engine.backend.filter = some f → f = opts.bpfFilter
  passed : ∀ r ∈ s.reads, ∀ f, r.1 = some f → f = opts.bpfFilter ∧ bpf.passes f r.2 = true

/-! ### What a thread can do -/

/-- What the main thread does in a step. -/
inductive MainMove (bpf : Bpf Packet) (opts : Options) (s : Live Packet) : Live Packet → Prop
  | start (opens : Bool) (hm : s.main = .start) : MainMove bpf opts s { s with
      engine := startCapture bpf opens s.engine
      main := if isCapturing (startCapture bpf opens s.engine) then .filtering else .failed }
  | unfiltered (hm : s.main = .filtering) : MainMove bpf opts s { s with main := .check }
  | install {engine : Engine Packet} (hm : s.main = .filtering)
      (hset : setFilter bpf opts.bpfFilter s.engine = some engine) :
    MainMove bpf opts s { s with engine, main := .check }
  | reject (hm : s.main = .filtering) : MainMove bpf opts s { s with main := .stopping false }
  | leave (hm : s.main = .check) : MainMove bpf opts s { s with main := .stopping true }
  | poll (hm : s.main = .check) (hlimit : atLimit opts s = false) : MainMove bpf opts s { s with main := .polling }
  | wait (hm : s.main = .polling) : MainMove bpf opts s { s with main := .check }
  | pop {packet : Packet} {queue : PacketQueue Packet} (hm : s.main = .polling)
      (hpop : s.engine.queue.tryPop = (some packet, queue)) :
    MainMove bpf opts s { s with engine := { s.engine with queue }, main := .feeding packet }
  | feed {packet : Packet} (hm : s.main = .feeding packet) : MainMove bpf opts s
      { s with fed := s.fed ++ [packet], packetsAnalyzed := s.packetsAnalyzed + 1, main := .check }
  | stop {filtered : Bool} (hm : s.main = .stopping filtered) : MainMove bpf opts s
      { s with engine := { s.engine with stopRequested := true }, main := .joining filtered }
  | join {filtered : Bool} (hm : s.main = .joining filtered) (hreturned : s.engine.captureThread = .returned) :
    MainMove bpf opts s { s with
      engine := { s.engine with captureThread := .idle, backend := {} }
      main := if filtered then .draining else .failed }
  | drain {packet : Packet} {queue : PacketQueue Packet} (hm : s.main = .draining)
      (hpop : s.engine.queue.tryPop = (some packet, queue)) :
    MainMove bpf opts s { s with engine := { s.engine with queue }, main := .drained packet }
  | emptied (hm : s.main = .draining) (hqueue : s.engine.queue.queue = []) :
    MainMove bpf opts s { s with main := .done }
  | limited {packet : Packet} (hm : s.main = .drained packet) (hlimit : atLimit opts s = true) :
    MainMove bpf opts s { s with main := .done }
  | feedDrained {packet : Packet} (hm : s.main = .drained packet) (hlimit : atLimit opts s = false) :
    MainMove bpf opts s
      { s with fed := s.fed ++ [packet], packetsAnalyzed := s.packetsAnalyzed + 1, main := .draining }

theorem tryPop_none {q queue : PacketQueue Packet} (h : q.tryPop = (none, queue)) : q.queue = [] := by
  unfold tryPop at h
  split at h
  · assumption
  · cases h

theorem mainStep_move {opens : Bool} (hs : mainStep bpf opts opens s = some s') : MainMove bpf opts s s' := by
  cases hm : s.main with
  | start =>
    simp only [mainStep, hm, Option.some.injEq] at hs
    exact hs ▸ .start opens hm
  | filtering =>
    simp only [mainStep, hm] at hs
    split at hs
    · exact Option.some.inj hs ▸ .unfiltered hm
    · split at hs
      · rename_i engine hset
        exact Option.some.inj hs ▸ .install hm hset
      · exact Option.some.inj hs ▸ .reject hm
  | check =>
    simp only [mainStep, hm] at hs
    split at hs
    · exact Option.some.inj hs ▸ .leave hm
    · rename_i hgo
      have hlimit : atLimit opts s = false := by
        rw [← Bool.not_eq_true]
        exact fun hl => hgo (.inr (.inr hl))
      exact Option.some.inj hs ▸ .poll hm hlimit
  | polling =>
    simp only [mainStep, hm] at hs
    split at hs
    · exact Option.some.inj hs ▸ .wait hm
    · rename_i packet queue hpop
      exact Option.some.inj hs ▸ .pop hm hpop
  | feeding packet =>
    simp only [mainStep, hm, Option.some.injEq] at hs
    exact hs ▸ .feed hm
  | stopping filtered =>
    simp only [mainStep, hm, Option.some.injEq] at hs
    exact hs ▸ .stop hm
  | joining filtered =>
    simp only [mainStep, hm] at hs
    split at hs
    · rename_i hreturned
      exact Option.some.inj hs ▸ .join hm hreturned
    · cases hs
  | draining =>
    simp only [mainStep, hm] at hs
    split at hs
    · rename_i hpop
      exact Option.some.inj hs ▸ .emptied hm (tryPop_none hpop)
    · rename_i packet queue hpop
      exact Option.some.inj hs ▸ .drain hm hpop
  | drained packet =>
    simp only [mainStep, hm] at hs
    split at hs
    · rename_i hlimit
      exact Option.some.inj hs ▸ .limited hm hlimit
    · rename_i hlimit
      exact Option.some.inj hs ▸ .feedDrained hm (Bool.not_eq_true _ ▸ hlimit)
  | done => simp [mainStep, hm] at hs
  | failed => simp [mainStep, hm] at hs

/-- What the capture thread does in a step. -/
inductive CaptureMove (bpf : Bpf Packet) (s : Live Packet) : Live Packet → Prop
  | goto (pc : CapturePc Packet) (hrunning : s.engine.captureThread ≠ .idle)
      (hp : pending s.engine.captureThread = []) (hpc : pending pc = []) :
    CaptureMove bpf s { s with engine := { s.engine with captureThread := pc } }
  | read {packet : Packet} (hc : s.engine.captureThread = .reading)
      (hpass : handsOut bpf s.engine.backend packet = true) : CaptureMove bpf s { s with
        engine := { s.engine with captureThread := .consuming packet }
        reads := s.reads ++ [(s.engine.backend.filter, packet)] }
  | push {packet : Packet} (hc : s.engine.captureThread = .consuming packet) : CaptureMove bpf s { s with
      engine := { s.engine with queue := s.engine.queue.push packet, captureThread := .check } }

theorem captureStep_move {status : PacketReadStatus Packet} (hs : captureStep bpf status s = some s') :
    CaptureMove bpf s s' := by
  cases hc : s.engine.captureThread with
  | idle => simp [captureStep, hc] at hs
  | check =>
    simp only [captureStep, hc, Option.some.injEq] at hs
    exact hs ▸ .goto _ (by rw [hc]; nofun) (by rw [hc]; rfl) (by split <;> rfl)
  | reading =>
    simp only [captureStep, hc] at hs
    cases status with
    | packet packet =>
      dsimp only at hs
      split at hs
      · rename_i hpass
        exact Option.some.inj hs ▸ .read hc hpass
      · cases hs
    | timeout | endOfFile | error =>
      exact Option.some.inj hs ▸ .goto _ (by rw [hc]; nofun) (by rw [hc]; rfl) rfl
  | consuming packet =>
    simp only [captureStep, hc, Option.some.injEq] at hs
    exact hs ▸ .push hc
  | returned => simp [captureStep, hc] at hs

/-! ### Steps of the main thread -/

/-- On a fresh engine no filter is installed before the thread starts. -/
theorem startCapture_init (opens : Bool) : startCapture bpf opens (init maxSize : Live Packet).engine =
    if opens then { queue := (make maxSize).clear, backend := { isOpen := true }, captureThread := .check }
    else { queue := (make maxSize).clear } := by
  cases opens <;> rfl

theorem setFilter_some {filter : String} {e e' : Engine Packet} (h : setFilter bpf filter e = some e') :
    e' = { e with backend := { e.backend with filter := some filter }, activeFilter := filter } := by
  unfold setFilter installFilter at h
  split at h
  · cases h
  · split at h
    · exact (Option.some.inj h).symm
    · cases h

theorem Accounts.inHand_at {pc : MainPc Packet} (h : Accounts opts maxSize s history hand) (hm : s.main = pc) :
    InHand opts pc hand := hm ▸ h.inHand

/-- The main thread moves on; the queue, the packets read and those fed stay. -/
theorem Accounts.move (h : Accounts opts maxSize s history hand) (hq : s'.engine.queue = s.engine.queue)
    (hp : pending s'.engine.captureThread = pending s.engine.captureThread) (hr : s'.reads = s.reads)
    (hf : s'.fed = s.fed) (ha : s'.packetsAnalyzed = s.packetsAnalyzed) (hi : InHand opts s'.main hand) :
    Accounts opts maxSize s' history hand where
  run := hq ▸ h.run
  pushed := by rw [hr, hp, h.pushed]
  popped := by rw [hf, h.popped]
  inHand := hi
  kept := h.kept
  analyzed := by rw [ha, hf, h.analyzed]

/-- The main thread pops a packet. -/
theorem Accounts.pop {packet : Packet} {queue : PacketQueue Packet} {main : MainPc Packet}
    (h : Accounts opts maxSize s history []) (hpop : s.engine.queue.tryPop = (some packet, queue))
    (hi : InHand opts main [packet]) :
    Accounts opts maxSize { s with engine := { s.engine with queue }, main } (history ++ [(0, .tryPop (some packet))])
      [packet] where
  run := by
    have hstep := Step.tryPop (q := s.engine.queue)
    rw [hpop] at hstep
    exact h.run.step 0 hstep
  pushed := by
    rw [pushes, List.filterMap_append]
    exact h.pushed.trans (by simp [pushes])
  popped := by
    have hfed := h.popped
    rw [List.append_nil] at hfed
    rw [returned, List.filterMap_append, ← returned, hfed]
    rfl
  inHand := hi
  kept := by
    rw [discarded, List.flatMap_append, ← discarded, h.kept]
    rfl
  analyzed := h.analyzed

/-- The main thread feeds the packet in hand. -/
theorem Accounts.feed {packet : Packet} {main : MainPc Packet} (h : Accounts opts maxSize s history [packet])
    (hi : InHand opts main []) :
    Accounts opts maxSize { s with fed := s.fed ++ [packet], packetsAnalyzed := s.packetsAnalyzed + 1, main }
      history [] where
  run := h.run
  pushed := h.pushed
  popped := by rw [List.append_nil]; exact h.popped
  inHand := hi
  kept := h.kept
  analyzed := by
    rw [List.length_append, UInt64.ofNat_add, ← h.analyzed]
    rfl

/-- The main thread starts the capture, on a queue that is still empty. -/
theorem Accounts.start (h : Accounts opts maxSize s history []) (hfresh : s.engine = (init maxSize).engine)
    (opens : Bool) {main : MainPc Packet} (hi : InHand opts main []) :
    Accounts opts maxSize { s with engine := startCapture bpf opens s.engine, main }
      (history ++ [(0, .clear [])]) [] := by
  have hqueue : (startCapture bpf opens s.engine).queue = s.engine.queue.clear := by
    rw [hfresh, startCapture_init]
    cases opens <;> rfl
  have hpending : pending (startCapture bpf opens s.engine).captureThread = pending s.engine.captureThread := by
    rw [hfresh, startCapture_init]
    cases opens <;> rfl
  have hempty : s.engine.queue.queue = [] := by
    rw [hfresh]
    exact make_queue maxSize
  have hstep := Step.clear (q := s.engine.queue)
  rw [hempty] at hstep
  refine ⟨?_, ?_, ?_, hi, ?_, h.analyzed⟩
  · rw [hqueue]
    exact h.run.step 0 hstep
  · rw [hpending, pushes, List.filterMap_append]
    exact h.pushed.trans (by simp [pushes])
  · rw [returned, List.filterMap_append]
    exact (List.append_nil _).trans h.popped
  · rw [discarded, List.flatMap_append, ← discarded, h.kept]
    rfl

theorem Accounts.mainStep (h : Accounts opts maxSize s history hand) (hphase : Phase opts maxSize s)
    (hs : MainMove bpf opts s s') : ∃ history' hand', Accounts opts maxSize s' history' hand' := by
  cases hs with
  | start opens hm =>
    obtain rfl : hand = [] := h.inHand_at hm
    refine ⟨_, _, h.start (hphase.fresh hm) opens ?_⟩
    split <;> rfl
  | install hm hset =>
    obtain rfl : hand = [] := h.inHand_at hm
    rw [setFilter_some hset]
    exact ⟨_, _, h.move rfl rfl rfl rfl rfl rfl⟩
  | unfiltered hm | reject hm | leave hm | poll hm | wait hm | stop hm =>
    obtain rfl : hand = [] := h.inHand_at hm
    exact ⟨_, _, h.move rfl rfl rfl rfl rfl rfl⟩
  | pop hm hpop | drain hm hpop =>
    obtain rfl : hand = [] := h.inHand_at hm
    exact ⟨_, _, h.pop hpop rfl⟩
  | feed hm | feedDrained hm =>
    obtain rfl : hand = [_] := h.inHand_at hm
    exact ⟨_, _, h.feed rfl⟩
  | @join filtered hm hreturned =>
    obtain rfl : hand = [] := h.inHand_at hm
    refine ⟨_, _, h.move rfl (by rw [hreturned]; rfl) rfl rfl rfl ?_⟩
    cases filtered <;> rfl
  | emptied hm =>
    obtain rfl : hand = [] := h.inHand_at hm
    exact ⟨_, _, h.move rfl rfl rfl rfl rfl fun _ => rfl⟩
  | limited hm hlimit =>
    refine ⟨_, _, h.move rfl rfl rfl rfl rfl fun hnone => ?_⟩
    simp [atLimit, hnone] at hlimit

/-! ### Steps of the capture thread -/

/-- The capture thread moves on without a packet. -/
theorem Accounts.goto {pc : CapturePc Packet} (h : Accounts opts maxSize s history hand)
    (hp : pending s.engine.captureThread = []) (hpc : pending pc = []) :
    Accounts opts maxSize { s with engine := { s.engine with captureThread := pc } } history hand :=
  ⟨h.run, by rw [hpc, ← hp]; exact h.pushed, h.popped, h.inHand, h.kept, h.analyzed⟩

/-- The capture thread reads a packet. -/
theorem Accounts.read {packet : Packet} {filter : Option String} (h : Accounts opts maxSize s history hand)
    (hp : pending s.engine.captureThread = []) :
    Accounts opts maxSize { s with
      engine := { s.engine with captureThread := .consuming packet }, reads := s.reads ++ [(filter, packet)] }
      history hand := by
  refine ⟨h.run, ?_, h.popped, h.inHand, h.kept, h.analyzed⟩
  have hpushed := h.pushed
  rw [hp, List.append_nil] at hpushed
  rw [List.map_append, hpushed]
  rfl

/-- The capture thread pushes the packet it has read. -/
theorem Accounts.push {packet : Packet} (h : Accounts opts maxSize s history hand)
    (hp : s.engine.captureThread = .consuming packet) :
    Accounts opts maxSize { s with
      engine := { s.engine with queue := s.engine.queue.push packet, captureThread := .check } }
      (history ++ [(1, .push packet)]) hand := by
  refine ⟨h.run.step 1 (.push packet), ?_, ?_, h.inHand, ?_, h.analyzed⟩
  · rw [pushes, List.filterMap_append]
    exact h.pushed.trans (by rw [hp]; simp [pushes, pending])
  · rw [returned, List.filterMap_append]
    exact (List.append_nil _).trans h.popped
  · rw [discarded, List.flatMap_append, ← discarded, h.kept]
    rfl

theorem Accounts.captureStep (h : Accounts opts maxSize s history hand) (hs : CaptureMove bpf s s') :
    ∃ history', Accounts opts maxSize s' history' hand := by
  cases hs with
  | goto pc _ hp hpc => exact ⟨_, h.goto hp hpc⟩
  | read hc => exact ⟨_, h.read (by rw [hc]; rfl)⟩
  | push hc => exact ⟨_, h.push hc⟩

/-! ### Phases -/

theorem atLimit_eq_false : atLimit opts s = false ↔ ∀ n, opts.packetLimit = some n → s.packetsAnalyzed < n := by
  unfold atLimit
  cases opts.packetLimit with
  | none => simp
  | some n => simp

theorem succ_le_of_lt {a n : UInt64} (h : a < n) : a + 1 ≤ n := by
  rw [UInt64.lt_iff_toNat_lt] at h
  rw [UInt64.le_iff_toNat_le, UInt64.toNat_add]
  exact (Nat.mod_le _ _).trans h

/-- Before the capture thread is joined, in a phase that has not checked the limit. -/
theorem Phase.move (h : Phase opts maxSize s) (hstart : s'.main ≠ .start)
    (hjoined : LiveCapture.joined s'.main = false) (hcounting : counting s'.main = false)
    (ha : s'.packetsAnalyzed = s.packetsAnalyzed) : Phase opts maxSize s' where
  fresh hm := (hstart hm).elim
  joined hm := by rw [hjoined] at hm; cases hm
  emptied hm := by rw [hm] at hjoined; cases hjoined
  within n hn := ⟨ha ▸ (h.within n hn).1, fun hc => by rw [hcounting] at hc; cases hc⟩

theorem Phase.mainStep (h : Phase opts maxSize s) (hs : MainMove bpf opts s s') : Phase opts maxSize s' := by
  cases hs with
  | start opens hm => refine h.move ?_ ?_ ?_ rfl <;> dsimp only <;> split <;> simp [LiveCapture.joined, counting]
  | unfiltered hm | install hm hset | reject hm | leave hm | wait hm | stop hm => exact h.move nofun rfl rfl rfl
  | poll hm hlimit =>
    exact ⟨nofun, nofun, nofun, fun n hn => ⟨(h.within n hn).1, fun _ => atLimit_eq_false.mp hlimit n hn⟩⟩
  | pop hm =>
    have hcount : counting s.main = true := by rw [hm]; rfl
    exact ⟨nofun, nofun, nofun, fun n hn => ⟨(h.within n hn).1, fun _ => (h.within n hn).2 hcount⟩⟩
  | feed hm =>
    have hcount : counting s.main = true := by rw [hm]; rfl
    exact ⟨nofun, nofun, nofun, fun n hn => ⟨succ_le_of_lt ((h.within n hn).2 hcount), nofun⟩⟩
  | @join filtered hm =>
    cases filtered with
    | false => exact h.move nofun rfl rfl rfl
    | true => exact ⟨nofun, fun _ => rfl, nofun, fun n hn => ⟨(h.within n hn).1, nofun⟩⟩
  | drain hm =>
    have hidle : s.engine.captureThread = .idle := h.joined (by rw [hm]; rfl)
    exact ⟨nofun, fun _ => hidle, nofun, fun n hn => ⟨(h.within n hn).1, nofun⟩⟩
  | emptied hm hqueue =>
    have hidle : s.engine.captureThread = .idle := h.joined (by rw [hm]; rfl)
    exact ⟨nofun, fun _ => hidle, fun _ _ => hqueue, fun n hn => ⟨(h.within n hn).1, nofun⟩⟩
  | limited hm hlimit =>
    have hidle : s.engine.captureThread = .idle := h.joined (by rw [hm]; rfl)
    refine ⟨nofun, fun _ => hidle, fun _ hnone => ?_, fun n hn => ⟨(h.within n hn).1, nofun⟩⟩
    simp [atLimit, hnone] at hlimit
  | feedDrained hm hlimit =>
    have hidle : s.engine.captureThread = .idle := h.joined (by rw [hm]; rfl)
    have hbelow := atLimit_eq_false.mp hlimit
    exact ⟨nofun, fun _ => hidle, nofun, fun n hn => ⟨succ_le_of_lt (hbelow n hn), nofun⟩⟩

/-- A step of the capture thread leaves the main thread alone. -/
theorem CaptureMove.main_eq (hs : CaptureMove bpf s s') : s.engine.captureThread ≠ .idle ∧ s'.main = s.main ∧
    s'.packetsAnalyzed = s.packetsAnalyzed := by
  cases hs with
  | goto _ hrunning => exact ⟨hrunning, rfl, rfl⟩
  | read hc => exact ⟨by rw [hc]; nofun, rfl, rfl⟩
  | push hc => exact ⟨by rw [hc]; nofun, rfl, rfl⟩

theorem Phase.captureStep (h : Phase opts maxSize s) (hs : CaptureMove bpf s s') : Phase opts maxSize s' := by
  obtain ⟨hrunning, hmain, ha⟩ := hs.main_eq
  have hjoined : LiveCapture.joined s.main = false := by
    rw [← Bool.not_eq_true]
    exact fun hj => hrunning (h.joined hj)
  have hstart : s.main ≠ .start := fun hm => hrunning (by rw [h.fresh hm]; rfl)
  refine ⟨fun hm => (hstart (hmain ▸ hm)).elim, fun hj => ?_, fun hm => ?_, fun n hn => ?_⟩
  · rw [hmain, hjoined] at hj
    cases hj
  · rw [← hmain, hm] at hjoined
    cases hjoined
  · rw [ha, hmain]
    exact h.within n hn

/-! ### The filter -/

theorem Filtered.captureStep (h : Filtered bpf opts s) (hs : CaptureMove bpf s s') : Filtered bpf opts s' := by
  cases hs with
  | goto => exact ⟨h.installed, h.passed⟩
  | push => exact ⟨h.installed, h.passed⟩
  | read _ hpass =>
    refine ⟨h.installed, fun r hr f hf => ?_⟩
    rcases List.mem_append.mp hr with hr | hr
    · exact h.passed r hr f hf
    · obtain rfl := List.mem_singleton.mp hr
      refine ⟨h.installed f hf, ?_⟩
      have hf : s.engine.backend.filter = some f := hf
      rwa [handsOut, hf] at hpass

/-- The main thread installs the user's filter, or drops the one installed. -/
theorem Filtered.mainStep (h : Filtered bpf opts s) (hphase : Phase opts maxSize s) (hs : MainMove bpf opts s s') :
    Filtered bpf opts s' := by
  cases hs with
  | start opens hm =>
    rw [hphase.fresh hm, startCapture_init]
    refine ⟨fun f hf => ?_, h.passed⟩
    cases opens <;> cases hf
  | install hm hset =>
    rw [setFilter_some hset]
    exact ⟨fun f hf => (Option.some.inj hf).symm, h.passed⟩
  | join => exact ⟨nofun, h.passed⟩
  | unfiltered | reject | leave | poll | wait | pop | feed | stop | drain | emptied | limited | feedDrained =>
    exact ⟨h.installed, h.passed⟩

/-! ### Runs -/

/-- **The invariants hold in every state any interleaving reaches.** -/
theorem reachable_inv (h : Reachable bpf opts maxSize s) :
    Phase opts maxSize s ∧ Filtered bpf opts s ∧ ∃ history hand, Accounts opts maxSize s history hand := by
  induction h with
  | init =>
    refine ⟨⟨fun _ => rfl, nofun, nofun, fun n _ => ⟨UInt64.zero_le, nofun⟩⟩, ⟨nofun, nofun⟩, [], [], ?_⟩
    exact ⟨.start, rfl, rfl, rfl, rfl, rfl⟩
  | @step s s' a h hs ih =>
    obtain ⟨hphase, hfiltered, history, hand, haccounts⟩ := ih
    cases a with
    | interrupt =>
      obtain rfl := Option.some.inj hs
      exact ⟨⟨hphase.fresh, hphase.joined, hphase.emptied, hphase.within⟩, ⟨hfiltered.installed, hfiltered.passed⟩,
        history, hand, haccounts.move rfl rfl rfl rfl rfl haccounts.inHand⟩
    | expire =>
      obtain rfl := Option.some.inj hs
      exact ⟨⟨hphase.fresh, hphase.joined, hphase.emptied, hphase.within⟩, ⟨hfiltered.installed, hfiltered.passed⟩,
        history, hand, haccounts.move rfl rfl rfl rfl rfl haccounts.inHand⟩
    | main opens =>
      have hmove := mainStep_move hs
      exact ⟨hphase.mainStep hmove, hfiltered.mainStep hphase hmove, haccounts.mainStep hphase hmove⟩
    | capture status =>
      have hmove := captureStep_move hs
      obtain ⟨history', haccounts'⟩ := haccounts.captureStep hmove
      exact ⟨hphase.captureStep hmove, hfiltered.captureStep hmove, history', hand, haccounts'⟩

/-- **Live totals account for every packet**: at the end without a limit, what
was read has been fed or evicted, in order; a limit is never passed. -/
theorem live_totals (h : Reachable bpf opts maxSize s) :
    (s.main = .done → opts.packetLimit = none →
      s.packetsAnalyzed + s.engine.queue.droppedPackets = UInt64.ofNat s.reads.length ∧
      ∃ gone : List (Fate × Packet), gone.map (·.2) = s.reads.map (·.2) ∧ fated .returned gone = s.fed ∧
        s.engine.queue.droppedPackets = UInt64.ofNat (fated .evicted gone).length ∧ fated .discarded gone = []) ∧
    ∀ n, opts.packetLimit = some n → s.packetsAnalyzed ≤ n := by
  obtain ⟨hphase, -, history, hand, haccounts⟩ := reachable_inv h
  refine ⟨fun hdone hnone => ?_, fun n hn => (hphase.within n hn).1⟩
  obtain ⟨gone, hgone⟩ := run_settled haccounts.run
  have hpending : pending s.engine.captureThread = [] := by
    rw [hphase.joined (by rw [hdone]; rfl)]
    rfl
  have hhand : hand = [] := by
    have hi := haccounts.inHand
    rw [hdone] at hi
    exact hi hnone
  have hreads : gone.map (·.2) = s.reads.map (·.2) := by
    have horder := hgone.order
    rw [hphase.emptied hdone hnone, List.append_nil] at horder
    rw [haccounts.pushed, hpending, List.append_nil, horder]
  have hfed : fated .returned gone = s.fed := by
    rw [← hgone.returned, haccounts.popped, hhand, List.append_nil]
  have hkept : fated .discarded gone = [] := hgone.discarded.symm.trans haccounts.kept
  refine ⟨?_, gone, hreads, hfed, hgone.dropped, hkept⟩
  have hlength : s.reads.length = s.fed.length + (fated .evicted gone).length := by
    calc s.reads.length = gone.length := by simpa only [List.length_map] using (congrArg List.length hreads).symm
      _ = _ := length_gone gone
      _ = s.fed.length + (fated .evicted gone).length := by rw [hkept, hfed, List.length_nil, Nat.add_zero]
  calc s.packetsAnalyzed + s.engine.queue.droppedPackets
      = UInt64.ofNat s.fed.length + UInt64.ofNat (fated .evicted gone).length := by
        rw [haccounts.analyzed, hgone.dropped]
    _ = UInt64.ofNat s.reads.length := by rw [hlength, UInt64.ofNat_add]

/-- What is fed has been read, in this order. -/
theorem fed_sublist (h : Reachable bpf opts maxSize s) : s.fed.Sublist (s.reads.map (·.2)) := by
  obtain ⟨-, -, history, hand, haccounts⟩ := reachable_inv h
  obtain ⟨gone, hgone⟩ := run_settled haccounts.run
  have hreturned := hgone.returned_sublist
  rw [haccounts.popped] at hreturned
  rw [haccounts.pushed]
  exact (List.sublist_append_left ..).trans (hreturned.trans (List.sublist_append_left ..))

/-- **The filter covers the run** when it lets through every packet read before
it was installed. -/
theorem fed_filtered (h : Reachable bpf opts maxSize s)
    (hearly : ∀ packet, (none, packet) ∈ s.reads → bpf.passes opts.bpfFilter packet = true) :
    ∀ packet ∈ s.fed, bpf.passes opts.bpfFilter packet = true := by
  obtain ⟨-, hfiltered, -⟩ := reachable_inv h
  intro packet hpacket
  obtain ⟨⟨filter, packet'⟩, hr, rfl⟩ := List.mem_map.mp ((fed_sublist h).subset hpacket)
  cases filter with
  | none => exact hearly packet' hr
  | some f =>
    obtain ⟨rfl, hpass⟩ := hfiltered.passed _ hr f rfl
    exact hpass

/-! Packets stand for the ports they are for. -/

/-- A library whose filters are ports. -/
def portBpf : Bpf ℕ where
  compiles _ := true
  passes filter port := filter = toString port

/-- Two packets come in before the main thread polls a queue of one, then Ctrl+C. -/
def interruptedRun : List (Action ℕ) :=
  [.main true, .capture .timeout, .capture (.packet 80), .capture .timeout, .main true, .capture .timeout,
    .capture (.packet 443), .capture .timeout, .main true, .main true, .main true, .interrupt, .main true, .main true,
    .capture .timeout, .main true, .main true]

theorem live_totals_interrupted : ∃ s : Live ℕ, Reachable portBpf {} 1 s ∧ s.main = .done ∧ s.reads.length = 2 ∧
    s.packetsAnalyzed + s.engine.queue.droppedPackets = UInt64.ofNat s.reads.length := by
  have hrun : ∃ s, run portBpf {} (init 1) interruptedRun = some s ∧ s.main = .done ∧ s.reads.length = 2 :=
    ⟨_, rfl, rfl, rfl⟩
  obtain ⟨s, hs, hdone, hlength⟩ := hrun
  have h := reachable_run interruptedRun .init hs
  exact ⟨s, h, hdone, hlength, ((live_totals h).1 hdone rfl).1⟩

/-- A packet for `port` is read and queued before the filter is installed. -/
def earlyRun (port : ℕ) : List (Action ℕ) :=
  [.main true, .capture .timeout, .capture (.packet port), .capture .timeout, .main true, .main true, .main true,
    .main true]

theorem earlyRun_reaches (port : ℕ) : ∃ s : Live ℕ, Reachable portBpf { bpfFilter := "443" } 50000 s ∧
    s.engine.backend.filter = some "443" ∧ s.reads = [(none, port)] ∧ s.fed = [port] := by
  have hrun : ∃ s, run portBpf { bpfFilter := "443" } (init 50000) (earlyRun port) = some s ∧
      s.engine.backend.filter = some "443" ∧ s.reads = [(none, port)] ∧ s.fed = [port] := ⟨_, rfl, rfl, rfl, rfl⟩
  obtain ⟨s, hs, hfilter⟩ := hrun
  exact ⟨s, reachable_run (earlyRun port) .init hs, hfilter⟩

theorem fed_filtered_early : ∃ s : Live ℕ, s.fed = [443] ∧ ∀ packet ∈ s.fed, portBpf.passes "443" packet = true := by
  obtain ⟨s, h, -, hreads, hfed⟩ := earlyRun_reaches 443
  refine ⟨s, hfed, fed_filtered h fun packet hp => ?_⟩
  rw [hreads, List.mem_singleton, Prod.mk.injEq] at hp
  rw [hp.2]
  decide

/-- The filter is installed too late for a packet it rejects. -/
theorem fed_unfiltered : ∃ s : Live ℕ, Reachable portBpf { bpfFilter := "443" } 50000 s ∧
    s.engine.backend.filter = some "443" ∧ s.fed = [53] ∧ portBpf.passes "443" 53 = false := by
  obtain ⟨s, h, hfilter, -, hfed⟩ := earlyRun_reaches 53
  exact ⟨s, h, hfilter, hfed, by decide⟩

end LiveCapture
end NetProbe
