/-
# The window of the desktop program

The window is fed by the GUI thread of the desktop program, which also clears it.
Whatever the order of the steps of the two threads and of what the user does,
the window shows packets of the source opened last, in the order they came in,
and never waits for more than the next step of its own thread (`desktop_shows`).
A file is read to its end before the first of its packets is fed, so that only
the last ones that the queue has room for are fed, a thousand a frame (`file_fed`).

Key definitions: `Draws`, `Windowed`, `Quiet`, `framesOf`, `Filed`.
Key theorems: `desktop_shows`, `frames_drain`, `file_fed`.
-/
import NetProbe.DesktopRuns

namespace NetProbe

open SessionExport (Contents Record linkTypeFromDlt nextPacket maxSessionPackets)
open CaptureView (View Shows clearCaptureView ingest)

namespace DesktopCapture

variable {bpf : Bpf PacketData} {sys : Platform} {maxSize : ℕ} {s s' : Desktop} {v v' : View}
    {actions more : List Action}

/-! ### The window -/

/-- What is done with the window that neither feeds nor clears it. -/
def Own : CaptureView.Event → Prop
  | .ingest _ | .clear _ => False
  | _ => True

def clears : GuiEvent → Bool
  | .clearCaptureView | .openSource _ => true
  | _ => false

/-- What an action does to the window. -/
inductive Draws (sys : Platform) (s : Desktop) (v : View) : Action → View → Prop
  | ingest {opened : Option Contents} {count : ℕ} {a : AnalysisSession.Arrival} {v' : View}
      (hg : s.gui = .feeding count a.packet) (hi : ingest sys v a = .ok v') : Draws sys s v (.gui opened) v'
  | keep {opened : Option Contents} (hg : ∀ count packet, s.gui ≠ .feeding count packet) : Draws sys s v (.gui opened) v
  | clear {e : GuiEvent} (currentTime : ℚ) (he : clears e = true) :
    Draws sys s v (.event e) (clearCaptureView currentTime v)
  | event {e : GuiEvent} (he : clears e = false) : Draws sys s v (.event e) v
  | capture (status : PacketReadStatus Record) : Draws sys s v (.capture status) v

/-- The program with its window, from the start. -/
inductive Windowed (bpf : Bpf PacketData) (sys : Platform) (maxSize : ℕ) (opened : View) :
    List Action → Desktop → View → Prop
  | init : Windowed bpf sys maxSize opened [] (init maxSize) opened
  | step {actions : List Action} {s s' : Desktop} {v v' : View} {a : Action}
      (h : Windowed bpf sys maxSize opened actions s v) (hs : step bpf s a = some s') (hd : Draws sys s v a v') :
    Windowed bpf sys maxSize opened (actions ++ [a]) s' v'
  | own {actions : List Action} {s : Desktop} {v v' : View} {e : CaptureView.Event}
      (h : Windowed bpf sys maxSize opened actions s v) (he : Own e) (hs : CaptureView.Step sys v e v') :
    Windowed bpf sys maxSize opened actions s v'

theorem Windowed.reachable {opened : View} (h : Windowed bpf sys maxSize opened actions s v) :
    Reachable bpf maxSize actions s := by
  induction h with
  | init => exact .init
  | step _ hs _ ih => exact ih.step hs
  | own _ _ _ ih => exact ih

/-- The window shows what it has been fed. -/
def ShowsFed (sys : Platform) (s : Desktop) (v : View) : Prop :=
  ∃ log results, log.map AnalysisSession.Arrival.packet = s.fed ∧ Shows sys log results v

theorem logStep_own {e : CaptureView.Event} (he : Own e) (log : List AnalysisSession.Arrival) :
    CaptureView.logStep log e = log := by
  cases e with
  | ingest | clear => exact he.elim
  | _ => rfl

theorem guiMove_fed (h : GuiMove bpf s s') (hg : ∀ count packet, s.gui ≠ .feeding count packet) : s'.fed = s.fed := by
  cases h with
  | feed hfeed => exact (hg _ _ hfeed).elim
  | _ => rfl

theorem captureMove_fed (h : CaptureMove bpf s s') : s'.fed = s.fed := by
  cases h <;> rfl

theorem guiEvent_fed (s : Desktop) (e : GuiEvent) : (guiEvent bpf s e).fed = if clears e then [] else s.fed := by
  cases e with
  | setFilter filter =>
    unfold guiEvent
    dsimp only
    split
    · rfl
    · split <;> rfl
  | processQueue | setPaused =>
    rw [guiEvent]
    split_ifs <;> first | rfl | contradiction
  | clearCaptureView | openSource | stop => rfl

theorem event_fed {e : GuiEvent} (hs : step bpf s (.event e) = some s') : s'.fed = if clears e then [] else s.fed := by
  rw [step] at hs
  split at hs
  · rw [← Option.some.inj hs]
    exact guiEvent_fed s e
  · cases hs

theorem ShowsFed.draws {a : Action} (h : ShowsFed sys s v) (hs : step bpf s a = some s') (hd : Draws sys s v a v') :
    ShowsFed sys s' v' := by
  obtain ⟨log, results, hlog, hshows⟩ := h
  cases hd with
  | @ingest opened count a v' hg hi =>
    obtain ⟨result, hshows'⟩ := hshows.ingest hi
    refine ⟨_, _, ?_, hshows'⟩
    rw [step, guiStep, hg, Option.some.injEq] at hs
    rw [← hs, List.map_append, hlog]
    rfl
  | keep hg => exact ⟨log, results, hlog.trans (guiMove_fed (guiStep_move hs) hg).symm, hshows⟩
  | @clear e currentTime he =>
    refine ⟨[], [], ?_, CaptureView.shows_clear v currentTime⟩
    rw [event_fed hs, if_pos he]
    rfl
  | @event e he =>
    refine ⟨log, results, ?_, hshows⟩
    rw [event_fed hs, he]
    exact hlog
  | capture status => exact ⟨log, results, hlog.trans (captureMove_fed (captureStep_move hs)).symm, hshows⟩

theorem Windowed.showsFed {database : GeoIPResolver.Database} {cacheCapacity : ℕ}
    (h : Windowed bpf sys maxSize (CaptureView.init database cacheCapacity) actions s v) : ShowsFed sys s v := by
  induction h with
  | init => exact ⟨[], [], rfl, CaptureView.shows_init sys database cacheCapacity⟩
  | step _ hs hd ih => exact ih.draws hs hd
  | own _ he hs ih =>
    obtain ⟨log, results, hlog, hshows⟩ := ih
    obtain ⟨results', hshows'⟩ := hshows.step hs
    rw [logStep_own he] at hshows'
    exact ⟨log, results', hlog, hshows'⟩

theorem records_raw {log : List AnalysisSession.Arrival} {results : List AnalysisSession.Result}
    (h : log.length = results.length) :
    (CaptureView.records log results).map (·.raw) = log.map AnalysisSession.Arrival.packet := by
  rw [CaptureView.records, List.map_zipWith]
  induction log generalizing results with
  | nil => simp
  | cons a log ih =>
    cases results with
    | nil => cases h
    | cons result results => rw [List.zipWith_cons_cons, ih (Nat.succ.inj h), List.map_cons]

/-- The table has the packets that were analysed last. -/
theorem raw_history {log : List AnalysisSession.Arrival} {results : List AnalysisSession.Result}
    (h : Shows sys log results v) :
    v.packetHistory.map (·.raw) = (log.map AnalysisSession.Arrival.packet).rtake CaptureView.maxPacketHistory := by
  rw [h.history, List.rtake, List.rtake, List.map_drop, ← records_raw h.length_eq, List.length_map]

/-- Whatever a thread does next, the window can go along with it. -/
theorem draws_total {a : Action} (h : ShowsFed sys s v) (hs : step bpf s a = some s') : ∃ v', Draws sys s v a v' := by
  obtain ⟨log, results, -, hshows⟩ := h
  cases a with
  | event e =>
    cases he : clears e with
    | true => exact ⟨_, .clear 0 he⟩
    | false => exact ⟨v, .event he⟩
  | gui opened =>
    by_cases hg : ∃ count packet, s.gui = .feeding count packet
    · obtain ⟨count, packet, hg⟩ := hg
      obtain ⟨v', hv⟩ := hshows.takes ⟨packet, fun _ => ""⟩
      exact ⟨v', .ingest hg hv⟩
    · exact ⟨v, .keep fun count packet hfeed => hg ⟨count, packet, hfeed⟩⟩
  | capture status => exact ⟨v, .capture status⟩

theorem Windowed.follow {database : GeoIPResolver.Database} {cacheCapacity : ℕ}
    (h : Windowed bpf sys maxSize (CaptureView.init database cacheCapacity) actions s v)
    (hs : steps bpf s more = some s') :
    ∃ v', Windowed bpf sys maxSize (CaptureView.init database cacheCapacity) (actions ++ more) s' v' := by
  induction more generalizing actions s v with
  | nil =>
    rw [← Option.some.inj hs, List.append_nil]
    exact ⟨v, h⟩
  | cons a more ih =>
    obtain ⟨t, ha, hs⟩ := steps_cons hs
    obtain ⟨u, hu⟩ := draws_total h.showsFed ha
    obtain ⟨v', h'⟩ := ih (h.step ha hu) hs
    exact ⟨v', by rwa [List.append_assoc] at h'⟩

/-- **The window shows one source**: in any run of the program its table has, in
order, the last of the packets it was fed since it was cleared, all of them from
what the source opened last has given, and its counter is their number. The
window can go along with whatever the threads do next. -/
theorem desktop_shows {database : GeoIPResolver.Database} {cacheCapacity : ℕ}
    (h : Windowed bpf sys maxSize (CaptureView.init database cacheCapacity) actions s v) :
    v.packetHistory.map (·.raw) = s.fed.rtake CaptureView.maxPacketHistory ∧
    (v.packetHistory.map (·.raw)).Sublist (s.reads.map (·.2)) ∧ v.totalPackets = UInt64.ofNat s.fed.length ∧
    ∀ more s', steps bpf s more = some s' →
      ∃ v', Windowed bpf sys maxSize (CaptureView.init database cacheCapacity) (actions ++ more) s' v' := by
  obtain ⟨log, results, hlog, hshows⟩ := h.showsFed
  have hhistory := raw_history hshows
  rw [hlog] at hhistory
  refine ⟨hhistory, ?_, ?_, fun more s' hs => h.follow hs⟩
  · have hfed := (reachable_carries h.reachable).flow_read
    rw [hhistory]
    rw [List.append_assoc] at hfed
    exact (List.drop_sublist _ _).trans ((List.sublist_append_left _ _).trans hfed)
  · rw [hshows.total, ← hlog, List.length_map]

/-- A file of three packets. -/
def threePackets : Contents := { dlt := 1, records := [arrived 100, arrived 200, arrived 300] }

/-- The file is chosen and the program is about to read it. -/
def chosenRun : List Action := .event (.openSource .file) :: List.replicate 4 (.gui none)

/-- A queue of two has lost the first packet of the file before the window is fed. -/
theorem desktop_shows_file : ∃ s v,
    Windowed lengthBpf AnalysisSession.Web.sys 2 (CaptureView.init CaptureView.noDatabase 8)
    (chosenRun ++ .gui (some threePackets) :: List.replicate 7 (.gui none) ++ .event .processQueue ::
      List.replicate 5 (.gui none)) s v ∧ s.fed.map (·.length) = [200, 300] ∧
    v.packetHistory.map (·.raw) = s.fed.rtake CaptureView.maxPacketHistory := by
  have hrun : ∃ s, steps lengthBpf (init 2) (chosenRun ++ .gui (some threePackets) :: List.replicate 7 (.gui none) ++
      .event .processQueue :: List.replicate 5 (.gui none)) = some s ∧
      s.fed.map (·.length) = [200, 300] := ⟨_, rfl, rfl⟩
  obtain ⟨s, hs, hfed⟩ := hrun
  have hinit := @Windowed.init lengthBpf AnalysisSession.Web.sys 2 (CaptureView.init CaptureView.noDatabase 8)
  obtain ⟨v, h⟩ := (desktop_shows hinit).2.2.2 _ s hs
  exact ⟨s, v, h, hfed, (desktop_shows h).1⟩

/-! ### Files -/

/-- An action that neither opens a source nor drops what is queued or shown. -/
def Quiet : Action → Prop
  | .event e => clears e = false ∧ e ≠ .setPaused false
  | _ => True

/-- Where the GUI thread can be after it has opened a file, until another source is opened. -/
def Stays : GuiPc → Prop
  | .frame | .processing _ | .feeding _ _ | .stopping none | .closing none | .loading _ | .loadingRetained _ _ => True
  | _ => False

/-- The packets of the file that have not been read. -/
def unread (s : Desktop) : List PacketData :=
  match s.gui with
  | .loading records => records.map (nextPacket s.handle.linkType)
  | .loadingRetained _ records => records.map (nextPacket s.handle.linkType)
  | _ => []

/-- The last packets of a file are fed and queued, as far as it has been read. -/
structure Filed (file : List PacketData) (size : ℕ) (s : Desktop) : Prop where
  idle : s.captureThread = .idle
  room : s.queue.maxSize = size
  fresh : Loads s.gui → s.fed = []
  stays : Stays s.gui
  read : file = s.reads.map (·.2) ++ unread s
  held : ∃ queued, s.reads.map (·.2) = queued ++ fromFile s.gui ∧
    s.fed ++ inHand s.gui ++ s.queue.queue = queued.rtake size

theorem push_maxSize (q : PacketQueue PacketData) (packet : PacketData) : (q.push packet).maxSize = q.maxSize := by
  unfold PacketQueue.push
  split <;> rfl

theorem not_loads (h : ¬ Loads s.gui) : unread s = [] ∧ fromFile s.gui = [] := by
  unfold unread
  cases hg : s.gui with
  | loading | loadingRetained => exact (h (hg ▸ trivial)).elim
  | _ => exact ⟨rfl, rfl⟩

section Filed

variable {file : List PacketData} {size : ℕ}

/-- Nothing is read, and what is fed and queued stays. -/
theorem Filed.goto (h : Filed file size s) (hthread : s'.captureThread = s.captureThread)
    (hroom : s'.queue.maxSize = s.queue.maxSize) (hreads : s'.reads = s.reads) (hload : ¬ Loads s'.gui)
    (hstays : Stays s'.gui) (hread : unread s = []) (hfile : fromFile s.gui = [])
    (hheld : s'.fed ++ inHand s'.gui ++ s'.queue.queue = s.fed ++ inHand s.gui ++ s.queue.queue) :
    Filed file size s' where
  idle := hthread.trans h.idle
  room := hroom.trans h.room
  fresh hl := (hload hl).elim
  stays := hstays
  read := by
    rw [(not_loads hload).1, hreads, h.read, hread]
  held := by
    obtain ⟨queued, hqueued, hheld'⟩ := h.held
    rw [hfile] at hqueued
    exact ⟨queued, by rw [(not_loads hload).2, hreads, hqueued], hheld.trans hheld'⟩

theorem Filed.guiMove (h : Filed file size s) (hs : GuiMove bpf s s') : Filed file size s' := by
  have hstays := h.stays
  cases hs with
  | pop hg hpop =>
    refine h.goto rfl rfl rfl id trivial (by rw [unread, hg]) (by rw [hg]; rfl) ?_
    rw [hg, hpop]
    simp [inHand]
  | leave hg =>
    refine h.goto rfl rfl rfl id trivial (by rw [unread, hg]) (by rw [hg]; rfl) ?_
    rw [hg]
    rfl
  | feed hg =>
    refine h.goto rfl rfl rfl id trivial (by rw [unread, hg]) (by rw [hg]; rfl) ?_
    rw [hg]
    simp [inHand]
  | @stopped next hg ht =>
    rw [hg] at hstays
    refine h.goto rfl rfl rfl id ?_ (by rw [unread, hg]) (by rw [hg]; rfl) (by rw [hg]; rfl)
    cases next with
    | none => trivial
    | some => exact hstays
  | close hg => exact h.goto rfl rfl rfl id trivial (by rw [unread, hg]) (by rw [hg]; rfl) (by rw [hg]; rfl)
  | loaded hg => exact h.goto rfl rfl rfl id trivial (by rw [unread, hg]; rfl) (by rw [hg]; rfl) (by rw [hg]; rfl)
  | stop hg ht => exact (ht h.idle).elim
  | resume hg | unpause hg | join hg | closeFor hg | empty hg | forget hg | fail hg | start _ hg | openFile _ _ hg =>
    rw [hg] at hstays
    exact hstays.elim
  | @read record records hg =>
    have hread := h.read
    obtain ⟨queued, hqueued, hheld⟩ := h.held
    rw [unread, hg] at hread
    rw [hg] at hqueued
    have hreads : s.reads.map (·.2) = queued := hqueued.trans (List.append_nil _)
    refine ⟨h.idle, h.room, fun _ => h.fresh (hg ▸ trivial), trivial, ?_, queued, ?_, ?_⟩
    · rw [hread, unread, List.map_append, List.append_assoc]
      rfl
    · rw [List.map_append, hreads]
      rfl
    · rw [← hheld, hg]
      rfl
  | @push packet records hg =>
    have hread := h.read
    have hfed : s.fed = [] := h.fresh (hg ▸ trivial)
    obtain ⟨queued, hqueued, hheld⟩ := h.held
    rw [unread, hg] at hread
    rw [hg] at hqueued
    rw [hfed, hg] at hheld
    refine ⟨h.idle, (push_maxSize _ _).trans h.room, fun _ => hfed, trivial, hread, queued ++ [packet], ?_, ?_⟩
    · exact hqueued.trans (List.append_nil _).symm
    · have hsize : 0 < size := h.room ▸ s.queue.room
      have hqueue : s.queue.queue = queued.rtake size := hheld
      dsimp only
      rw [hfed, push_queue, h.room, hqueue, Window.keep_rtake hsize]
      rfl

theorem Filed.event {e : GuiEvent} (h : Filed file size s) (hg : s.gui = .frame) (hquiet : Quiet (.event e)) :
    Filed file size (guiEvent bpf s e) := by
  have hread : unread s = [] ∧ fromFile s.gui = [] := not_loads (by rw [hg]; exact id)
  cases e with
  | clearCaptureView | openSource => cases hquiet.1
  | processQueue =>
    rw [guiEvent]
    split
    · exact h
    · exact h.goto rfl rfl rfl id trivial hread.1 hread.2 (by rw [hg]; rfl)
  | setPaused paused =>
    obtain rfl : paused = true := by simpa [Quiet, clears] using hquiet
    rw [guiEvent]
    split_ifs
    · exact h
    · refine h.goto rfl rfl rfl ?_ h.stays hread.1 hread.2 rfl
      rw [hg]
      exact id
    · contradiction
  | stop => exact h.goto rfl rfl rfl id trivial hread.1 hread.2 (by rw [hg]; rfl)
  | setFilter filter =>
    rw [guiEvent, h.idle]
    exact h

theorem Filed.steps (h : Filed file size s) (hquiet : ∀ a ∈ more, Quiet a) (hs : steps bpf s more = some s') :
    Filed file size s' := by
  induction more generalizing s with
  | nil => exact Option.some.inj hs ▸ h
  | cons a more ih =>
    obtain ⟨t, ha, hs⟩ := steps_cons hs
    refine ih ?_ (fun b hb => hquiet b (List.mem_cons_of_mem a hb)) hs
    obtain ⟨⟨e, rfl⟩, hg, -⟩ | ⟨-, hmove⟩ | ⟨⟨status, rfl⟩, -⟩ := step_cases ha
    · rw [step, hg] at ha
      exact Option.some.inj ha ▸ h.event hg (hquiet _ List.mem_cons_self)
    · exact h.guiMove hmove
    · simp [step, captureStep, h.idle] at ha

end Filed

/-! ### Frames -/

/-- The actions of a frame that finds `queued` packets, when nothing else happens. -/
def frameOf (queued : ℕ) : List Action :=
  .event .processQueue :: List.replicate (2 * min queued maxPerFrame + 1) (.gui none)

def framesOf : ℕ → ℕ → List Action
  | 0, _ => []
  | frames + 1, queued => frameOf queued ++ framesOf frames (queued - maxPerFrame)

theorem steps_append {before after : List Action} {t : Desktop} (h : steps bpf s before = some t) :
    steps bpf s (before ++ after) = steps bpf t after := by
  induction before generalizing s with
  | nil => rw [Option.some.inj h]; rfl
  | cons a before ih =>
    obtain ⟨u, ha, hs⟩ := steps_cons h
    rw [List.cons_append, steps, ha]
    exact ih hs

/-- The window has been fed `n` packets from the queue. -/
def drained (n : ℕ) (s : Desktop) : Desktop :=
  { s with fed := s.fed ++ s.queue.queue.take n, queue := { s.queue with queue := s.queue.queue.drop n } }

theorem drained_zero (s : Desktop) : drained 0 s = s := by
  rw [drained, List.take_zero, List.append_nil]
  rfl

theorem drained_drained (m n : ℕ) (s : Desktop) : drained n (drained m s) = drained (m + n) s := by
  simp [drained, List.take_add]

theorem drained_nil (n : ℕ) (hq : s.queue.queue = []) : drained n s = s := by
  rw [drained, hq, List.take_nil, List.drop_nil, List.append_nil, ← hq]

theorem drained_cons {packet : PacketData} {rest : List PacketData} (n : ℕ) (hq : s.queue.queue = packet :: rest) :
    drained (n + 1) s = drained n { s with fed := s.fed ++ [packet], queue := { s.queue with queue := rest } } := by
  simp [drained, hq]

/-- The loop of `processQueue` when nothing else happens, with `n` turns left. -/
theorem processing_steps (n count : ℕ) (hg : s.gui = .processing count) (hn : count + n = maxPerFrame) :
    steps bpf s (List.replicate (2 * min s.queue.size n + 1) (.gui none)) =
      some { drained n s with gui := .frame } := by
  induction n generalizing s count with
  | zero =>
    rw [Nat.min_zero, drained_zero]
    simp [steps, step, guiStep, hg, ← hn]
  | succ n ih =>
    have hlt : count < maxPerFrame := by omega
    cases hq : s.queue.queue with
    | nil =>
      rw [drained_nil _ hq, PacketQueue.size, hq]
      simp [steps, step, guiStep, hg, hlt, PacketQueue.tryPop, hq]
    | cons packet rest =>
      have hsize : 2 * min s.queue.size (n + 1) + 1 = (2 * min rest.length n + 1) + 1 + 1 := by
        rw [PacketQueue.size, hq, List.length_cons]
        omega
      rw [drained_cons n hq, hsize, List.replicate_succ, List.replicate_succ]
      -- one step pops the packet, the next one feeds it
      have hpop : guiStep bpf none s =
          some { s with queue := { s.queue with queue := rest }, gui := .feeding count packet } := by
        simp [guiStep, hg, hlt, PacketQueue.tryPop, hq]
      rw [steps, step, hpop]
      exact ih (count + 1) rfl (by omega)

theorem frame_steps (hg : s.gui = .frame) (hp : s.capturePaused = false) :
    steps bpf s (frameOf s.queue.size) = some (drained maxPerFrame s) := by
  have hprocess : step bpf s (.event .processQueue) = some { s with gui := .processing 0 } := by
    simp [step, hg, guiEvent, hp]
  rw [frameOf, steps, hprocess]
  refine (processing_steps (s := { s with gui := .processing 0 }) maxPerFrame 0 rfl (by simp)).trans ?_
  rw [drained, drained, ← hg]

/-- **A frame feeds a thousand packets**: `frames` frames of an idle program feed the
packets at the front of the queue, in order. -/
theorem frames_drain (frames : ℕ) (hg : s.gui = .frame) (hp : s.capturePaused = false) :
    steps bpf s (framesOf frames s.queue.size) = some (drained (maxPerFrame * frames) s) := by
  induction frames generalizing s with
  | zero =>
    rw [Nat.mul_zero, drained_zero]
    rfl
  | succ frames ih =>
    have hsize : s.queue.size - maxPerFrame = (drained maxPerFrame s).queue.size := by
      rw [PacketQueue.size, drained, PacketQueue.size, List.length_drop]
    rw [framesOf, steps_append (frame_steps hg hp), hsize]
    refine (ih (s := drained maxPerFrame s) hg hp).trans ?_
    rw [drained_drained, Nat.mul_succ, Nat.add_comm]

/-! ### A file from its opening -/

theorem GuiMove.room (h : GuiMove bpf s s') : s'.queue.maxSize = s.queue.maxSize := by
  cases h with
  | push => exact push_maxSize _ _
  | _ => rfl

theorem CaptureMove.room (h : CaptureMove bpf s s') : s'.queue.maxSize = s.queue.maxSize := by
  cases h with
  | push => exact push_maxSize _ _
  | _ => rfl

theorem EventMove.room (h : EventMove bpf s s') : s'.queue.maxSize = s.queue.maxSize := by
  cases h <;> rfl

theorem reachable_room (h : Reachable bpf maxSize actions s) : s.queue.maxSize = max maxSize 1 := by
  induction h with
  | init => exact PacketQueue.make_maxSize maxSize
  | step _ hs ih =>
    obtain ⟨-, -, hmove⟩ | ⟨-, hmove⟩ | ⟨-, hmove⟩ := step_cases hs
    · exact hmove.room.trans ih
    · exact hmove.room.trans ih
    · exact hmove.room.trans ih

def packetsOf (contents : Contents) : List PacketData :=
  contents.records.map (nextPacket (linkTypeFromDlt contents.dlt))

theorem filed_opened {contents : Contents} (h : Reachable bpf maxSize actions s) (hg : s.gui = .opening .file)
    (hs : guiStep bpf (some contents) s = some s') : Filed (packetsOf contents) (max maxSize 1) s' := by
  have hrenewed := (reachable_carries h).renewed
  have hfed : s.fed = [] := hrenewed.view (hg ▸ trivial)
  have hqueue := hrenewed.queue _ (.inr hg)
  have hreads := hrenewed.session _ hg
  rw [guiStep, hg] at hs
  obtain rfl := Option.some.inj hs
  have hroom := reachable_room h
  refine ⟨(reachable_lifecycle h).idle hg id, hroom, fun _ => hfed, trivial, ?_, [], ?_, ?_⟩
  · rw [hreads]
    rfl
  · rw [hreads]
    rfl
  · simp [hfed, hqueue, inHand]

/-- The loop of `openFile` comes to its end. -/
theorem loading_steps {records : List Record} (hg : s.gui = .loading records) :
    ∃ t, steps bpf s (List.replicate (2 * records.length + 1) (.gui none)) = some t ∧ t.gui = .frame := by
  induction records generalizing s with
  | nil =>
    refine ⟨{ s with handle := {}, gui := .frame }, ?_, rfl⟩
    simp [steps, step, guiStep, hg]
  | cons record records ih =>
    have hread : guiStep bpf none s = some { s with
        reads := s.reads ++ [(s.handle.filter, nextPacket s.handle.linkType record)]
        sessionPackets := SessionExport.retainPacket s.sessionPackets (nextPacket s.handle.linkType record)
        gui := .loadingRetained (nextPacket s.handle.linkType record) records } := by
      rw [guiStep, hg]
    rw [List.length_cons, Nat.mul_succ, List.replicate_succ, List.replicate_succ, steps, step, hread]
    exact ih rfl

theorem filed_steps {contents : Contents} (h : Reachable bpf maxSize actions s) (hg : s.gui = .opening .file)
    (hquiet : ∀ a ∈ more, Quiet a) (hs : steps bpf s (.gui (some contents) :: more) = some s') :
    Filed (packetsOf contents) (max maxSize 1) s' := by
  obtain ⟨t, ht, hmore⟩ := steps_cons hs
  exact (filed_opened h hg ht).steps hquiet hmore

/-- What has become of a file once it has been read. -/
theorem file_loaded {contents : Contents} (h : Reachable bpf maxSize actions s) (hg : s.gui = .opening .file)
    (hquiet : ∀ a ∈ more, Quiet a) (hs : steps bpf s (.gui (some contents) :: more) = some s')
    (hload : ¬ Loads s'.gui) :
    s'.fed ++ inHand s'.gui ++ s'.queue.queue = (packetsOf contents).rtake (max maxSize 1) ∧
      s'.sessionPackets = (packetsOf contents).rtake maxSessionPackets := by
  have hfiled := filed_steps h hg hquiet hs
  obtain ⟨hunread, hfile⟩ := not_loads hload
  obtain ⟨queued, hqueued, hheld⟩ := hfiled.held
  obtain ⟨retained, hread, hsession⟩ := (reachable_carries (h.steps hs)).retained
  have hall := hfiled.read
  rw [hunread, List.append_nil] at hall
  rw [hfile, List.append_nil] at hqueued
  rw [hfiled.idle] at hread
  have hretained : s'.reads.map (·.2) = retained := hread.trans (List.append_nil _)
  exact ⟨hheld.trans (by rw [hall, hqueued]), hsession.trans (by rw [hall, hretained])⟩

/-- In a frame nothing is in hand. -/
theorem frame_loaded (hframe : s.gui = .frame) : inHand s.gui = [] ∧ ¬ Loads s.gui := by
  rw [hframe]
  exact ⟨rfl, id⟩

/-- **A file is fed as far as the queue holds it**: whatever the user does but
clear the view, drop the backlog of a pause or open another source, nothing is
fed before the file has been read, and from then on the packets fed and those
queued are the last of the file that the queue has room for, in order, and the
end of the file can be exported. Frames without a pause feed them all. -/
theorem file_fed {contents : Contents} (h : Reachable bpf maxSize actions s) (hg : s.gui = .opening .file)
    (hquiet : ∀ a ∈ more, Quiet a) (hs : steps bpf s (.gui (some contents) :: more) = some s') :
    (∀ records, s'.gui = .loading records →
      ∃ t, steps bpf s' (List.replicate (2 * records.length + 1) (.gui none)) = some t ∧ t.gui = .frame) ∧
    (Loads s'.gui → s'.fed = []) ∧
    (¬ Loads s'.gui →
      s'.fed ++ inHand s'.gui ++ s'.queue.queue = (packetsOf contents).rtake (max maxSize 1) ∧
      s'.sessionPackets = (packetsOf contents).rtake maxSessionPackets) ∧
    (s'.gui = .frame → s'.capturePaused = false → ∀ frames, s'.queue.size ≤ maxPerFrame * frames →
      ∃ t, steps bpf s' (framesOf frames s'.queue.size) = some t ∧
        t.fed = (packetsOf contents).rtake (max maxSize 1)) := by
  refine ⟨fun records hload => loading_steps hload, (filed_steps h hg hquiet hs).fresh, file_loaded h hg hquiet hs,
    fun hframe hp frames hframes => ?_⟩
  obtain ⟨hhand, hload⟩ := frame_loaded hframe
  have hheld := (file_loaded h hg hquiet hs hload).1
  rw [hhand, List.append_nil] at hheld
  refine ⟨_, frames_drain frames hframe hp, ?_⟩
  rw [drained, List.take_of_length_le hframes, hheld]

theorem file_fed_three : ∃ s t, steps lengthBpf (init 2)
    (chosenRun ++ .gui (some threePackets) :: List.replicate 7 (.gui none)) = some s ∧
    steps lengthBpf s (framesOf 1 s.queue.size) = some t ∧ t.fed = (packetsOf threePackets).rtake 2 := by
  have hrun : ∃ r s, steps lengthBpf (init 2) chosenRun = some r ∧ r.gui = .opening .file ∧
      steps lengthBpf r (.gui (some threePackets) :: List.replicate 7 (.gui none)) = some s ∧ s.gui = .frame ∧
      s.capturePaused = false ∧ s.queue.size = 2 := ⟨_, _, rfl, rfl, rfl, rfl, rfl, rfl⟩
  obtain ⟨r, s, hr, hg, hs, hframe, hp, hsize⟩ := hrun
  have hquiet : ∀ a ∈ List.replicate 7 (Action.gui none), Quiet a := by
    intro a ha
    rw [List.eq_of_mem_replicate ha]
    trivial
  obtain ⟨t, ht, hfed⟩ := (file_fed (Reachable.init.steps hr) hg hquiet hs).2.2.2 hframe hp 1 (by rw [hsize]; decide)
  exact ⟨s, t, (steps_append hr).trans hs, ht, hfed⟩

end DesktopCapture
end NetProbe
