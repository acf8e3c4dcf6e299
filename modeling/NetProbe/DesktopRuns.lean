/-
# Runs of the desktop program

Whatever the order of the steps of the two threads and whatever the user does,
the capture thread runs only while its handle is open and the GUI thread is not
at changing it, and a GUI thread that waits for it does not wait in vain
(`thread_joined`). What the window has been fed, what is queued for it and what
is retained for export are packets of the source opened last (`desktop_isolated`).

Key definitions: `GuiMove`, `CaptureMove`, `Lifecycle`, `Carries`.
Key theorems: `thread_joined`, `desktop_isolated`.
-/
import NetProbe.DesktopCapture
import NetProbe.ViewRuns

namespace NetProbe

open SessionExport (Contents Record linkTypeFromDlt nextPacket retainPacket maxSessionPackets)

namespace DesktopCapture

variable {bpf : Bpf PacketData} {maxSize : ℕ} {s s' : Desktop} {actions : List Action}

/-! ### What a thread can do -/

/-- What the GUI thread does in a step. -/
inductive GuiMove (bpf : Bpf PacketData) (s : Desktop) : Desktop → Prop
  | pop {count : ℕ} {packet : PacketData} {queue : List PacketData} (hg : s.gui = .processing count)
      (hpop : s.queue.queue = packet :: queue) :
    GuiMove bpf s { s with queue := { s.queue with queue }, gui := .feeding count packet }
  | leave {count : ℕ} (hg : s.gui = .processing count) : GuiMove bpf s { s with gui := .frame }
  | feed {count : ℕ} {packet : PacketData} (hg : s.gui = .feeding count packet) :
    GuiMove bpf s { s with fed := s.fed ++ [packet], gui := .processing (count + 1) }
  | resume (hg : s.gui = .resuming none) :
    GuiMove bpf s { s with capturePaused := false, queue := s.queue.clear, gui := .frame }
  | unpause {source : Source} (hg : s.gui = .resuming (some source)) :
    GuiMove bpf s { s with capturePaused := false, queue := s.queue.clear, gui := .stopping (some source) }
  | stopped {next : Option Source} (hg : s.gui = .stopping next) (ht : s.captureThread = .idle) :
    GuiMove bpf s { s with gui := .closing next }
  | stop {next : Option Source} (hg : s.gui = .stopping next) (ht : s.captureThread ≠ .idle) :
    GuiMove bpf s { s with stopRequested := true, gui := .joining next }
  | join {next : Option Source} (hg : s.gui = .joining next) (ht : s.captureThread = .returned) :
    GuiMove bpf s { s with captureThread := .idle, gui := .closing next }
  | close (hg : s.gui = .closing none) : GuiMove bpf s { s with handle := {}, gui := .frame }
  | closeFor {source : Source} (hg : s.gui = .closing (some source)) :
    GuiMove bpf s { s with handle := {}, gui := .emptying source }
  | empty {source : Source} (hg : s.gui = .emptying source) :
    GuiMove bpf s { s with queue := s.queue.clear, gui := .forgetting source }
  | forget {source : Source} (hg : s.gui = .forgetting source) :
    GuiMove bpf s { s with sessionPackets := [], reads := [], gui := .opening source }
  | fail {source : Source} (hg : s.gui = .opening source) : GuiMove bpf s { s with handle := {}, gui := .frame }
  | start (link : LinkType) {filter : Option String} (hg : s.gui = .opening .device)
      (hf : filter = some s.activeFilter ∨ filter = none ∧ s.activeFilter = "") : GuiMove bpf s { s with
        handle := { isOpen := true, filter, linkType := link }
        sessionLinkType := link, stopRequested := false, captureThread := .check, gui := .frame }
  | openFile (link : LinkType) (records : List Record) (hg : s.gui = .opening .file) : GuiMove bpf s { s with
      handle := { isOpen := true, linkType := link }, sessionLinkType := link, gui := .loading records }
  | loaded (hg : s.gui = .loading []) : GuiMove bpf s { s with handle := {}, gui := .frame }
  | read {record : Record} {records : List Record} (hg : s.gui = .loading (record :: records)) : GuiMove bpf s { s with
      reads := s.reads ++ [(s.handle.filter, nextPacket s.handle.linkType record)]
      sessionPackets := retainPacket s.sessionPackets (nextPacket s.handle.linkType record)
      gui := .loadingRetained (nextPacket s.handle.linkType record) records }
  | push {packet : PacketData} {records : List Record} (hg : s.gui = .loadingRetained packet records) :
    GuiMove bpf s { s with queue := s.queue.push packet, gui := .loading records }

theorem tryPop_cons {q queue : PacketQueue PacketData} {packet : PacketData} (h : q.tryPop = (some packet, queue)) :
    ∃ rest, q.queue = packet :: rest ∧ queue = { q with queue := rest } := by
  unfold PacketQueue.tryPop at h
  split at h
  · cases h
  · rename_i hq
    cases h
    exact ⟨_, hq, rfl⟩

theorem guiStep_move {opened : Option Contents} (hs : guiStep bpf opened s = some s') : GuiMove bpf s s' := by
  unfold guiStep at hs
  split at hs
  case h_1 => cases hs
  case h_2 count hg =>
    split_ifs at hs
    · split at hs
      · exact Option.some.inj hs ▸ .leave hg
      · rename_i hpop
        obtain ⟨rest, hq, rfl⟩ := tryPop_cons hpop
        exact Option.some.inj hs ▸ .pop hg hq
    · exact Option.some.inj hs ▸ .leave hg
  case h_3 hg => exact Option.some.inj hs ▸ .feed hg
  case h_4 next hg =>
    cases next with
    | none => exact Option.some.inj hs ▸ .resume hg
    | some source => exact Option.some.inj hs ▸ .unpause hg
  case h_5 next hg =>
    split at hs
    · rename_i ht
      exact Option.some.inj hs ▸ .stopped hg ht
    · rename_i ht
      exact Option.some.inj hs ▸ .stop hg ht
  case h_6 next hg =>
    split at hs
    · rename_i ht
      exact Option.some.inj hs ▸ .join hg ht
    · cases hs
  case h_7 next hg =>
    cases next with
    | none => exact Option.some.inj hs ▸ .close hg
    | some source => exact Option.some.inj hs ▸ .closeFor hg
  case h_8 hg => exact Option.some.inj hs ▸ .empty hg
  case h_9 hg => exact Option.some.inj hs ▸ .forget hg
  case h_10 source hg =>
    split at hs
    · exact Option.some.inj hs ▸ .fail hg
    · rename_i contents
      unfold startThread at hs
      dsimp only at hs
      split_ifs at hs with hempty hcompiles
      · exact Option.some.inj hs ▸ .start _ hg (.inr ⟨rfl, hempty⟩)
      · exact Option.some.inj hs ▸ .start _ hg (.inl rfl)
      · exact Option.some.inj hs ▸ .fail hg
    · exact Option.some.inj hs ▸ .openFile _ _ hg
  case h_11 hg => exact Option.some.inj hs ▸ .loaded hg
  case h_12 record records hg => exact Option.some.inj hs ▸ .read hg
  case h_13 packet records hg => exact Option.some.inj hs ▸ .push hg

/-- What the capture thread does in a step. -/
inductive CaptureMove (bpf : Bpf PacketData) (s : Desktop) : Desktop → Prop
  | check (ht : s.captureThread = .check) :
    CaptureMove bpf s { s with captureThread := if s.stopRequested then .returned else .reading }
  | timeout (ht : s.captureThread = .reading) : CaptureMove bpf s { s with captureThread := .check }
  | finish (ht : s.captureThread = .reading) : CaptureMove bpf s { s with captureThread := .returned }
  | read {record : Record} (ht : s.captureThread = .reading)
      (hpass : handsOut bpf s.handle (nextPacket s.handle.linkType record) = true) : CaptureMove bpf s { s with
        captureThread := .retaining (nextPacket s.handle.linkType record)
        reads := s.reads ++ [(s.handle.filter, nextPacket s.handle.linkType record)] }
  | retain {packet : PacketData} (ht : s.captureThread = .retaining packet) : CaptureMove bpf s { s with
      sessionPackets := retainPacket s.sessionPackets packet, captureThread := .pushing packet }
  | push {packet : PacketData} (ht : s.captureThread = .pushing packet) :
    CaptureMove bpf s { s with queue := s.queue.push packet, captureThread := .check }

theorem captureStep_move {status : PacketReadStatus Record} (hs : captureStep bpf status s = some s') :
    CaptureMove bpf s s' := by
  unfold captureStep at hs
  split at hs
  case h_1 => cases hs
  case h_2 ht => exact Option.some.inj hs ▸ .check ht
  case h_3 ht =>
    cases status with
    | packet record =>
      dsimp only at hs
      split_ifs at hs with hpass
      exact Option.some.inj hs ▸ .read ht hpass.2
    | timeout => exact Option.some.inj hs ▸ .timeout ht
    | endOfFile | error => exact Option.some.inj hs ▸ .finish ht
  case h_4 ht => exact Option.some.inj hs ▸ .retain ht
  case h_5 ht => exact Option.some.inj hs ▸ .push ht
  case h_6 => cases hs

/-- What an event does. -/
inductive EventMove (bpf : Bpf PacketData) (s : Desktop) : Desktop → Prop
  | stay : EventMove bpf s s
  | process : EventMove bpf s { s with gui := .processing 0 }
  | pause : EventMove bpf s { s with capturePaused := true }
  | resume : EventMove bpf s { s with gui := .resuming none }
  | clear : EventMove bpf s { s with fed := [] }
  | unpauseFor (source : Source) : EventMove bpf s { s with fed := [], gui := .resuming (some source) }
  | openSource (source : Source) : EventMove bpf s { s with fed := [], gui := .stopping (some source) }
  | stop : EventMove bpf s { s with gui := .stopping none }
  | setFilter (filter : String) (ht : s.captureThread ≠ .idle) : EventMove bpf s
      { s with handle := { s.handle with filter := some filter }, activeFilter := filter }

theorem guiEvent_move (s : Desktop) (e : GuiEvent) : EventMove bpf s (guiEvent bpf s e) := by
  cases e with
  | processQueue =>
    rw [guiEvent]
    split
    · exact .stay
    · exact .process
  | setPaused paused =>
    rw [guiEvent]
    split_ifs
    · exact .stay
    · exact .pause
    · exact .resume
  | clearCaptureView => exact .clear
  | openSource source =>
    by_cases hp : s.capturePaused = true
    · simpa only [guiEvent, if_pos hp] using EventMove.unpauseFor source
    · simpa only [guiEvent, if_neg hp] using EventMove.openSource source
  | stop => exact .stop
  | setFilter filter =>
    unfold guiEvent
    dsimp only
    split
    · exact .stay
    · rename_i ht
      split_ifs
      · exact .setFilter filter ht
      · exact .stay

/-- A step is one of an event, of the GUI thread or of the capture thread. -/
theorem step_cases {a : Action} (hs : step bpf s a = some s') :
    (∃ e, a = .event e) ∧ s.gui = .frame ∧ EventMove bpf s s' ∨ (∃ opened, a = .gui opened) ∧ GuiMove bpf s s' ∨
      (∃ status, a = .capture status) ∧ CaptureMove bpf s s' := by
  cases a with
  | event e =>
    refine .inl ⟨⟨e, rfl⟩, ?_⟩
    unfold step at hs
    dsimp only at hs
    split at hs
    · rename_i hg
      exact ⟨hg, Option.some.inj hs ▸ guiEvent_move s e⟩
    · cases hs
  | gui opened => exact .inr (.inl ⟨⟨opened, rfl⟩, guiStep_move hs⟩)
  | capture status => exact .inr (.inr ⟨⟨status, rfl⟩, captureStep_move hs⟩)

/-! ### The capture thread and the handle -/

/-- The capture thread may be there while the GUI thread is here. -/
def Shares : GuiPc → Prop
  | .frame | .processing _ | .feeding _ _ | .resuming _ | .stopping _ | .joining _ => True
  | _ => False

def Loads : GuiPc → Prop
  | .loading _ | .loadingRetained _ _ => True
  | _ => False

structure Lifecycle (s : Desktop) : Prop where
  thread : s.captureThread ≠ .idle → s.handle.isOpen = true ∧ Shares s.gui
  joining : ∀ next, s.gui = .joining next → s.captureThread ≠ .idle ∧ s.stopRequested = true
  link : s.captureThread ≠ .idle ∨ Loads s.gui → s.handle.linkType = s.sessionLinkType
  filter : s.captureThread ≠ .idle →
    s.handle.filter = some s.activeFilter ∨ s.handle.filter = none ∧ s.activeFilter = ""
  file : Loads s.gui → s.handle.filter = none

/-- The capture thread is not there while the GUI thread is elsewhere. -/
theorem Lifecycle.idle (h : Lifecycle s) {pc : GuiPc} (hg : s.gui = pc) (hpc : ¬ Shares pc) :
    s.captureThread = .idle := by
  by_contra ht
  exact hpc (hg ▸ (h.thread ht).2)

theorem lifecycle_init (maxSize : ℕ) : Lifecycle (init maxSize) where
  thread ht := absurd rfl ht
  joining _ hg := by cases hg
  link hl := hl.elim (absurd rfl) False.elim
  filter ht := absurd rfl ht
  file hl := hl.elim

/-- The GUI thread goes on where the capture thread may be there, or goes on without it. -/
theorem Lifecycle.goto (h : Lifecycle s) (hs : Shares s'.gui ∨ s.captureThread = .idle) (hl : ¬ Loads s'.gui)
    (hj : ∀ next, s'.gui ≠ .joining next) (hhandle : s'.handle = s.handle)
    (hthread : s'.captureThread = s.captureThread)
    (hlink : s'.sessionLinkType = s.sessionLinkType) (hfilter : s'.activeFilter = s.activeFilter) : Lifecycle s' := by
  refine ⟨fun ht => ?_, fun next hg => absurd hg (hj next), fun hor => ?_, fun ht => ?_, fun hload => absurd hload hl⟩
  · rw [hthread] at ht
    rw [hhandle]
    exact ⟨(h.thread ht).1, hs.resolve_right ht⟩
  · rw [hthread] at hor
    rw [hhandle, hlink]
    exact h.link (.inl (hor.resolve_right hl))
  · rw [hthread] at ht
    rw [hhandle, hfilter]
    exact h.filter ht

/-- Nothing is running and the handle is closed. -/
theorem lifecycle_closed (hthread : s.captureThread = .idle) (hl : ¬ Loads s.gui)
    (hj : ∀ next, s.gui ≠ .joining next) : Lifecycle s where
  thread ht := absurd hthread ht
  joining next hg := absurd hg (hj next)
  link hor := hor.elim (absurd hthread) fun hload => absurd hload hl
  filter ht := absurd hthread ht
  file hload := absurd hload hl

theorem Lifecycle.guiMove (h : Lifecycle s) (hs : GuiMove bpf s s') : Lifecycle s' := by
  cases hs with
  | pop hg | leave hg | feed hg | resume hg | unpause hg => exact h.goto (.inl trivial) id nofun rfl rfl rfl rfl
  | stopped hg ht => exact h.goto (.inr ht) id nofun rfl rfl rfl rfl
  | stop hg ht =>
    exact ⟨fun ht' => ⟨(h.thread ht').1, trivial⟩, fun _ _ => ⟨ht, rfl⟩, fun _ => h.link (.inl ht), h.filter,
      fun hload => hload.elim⟩
  | join hg ht => exact lifecycle_closed rfl id nofun
  | close hg | closeFor hg | fail hg | loaded hg => exact lifecycle_closed (h.idle hg id) id nofun
  | empty hg | forget hg => exact h.goto (.inr (h.idle hg id)) id nofun rfl rfl rfl rfl
  | start link hg hf => exact ⟨fun _ => ⟨rfl, trivial⟩, nofun, fun _ => rfl, fun _ => hf, fun hload => hload.elim⟩
  | openFile link records hg =>
    have ht := h.idle hg id
    exact ⟨fun ht' => absurd ht ht', nofun, fun _ => rfl, fun ht' => absurd ht ht', fun _ => rfl⟩
  | read hg | push hg =>
    have ht := h.idle hg id
    have hload : Loads s.gui := hg ▸ trivial
    exact ⟨fun ht' => absurd ht ht', nofun, fun _ => h.link (.inr hload), fun ht' => absurd ht ht',
      fun _ => h.file hload⟩

/-- The capture thread stays there. -/
theorem Lifecycle.captureMove (h : Lifecycle s) (hs : CaptureMove bpf s s') : Lifecycle s' := by
  have hkeep : ∀ {t : Desktop}, s.captureThread ≠ .idle → t.captureThread ≠ .idle → t.handle = s.handle →
    t.gui = s.gui →
      t.stopRequested = s.stopRequested → t.sessionLinkType = s.sessionLinkType → t.activeFilter = s.activeFilter →
      Lifecycle t := by
    intro t ht ht' hhandle hgui hstop hlink hfilter
    refine ⟨fun _ => ?_, fun next hg => ⟨ht', ?_⟩, fun _ => ?_, fun _ => ?_, fun hload => ?_⟩
    · rw [hhandle, hgui]
      exact h.thread ht
    · rw [hstop]
      exact (h.joining next (hgui ▸ hg)).2
    · rw [hhandle, hlink]
      exact h.link (.inl ht)
    · rw [hhandle, hfilter]
      exact h.filter ht
    · rw [hhandle]
      exact h.file (hgui ▸ hload)
  cases hs with
  | check ht =>
    refine hkeep (by rw [ht]; nofun) ?_ rfl rfl rfl rfl rfl
    dsimp only
    split <;> nofun
  | timeout ht | finish ht | read ht hpass | retain ht | push ht =>
    exact hkeep (by rw [ht]; nofun) nofun rfl rfl rfl rfl rfl

theorem Lifecycle.eventMove (h : Lifecycle s) (hg : s.gui = .frame) (hs : EventMove bpf s s') : Lifecycle s' := by
  cases hs with
  | stay => exact h
  | pause | clear => exact ⟨h.thread, h.joining, h.link, h.filter, h.file⟩
  | process | resume | unpauseFor | openSource | stop => exact h.goto (.inl trivial) id nofun rfl rfl rfl rfl
  | setFilter filter ht =>
    exact ⟨h.thread, h.joining, h.link, fun _ => .inl rfl, fun hload => by rw [hg] at hload; exact hload.elim⟩

theorem Lifecycle.step {a : Action} (h : Lifecycle s) (hs : step bpf s a = some s') : Lifecycle s' := by
  obtain ⟨-, hg, hmove⟩ | ⟨-, hmove⟩ | ⟨-, hmove⟩ := step_cases hs
  · exact h.eventMove hg hmove
  · exact h.guiMove hmove
  · exact h.captureMove hmove

theorem reachable_lifecycle (h : Reachable bpf maxSize actions s) : Lifecycle s := by
  induction h with
  | init => exact lifecycle_init maxSize
  | step _ hs ih => exact ih.step hs

/-! ### Where the packets are -/

/-- What the GUI thread has popped and not fed. -/
def inHand : GuiPc → List PacketData
  | .feeding _ packet => [packet]
  | _ => []

/-- What the capture thread has read and not queued. -/
def inFlight : CapturePc → List PacketData
  | .retaining packet => [packet]
  | .pushing packet => [packet]
  | _ => []

def unretained : CapturePc → List PacketData
  | .retaining packet => [packet]
  | _ => []

/-- What the GUI thread has read from a file and not queued. -/
def fromFile : GuiPc → List PacketData
  | .loadingRetained packet _ => [packet]
  | _ => []

/-- The GUI thread is about to open a source, or is reading a file. -/
def Renews : GuiPc → Prop
  | .resuming next | .stopping next | .joining next | .closing next => next ≠ none
  | .emptying _ | .forgetting _ | .opening _ | .loading _ | .loadingRetained _ _ => True
  | _ => False

def Prepares : GuiPc → Prop
  | .forgetting _ | .opening _ => True
  | _ => False

/-- For a source the view is cleared, then the queue, then the session. -/
structure Renewed (s : Desktop) : Prop where
  view : Renews s.gui → s.fed = []
  queue : ∀ source, s.gui = .forgetting source ∨ s.gui = .opening source → s.queue.queue = []
  session : ∀ source, s.gui = .opening source → s.reads = []

/-- Elsewhere only the view has been cleared. -/
theorem renewed_of (h : ¬ Prepares s.gui) (hview : Renews s.gui → s.fed = []) : Renewed s where
  view := hview
  queue _ hg := (h (by rcases hg with hg | hg <;> rw [hg] <;> trivial)).elim
  session _ hg := (h (by rw [hg]; trivial)).elim

/-- The packets on their way from the source to the window, those that are there first. -/
def carried (s : Desktop) : List PacketData :=
  s.fed ++ inHand s.gui ++ s.queue.queue ++ inFlight s.captureThread ++ fromFile s.gui

/-- The packet is one of the source that is open, and passes the filter it was read under. -/
def Sourced (bpf : Bpf PacketData) (s : Desktop) (r : Option String × PacketData) : Prop :=
  r.2.linkType = s.sessionLinkType ∧ ∀ f, r.1 = some f → bpf.passes f r.2 = true

/-- What is on its way and what is retained is of the source opened last. -/
structure Carries (bpf : Bpf PacketData) (s : Desktop) : Prop where
  flow : (carried s).Sublist (s.reads.map (·.2))
  retained : ∃ retained, s.reads.map (·.2) = retained ++ unretained s.captureThread ∧
    s.sessionPackets = retained.rtake maxSessionPackets
  sourced : ∀ r ∈ s.reads, Sourced bpf s r
  renewed : Renewed s

/-- The queue is that of the last `maxSize` packets. -/
theorem push_queue (q : PacketQueue PacketData) (packet : PacketData) :
    (q.push packet).queue = Window.keep q.maxSize q.queue packet := by
  unfold PacketQueue.push Window.keep PacketQueue.size
  split <;> rfl

theorem push_sublist (q : PacketQueue PacketData) (packet : PacketData) :
    (q.push packet).queue.Sublist (q.queue ++ [packet]) := by
  rw [push_queue, Window.keep]
  split
  · exact (List.tail_sublist _).append_right _
  · exact .refl _

theorem retainPacket_rtake (packets : List PacketData) (packet : PacketData) :
    retainPacket (packets.rtake maxSessionPackets) packet = (packets ++ [packet]).rtake maxSessionPackets :=
  Window.keep_rtake (by decide) packets packet

theorem carries_init (maxSize : ℕ) : Carries bpf (init maxSize) where
  flow := by
    have hqueue : carried (init maxSize) = [] := by
      simp [carried, init, inHand, inFlight, fromFile, PacketQueue.make_queue]
    rw [hqueue]
    exact .refl _
  retained := ⟨[], rfl, rfl⟩
  sourced := List.forall_mem_nil _
  renewed := renewed_of id False.elim

/-- Nothing is read, and what is on its way goes on or is dropped. -/
theorem Carries.goto (h : Carries bpf s) (hcarried : (carried s').Sublist (carried s)) (hreads : s'.reads = s.reads)
    (hsession : s'.sessionPackets = s.sessionPackets) (hlink : s'.sessionLinkType = s.sessionLinkType)
    (hthread : unretained s'.captureThread = unretained s.captureThread) (hrenewed : Renewed s') : Carries bpf s' where
  flow := by
    rw [hreads]
    exact hcarried.trans h.flow
  retained := by
    rw [hreads, hsession, hthread]
    exact h.retained
  sourced r hr := by
    rw [Sourced, hlink]
    exact h.sourced r (hreads ▸ hr)
  renewed := hrenewed

/-- What is on its way, wherever the GUI thread is. -/
theorem carried_at {pc : GuiPc} (hg : s.gui = pc) : carried s = carried { s with gui := pc } := by
  rw [carried, hg]
  rfl

theorem Shares.fromFile {pc : GuiPc} (h : Shares pc) : fromFile pc = [] := by
  cases pc with
  | loadingRetained => exact h.elim
  | _ => rfl

theorem Shares.not_prepares {pc : GuiPc} (h : Shares pc) : ¬ Prepares pc := by
  cases pc with
  | forgetting | opening => exact h.elim
  | _ => exact id

theorem Carries.fed_at (h : Carries bpf s) {pc : GuiPc} (hg : s.gui = pc) (hpc : Renews pc) : s.fed = [] :=
  h.renewed.view (hg ▸ hpc)

theorem Carries.guiMove (h : Carries bpf s) (hlife : Lifecycle s) (hs : GuiMove bpf s s') : Carries bpf s' := by
  cases hs with
  | pop hg hpop =>
    refine h.goto ?_ rfl rfl rfl rfl (renewed_of id False.elim)
    rw [carried_at hg]
    simp [carried, inHand, fromFile, hpop]
  | leave hg =>
    refine h.goto ?_ rfl rfl rfl rfl (renewed_of id False.elim)
    rw [carried_at hg]
    exact .refl _
  | feed hg =>
    refine h.goto ?_ rfl rfl rfl rfl (renewed_of id False.elim)
    rw [carried_at hg]
    simp [carried, inHand, fromFile]
  | resume hg =>
    refine h.goto ?_ rfl rfl rfl rfl (renewed_of id False.elim)
    rw [carried_at hg]
    simp [carried, inHand, fromFile, PacketQueue.clear]
  | unpause hg =>
    refine h.goto ?_ rfl rfl rfl rfl (renewed_of id fun _ => h.fed_at hg (Option.some_ne_none _))
    rw [carried_at hg]
    simp [carried, inHand, fromFile, PacketQueue.clear]
  | @stopped next hg ht | @stop next hg ht =>
    refine h.goto ?_ rfl rfl rfl rfl (renewed_of id fun hnext => h.fed_at hg hnext)
    rw [carried_at hg]
    exact .refl _
  | @join next hg ht =>
    refine h.goto ?_ rfl rfl rfl (by rw [ht]; rfl) (renewed_of id fun hnext => h.fed_at hg hnext)
    rw [carried_at hg, carried, carried]
    dsimp only
    rw [ht]
    exact .refl _
  | close hg | loaded hg | fail hg =>
    refine h.goto ?_ rfl rfl rfl rfl (renewed_of id False.elim)
    rw [carried_at hg]
    exact .refl _
  | closeFor hg =>
    refine h.goto ?_ rfl rfl rfl rfl (renewed_of id fun _ => h.fed_at hg (Option.some_ne_none _))
    rw [carried_at hg]
    exact .refl _
  | empty hg =>
    refine h.goto ?_ rfl rfl rfl rfl ⟨fun _ => h.fed_at hg trivial, fun _ _ => rfl, fun _ hg => by cases hg⟩
    rw [carried_at hg]
    simp [carried, inHand, fromFile, PacketQueue.clear]
  | @forget source hg =>
    have hfed : s.fed = [] := h.fed_at hg trivial
    have hqueue := h.renewed.queue source (.inl hg)
    have ht := hlife.idle hg id
    refine ⟨?_, ⟨[], ?_, rfl⟩, List.forall_mem_nil _, ⟨fun _ => hfed, fun _ _ => hqueue, fun _ _ => rfl⟩⟩
    · simp [carried, hfed, hqueue, ht, inHand, inFlight, fromFile]
    · dsimp only
      rw [ht]
      rfl
  | start link hg hf =>
    have hfed : s.fed = [] := h.fed_at hg trivial
    have hqueue := h.renewed.queue _ (.inr hg)
    have ht := hlife.idle hg id
    obtain ⟨retained, hread, hsession⟩ := h.retained
    rw [ht] at hread
    refine ⟨?_, ⟨retained, hread, hsession⟩, ?_, renewed_of id False.elim⟩
    · simp [carried, hfed, hqueue, inHand, inFlight, fromFile]
    · dsimp only
      rw [h.renewed.session _ hg]
      exact List.forall_mem_nil _
  | openFile link records hg =>
    have hfed : s.fed = [] := h.fed_at hg trivial
    have hqueue := h.renewed.queue _ (.inr hg)
    refine ⟨?_, h.retained, ?_, renewed_of id fun _ => hfed⟩
    · simp [carried, hfed, hqueue, hlife.idle hg id, inHand, inFlight, fromFile]
    · dsimp only
      rw [h.renewed.session _ hg]
      exact List.forall_mem_nil _
  | @read record records hg =>
    have ht := hlife.idle hg id
    have hload : Loads s.gui := hg ▸ trivial
    obtain ⟨retained, hread, hsession⟩ := h.retained
    rw [ht] at hread
    refine ⟨?_, ⟨s.reads.map (·.2) ++ [nextPacket s.handle.linkType record], ?_, ?_⟩, fun r hr => ?_,
      renewed_of id fun _ => h.fed_at hg trivial⟩
    · have hflow := h.flow
      rw [carried_at hg] at hflow
      simpa [carried, inHand, fromFile, ht, inFlight] using hflow.append_right [nextPacket s.handle.linkType record]
    · dsimp only
      rw [ht, List.map_append]
      exact (List.append_nil _).symm
    · dsimp only
      rw [hsession, retainPacket_rtake, hread]
      simp [unretained]
    · rcases List.mem_append.mp hr with hr | hr
      · exact h.sourced r hr
      · obtain rfl := List.mem_singleton.mp hr
        refine ⟨hlife.link (.inr hload), fun f hf => ?_⟩
        rw [hlife.file hload] at hf
        cases hf
  | @push packet records hg =>
    refine h.goto ?_ rfl rfl rfl rfl (renewed_of id fun _ => h.fed_at hg trivial)
    have ht := hlife.idle hg id
    have hpush := (push_sublist s.queue packet).append_left (s.fed ++ [])
    rw [carried_at hg]
    simpa [carried, inHand, fromFile, ht, inFlight] using hpush

theorem Carries.captureMove (h : Carries bpf s) (hlife : Lifecycle s) (hs : CaptureMove bpf s s') : Carries bpf s' := by
  have hshares : s.captureThread ≠ .idle → Shares s.gui := fun ht => (hlife.thread ht).2
  have hrenewed : s.captureThread ≠ .idle → ∀ {t : Desktop}, t.gui = s.gui → t.fed = s.fed → Renewed t := by
    intro ht t hgui hfed
    refine renewed_of ?_ fun hnext => hfed.trans (h.renewed.view (hgui ▸ hnext))
    rw [hgui]
    exact (hshares ht).not_prepares
  cases hs with
  | check ht =>
    refine h.goto ?_ rfl rfl rfl ?_ (hrenewed (by rw [ht]; nofun) rfl rfl)
    · rw [carried, carried, ht]
      dsimp only
      split <;> exact .refl _
    · rw [ht]
      dsimp only
      split <;> rfl
  | timeout ht | finish ht =>
    refine h.goto ?_ rfl rfl rfl (by rw [ht]; rfl) (hrenewed (by rw [ht]; nofun) rfl rfl)
    rw [carried, carried, ht]
    exact .refl _
  | @read record ht hpass =>
    have hrunning : s.captureThread ≠ .idle := by rw [ht]; nofun
    obtain ⟨retained, hread, hsession⟩ := h.retained
    refine ⟨?_, ⟨retained, ?_, hsession⟩, fun r hr => ?_, hrenewed hrunning rfl rfl⟩
    · have hflow := h.flow
      rw [carried, ht, (hshares hrunning).fromFile] at hflow
      rw [carried, (hshares hrunning).fromFile, List.map_append]
      simpa [inFlight] using hflow.append_right [nextPacket s.handle.linkType record]
    · rw [ht] at hread
      dsimp only
      rw [List.map_append, hread]
      simp [unretained]
    · rcases List.mem_append.mp hr with hr | hr
      · exact h.sourced r hr
      · obtain rfl := List.mem_singleton.mp hr
        refine ⟨hlife.link (.inl hrunning), fun f hf => ?_⟩
        dsimp only at hf
        rw [handsOut, hf] at hpass
        exact hpass
  | @retain packet ht =>
    obtain ⟨retained, hread, hsession⟩ := h.retained
    rw [ht] at hread
    refine ⟨?_, ⟨s.reads.map (·.2), ?_, ?_⟩, h.sourced, hrenewed (by rw [ht]; nofun) rfl rfl⟩
    · have hflow := h.flow
      rw [carried, ht] at hflow
      exact hflow
    · exact (List.append_nil _).symm
    · dsimp only
      rw [hsession, retainPacket_rtake, hread]
      rfl
  | @push packet ht =>
    have hrunning : s.captureThread ≠ .idle := by rw [ht]; nofun
    refine h.goto ?_ rfl rfl rfl (by rw [ht]; rfl) (hrenewed hrunning rfl rfl)
    rw [carried, carried, ht, (hshares hrunning).fromFile]
    simpa [inFlight] using (push_sublist s.queue packet).append_left (s.fed ++ inHand s.gui)

theorem Carries.eventMove (h : Carries bpf s) (hg : s.gui = .frame) (hs : EventMove bpf s s') : Carries bpf s' := by
  cases hs with
  | stay => exact h
  | process =>
    refine h.goto ?_ rfl rfl rfl rfl (renewed_of id False.elim)
    rw [carried_at hg]
    exact .refl _
  | resume | stop =>
    refine h.goto ?_ rfl rfl rfl rfl (renewed_of id fun hnext => (hnext rfl).elim)
    rw [carried_at hg]
    exact .refl _
  | pause | setFilter =>
    refine h.goto ?_ rfl rfl rfl rfl (renewed_of (by rw [hg]; exact id) fun hnext => ?_)
    · exact .refl _
    · rw [hg] at hnext
      exact hnext.elim
  | clear | unpauseFor | openSource =>
    refine h.goto ?_ rfl rfl rfl rfl (renewed_of (by first | exact id | rw [hg]; exact id) fun _ => rfl)
    rw [carried_at hg]
    simp [carried, inHand, fromFile, hg]

theorem Carries.step {a : Action} (h : Carries bpf s) (hlife : Lifecycle s) (hs : step bpf s a = some s') :
    Carries bpf s' := by
  obtain ⟨-, hg, hmove⟩ | ⟨-, hmove⟩ | ⟨-, hmove⟩ := step_cases hs
  · exact h.eventMove hg hmove
  · exact h.guiMove hlife hmove
  · exact h.captureMove hlife hmove

theorem reachable_carries (h : Reachable bpf maxSize actions s) : Carries bpf s := by
  induction h with
  | init => exact carries_init maxSize
  | step h hs ih => exact ih.step (reachable_lifecycle h) hs

theorem steps_cons {a : Action} {more : List Action} (h : steps bpf s (a :: more) = some s') :
    ∃ t, step bpf s a = some t ∧ steps bpf t more = some s' := by
  rw [steps] at h
  split at h
  · cases h
  · exact ⟨_, ‹_›, h⟩

theorem Reachable.steps {more : List Action} (h : Reachable bpf maxSize actions s) (hs : steps bpf s more = some s') :
    Reachable bpf maxSize (actions ++ more) s' := by
  induction more generalizing actions s with
  | nil =>
    rw [DesktopCapture.steps, Option.some.injEq] at hs
    rw [← hs, List.append_nil]
    exact h
  | cons a more ih =>
    obtain ⟨t, ha, hs⟩ := steps_cons hs
    have hmore := ih (h.step ha) hs
    rwa [List.append_assoc] at hmore

/-! ### Joining the capture thread -/

/-- The steps left to the capture thread once it has been asked to stop. -/
def remaining : CapturePc → ℕ
  | .reading => 4
  | .retaining _ => 3
  | .pushing _ => 2
  | .check => 1
  | _ => 0

theorem remaining_le (pc : CapturePc) : remaining pc ≤ 4 := by
  cases pc <;> simp [remaining]

theorem CaptureMove.remaining_lt (h : CaptureMove bpf s s') (hstop : s.stopRequested = true) :
    s'.stopRequested = true ∧ remaining s'.captureThread < remaining s.captureThread ∧ s'.gui = s.gui := by
  cases h with
  | check ht =>
    refine ⟨hstop, ?_, rfl⟩
    dsimp only
    rw [ht, if_pos hstop]
    simp [remaining]
  | timeout ht | finish ht | read ht | retain ht | push ht =>
    refine ⟨hstop, ?_, rfl⟩
    rw [ht]
    simp [remaining]

theorem captures_remaining {statuses : List (PacketReadStatus Record)} (hstop : s.stopRequested = true)
    (hs : steps bpf s (statuses.map .capture) = some s') :
    statuses.length + remaining s'.captureThread ≤ remaining s.captureThread ∧ s'.gui = s.gui := by
  induction statuses generalizing s with
  | nil =>
    obtain rfl : s = s' := Option.some.inj hs
    simp
  | cons status statuses ih =>
    obtain ⟨t, ha, hs⟩ := steps_cons hs
    obtain ⟨hstop', hlt, hgui⟩ := (captureStep_move ha).remaining_lt hstop
    obtain ⟨hle, hgui'⟩ := ih hstop' hs
    refine ⟨?_, hgui'.trans hgui⟩
    rw [List.length_cons]
    omega

/-- **The capture thread is joined**: it runs on an open handle that the GUI thread
leaves alone but for the filter, and when the GUI thread waits for it, it returns
after at most four of its steps, whatever the library has for it. -/
theorem thread_joined (h : Reachable bpf maxSize actions s) :
    (s.captureThread ≠ .idle → s.handle.isOpen = true ∧ Shares s.gui ∧ s.handle.linkType = s.sessionLinkType ∧
      (s.handle.filter = some s.activeFilter ∨ s.handle.filter = none ∧ s.activeFilter = "")) ∧
    ∀ next, s.gui = .joining next → ∀ (statuses : List (PacketReadStatus Record)) (s' : Desktop),
      steps bpf s (statuses.map .capture) = some s' →
      statuses.length ≤ 4 ∧ ((guiStep bpf none s').isSome = true ∨ (captureStep bpf .timeout s').isSome = true) := by
  have hlife := reachable_lifecycle h
  refine ⟨fun ht => ⟨(hlife.thread ht).1, (hlife.thread ht).2, hlife.link (.inl ht), hlife.filter ht⟩, ?_⟩
  intro next hg statuses s' hs
  obtain ⟨-, hstop⟩ := hlife.joining next hg
  obtain ⟨hle, hgui⟩ := captures_remaining hstop hs
  refine ⟨by have := remaining_le s.captureThread; omega, ?_⟩
  have hg' := hgui.trans hg
  obtain ⟨hrunning, -⟩ := (reachable_lifecycle (h.steps hs)).joining next hg'
  cases ht : s'.captureThread with
  | idle => exact (hrunning ht).elim
  | returned =>
    refine .inl ?_
    rw [guiStep, hg', ht]
    rfl
  | check | reading | retaining | pushing =>
    refine .inr ?_
    rw [captureStep, ht]
    rfl

/-- Filters by length. -/
def lengthBpf : Bpf PacketData where
  compiles _ := true
  passes _ packet := 100 ≤ packet.length

/-- The first octet of a packet of `len` octets. -/
def arrived (len : UInt32) : Record := ⟨0, 0, 1, len, [0x45], rfl⟩

/-- A source is opened and its capture thread, if it has one, reads a packet. -/
def opening (source : Source) (opened : Contents) : List Action :=
  .event (.openSource source) :: List.replicate 5 (.gui (some opened)) ++
    [.capture .timeout, .capture (.packet (arrived 150))]

/-- The user stops a capture whose thread has a packet in hand. -/
theorem thread_joined_stopped : ∃ s : Desktop,
    Reachable lengthBpf 8 (opening .device { dlt := 1 } ++ [.event .stop, .gui none]) s ∧ s.gui = .joining none ∧
    ∀ (statuses : List (PacketReadStatus Record)) (s' : Desktop), steps lengthBpf s (statuses.map .capture) = some s' →
      statuses.length ≤ 4 ∧
        ((guiStep lengthBpf none s').isSome = true ∨ (captureStep lengthBpf .timeout s').isSome = true) := by
  have hrun : ∃ s, steps lengthBpf (init 8) (opening .device { dlt := 1 } ++ [.event .stop, .gui none]) = some s ∧
      s.gui = .joining none := ⟨_, rfl, rfl⟩
  obtain ⟨s, hs, hg⟩ := hrun
  have h := Reachable.init.steps hs
  exact ⟨s, h, hg, (thread_joined h).2 none hg⟩

/-! ### One source at a time -/

theorem Carries.flow_read (h : Carries bpf s) :
    (s.fed ++ inHand s.gui ++ s.queue.queue).Sublist (s.reads.map (·.2)) := by
  have hflow := h.flow
  rw [carried, List.append_assoc] at hflow
  exact (List.sublist_append_left _ _).trans hflow

/-- **The sources are kept apart**: in any run what the window has been fed since
its view was last cleared, what is in hand and what is queued for it come, in
order, from what the source opened last has given, and what can be exported is
the end of it. Each packet is of the link type that is exported with it and
passes the filter it was read under. -/
theorem desktop_isolated (h : Reachable bpf maxSize actions s) :
    (s.fed ++ inHand s.gui ++ s.queue.queue).Sublist (s.reads.map (·.2)) ∧
    (∃ retained, s.reads.map (·.2) = retained ++ unretained s.captureThread ∧
      s.sessionPackets = retained.rtake maxSessionPackets) ∧
    ∀ r ∈ s.reads, Sourced bpf s r := by
  have hcarries := reachable_carries h
  exact ⟨hcarries.flow_read, hcarries.retained, hcarries.sourced⟩

/-- A packet is read and queued, a filter is set, and another device is opened. -/
def reopenedRun : List Action :=
  opening .device { dlt := 1 } ++ List.replicate 2 (.capture .timeout) ++
    [.event (.setFilter "greater 100"), .event (.openSource .device), .gui none, .capture .timeout, .gui none] ++
    List.replicate 4 (.gui (some { dlt := 0 })) ++ [.capture .timeout, .capture (.packet (arrived 200))]

theorem desktop_isolated_reopened : ∃ s : Desktop, Reachable lengthBpf 8 reopenedRun s ∧
    s.reads.map (fun r => (r.1, r.2.length)) = [(some "greater 100", 200)] ∧ s.queue.size = 0 ∧
    ∀ r ∈ s.reads, Sourced lengthBpf s r := by
  have hrun : ∃ s, steps lengthBpf (init 8) reopenedRun = some s ∧
      s.reads.map (fun r => (r.1, r.2.length)) = [(some "greater 100", 200)] ∧ s.queue.size = 0 :=
    ⟨_, rfl, rfl, rfl⟩
  obtain ⟨s, hs, hreads, hsize⟩ := hrun
  have h := Reachable.init.steps hs
  exact ⟨s, h, hreads, hsize, (desktop_isolated h).2.2⟩

end DesktopCapture
end NetProbe
