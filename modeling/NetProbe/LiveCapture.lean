/-
# CaptureEngine and the command line's runLive

Two threads over one queue: `captureLoop` reads from the capture library and
pushes, `runLive` starts it, installs the filter, polls until it is told to stop,
joins the capture thread and drains the queue. A step of the system is one step
of either thread, or of the world outside (a signal, the deadline); what the
library answers comes with the step. `reads` and `fed` record what the capture
thread has read, each packet with the filter installed at the time, and what
`AnalysisSession::feed` was given.

Key definitions: `Engine`, `Live`, `step`, `Reachable`.
-/
import NetProbe.PacketQueue

namespace NetProbe

/-- What the capture library does with filters: which ones it accepts, and which
packets one lets through. -/
structure Bpf (Packet : Type) where
  compiles : String → Bool
  passes : String → Packet → Bool

structure CaptureBackend where
  isOpen : Bool := false
  filter : Option String := none
  deriving DecidableEq

inductive PacketReadStatus (Packet : Type)
  | packet (packet : Packet)
  | timeout
  | endOfFile
  | error

/-- Where the capture thread is in `captureLoop`. -/
inductive CapturePc (Packet : Type)
  /-- there is no thread -/
  | idle
  | check
  | reading
  | consuming (packet : Packet)
  | returned

namespace CaptureEngine

variable {Packet : Type}

structure Engine (Packet : Type) where
  queue : PacketQueue Packet
  backend : CaptureBackend := {}
  captureThread : CapturePc Packet := .idle
  stopRequested : Bool := false
  activeFilter : String := ""

/-- `m_captureThread.joinable()`. -/
def isCapturing (e : Engine Packet) : Bool :=
  match e.captureThread with
  | .idle => false
  | _ => true

/-- The library installs a filter it accepts on an open handle. -/
def installFilter (bpf : Bpf Packet) (filter : String) (b : CaptureBackend) : Option CaptureBackend :=
  if b.isOpen ∧ bpf.compiles filter then some { b with filter := some filter } else none

/-- `startCapture` on an engine without capture thread; `opens` is whether the
library can open the device. -/
def startCapture (bpf : Bpf Packet) (opens : Bool) (e : Engine Packet) : Engine Packet :=
  let e := { e with queue := e.queue.clear, backend := {} }
  if ¬ opens then e
  else
    let backend : CaptureBackend := { isOpen := true }
    if e.activeFilter ≠ "" then
      match installFilter bpf e.activeFilter backend with
      | none => e
      | some backend => { e with backend, stopRequested := false, captureThread := .check }
    else { e with backend, stopRequested := false, captureThread := .check }

def setFilter (bpf : Bpf Packet) (filter : String) (e : Engine Packet) : Option (Engine Packet) :=
  if ¬ isCapturing e ∨ ¬ e.backend.isOpen then none
  else (installFilter bpf filter e.backend).map fun backend => { e with backend, activeFilter := filter }

end CaptureEngine

open CaptureEngine

namespace LiveCapture

variable {Packet : Type}

structure Options where
  durationSeconds : Option ℕ := none
  packetLimit : Option UInt64 := none
  bpfFilter : String := ""

/-- Where the main thread is in `runLive`. `stopping` and `joining` are
`stopCapture`, on the way to draining or, when the filter was rejected, to failure. -/
inductive MainPc (Packet : Type)
  | start
  | filtering
  | check
  | polling
  | feeding (packet : Packet)
  | stopping (filtered : Bool)
  | joining (filtered : Bool)
  | draining
  | drained (packet : Packet)
  | done
  | failed

structure Live (Packet : Type) where
  engine : Engine Packet
  main : MainPc Packet := .start
  /-- `g_stopRequested` -/
  interrupted : Bool := false
  /-- the clock has passed the deadline -/
  expired : Bool := false
  packetsAnalyzed : UInt64 := 0
  reads : List (Option String × Packet) := []
  fed : List Packet := []

/-- `options.packetLimit && packetsAnalyzed >= *options.packetLimit` -/
def atLimit (opts : Options) (s : Live Packet) : Bool :=
  match opts.packetLimit with
  | none => false
  | some n => s.packetsAnalyzed ≥ n

/-- The next step of the main thread; `opens` is whether the device can be opened. -/
def mainStep (bpf : Bpf Packet) (opts : Options) (opens : Bool) (s : Live Packet) : Option (Live Packet) :=
  match s.main with
  | .start =>
    let engine := startCapture bpf opens s.engine
    some { s with engine, main := if isCapturing engine then .filtering else .failed }
  | .filtering =>
    if opts.bpfFilter = "" then some { s with main := .check }
    else match setFilter bpf opts.bpfFilter s.engine with
      | some engine => some { s with engine, main := .check }
      | none => some { s with main := .stopping false }
  | .check =>
    if s.interrupted ∨ (opts.durationSeconds.isSome ∧ s.expired) ∨ atLimit opts s then
      some { s with main := .stopping true }
    else some { s with main := .polling }
  | .polling =>
    match s.engine.queue.tryPop with
    | (none, _) => some { s with main := .check }
    | (some packet, queue) => some { s with engine := { s.engine with queue }, main := .feeding packet }
  | .feeding packet =>
    some { s with fed := s.fed ++ [packet], packetsAnalyzed := s.packetsAnalyzed + 1, main := .check }
  | .stopping filtered =>
    some { s with engine := { s.engine with stopRequested := true }, main := .joining filtered }
  | .joining filtered =>
    match s.engine.captureThread with
    | .returned => some { s with
        engine := { s.engine with captureThread := .idle, backend := {} }
        main := if filtered then .draining else .failed }
    | _ => none
  | .draining =>
    match s.engine.queue.tryPop with
    | (none, _) => some { s with main := .done }
    | (some packet, queue) => some { s with engine := { s.engine with queue }, main := .drained packet }
  | .drained packet =>
    if atLimit opts s then some { s with main := .done }
    else some { s with fed := s.fed ++ [packet], packetsAnalyzed := s.packetsAnalyzed + 1, main := .draining }
  | .done => none
  | .failed => none

/-- The library hands out only packets that pass the installed filter. -/
def handsOut (bpf : Bpf Packet) (b : CaptureBackend) (packet : Packet) : Bool :=
  match b.filter with
  | none => true
  | some filter => bpf.passes filter packet

/-- The next step of the capture thread; `status` is what a read returns. -/
def captureStep (bpf : Bpf Packet) (status : PacketReadStatus Packet) (s : Live Packet) : Option (Live Packet) :=
  let goto (pc : CapturePc Packet) : Live Packet := { s with engine := { s.engine with captureThread := pc } }
  match s.engine.captureThread with
  | .idle => none
  | .check => some (goto (if s.engine.stopRequested then .returned else .reading))
  | .reading =>
    match status with
    | .packet packet =>
      if handsOut bpf s.engine.backend packet then
        some { goto (.consuming packet) with reads := s.reads ++ [(s.engine.backend.filter, packet)] }
      else none
    | .timeout => some (goto .check)
    | .endOfFile => some (goto .returned)
    | .error => some (goto .returned)
  | .consuming packet =>
    some { s with engine := { s.engine with queue := s.engine.queue.push packet, captureThread := .check } }
  | .returned => none

inductive Action (Packet : Type)
  | interrupt
  | expire
  | main (opens : Bool)
  | capture (status : PacketReadStatus Packet)

def step (bpf : Bpf Packet) (opts : Options) (s : Live Packet) : Action Packet → Option (Live Packet)
  | .interrupt => some { s with interrupted := true }
  | .expire => some { s with expired := true }
  | .main opens => mainStep bpf opts opens s
  | .capture status => captureStep bpf status s

/-- `runLive` on a fresh engine and queue. -/
def init (maxSize : ℕ) : Live Packet := { engine := { queue := .make maxSize } }

/-- What any interleaving of the steps can reach. -/
inductive Reachable (bpf : Bpf Packet) (opts : Options) (maxSize : ℕ) : Live Packet → Prop
  | init : Reachable bpf opts maxSize (init maxSize)
  | step {s s'} (a : Action Packet) (h : Reachable bpf opts maxSize s) (hs : step bpf opts s a = some s') :
    Reachable bpf opts maxSize s'

/-- A run of given actions. -/
def run (bpf : Bpf Packet) (opts : Options) (s : Live Packet) (actions : List (Action Packet)) : Option (Live Packet) :=
  actions.foldlM (step bpf opts) s

theorem reachable_run {bpf : Bpf Packet} {opts : Options} {maxSize : ℕ} : ∀ (actions : List (Action Packet))
    {s s' : Live Packet}, Reachable bpf opts maxSize s → run bpf opts s actions = some s' →
      Reachable bpf opts maxSize s'
  | [], s, s', h, hs => by
    obtain rfl := Option.some.inj hs
    exact h
  | a :: actions, s, s', h, hs => by
    obtain ⟨t, ht, hs⟩ := Option.bind_eq_some_iff.mp hs
    exact reachable_run actions (h.step a ht) hs

end LiveCapture
end NetProbe
