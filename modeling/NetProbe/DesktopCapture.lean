/-
# The desktop program

The GUI thread and the capture thread of the desktop program, over the queue,
the retained session and the capture handle. What the GUI thread does between
two of its accesses to these is one step, and so is what the capture thread
does; `consumePacket` is two. The GUI thread carries out what the user asks for
step by step: it stops the capture, joins its thread, closes the handle, empties
the queue and forgets the session before it opens another source.

`reads` is what the source opened last has given so far, each packet with the
filter installed at the time, and `fed` what the session of the window has been
fed since it was last cleared.

Key definitions: `Desktop`, `guiStep`, `guiEvent`, `captureStep`, `Reachable`.
-/
import NetProbe.LiveCapture
import NetProbe.SessionExport

namespace NetProbe

open SessionExport (Contents Record linkTypeFromDlt nextPacket retainPacket)

namespace DesktopCapture

/-- Where the capture thread is in `captureLoop`. -/
inductive CapturePc
  /-- there is no thread -/
  | idle
  | check
  | reading
  | retaining (packet : PacketData)
  | pushing (packet : PacketData)
  | returned

inductive Source
  | device
  | file
  deriving DecidableEq

/-- Where the GUI thread is. What it stops for is a source to open, or nothing. -/
inductive GuiPc
  /-- between two of the things a frame does -/
  | frame
  /-- in the loop of `processQueue` -/
  | processing (count : ℕ)
  | feeding (count : ℕ) (packet : PacketData)
  /-- in `setPaused(false)`, with the source to open after it, if any -/
  | resuming (next : Option Source)
  /-- in `stopCapture` -/
  | stopping (next : Option Source)
  | joining (next : Option Source)
  | closing (next : Option Source)
  /-- in `startCapture` or `openFile` -/
  | emptying (next : Source)
  | forgetting (next : Source)
  | opening (next : Source)
  /-- in the loop of `openFile`, with the records that are left -/
  | loading (records : List Record)
  | loadingRetained (packet : PacketData) (records : List Record)

/-- The capture handle of the backend. -/
structure Handle where
  isOpen : Bool := false
  filter : Option String := none
  linkType : LinkType := .Ethernet

structure Desktop where
  queue : PacketQueue PacketData
  handle : Handle := {}
  captureThread : CapturePc := .idle
  stopRequested : Bool := false
  activeFilter : String := ""
  sessionPackets : List PacketData := []
  sessionLinkType : LinkType := .Ethernet
  gui : GuiPc := .frame
  capturePaused : Bool := false
  reads : List (Option String × PacketData) := []
  fed : List PacketData := []

variable (bpf : Bpf PacketData)

/-! ### The GUI thread -/

/-- What the user does, or the frame by itself. -/
inductive GuiEvent
  | processQueue
  | setPaused (paused : Bool)
  | clearCaptureView
  /-- Start, or another device chosen, or a file opened -/
  | openSource (source : Source)
  | stop
  | setFilter (filter : String)

def maxPerFrame : ℕ := 1000

/-- An event between two others. -/
def guiEvent (s : Desktop) : GuiEvent → Desktop
  | .processQueue => if s.capturePaused then s else { s with gui := .processing 0 }
  | .setPaused paused =>
    if s.capturePaused = paused then s
    else if paused then { s with capturePaused := true }
    else { s with gui := .resuming none }
  | .clearCaptureView => { s with fed := [] }
  | .openSource source =>
    -- the view is cleared first, and what paused it ends
    { s with fed := [], gui := if s.capturePaused then .resuming (some source) else .stopping (some source) }
  | .stop => { s with gui := .stopping none }
  | .setFilter filter =>
    match s.captureThread with
    | .idle => s
    | _ =>
      if s.handle.isOpen ∧ bpf.compiles filter then
        { s with handle := { s.handle with filter := some filter }, activeFilter := filter }
      else s

/-- The rest of `startCapture`, with a device of link type `dlt`. -/
def startThread (dlt : ℤ) (s : Desktop) : Desktop :=
  let handle : Handle := { isOpen := true, linkType := linkTypeFromDlt dlt }
  let started (handle : Handle) : Desktop := { s with
    handle, sessionLinkType := handle.linkType, stopRequested := false, captureThread := .check, gui := .frame }
  if s.activeFilter = "" then started handle
  else if bpf.compiles s.activeFilter then started { handle with filter := some s.activeFilter }
  else { s with handle := {}, gui := .frame }

/-- The next step of what the GUI thread is at; `opened` is what the source is, if
it can be opened. A device has no records of its own. -/
def guiStep (opened : Option Contents) (s : Desktop) : Option Desktop :=
  match s.gui with
  | .frame => none
  | .processing count =>
    if count < maxPerFrame then
      match s.queue.tryPop with
      | (none, _) => some { s with gui := .frame }
      | (some packet, queue) => some { s with queue, gui := .feeding count packet }
    else some { s with gui := .frame }
  | .feeding count packet => some { s with fed := s.fed ++ [packet], gui := .processing (count + 1) }
  | .resuming next => some { s with
      capturePaused := false, queue := s.queue.clear
      gui := match next with
        | none => .frame
        | some source => .stopping (some source) }
  | .stopping next =>
    match s.captureThread with
    | .idle => some { s with gui := .closing next }
    | _ => some { s with stopRequested := true, gui := .joining next }
  | .joining next =>
    match s.captureThread with
    | .returned => some { s with captureThread := .idle, gui := .closing next }
    | _ => none
  | .closing next => some { s with
      handle := {}
      gui := match next with
        | none => .frame
        | some source => .emptying source }
  | .emptying source => some { s with queue := s.queue.clear, gui := .forgetting source }
  | .forgetting source => some { s with sessionPackets := [], reads := [], gui := .opening source }
  | .opening source =>
    match source, opened with
    | _, none => some { s with handle := {}, gui := .frame }
    | .device, some contents => some (startThread bpf contents.dlt s)
    | .file, some contents => some { s with
        handle := { isOpen := true, linkType := linkTypeFromDlt contents.dlt }
        sessionLinkType := linkTypeFromDlt contents.dlt
        gui := .loading contents.records }
  | .loading [] => some { s with handle := {}, gui := .frame }
  | .loading (record :: records) =>
    let packet := nextPacket s.handle.linkType record
    some { s with
      reads := s.reads ++ [(s.handle.filter, packet)]
      sessionPackets := retainPacket s.sessionPackets packet
      gui := .loadingRetained packet records }
  | .loadingRetained packet records => some { s with queue := s.queue.push packet, gui := .loading records }

/-! ### The capture thread -/

/-- The library hands out only packets that pass the installed filter. -/
def handsOut (handle : Handle) (packet : PacketData) : Bool :=
  match handle.filter with
  | none => true
  | some filter => bpf.passes filter packet

/-- The next step of the capture thread; `status` is what a read returns. A read
of a handle that is not open is an error. -/
def captureStep (status : PacketReadStatus Record) (s : Desktop) : Option Desktop :=
  match s.captureThread with
  | .idle => none
  | .check => some { s with captureThread := if s.stopRequested then .returned else .reading }
  | .reading =>
    match status with
    | .packet record =>
      let packet := nextPacket s.handle.linkType record
      if s.handle.isOpen ∧ handsOut bpf s.handle packet then
        some { s with captureThread := .retaining packet, reads := s.reads ++ [(s.handle.filter, packet)] }
      else none
    | .timeout => some { s with captureThread := .check }
    | .endOfFile => some { s with captureThread := .returned }
    | .error => some { s with captureThread := .returned }
  | .retaining packet =>
    some { s with sessionPackets := retainPacket s.sessionPackets packet, captureThread := .pushing packet }
  | .pushing packet => some { s with queue := s.queue.push packet, captureThread := .check }
  | .returned => none

/-! ### Runs -/

inductive Action
  | event (e : GuiEvent)
  | gui (opened : Option Contents)
  | capture (status : PacketReadStatus Record)

/-- Events come between two things of a frame. -/
def step (s : Desktop) : Action → Option Desktop
  | .event e =>
    match s.gui with
    | .frame => some (guiEvent bpf s e)
    | _ => none
  | .gui opened => guiStep bpf opened s
  | .capture status => captureStep bpf status s

def init (maxSize : ℕ) : Desktop := { queue := .make maxSize }

/-- What any interleaving of the two threads can reach, with the actions taken. -/
inductive Reachable (maxSize : ℕ) : List Action → Desktop → Prop
  | init : Reachable maxSize [] (init maxSize)
  | step {actions s s'} {a : Action} (h : Reachable maxSize actions s) (hs : step bpf s a = some s') :
    Reachable maxSize (actions ++ [a]) s'

/-- Actions one after another. -/
def steps (s : Desktop) : List Action → Option Desktop
  | [] => some s
  | a :: actions =>
    match step bpf s a with
    | none => none
    | some s' => steps s' actions

end DesktopCapture
end NetProbe
