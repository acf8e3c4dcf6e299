/-
# The two programs on one file

The desktop program and `netprobe-cli` drive the same session. Whatever the
threads and the user do, a file that the queue has room for leaves the window,
once its packets are fed, with the flows that a replay of the file exports, but
for the processes, which only the window looks up (`desktop_replays`).

Key theorem: `desktop_replays`.
-/
import NetProbe.DesktopViews
import NetProbe.Unattributed
import NetProbe.CommandRuns

namespace NetProbe

open Checked
open AnalysisSession (feedAll flows feedAll_unattributed flows_unattributed)
open SessionExport (Contents linkTypeFromDlt nextPacket)

namespace CommandLine

/-- The session of a replay that no signal has stopped. -/
theorem replay_session {w : World} {options : Options} {contents : Contents} {analysis : Analysis}
    (hopen : w.openOffline options.readPath = .ok contents) (hsignal : w.signal = none)
    (hreplay : runOffline w options = .ok (.ok analysis)) :
    (∃ results, feedAll w.sys {} (unresolved (DesktopCapture.packetsOf contents)) = .ok (results, analysis.session)) ∧
      analysis.packetsAnalyzed = UInt64.ofNat contents.records.length := by
  unfold runOffline at hreplay
  rw [hopen] at hreplay
  dsimp only at hreplay
  split at hreplay
  · cases hreplay
  obtain ⟨r, hr, hend⟩ := bind_eq_ok.mp hreplay
  have hreplayed := (replay_safe _ w.signal 0 QuicTracker.aligned_empty).elim hr
  cases r with
  | error text => cases hend
  | ok r =>
    obtain ⟨⟨results, hfed⟩, hcount, -⟩ := hreplayed r.1 r.2 rfl
    cases hend
    rw [hsignal, before] at hfed hcount
    refine ⟨⟨results, hfed⟩, ?_⟩
    rw [hcount, zero_add, List.length_map]

end CommandLine

namespace DesktopCapture

variable {bpf : Bpf PacketData} {maxSize : ℕ} {s : Desktop} {v : CaptureView.View} {actions : List Action}

theorem reachable_steps (h : Reachable bpf maxSize actions s) : steps bpf (init maxSize) actions = some s := by
  induction h with
  | init => rfl
  | step _ hs ih =>
    rw [steps_append ih, steps, hs]
    rfl

/-- **The two programs agree on a file**: in any run that opens the file and
neither clears the view, nor resumes from a pause, nor opens another source, as
soon as nothing is queued and the GUI thread is between two frames the window
has the packets and the flows of a replay of the file. -/
theorem desktop_replays {w : CommandLine.World} {options : CommandLine.Options} {contents : Contents}
    {analysis : CommandLine.Analysis} {database : GeoIPResolver.Database} {cacheCapacity : ℕ} {r : Desktop}
    {earlier more : List Action} (hopening : steps bpf (init maxSize) earlier = some r) (hg : r.gui = .opening .file)
    (hquiet : ∀ a ∈ more, Quiet a)
    (h : Windowed bpf w.sys maxSize (CaptureView.init database cacheCapacity)
      (earlier ++ .gui (some contents) :: more) s v)
    (hframe : s.gui = .frame) (hqueue : s.queue.queue = []) (hfits : contents.records.length ≤ max maxSize 1)
    (hopen : w.openOffline options.readPath = .ok contents) (hsignal : w.signal = none)
    (hreplay : CommandLine.runOffline w options = .ok (.ok analysis)) :
    v.totalPackets = analysis.packetsAnalyzed ∧
      ∀ now, (flows v.session now).map Flow.unattributed = flows analysis.session now := by
  have hsteps : steps bpf r (.gui (some contents) :: more) = some s :=
    (steps_append hopening).symm.trans (reachable_steps h.reachable)
  -- all of the file has been fed
  have hfed : s.fed = packetsOf contents := by
    obtain ⟨hhand, hload⟩ := frame_loaded hframe
    have hlength : (packetsOf contents).length ≤ max maxSize 1 := by rwa [packetsOf, List.length_map]
    have hheld := (file_loaded (Reachable.init.steps hopening) hg hquiet hsteps hload).1
    rwa [hhand, hqueue, List.append_nil, List.append_nil, Window.rtake_of_length_le hlength] at hheld
  obtain ⟨log, results, hlog, hshows⟩ := h.showsFed
  obtain ⟨⟨replayed, hsession⟩, hcount⟩ := CommandLine.replay_session hopen hsignal hreplay
  have hunresolved : log.map AnalysisSession.Arrival.unattributed = CommandLine.unresolved (packetsOf contents) := by
    rw [← hfed, ← hlog, CommandLine.unresolved, List.map_map]
    rfl
  have herased := feedAll_unattributed w.sys log {}
  rw [hshows.fed, hunresolved, map_ok] at herased
  have hsame : analysis.session = v.session.unattributed :=
    congrArg Prod.snd (Except.ok.inj (hsession.symm.trans herased))
  refine ⟨?_, fun now => ?_⟩
  · rw [hshows.total, hcount, ← List.length_map AnalysisSession.Arrival.packet, hlog, hfed, packetsOf, List.length_map]
  · rw [hsame, flows_unattributed]

/-! A file with the segment of a client, opened and replayed. -/

def oneSegment : Contents := { dlt := 1, records := [SessionExport.record CaptureView.ack.packet] }

/-- No device can be opened. -/
def noDevice (options : LiveCapture.Options) : CommandLine.LiveRun options where
  bpf := lengthBpf
  state := { (LiveCapture.init 50000 : LiveCapture.Live PacketData) with main := .failed }
  reachable := LiveCapture.reachable_run [.main false] .init rfl
  ended := .inr rfl

def oneFile : CommandLine.World where
  sys := AnalysisSession.Web.sys
  version := "1.0.0"
  devices := .ok []
  openOffline path := if path = "segment.pcap" then .ok oneSegment else .error "No such file or directory"
  readError := "truncated dump file"
  openError := "No such device exists"
  filterError := "syntax error"
  signal := none
  live _ := noDevice
  lookupProcess _ _ := ""
  now := 0
  generated := 0
  opens _ := true
  takes _ _ := true

theorem desktop_replays_segment : ∃ (v : CaptureView.View) (analysis : CommandLine.Analysis),
    CommandLine.runOffline oneFile { readPath := "segment.pcap" } = .ok (.ok analysis) ∧
    (flows analysis.session 0).map (·.packets) = [1] ∧
    (flows v.session 0).map Flow.unattributed = flows analysis.session 0 := by
  have hrun : ∃ r s, steps lengthBpf (init 8) chosenRun = some r ∧ r.gui = .opening .file ∧
      steps lengthBpf (init 8) (chosenRun ++ .gui (some oneSegment) :: (List.replicate 3 (.gui none) ++ frameOf 1)) =
        some s ∧ s.gui = .frame ∧ s.queue.queue = [] := ⟨_, _, rfl, rfl, rfl, rfl, rfl⟩
  have hreplay : ∃ analysis, CommandLine.runOffline oneFile { readPath := "segment.pcap" } = .ok (.ok analysis) ∧
      (flows analysis.session 0).map (·.packets) = [1] := ⟨_, rfl, by decide +kernel⟩
  obtain ⟨r, s, hr, hg, hs, hframe, hqueue⟩ := hrun
  obtain ⟨analysis, hanalysis, hpackets⟩ := hreplay
  have hinit := @Windowed.init lengthBpf oneFile.sys 8 (CaptureView.init CaptureView.noDatabase 8)
  obtain ⟨v, h⟩ := hinit.follow hs
  have hquiet : ∀ a ∈ List.replicate 3 (.gui none) ++ frameOf 1, Quiet a := by
    intro a ha
    simp only [frameOf, List.mem_append, List.mem_cons, List.mem_replicate] at ha
    obtain ⟨-, rfl⟩ | rfl | ⟨-, rfl⟩ := ha
    · trivial
    · exact ⟨rfl, by simp⟩
    · trivial
  exact ⟨v, analysis, hanalysis, hpackets,
    (desktop_replays hr hg hquiet h hframe hqueue (by decide) rfl rfl hanalysis).2 0⟩

end DesktopCapture
end NetProbe
