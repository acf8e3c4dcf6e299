/-
# Runs of CaptureView

Whatever the user does in between, the window shows the packets analysed since
it was last cleared: its table the last 10000 of them, its counters all of them
(`run_shows`). A chart draws the bytes of the last 2000 intervals, and every
packet since the window was cleared is in one interval, or in one that a pause
cut short, or in the one that is not over (`run_charts`).

Key definitions: `logOf`, `Shows`, `Chart`, `Plots`.
Key theorems: `run_shows`, `run_charts`.
-/
import NetProbe.CaptureView
import NetProbe.HostnameSources
import Mathlib.Algebra.BigOperators.Group.List.Basic

namespace NetProbe

open Checked

namespace ProtocolParser

theorem length_apply (r : Report) (base : ℕ) (p : ParsedPacket) : (r.apply base p).length = p.length := by
  obtain ⟨protocol, _ | ⟨src, dst, _ | payload⟩, _ | tcp, service, encryptedTunnel⟩ := r <;> rfl

theorem length_preserved (size n : ℕ) : Preserved size 0 (fun _ q => q.length = n) (fun _ q => q.length = n) where
  stop h := h
  addresses a h := by cases a <;> exact h
  through _ _ _ h := (length_apply _ _ _).trans h
  last _ _ h := (length_apply _ _ _).trans h
  push name h := by
    rw [pushTunnel_frame]
    exact h
  settle _ h := by
    rw [Tunnel.settle_frame]
    exact h

/-- A packet is reported with its wire length, whatever was captured of it. -/
theorem parse_length (sys : Platform) (rawData : PacketData) :
    Safe (parse sys rawData) fun p => p.length = rawData.length := by
  by_cases hb : rawData.payload = []
  · obtain ⟨protocol, -, hp⟩ := parse_none sys (.inr hb)
    exact .of_eq hp rfl
  cases hl : linkLayer rawData.payload rawData.linkType with
  | none =>
    obtain ⟨protocol, -, hp⟩ := parse_none sys (.inl hl)
    exact .of_eq hp rfl
  | some network =>
    have hdecoded : (decoded sys rawData network).length = rawData.length :=
      descend_preserved (length_preserved _ rawData.length) (p := blank rawData) le_rfl rfl
    rw [parse_some sys hl hb]
    refine (inspectPayload_safe sys rawData.fits _).map fun q hq => ?_
    rw [hq.trans (enriches_markEncrypted q)]
    exact hdecoded

end ProtocolParser

namespace AnalysisSession

/-- Packets fed one after another, in two parts. -/
theorem feedAll_append {sys : Platform} :
    ∀ {before after : List Arrival} {s t u : Session} {results more : List Result},
    feedAll sys s before = .ok (results, t) → feedAll sys t after = .ok (more, u) →
      feedAll sys s (before ++ after) = .ok (results ++ more, u)
  | [], after, s, t, u, results, more, h, h' => by
    cases h
    exact h'
  | a :: before, after, s, t, u, results, more, h, h' => by
    obtain ⟨⟨result, v⟩, hfeed, h⟩ := bind_eq_ok.mp h
    obtain ⟨⟨rest, w⟩, hrest, h⟩ := bind_eq_ok.mp h
    cases h
    rw [List.cons_append, feedAll, hfeed, ok_bind]
    dsimp only
    rw [feedAll_append hrest h']
    rfl

theorem feedAll_concat {sys : Platform} {arrivals : List Arrival} {a : Arrival} {s t u : Session}
    {results : List Result}
    {result : Result} (h : feedAll sys s arrivals = .ok (results, t))
    (hfeed : feed sys t a.packet a.lookupProcess = .ok (result, u)) :
    feedAll sys s (arrivals ++ [a]) = .ok (results ++ [result], u) := by
  refine feedAll_append h ?_
  rw [feedAll, hfeed]
  rfl

end AnalysisSession

/-! ### The points of a chart -/

theorem filterMap_getElem?_range {α : Type} (xs : List α) :
    (List.range xs.length).filterMap (fun i => xs[i]?) = xs := by
  induction xs using List.reverseRecOn with
  | nil => rfl
  | append_singleton xs x ih =>
    rw [List.length_append, List.length_singleton, List.range_succ, List.filterMap_append]
    have hlast : (xs ++ [x])[xs.length]? = some x := by simp
    have hinit : (List.range xs.length).filterMap (fun i => (xs ++ [x])[i]?) = xs := by
      refine Eq.trans (List.filterMap_congr fun i hi => ?_) ih
      exact List.getElem?_append_left (List.mem_range.mp hi)
    rw [hinit, List.filterMap_cons, hlast]
    rfl

namespace ScrollingBuffer

variable {X Y : Type} {b : ScrollingBuffer X Y} {points : List (X × Y)}

/-- The buffer holds the last of the points added. -/
structure Holds (b : ScrollingBuffer X Y) (points : List (X × Y)) : Prop where
  data : Window.Wraps b.MaxSize b.Offset b.Data (points.map (·.2))
  time : Window.Wraps b.MaxSize b.Offset b.Time (points.map (·.1))
  offset : b.Offset < b.MaxSize

theorem Holds.time_length (h : b.Holds points) : b.Time.length = b.Data.length := by
  rw [h.data.length_eq, h.time.length_eq, List.length_map, List.length_map]

theorem holds_erase (b : ScrollingBuffer X Y) (h : b.Holds points) : b.Erase.Holds [] := by
  unfold Erase
  split
  · exact ⟨.empty _, .empty _, b.room⟩
  · rename_i hd
    have hdata : b.Data = [] := List.eq_nil_of_length_eq_zero (by omega)
    have htime : b.Time = [] := List.eq_nil_of_length_eq_zero (by rw [h.time_length]; omega)
    have hoffset : b.Offset = 0 := h.data.fresh (by rw [hdata]; exact b.room)
    refine ⟨?_, ?_, h.offset⟩
    · rw [hdata, hoffset]
      exact .empty _
    · rw [htime, hoffset]
      exact .empty _

theorem erase_maxSize (b : ScrollingBuffer X Y) : b.Erase.MaxSize = b.MaxSize := by
  unfold Erase
  split <;> rfl

theorem addPoint_maxSize (b : ScrollingBuffer X Y) (x : X) (y : Y) : (b.AddPoint x y).MaxSize = b.MaxSize := by
  unfold AddPoint
  split <;> rfl

theorem addPoint_eq (h : b.Time.length = b.Data.length) (x : X) (y : Y) : b.AddPoint x y = { b with
    Offset := Window.next b.MaxSize b.Offset b.Data.length
    Data := Window.put b.MaxSize b.Offset b.Data y
    Time := Window.put b.MaxSize b.Offset b.Time x } := by
  unfold AddPoint Window.put Window.next
  rw [h]
  split_ifs <;> rfl

theorem Holds.addPoint (h : b.Holds points) (x : X) (y : Y) : (b.AddPoint x y).Holds (points ++ [(x, y)]) := by
  have hdata := h.data.put b.room h.offset y
  have htime := h.time.put b.room h.offset x
  rw [h.time_length] at htime
  rw [addPoint_eq h.time_length]
  refine ⟨?_, ?_, Window.next_lt b.room h.offset _⟩
  · rw [List.map_append]
    exact hdata
  · rw [List.map_append]
    exact htime

/-- The points are drawn in the order they came in. -/
theorem Holds.linearizeBuffer (h : b.Holds points) : b.linearizeBuffer =
    ((points.rtake b.MaxSize).map (·.1), (points.rtake b.MaxSize).map (·.2)) := by
  have hmap : ∀ {Z : Type} (f : X × Y → Z), (points.map f).rtake b.MaxSize = (points.rtake b.MaxSize).map f :=
    fun f => by
    rw [List.rtake, List.rtake, List.length_map, List.map_drop]
  -- the oldest point is at `Offset`, which is 0 until the buffer is full
  have hstart : (if b.Data.length = b.MaxSize then b.Offset else 0) = b.Offset := by
    split
    · rfl
    · refine (h.data.fresh ?_).symm
      have hlength := h.data.length_eq
      omega
  have hunroll : ∀ {Z : Type} {zs all : List Z}, Window.Wraps b.MaxSize b.Offset zs all → zs.length = b.Data.length →
      (List.range b.Data.length).filterMap (fun i => zs[(b.Offset + i) % b.Data.length]?) = all.rtake b.MaxSize := by
    intro Z zs all hz hlength
    rw [← hz.unroll]
    refine Eq.trans (List.filterMap_congr fun i hi => ?_) ((congrArg (fun n => (List.range n).filterMap _)
      ((List.length_rotate zs b.Offset).trans hlength).symm).trans (filterMap_getElem?_range _))
    rw [List.getElem?_rotate (by rw [hlength]; exact List.mem_range.mp hi), hlength, Nat.add_comm]
  unfold ScrollingBuffer.linearizeBuffer
  dsimp only
  rw [hstart, hunroll h.data rfl, hunroll h.time h.time_length, hmap, hmap]
  split
  · rename_i hempty
    have hnone : (points.rtake b.MaxSize).map (·.2) = [] := by
      rw [← hmap, ← h.data.unroll, List.eq_nil_of_length_eq_zero hempty, List.rotate_nil]
    rw [List.map_eq_nil_iff] at hnone
    rw [hnone]
    rfl
  · rfl

end ScrollingBuffer

namespace CaptureView

open AnalysisSession.Web (answered)
open AnalysisSession (Session Arrival Result feed feedAll feed_safe feedAll_safe feedAll_concat)
open ProtocolParser (parse parse_length)

variable {sys : Platform} {v v' : View} {e : Event} {events : List Event} {log : List Arrival} {results : List Result}

/-! ### What is shown -/

/-- The packets analysed since the window was last cleared. -/
def logStep (log : List Arrival) : Event → List Arrival
  | .ingest a => log ++ [a]
  | .clear _ => []
  | _ => log

def logOf (events : List Event) : List Arrival := events.foldl logStep []

/-- The rows of the packets, as the table has them. -/
def records (log : List Arrival) (results : List Result) : List PacketRecord :=
  List.zipWith (fun a result => ⟨a.packet, result.parsed, result.process⟩) log results

def withProtocol (protocol : String) (results : List Result) : List Result :=
  results.filter fun result => result.parsed.protocol = protocol

def withService (service : String) (results : List Result) : List Result :=
  results.filter fun result => result.parsed.service = service

/-- The wire bytes of the packets, as the 64-bit counters add them up. -/
def bytesOf (results : List Result) : UInt64 := (results.map fun result => UInt64.ofNat result.parsed.length).sum

/-- The table and the counters are those of the packets of `log`, analysed as
`results`; the counter of a service while an `int` holds it. -/
structure Shows (sys : Platform) (log : List Arrival) (results : List Result) (v : View) : Prop where
  fed : feedAll sys {} log = .ok (results, v.session)
  history : v.packetHistory = (records log results).rtake maxPacketHistory
  total : v.totalPackets = UInt64.ofNat log.length
  packets : ∀ protocol, (v.protocolCounts.lookup protocol).getD 0 = UInt64.ofNat (withProtocol protocol results).length
  bytes : ∀ protocol, (v.protocolBytes.lookup protocol).getD 0 = bytesOf (withProtocol protocol results)
  services : ∀ service, service ≠ "" → (withService service results).length < 2 ^ 31 →
    ((v.appCounts.lookup service).getD 0).toInt = (withService service results).length
  named : v.appCounts.lookup "" = none

section Lemmas

variable {a : Arrival} {result : Result}

theorem records_concat (h : log.length = results.length) : records (log ++ [a]) (results ++ [result]) =
    records log results ++ [⟨a.packet, result.parsed, result.process⟩] := by
  rw [records, List.zipWith_append h]
  rfl

theorem withProtocol_concat (protocol : String) : withProtocol protocol (results ++ [result]) =
    if result.parsed.protocol = protocol then withProtocol protocol results ++ [result]
    else withProtocol protocol results := by
  rw [withProtocol, List.filter_append]
  split <;> simp [*, withProtocol]

theorem withService_concat (service : String) : withService service (results ++ [result]) =
    if result.parsed.service = service then withService service results ++ [result]
    else withService service results := by
  rw [withService, List.filter_append]
  split <;> simp [*, withService]

theorem bytesOf_concat : bytesOf (results ++ [result]) = bytesOf results + UInt64.ofNat result.parsed.length := by
  simp [bytesOf]

theorem lookup_bump (table : Table String UInt64) (key key' : String) (n : UInt64) :
    ((bump table key n).lookup key').getD 0 =
      if key = key' then (table.lookup key').getD 0 + n else (table.lookup key').getD 0 := by
  rw [bump]
  split
  · rename_i h
    rw [← h, AList.lookup_insert]
    rfl
  · rename_i h
    rw [AList.lookup_insert_ne (Ne.symm h)]

theorem toInt_add_one {x : Int32} {n : ℕ} (h : x.toInt = n) (hn : n + 1 < 2 ^ 31) : (x + 1).toInt = (n + 1 : ℕ) := by
  have hx : x = Int32.ofNat n := Int32.toInt.inj (h.trans (Int32.toInt_ofNat_of_lt (by omega)).symm)
  calc (x + 1).toInt = (Int32.ofNat (n + 1)).toInt := by rw [hx, Int32.ofNat_add]; rfl
    _ = (n + 1 : ℕ) := Int32.toInt_ofNat_of_lt hn

theorem Shows.length_eq (h : Shows sys log results v) : log.length = results.length := by
  obtain ⟨r, hrun, hall, -⟩ := feedAll_safe sys log (s := {}) QuicTracker.aligned_empty
  obtain rfl : r = (results, v.session) := Except.ok.inj (hrun.symm.trans h.fed)
  exact hall.length_eq

theorem Shows.aligned (h : Shows sys log results v) : QuicTracker.Aligned v.session.quicTracker := by
  obtain ⟨r, hrun, -, hal, -⟩ := feedAll_safe sys log (s := {}) QuicTracker.aligned_empty
  obtain rfl : r = (results, v.session) := Except.ok.inj (hrun.symm.trans h.fed)
  exact hal

/-- An event that leaves the table and the counters alone. -/
theorem Shows.frame (h : Shows sys log results v) (hsession : v'.session = v.session)
    (hhistory : v'.packetHistory = v.packetHistory) (htotal : v'.totalPackets = v.totalPackets)
    (hpackets : v'.protocolCounts = v.protocolCounts) (hbytes : v'.protocolBytes = v.protocolBytes)
    (hservices : v'.appCounts = v.appCounts) : Shows sys log results v' := by
  refine ⟨?_, ?_, ?_, ?_, ?_, ?_, ?_⟩
  · rw [hsession]
    exact h.fed
  · rw [hhistory]
    exact h.history
  · rw [htotal]
    exact h.total
  · rw [hpackets]
    exact h.packets
  · rw [hbytes]
    exact h.bytes
  · rw [hservices]
    exact h.services
  · rw [hservices]
    exact h.named

/-- A packet comes in. -/
theorem Shows.ingest (h : Shows sys log results v) (hi : CaptureView.ingest sys v a = .ok v') :
    ∃ result, Shows sys (log ++ [a]) (results ++ [result]) v' := by
  obtain ⟨⟨result, session⟩, hfeed, hv⟩ := bind_eq_ok.mp hi
  obtain rfl := Except.ok.inj hv
  refine ⟨result, ⟨feedAll_concat h.fed hfeed, ?_, ?_, fun protocol => ?_, fun protocol => ?_,
    fun service hs hfew => ?_, ?_⟩⟩
  · rw [records_concat h.length_eq, ← Window.keep_rtake (by decide), ← h.history]
  · show v.totalPackets + 1 = _
    rw [h.total, List.length_append, UInt64.ofNat_add]
    rfl
  · show ((bump v.protocolCounts _ _).lookup protocol).getD 0 = _
    rw [lookup_bump, h.packets, withProtocol_concat]
    split
    · rw [List.length_append, UInt64.ofNat_add]
      rfl
    · rfl
  · show ((bump v.protocolBytes _ _).lookup protocol).getD 0 = _
    rw [lookup_bump, h.bytes, withProtocol_concat]
    split
    · rw [bytesOf_concat]
    · rfl
  · dsimp only
    rw [withService_concat] at hfew ⊢
    by_cases hservice : result.parsed.service = service
    · rw [if_pos hservice, List.length_append] at hfew ⊢
      rw [hservice, if_pos hs, AList.lookup_insert, Option.getD_some]
      exact toInt_add_one (h.services service hs (Nat.lt_of_succ_lt hfew)) hfew
    · rw [if_neg hservice] at hfew ⊢
      split
      · rw [AList.lookup_insert_ne (Ne.symm hservice), h.services service hs hfew]
      · exact h.services service hs hfew
  · dsimp only
    split
    · rename_i hne
      rw [AList.lookup_insert_ne (Ne.symm hne), h.named]
    · exact h.named

theorem shows_clear (v : View) (currentTime : ℚ) : Shows sys [] [] (clearCaptureView currentTime v) where
  fed := rfl
  history := rfl
  total := rfl
  packets _ := rfl
  bytes _ := rfl
  services _ _ _ := rfl
  named := rfl

end Lemmas

/-- The refresh of the flow table touches only what belongs to it. -/
theorem refreshFlowsCache_frame {now : ℚ} {nowMicroseconds : ℤ} (h : refreshFlowsCache now nowMicroseconds v = .ok v') :
    v' = { v with
      flowsCache := v'.flowsCache, gui := v'.gui, geoIPResolver := v'.geoIPResolver
      lastFlowsRefresh := v'.lastFlowsRefresh, maxFlowBytes := v'.maxFlowBytes
      activeFlowCount := v'.activeFlowCount, flowSortDirty := v'.flowSortDirty } := by
  unfold refreshFlowsCache at h
  split at h
  · exact Except.ok.inj h ▸ rfl
  · obtain ⟨⟨geo, resolver, most⟩, -, h⟩ := bind_eq_ok.mp h
    exact Except.ok.inj h ▸ rfl

/-- The flow table is that of the session, or not refreshed yet. -/
theorem refreshFlowsCache_flows {now : ℚ} {nowMicroseconds : ℤ} (h : refreshFlowsCache now nowMicroseconds v = .ok v') :
    v'.flowsCache = v.flowsCache ∨ v'.flowsCache = AnalysisSession.flows v.session nowMicroseconds := by
  unfold refreshFlowsCache at h
  split at h
  · exact .inl (Except.ok.inj h ▸ rfl)
  · obtain ⟨⟨geo, resolver, most⟩, -, h⟩ := bind_eq_ok.mp h
    exact .inr (Except.ok.inj h ▸ rfl)

theorem sampleFlowRate_frame (now : ℚ) (v : View) : sampleFlowRate now v = { v with
    flowRateKey := (sampleFlowRate now v).flowRateKey
    flowRateHistory := (sampleFlowRate now v).flowRateHistory
    lastFlowSampleTime := (sampleFlowRate now v).lastFlowSampleTime } := by
  unfold sampleFlowRate
  split
  · dsimp only
    split_ifs <;> rfl
  · split_ifs <;> rfl

theorem resolveRows_frame (v : View) : resolveRows v = { v with
    filterCacheHistoryVersion := (resolveRows v).filterCacheHistoryVersion
    filterCacheSignature := (resolveRows v).filterCacheSignature
    filteredPacketIndexes := (resolveRows v).filteredPacketIndexes } := by
  unfold resolveRows
  dsimp only
  split_ifs <;> rfl

theorem select_frame (row : ℕ) (v : View) :
    select row v = { v with selectedPacketIndex := (select row v).selectedPacketIndex } := by
  unfold select
  split <;> rfl

/-- What a step shows. -/
theorem Shows.step (h : Shows sys log results v) (hs : Step sys v e v') :
    ∃ results', Shows sys (logStep log e) results' v' := by
  cases hs with
  | ingest hi =>
    obtain ⟨result, h'⟩ := h.ingest hi
    exact ⟨_, h'⟩
  | clear currentTime => exact ⟨[], shows_clear v currentTime⟩
  | updateCharts | resume | typeFilter | filterFlow | deselect | sortBy | sort | exportLookup =>
    exact ⟨results, h.frame rfl rfl rfl rfl rfl rfl⟩
  | resolveRows =>
    rw [resolveRows_frame v]
    exact ⟨results, h.frame rfl rfl rfl rfl rfl rfl⟩
  | select row =>
    rw [select_frame row, resolveRows_frame v]
    exact ⟨results, h.frame rfl rfl rfl rfl rfl rfl⟩
  | sample now =>
    rw [sampleFlowRate_frame now v]
    exact ⟨results, h.frame rfl rfl rfl rfl rfl rfl⟩
  | refresh hr =>
    rw [refreshFlowsCache_frame hr]
    exact ⟨results, h.frame rfl rfl rfl rfl rfl rfl⟩

variable {database : GeoIPResolver.Database} {cacheCapacity : ℕ}

theorem shows_init (sys : Platform) (database : GeoIPResolver.Database) (cacheCapacity : ℕ) :
    Shows sys [] [] (init database cacheCapacity) where
  fed := rfl
  history := rfl
  total := rfl
  packets _ := rfl
  bytes _ := rfl
  services _ _ _ := rfl
  named := rfl

theorem logOf_concat (events : List Event) (e : Event) : logOf (events ++ [e]) = logStep (logOf events) e := by
  rw [logOf, List.foldl_append]
  rfl

theorem Run.shows (h : Run sys (init database cacheCapacity) events v) :
    ∃ results, Shows sys (logOf events) results v := by
  induction h with
  | start => exact ⟨[], shows_init sys database cacheCapacity⟩
  | step _ hs ih =>
    obtain ⟨results, hshows⟩ := ih
    rw [logOf_concat]
    exact hshows.step hs

/-- The next packet can always be taken. -/
theorem Shows.takes (h : Shows sys log results v) (a : Arrival) : ∃ v', CaptureView.ingest sys v a = .ok v' := by
  obtain ⟨⟨result, session⟩, hfeed, -⟩ := feed_safe sys h.aligned a.packet a.lookupProcess
  exact ⟨_, by rw [CaptureView.ingest, hfeed]; rfl⟩

theorem Run.takes (h : Run sys (init database cacheCapacity) events v) (a : Arrival) :
    ∃ v', CaptureView.ingest sys v a = .ok v' ∧ Run sys (init database cacheCapacity) (events ++ [.ingest a]) v' := by
  obtain ⟨results, hshows⟩ := h.shows
  obtain ⟨v', hv⟩ := hshows.takes a
  exact ⟨v', hv, h.step (.ingest hv)⟩

/-- **The window shows the packets since it was last cleared**, whatever else was
done in between, and can take the next one. -/
theorem run_shows (h : Run sys (init database cacheCapacity) events v) :
    (∃ results, Shows sys (logOf events) results v) ∧ ∀ a, ∃ v', Step sys v (.ingest a) v' := by
  obtain ⟨results, hshows⟩ := h.shows
  refine ⟨⟨results, hshows⟩, fun a => ?_⟩
  obtain ⟨v', hv⟩ := hshows.takes a
  exact ⟨v', .ingest hv⟩

/-- No GeoIP database is installed. -/
def noDatabase : GeoIPResolver.Database := ⟨false, false, fun _ => none, fun _ => none⟩

/-- A segment of a client, without payload. -/
def ack : Arrival := AnalysisSession.Web.arrival (AnalysisSession.Web.frame 1 []) 54 (by decide)

/-- A request of another flow, to a host that it names. -/
def request : Arrival := AnalysisSession.Web.elsewhere AnalysisSession.Web.request

/-- After a clear only what came later is shown. -/
theorem run_shows_cleared : ∃ v results,
    Run AnalysisSession.Web.sys (init noDatabase 8) ([.ingest ack, .clear 1] ++ [.ingest ack]) v ∧
      Shows AnalysisSession.Web.sys [ack] results v := by
  obtain ⟨v₁, h₁⟩ := (run_shows (@Run.start AnalysisSession.Web.sys (init noDatabase 8))).2 ack
  have hcleared := (Run.start.step h₁).step (.clear 1)
  obtain ⟨v₂, h₂⟩ := (run_shows hcleared).2 ack
  obtain ⟨results, hshows⟩ := (run_shows (hcleared.step h₂)).1
  exact ⟨v₂, results, hcleared.step h₂, hshows⟩

/-! ### What is charted -/

/-- The packets since the window was last cleared: those of the intervals that
have a point, those of the intervals a pause cut short, those since. -/
structure Chart where
  charted : List (ℚ × List PacketData) := []
  dropped : List PacketData := []
  pending : List PacketData := []

def chartStep (c : Chart) : Event → Chart
  | .ingest a => { c with pending := c.pending ++ [a.packet] }
  | .updateCharts currentTime => { c with charted := c.charted ++ [(currentTime, c.pending)], pending := [] }
  | .resume _ => { c with dropped := c.dropped ++ c.pending, pending := [] }
  | .clear _ => {}
  | _ => c

def chartOf (events : List Event) : Chart := events.foldl chartStep {}

/-- The wire bytes of the packets. -/
def octets (packets : List PacketData) : UInt64 := (packets.map fun packet => UInt64.ofNat packet.length).sum

/-- The packets that `parse` gives the protocol. -/
def ofProtocol (sys : Platform) (protocol : String) (packets : List PacketData) : List PacketData :=
  packets.filter fun packet => match parse sys packet with
    | .ok parsed => parsed.protocol = protocol
    | .error _ => false

/-- One chart and the bytes of the interval that is not over. -/
structure Plots (amount : List PacketData → UInt64) (c : Chart) (b : ScrollingBuffer ℚ UInt64) (n : UInt64) : Prop where
  points : b.Holds (c.charted.map fun i => (i.1, amount i.2))
  room : b.MaxSize = 2000
  pending : n = amount c.pending

structure Charts (sys : Platform) (c : Chart) (v : View) : Prop where
  all : Plots octets c v.bandwidthData v.bytesThisSec
  tcp : Plots (fun packets => octets (ofProtocol sys "TCP" packets)) c v.tcpBandwidth v.tcpBytesThisSec
  udp : Plots (fun packets => octets (ofProtocol sys "UDP" packets)) c v.udpBandwidth v.udpBytesThisSec

section Plots

variable {amount : List PacketData → UInt64} {c : Chart} {b : ScrollingBuffer ℚ UInt64} {n : UInt64}

theorem plots_empty (h : amount [] = 0) : Plots amount {} { MaxSize := 2000, room := by decide } 0 :=
  ⟨⟨.empty _, .empty _, by decide⟩, rfl, h.symm⟩

theorem Plots.ingest (h : Plots amount c b n) (a : Arrival) {m : UInt64} (hm : m = amount (c.pending ++ [a.packet])) :
    Plots amount (chartStep c (.ingest a)) b m := ⟨h.points, h.room, hm⟩

theorem Plots.updateCharts (h : Plots amount c b n) (h0 : amount [] = 0) (currentTime : ℚ) :
    Plots amount (chartStep c (.updateCharts currentTime)) (b.AddPoint currentTime n) 0 := by
  refine ⟨?_, (ScrollingBuffer.addPoint_maxSize b _ _).trans h.room, h0.symm⟩
  rw [chartStep, List.map_append, h.pending]
  exact h.points.addPoint currentTime (amount c.pending)

theorem Plots.resume (h : Plots amount c b n) (h0 : amount [] = 0) (currentTime : ℚ) :
    Plots amount (chartStep c (.resume currentTime)) b 0 := ⟨h.points, h.room, h0.symm⟩

theorem Plots.clear (h : Plots amount c b n) (h0 : amount [] = 0) (currentTime : ℚ) :
    Plots amount (chartStep c (.clear currentTime)) b.Erase 0 :=
  ⟨ScrollingBuffer.holds_erase b h.points, (ScrollingBuffer.erase_maxSize b).trans h.room, h0.symm⟩

/-- The points drawn are those of the last 2000 intervals. -/
theorem Plots.drawn (h : Plots amount c b n) : b.linearizeBuffer =
    ((c.charted.rtake 2000).map (·.1), (c.charted.rtake 2000).map fun i => amount i.2) := by
  rw [h.points.linearizeBuffer, h.room, List.rtake, List.rtake, List.length_map, ← List.map_drop, List.map_map,
    List.map_map]
  rfl

end Plots

theorem octets_concat (packets : List PacketData) (packet : PacketData) :
    octets (packets ++ [packet]) = octets packets + UInt64.ofNat packet.length := by simp [octets]

theorem octets_ofProtocol_concat {parsed : ParsedPacket} {packet : PacketData} (hp : parse sys packet = .ok parsed)
    (protocol : String) (packets : List PacketData) : octets (ofProtocol sys protocol (packets ++ [packet])) =
      if parsed.protocol = protocol then octets (ofProtocol sys protocol packets) + UInt64.ofNat packet.length
      else octets (ofProtocol sys protocol packets) := by
  rw [ofProtocol, List.filter_append, List.filter_singleton, hp]
  dsimp only
  split
  · rename_i heq
    rw [decide_eq_true heq, cond_true, octets_concat]
    rfl
  · rename_i hne
    rw [decide_eq_false hne, cond_false, List.append_nil]
    rfl

theorem charts_init (sys : Platform) (database : GeoIPResolver.Database) (cacheCapacity : ℕ) :
    Charts sys {} (init database cacheCapacity) :=
  ⟨plots_empty rfl, plots_empty rfl, plots_empty rfl⟩

/-- An event that leaves the charts alone. -/
theorem Charts.frame {c : Chart} (h : Charts sys c v) (hband : v'.bandwidthData = v.bandwidthData)
    (htcp : v'.tcpBandwidth = v.tcpBandwidth) (hudp : v'.udpBandwidth = v.udpBandwidth)
    (hbytes : v'.bytesThisSec = v.bytesThisSec) (htcpBytes : v'.tcpBytesThisSec = v.tcpBytesThisSec)
    (hudpBytes : v'.udpBytesThisSec = v.udpBytesThisSec) : Charts sys c v' := by
  refine ⟨?_, ?_, ?_⟩
  · rw [hband, hbytes]
    exact h.all
  · rw [htcp, htcpBytes]
    exact h.tcp
  · rw [hudp, hudpBytes]
    exact h.udp

/-- The bytes of a packet are added to the interval, and to that of its protocol. -/
theorem Charts.ingest {c : Chart} {a : Arrival} (h : Charts sys c v) (hal : QuicTracker.Aligned v.session.quicTracker)
    (hi : CaptureView.ingest sys v a = .ok v') : Charts sys (chartStep c (.ingest a)) v' := by
  obtain ⟨⟨result, session⟩, hfeed, hv⟩ := bind_eq_ok.mp hi
  obtain rfl := Except.ok.inj hv
  obtain ⟨⟨parsed, hparse, hrecovers⟩, -⟩ := (feed_safe sys hal a.packet a.lookupProcess).elim hfeed
  have hlength : result.parsed.length = a.packet.length := by
    obtain ⟨sni, service, hq⟩ := hrecovers.frame
    have hparsed : parsed.length = a.packet.length := (parse_length sys a.packet).elim hparse
    rw [hq]
    exact hparsed
  have hprotocol : result.parsed.protocol = parsed.protocol := by
    obtain ⟨sni, service, hq⟩ := hrecovers.frame
    rw [hq]
  refine ⟨h.all.ingest a ?_, h.tcp.ingest a ?_, h.udp.ingest a ?_⟩
  · rw [octets_concat, ← h.all.pending, ← hlength]
  · rw [octets_ofProtocol_concat hparse, ← h.tcp.pending, ← hlength, ← hprotocol]
  · rw [octets_ofProtocol_concat hparse, ← h.udp.pending, ← hlength, ← hprotocol]
    dsimp only
    split_ifs with htcp hudp
    · exact absurd (htcp.symm.trans hudp) (by decide)
    · rfl
    · rfl
    · rfl

theorem Charts.step {c : Chart} (h : Charts sys c v) (hshows : Shows sys log results v) (hs : Step sys v e v') :
    Charts sys (chartStep c e) v' := by
  cases hs with
  | ingest hi => exact h.ingest hshows.aligned hi
  | updateCharts _ =>
    exact ⟨h.all.updateCharts rfl _, h.tcp.updateCharts rfl _, h.udp.updateCharts rfl _⟩
  | resume currentTime => exact ⟨h.all.resume rfl currentTime, h.tcp.resume rfl currentTime,
      h.udp.resume rfl currentTime⟩
  | clear currentTime => exact ⟨h.all.clear rfl currentTime, h.tcp.clear rfl currentTime, h.udp.clear rfl currentTime⟩
  | typeFilter | filterFlow | deselect | sortBy | sort | exportLookup => exact h.frame rfl rfl rfl rfl rfl rfl
  | resolveRows =>
    rw [resolveRows_frame v]
    exact h.frame rfl rfl rfl rfl rfl rfl
  | select row =>
    rw [select_frame row, resolveRows_frame v]
    exact h.frame rfl rfl rfl rfl rfl rfl
  | sample now =>
    rw [sampleFlowRate_frame now v]
    exact h.frame rfl rfl rfl rfl rfl rfl
  | refresh hr =>
    rw [refreshFlowsCache_frame hr]
    exact h.frame rfl rfl rfl rfl rfl rfl

theorem chartOf_concat (events : List Event) (e : Event) : chartOf (events ++ [e]) = chartStep (chartOf events) e := by
  rw [chartOf, List.foldl_append]
  rfl

theorem Run.charts (h : Run sys (init database cacheCapacity) events v) : Charts sys (chartOf events) v := by
  induction h with
  | start => exact charts_init sys database cacheCapacity
  | step h hs ih =>
    obtain ⟨results, hshows⟩ := h.shows
    rw [chartOf_concat]
    exact ih.step hshows hs

/-- The packets of a chart, each once. -/
def Chart.packets (c : Chart) : List PacketData := c.charted.flatMap (·.2) ++ c.dropped ++ c.pending

theorem chartStep_packets {c : Chart} (h : c.packets.Perm (log.map (·.packet))) (e : Event) :
    (chartStep c e).packets.Perm ((logStep log e).map (·.packet)) := by
  cases e with
  | ingest a =>
    rw [logStep, List.map_append, chartStep, Chart.packets, ← List.append_assoc]
    exact h.append_right _
  | updateCharts currentTime =>
    rw [chartStep, Chart.packets, List.flatMap_append, List.append_nil, List.flatMap_singleton, List.append_assoc]
    refine List.Perm.trans ?_ h
    rw [Chart.packets, List.append_assoc]
    exact List.perm_append_comm.append_left _
  | resume currentTime =>
    rw [chartStep, Chart.packets, List.append_nil, ← List.append_assoc]
    exact h
  | clear currentTime => exact .refl _
  | typeFilter | filterFlow | resolveRows | select | deselect | refresh | sample | sortBy | sort | exportLookup => exact h

/-- **The charts draw the last 2000 intervals**, each with the wire bytes of its
packets, and every packet since the window was cleared is in one interval. -/
theorem run_charts (h : Run sys (init database cacheCapacity) events v) :
    (chartOf events).packets.Perm ((logOf events).map (·.packet)) ∧
      let drawn := (chartOf events).charted.rtake 2000
      v.bandwidthData.linearizeBuffer = (drawn.map (·.1), drawn.map fun i => octets i.2) ∧
      v.tcpBandwidth.linearizeBuffer = (drawn.map (·.1), drawn.map fun i => octets (ofProtocol sys "TCP" i.2)) ∧
      v.udpBandwidth.linearizeBuffer = (drawn.map (·.1), drawn.map fun i => octets (ofProtocol sys "UDP" i.2)) := by
  refine ⟨?_, h.charts.all.drawn, h.charts.tcp.drawn, h.charts.udp.drawn⟩
  clear h
  induction events using List.reverseRecOn with
  | nil => exact .refl _
  | append_singleton events e ih =>
    rw [chartOf_concat, logOf_concat]
    exact chartStep_packets ih e

theorem ingest_lastUpdateTime {a : Arrival} (h : ingest sys v a = .ok v') : v'.lastUpdateTime = v.lastUpdateTime := by
  obtain ⟨r, -, hr⟩ := bind_eq_ok.mp h
  rw [← Except.ok.inj hr]

/-- An interval with a segment and a DNS response, a request that a pause cuts
off, and an interval of two flows. -/
theorem run_charts_paused : ∃ v, Run AnalysisSession.Web.sys (init noDatabase 8) [.ingest ack, .ingest answered,
      .updateCharts 1, .ingest request, .resume 2, .ingest request, .ingest ack, .updateCharts 3] v ∧
    v.bandwidthData.linearizeBuffer = ([1, 3], [133, 145]) ∧ v.tcpBandwidth.linearizeBuffer = ([1, 3], [54, 145]) ∧
    v.udpBandwidth.linearizeBuffer = ([1, 3], [79, 0]) := by
  obtain ⟨v₁, hv₁, h⟩ := (@Run.start AnalysisSession.Web.sys (init noDatabase 8)).takes ack
  obtain ⟨v₂, hv₂, h⟩ := h.takes answered
  have hfirst : v₂.lastUpdateTime = 0 := (ingest_lastUpdateTime hv₂).trans (ingest_lastUpdateTime hv₁)
  replace h := h.step (@Step.updateCharts _ v₂ 1 (by rw [hfirst]; norm_num))
  obtain ⟨v₃, -, h⟩ := h.takes request
  replace h := h.step (.resume 2)
  obtain ⟨v₄, hv₄, h⟩ := h.takes request
  obtain ⟨v₅, hv₅, h⟩ := h.takes ack
  have hlast : v₅.lastUpdateTime = 2 := (ingest_lastUpdateTime hv₅).trans (ingest_lastUpdateTime hv₄)
  replace h := h.step (@Step.updateCharts _ v₅ 3 (by rw [hlast]; norm_num))
  obtain ⟨-, hall, htcp, hudp⟩ := run_charts h
  exact ⟨_, h, hall.trans (by decide +kernel), htcp.trans (by decide +kernel), hudp.trans (by decide +kernel)⟩

end CaptureView
end NetProbe
