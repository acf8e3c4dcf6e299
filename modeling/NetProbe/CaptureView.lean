/-
# CaptureView

What the GUI keeps of the packets it has analysed: the table of the last
packets, its filters and its selected row, the counters, the charts, and the
table of flows. One frame of the program is a few of the events here; a click
comes with the row it is on, a clock reading with its value, and what `std::sort`
may leave of a list is said by `SortFlowsCache`.

Key definitions: `ScrollingBuffer`, `View`, `ingest`, `resolveRows`, `refreshFlowsCache`, `Step`, `Run`.
-/
import NetProbe.AnalysisSession
import NetProbe.FlowsView
import NetProbe.SessionRuns
import NetProbe.Window

namespace NetProbe

open Checked

/-! ### Charts -/

/-- Points on a time axis, in an array that is written round and round. -/
structure ScrollingBuffer (X Y : Type) where
  MaxSize : ℕ
  Offset : ℕ := 0
  Data : List Y := []
  Time : List X := []
  room : 0 < MaxSize

namespace ScrollingBuffer

variable {X Y : Type}

def AddPoint (b : ScrollingBuffer X Y) (x : X) (y : Y) : ScrollingBuffer X Y :=
  if b.Data.length < b.MaxSize then { b with Data := b.Data ++ [y], Time := b.Time ++ [x] }
  else { b with
    Data := b.Data.set b.Offset y
    Time := b.Time.set b.Offset x
    Offset := (b.Offset + 1) % b.MaxSize }

def Erase (b : ScrollingBuffer X Y) : ScrollingBuffer X Y :=
  if b.Data.length > 0 then { b with Data := [], Time := [], Offset := 0 } else b

/-- The points in the order they came in: their times and their values. -/
def linearizeBuffer (b : ScrollingBuffer X Y) : List X × List Y :=
  let sampleCount := b.Data.length
  if sampleCount = 0 then ([], [])
  else
    let start := if sampleCount = b.MaxSize then b.Offset else 0
    let index (i : ℕ) : ℕ := (start + i) % sampleCount
    ((List.range sampleCount).filterMap fun i => b.Time[index i]?,
      (List.range sampleCount).filterMap fun i => b.Data[index i]?)

end ScrollingBuffer

namespace CaptureView

open AnalysisSession (Session Arrival feed)
open FlowExporter (host)

/-! ### The state -/

structure PacketRecord where
  raw : PacketData
  parsed : ParsedPacket
  process : String

def UINT64_MAX : UInt64 := UInt64.ofNat (2 ^ 64 - 1)

def maxPacketHistory : ℕ := 10000

/-- The presentation state of `GuiLayer`. The charts and the sparkline hold exact
times and numbers of bytes, which the program casts to `float`, those of the
charts as megabytes a second. -/
structure View where
  session : Session := {}
  packetHistory : List PacketRecord := []
  packetHistoryVersion : UInt64 := 0
  /-- A place in `packetHistory`, or -1. -/
  selectedPacketIndex : ℤ := -1
  packetFlowFilter : Option FlowKey := none
  displayFilter : String := ""
  filteredPacketIndexes : List ℕ := []
  filterCacheSignature : String := ""
  filterCacheHistoryVersion : UInt64 := UINT64_MAX
  /-- The sibling of `protocolCounts` with an `int`, which overflows at 2^31 packets. -/
  appCounts : Table String Int32 := ∅
  protocolCounts : Table String UInt64 := ∅
  protocolBytes : Table String UInt64 := ∅
  bandwidthData : ScrollingBuffer ℚ UInt64 := { MaxSize := 2000, room := by decide }
  tcpBandwidth : ScrollingBuffer ℚ UInt64 := { MaxSize := 2000, room := by decide }
  udpBandwidth : ScrollingBuffer ℚ UInt64 := { MaxSize := 2000, room := by decide }
  lastUpdateTime : ℚ := 0
  bytesThisSec : UInt64 := 0
  tcpBytesThisSec : UInt64 := 0
  udpBytesThisSec : UInt64 := 0
  totalPackets : UInt64 := 0
  flowsCache : List Flow := []
  /-- `m_flowGeoCache`, `m_flowSortColumn` and `m_flowSortAscending`. -/
  gui : GuiLayer := {}
  geoIPResolver : GeoIPResolver.Resolver
  lastFlowsRefresh : ℚ := -1
  maxFlowBytes : UInt64 := 0
  activeFlowCount : ℕ := 0
  flowSortDirty : Bool := true
  flowRateHistory : ScrollingBuffer ℚ UInt64 := { MaxSize := 240, room := by decide }
  flowRateKey : Option FlowKey := none
  lastFlowSampleTime : ℚ := 0

/-- The view of a new window. -/
def init (database : GeoIPResolver.Database) (cacheCapacity : ℕ) : View :=
  { geoIPResolver := GeoIPResolver.make database cacheCapacity }

/-! ### Packets -/

/-- `table[key] += n` -/
def bump (table : Table String UInt64) (key : String) (n : UInt64) : Table String UInt64 :=
  table.insert key ((table.lookup key).getD 0 + n)

/-- One turn of the loop of `processQueue`, with a packet from the queue. -/
def ingest (sys : Platform) (v : View) (a : Arrival) : Checked View := do
  let (analyzed, session) ← feed sys v.session a.packet a.lookupProcess
  let full := v.packetHistory.length ≥ maxPacketHistory
  let stored := analyzed.parsed
  let length := UInt64.ofNat stored.length
  return { v with
    session
    packetHistory := Window.keep maxPacketHistory v.packetHistory ⟨a.packet, stored, analyzed.process⟩
    packetHistoryVersion := v.packetHistoryVersion + 1
    selectedPacketIndex :=
      if full ∧ v.selectedPacketIndex ≥ 0 then v.selectedPacketIndex - 1 else v.selectedPacketIndex
    totalPackets := v.totalPackets + 1
    bytesThisSec := v.bytesThisSec + length
    tcpBytesThisSec := if stored.protocol = "TCP" then v.tcpBytesThisSec + length else v.tcpBytesThisSec
    udpBytesThisSec :=
      if stored.protocol = "TCP" then v.udpBytesThisSec
      else if stored.protocol = "UDP" then v.udpBytesThisSec + length else v.udpBytesThisSec
    protocolCounts := bump v.protocolCounts stored.protocol 1
    protocolBytes := bump v.protocolBytes stored.protocol length
    appCounts :=
      if stored.service ≠ "" then v.appCounts.insert stored.service ((v.appCounts.lookup stored.service).getD 0 + 1)
      else v.appCounts }

/-- The rest of `processQueue`, once half a second has passed. -/
def updateCharts (currentTime : ℚ) (v : View) : View := { v with
  bandwidthData := v.bandwidthData.AddPoint currentTime v.bytesThisSec
  tcpBandwidth := v.tcpBandwidth.AddPoint currentTime v.tcpBytesThisSec
  udpBandwidth := v.udpBandwidth.AddPoint currentTime v.udpBytesThisSec
  bytesThisSec := 0
  tcpBytesThisSec := 0
  udpBytesThisSec := 0
  lastUpdateTime := currentTime }

/-- What `setPaused(false)` does to the view. -/
def resume (currentTime : ℚ) (v : View) : View :=
  { v with bytesThisSec := 0, tcpBytesThisSec := 0, udpBytesThisSec := 0, lastUpdateTime := currentTime }

def clearCaptureView (currentTime : ℚ) (v : View) : View := { v with
  packetHistory := []
  packetHistoryVersion := v.packetHistoryVersion + 1
  filteredPacketIndexes := []
  filterCacheHistoryVersion := UINT64_MAX
  flowsCache := []
  gui := { v.gui with flowGeoCache := ∅ }
  lastFlowsRefresh := -1
  maxFlowBytes := 0
  activeFlowCount := 0
  selectedPacketIndex := -1
  appCounts := ∅
  protocolCounts := ∅
  protocolBytes := ∅
  session := {}
  packetFlowFilter := none
  flowRateHistory := v.flowRateHistory.Erase
  flowRateKey := none
  bandwidthData := v.bandwidthData.Erase
  tcpBandwidth := v.tcpBandwidth.Erase
  udpBandwidth := v.udpBandwidth.Erase
  bytesThisSec := 0
  tcpBytesThisSec := 0
  udpBytesThisSec := 0
  totalPackets := 0
  lastUpdateTime := currentTime }

/-! ### The packet table -/

/-- Case-insensitive search; the needle is already lowercase. -/
def containsCI (haystack needleLower : String) : Bool :=
  (haystack.toList.map Char.toLower).tails.any fun tail => needleLower.toList.isPrefixOf tail

def packetMatchesDisplayFilter (s : Session) (packet : ParsedPacket) (needle : String) : Bool :=
  needle = "" || containsCI packet.srcIP needle || containsCI packet.dstIP needle
    || containsCI packet.protocol needle || containsCI packet.service needle || containsCI packet.sni needle
    || containsCI packet.hostname needle || containsCI packet.info needle || containsCI packet.tunnel needle
    || (packet.srcPort ≠ 0 && containsCI (toString packet.srcPort) needle)
    || (packet.dstPort ≠ 0 && containsCI (toString packet.dstPort) needle)
    || match s.hostnameCache.lookup packet.dstIP with
      | some hostname => containsCI hostname needle
      | none => false

def anyFilter (v : View) : Bool := v.packetFlowFilter.isSome || v.displayFilter ≠ ""

/-- The filters as one text, with a unit separator between them. -/
def signature (displayFilter : String) (packetFlowFilter : Option FlowKey) : String :=
  match packetFlowFilter with
  | none => displayFilter
  | some key => displayFilter ++ "\x1f" ++ key.srcIP ++ "|" ++ toString key.srcPort ++ "|" ++ key.dstIP ++ "|"
    ++ toString key.dstPort ++ "|" ++ key.protocol

/-- The row passes both filters. -/
def shownBy (s : Session) (displayFilter : String) (packetFlowFilter : Option FlowKey) (record : PacketRecord) : Bool :=
  (match packetFlowFilter with
    | some key => FlowAggregator.matchesKey record.parsed key
    | none => true)
  && (displayFilter = "" || packetMatchesDisplayFilter s record.parsed (DNSParser.toLower displayFilter))

/-- The places in the history of the rows that pass. -/
def passing (v : View) (displayFilter : String) (packetFlowFilter : Option FlowKey) : List ℕ :=
  (List.range v.packetHistory.length).filter fun index =>
    v.packetHistory[index]?.any (shownBy v.session displayFilter packetFlowFilter)

/-- The filtered rows are looked for again when the history or a filter has changed. -/
def resolveRows (v : View) : View :=
  if anyFilter v then
    let signature := signature v.displayFilter v.packetFlowFilter
    if v.filterCacheHistoryVersion ≠ v.packetHistoryVersion ∨ v.filterCacheSignature ≠ signature then { v with
      filterCacheHistoryVersion := v.packetHistoryVersion
      filterCacheSignature := signature
      filteredPacketIndexes := passing v v.displayFilter v.packetFlowFilter }
    else v
  else v

/-- The rows of the table, as places in the history. -/
def rows (v : View) : List ℕ :=
  if anyFilter v then v.filteredPacketIndexes else List.range v.packetHistory.length

/-- A click on a row. -/
def select (row : ℕ) (v : View) : View :=
  match (rows v)[row]? with
  | some packetIndex => { v with selectedPacketIndex := packetIndex }
  | none => v

/-- The packet that `renderPacketDetail` shows. -/
def detail (v : View) : Option PacketRecord :=
  if v.selectedPacketIndex < 0 ∨ v.selectedPacketIndex ≥ v.packetHistory.length then none
  else v.packetHistory[v.selectedPacketIndex.toNat]?

/-! ### The flow table -/

/-- One turn of the loop of `refreshFlowsCache`. -/
def cacheFlow (state : Table String GeoIPInfo × GeoIPResolver.Resolver × UInt64) (flow : Flow) :
    Checked (Table String GeoIPInfo × GeoIPResolver.Resolver × UInt64) := do
  let (geo, resolver, most) := state
  let (geo, resolver) ←
    if (geo.lookup flow.key.dstIP).isSome then pure (geo, resolver)
    else do
      let (info, resolver) ← GeoIPResolver.lookup resolver flow.key.dstIP
      pure (geo.insert flow.key.dstIP info, resolver)
  return (geo, resolver, max most (flow.bytesUp + flow.bytesDown))

/-- `now` is the time of the window, `nowMicroseconds` of the clock. -/
def refreshFlowsCache (now : ℚ) (nowMicroseconds : ℤ) (v : View) : Checked View :=
  if v.lastFlowsRefresh ≥ 0 ∧ now - v.lastFlowsRefresh < 1 / 2 then .ok v
  else do
    let flows := AnalysisSession.flows v.session nowMicroseconds
    let geo := if Table.size v.gui.flowGeoCache > 8192 then ∅ else v.gui.flowGeoCache
    let (flowGeoCache, geoIPResolver, maxFlowBytes) ← flows.foldlM cacheFlow (geo, v.geoIPResolver, 0)
    return { v with
      lastFlowsRefresh := now
      flowsCache := flows
      activeFlowCount := flows.length
      gui := { v.gui with flowGeoCache }
      geoIPResolver
      maxFlowBytes
      flowSortDirty := true }

/-- The selected flow, if the table has it. -/
def selectedFlow (v : View) : Option Flow :=
  v.packetFlowFilter.bind fun key => v.flowsCache.find? fun flow => flow.key = key

/-- The part of `renderFlowsTable` that samples the rate of the selected flow. -/
def sampleFlowRate (now : ℚ) (v : View) : View :=
  match selectedFlow v with
  | some flow =>
    let v :=
      if v.flowRateKey ≠ some flow.key then { v with
        flowRateKey := some flow.key
        flowRateHistory := v.flowRateHistory.Erase
        lastFlowSampleTime := 0 }
      else v
    if now - v.lastFlowSampleTime ≥ 1 / 2 then { v with
      flowRateHistory := v.flowRateHistory.AddPoint now flow.rateBytesPerSecond
      lastFlowSampleTime := now }
    else v
  | none =>
    if v.flowRateKey.isSome then { v with flowRateKey := none, flowRateHistory := v.flowRateHistory.Erase } else v

/-- A click on a column. -/
def sortBy (column : ℤ) (ascending : Bool) (v : View) : View :=
  { v with gui := { v.gui with flowSortColumn := column, flowSortAscending := ascending }, flowSortDirty := true }

/-! ### Statistics -/

structure Talker where
  host : String := ""
  bytes : UInt64 := 0
  packets : UInt64 := 0
  flows : Int32 := 0
  deriving DecidableEq

/-- One turn of the loop of `renderStatsView`, with the talker under the host of the flow. -/
def addFlow (talker : Option Talker) (flow : Flow) : Talker :=
  let talker := talker.getD {}
  { host := host flow
    bytes := talker.bytes + (flow.bytesUp + flow.bytesDown)
    packets := talker.packets + flow.packets
    flows := talker.flows + 1 }

def byHost (flows : List Flow) : Table String Talker :=
  flows.foldl (fun byHost flow => byHost.insert (host flow) (addFlow (byHost.lookup (host flow)) flow)) ∅

def totalBytes (flows : List Flow) : UInt64 :=
  flows.foldl (fun totalBytes flow => totalBytes + (flow.bytesUp + flow.bytesDown)) 0

/-- `talkers` may be the list of top talkers: the table is in any order before it is sorted. -/
def TopTalkers (flows : List Flow) (talkers : List Talker) : Prop :=
  ∃ listed sorted, listed.Perm ((byHost flows).entries.map (·.2)) ∧
    Sorting.Sorts (fun a b : Talker => a.bytes > b.bytes) listed sorted ∧ talkers = sorted.take 15

/-! ### Steps -/

inductive Event
  | ingest (a : Arrival)
  | updateCharts (currentTime : ℚ)
  | resume (currentTime : ℚ)
  | clear (currentTime : ℚ)
  | typeFilter (text : String)
  | filterFlow (key : Option FlowKey)
  | resolveRows
  | select (row : ℕ)
  | deselect
  | refresh (now : ℚ) (nowMicroseconds : ℤ)
  | sample (now : ℚ)
  | sortBy (column : ℤ) (ascending : Bool)
  | sort (sorted : List Flow)
  | exportLookup (ip : String)

/-- The key is one the window shows: of a flow of the flow table, or of a packet. -/
def Offered (v : View) (key : FlowKey) : Prop :=
  (∃ flow ∈ v.flowsCache, flow.key = key) ∨
    ∃ record ∈ v.packetHistory, FlowAggregator.keyFor record.parsed = some key

/-- The input box takes no control characters. -/
def Typed (text : String) : Prop := '\x1f' ∉ text.toList

inductive Step (sys : Platform) : View → Event → View → Prop
  | ingest {v v' a} (h : ingest sys v a = .ok v') : Step sys v (.ingest a) v'
  | updateCharts {v} {currentTime : ℚ} (h : currentTime - v.lastUpdateTime ≥ 1 / 2) :
    Step sys v (.updateCharts currentTime) (updateCharts currentTime v)
  | resume {v} (currentTime : ℚ) : Step sys v (.resume currentTime) (resume currentTime v)
  | clear {v} (currentTime : ℚ) : Step sys v (.clear currentTime) (clearCaptureView currentTime v)
  | typeFilter {v} {text : String} (h : Typed text) : Step sys v (.typeFilter text) { v with displayFilter := text }
  | filterFlow {v} {key : Option FlowKey} (h : ∀ k, key = some k → Offered v k) :
    Step sys v (.filterFlow key) { v with packetFlowFilter := key }
  | resolveRows {v} : Step sys v .resolveRows (resolveRows v)
  | select {v} (row : ℕ) : Step sys v (.select row) (select row (resolveRows v))
  | deselect {v} : Step sys v .deselect { v with selectedPacketIndex := -1 }
  | refresh {v v'} {now : ℚ} {nowMicroseconds : ℤ} (h : refreshFlowsCache now nowMicroseconds v = .ok v') :
    Step sys v (.refresh now nowMicroseconds) v'
  | sample {v} (now : ℚ) : Step sys v (.sample now) (sampleFlowRate now v)
  | sortBy {v} (column : ℤ) (ascending : Bool) : Step sys v (.sortBy column ascending) (sortBy column ascending v)
  | sort {v} {sorted : List Flow}
      (h : if v.flowSortDirty then GuiLayer.SortFlowsCache v.gui v.flowsCache sorted else sorted = v.flowsCache) :
    Step sys v (.sort sorted) { v with flowsCache := sorted, flowSortDirty := false }
  /-- One of the lookups of `exportFlowsCsv`, which shares the resolver. -/
  | exportLookup {v info resolver} {ip : String} (h : GeoIPResolver.lookup v.geoIPResolver ip = .ok (info, resolver)) :
    Step sys v (.exportLookup ip) { v with geoIPResolver := resolver }

/-- The events of a window so far, from its opening. -/
inductive Run (sys : Platform) (opened : View) : List Event → View → Prop
  | start : Run sys opened [] opened
  | step {events v v' e} (h : Run sys opened events v) (hs : Step sys v e v') : Run sys opened (events ++ [e]) v'

end CaptureView
end NetProbe
