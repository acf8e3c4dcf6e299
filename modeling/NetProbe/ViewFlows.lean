/-
# The flow table

The table of flows is refreshed twice a second, resolved, sorted and searched
for the selected flow. In between it is the flows of the packets that were there
at the last refresh, sorted as it was asked, each with what the databases give
for its destination, whatever the caches of the resolver and of the table have
let go (`run_flows`). The rates drawn for the selected flow are its own, half a
second apart (`run_sparkline`). The list of top talkers is by bytes, its bytes
are those of the packets, and no host that is missing has more (`run_talkers`).

Key definitions: `Lists`, `Samples`.
Key theorems: `run_flows`, `run_sparkline`, `run_talkers`.
-/
import NetProbe.CommandRuns
import NetProbe.Ranking
import NetProbe.ViewRuns
import Mathlib.Data.UInt

namespace NetProbe

open Checked

namespace FlowAggregator

variable {packets : List ParsedPacket} {flows flows' : List Flow}

theorem FlowsOf.perm (h : FlowsOf packets flows) (hp : flows'.Perm flows) : FlowsOf packets flows' where
  distinct := (hp.map _).nodup_iff.mpr h.distinct
  keys k := (hp.map _).mem_iff.trans (h.keys k)
  counters f hf := h.counters f (hp.mem_iff.mp hf)

/-- The bytes of each packet with a flow are counted in one flow. -/
theorem FlowsOf.total (h : FlowsOf packets flows) :
    (flows.map fun f => f.bytesUp + f.bytesDown).sum = bytesOf (packets.filter fun p => (keyFor p).isSome) := by
  have hkeys : ∀ p ∈ packets, ∀ k, keyFor p = some k → k ∈ flows.map (·.key) := fun p hp k hk =>
    (h.keys k).mpr ⟨p, hp, hk⟩
  calc (flows.map fun f => f.bytesUp + f.bytesDown).sum
      = (flows.map fun f => bytesOf (packetsFor f.key packets)).sum := by
        rw [List.map_congr_left fun f hf => (h.counters f hf).bytes]
    _ = ((flows.map (·.key)).map fun k => ((packets.filter fun p => keyFor p = some k).map
          fun p => UInt64.ofNat p.length).sum).sum := by
        rw [List.map_map]
        rfl
    _ = _ := Ranking.sum_classes h.distinct _ hkeys

end FlowAggregator

namespace CaptureView

open AnalysisSession (Session Arrival feedAll)
open FlowAggregator (FlowsOf)
open FlowExporter (host)
open GeoIPResolver (Resolver answer)
open GuiLayer (compareFlows)
open ProtocolParser (parse parse_length)

variable {sys : Platform} {v v' : View} {e : Event} {events : List Event} {log shown : List Arrival}
variable {database : GeoIPResolver.Database} {cacheCapacity : ℕ}

/-! ### The refresh -/

def flowBytes (flow : Flow) : UInt64 := flow.bytesUp + flow.bytesDown

/-- What is remembered of the databases is what they give. -/
structure Remembers (database : GeoIPResolver.Database) (cacheCapacity : ℕ) (geo : Table String GeoIPInfo)
    (resolver : Resolver) : Prop where
  resolver : ∃ ips, GeoIPResolver.Holds database (max cacheCapacity 1) ips resolver
  table : ∀ ip info, geo.lookup ip = some info → info = answer database ip

/-- The largest of the flows, or none. -/
def Largest (most : UInt64) (flows : List Flow) : Prop :=
  (∀ flow ∈ flows, flowBytes flow ≤ most) ∧ (flows = [] ∧ most = 0 ∨ ∃ flow ∈ flows, flowBytes flow = most)

theorem max_cases (a b : UInt64) : a ≤ max a b ∧ b ≤ max a b ∧ (max a b = a ∨ max a b = b) := by
  rw [show max a b = if a ≤ b then b else a from rfl]
  split
  · rename_i h
    exact ⟨h, UInt64.le_refl b, .inr rfl⟩
  · rename_i h
    exact ⟨UInt64.le_refl a, UInt64.le_of_lt (UInt64.not_le.mp h), .inl rfl⟩

theorem Remembers.cacheFlow {geo : Table String GeoIPInfo} {resolver : Resolver}
    (h : Remembers database cacheCapacity geo resolver) (most : UInt64) (flow : Flow) :
    Safe (CaptureView.cacheFlow (geo, resolver, most) flow) fun r => Remembers database cacheCapacity r.1 r.2.1 ∧
      (r.1.lookup flow.key.dstIP).isSome ∧ (∀ ip, (geo.lookup ip).isSome → (r.1.lookup ip).isSome) ∧
      r.2.2 = max most (flowBytes flow) := by
  unfold CaptureView.cacheFlow
  dsimp only
  by_cases hin : (geo.lookup flow.key.dstIP).isSome
  · rw [if_pos hin]
    exact .ok ⟨h, hin, fun _ hip => hip, rfl⟩
  · rw [if_neg hin]
    obtain ⟨ips, hholds⟩ := h.resolver
    obtain ⟨⟨info, resolver'⟩, hlookup, hinfo, hholds'⟩ := hholds.lookup flow.key.dstIP
    rw [hlookup]
    refine .ok ⟨⟨⟨_, hholds'⟩, fun ip info' hip => ?_⟩, ?_, fun ip hip => ?_, rfl⟩
    · by_cases heq : ip = flow.key.dstIP
      · subst heq
        rw [AList.lookup_insert] at hip
        exact Option.some.inj hip ▸ hinfo
      · rw [AList.lookup_insert_ne heq] at hip
        exact h.table ip info' hip
    · rw [AList.lookup_insert]
      rfl
    · by_cases heq : ip = flow.key.dstIP
      · subst heq
        rw [AList.lookup_insert]
        rfl
      · rwa [AList.lookup_insert_ne heq]

/-- The whole loop. -/
theorem Remembers.foldlM (flows : List Flow) : ∀ {geo : Table String GeoIPInfo} {resolver : Resolver} {most : UInt64},
    Remembers database cacheCapacity geo resolver →
    Safe (flows.foldlM CaptureView.cacheFlow (geo, resolver, most)) fun r =>
      Remembers database cacheCapacity r.1 r.2.1 ∧
      (∀ flow ∈ flows, (r.1.lookup flow.key.dstIP).isSome) ∧ (∀ ip, (geo.lookup ip).isSome → (r.1.lookup ip).isSome) ∧
      (∀ flow ∈ flows, flowBytes flow ≤ r.2.2) ∧ most ≤ r.2.2 ∧
        (r.2.2 = most ∨ ∃ flow ∈ flows, flowBytes flow = r.2.2) := by
  induction flows with
  | nil => exact fun h => .ok ⟨h, by simp, fun _ hip => hip, by simp, UInt64.le_refl _, .inl rfl⟩
  | cons flow flows ih =>
    intro geo resolver most h
    rw [List.foldlM_cons]
    refine (h.cacheFlow most flow).bind fun s hs => ?_
    obtain ⟨geo', resolver', most'⟩ := s
    obtain ⟨hremembers, hflow, hkept, rfl⟩ := hs
    refine (ih hremembers).mono fun r hr => ?_
    obtain ⟨hr, hflows, hkept', hle, hmost, hreached⟩ := hr
    obtain ⟨hleft, hright, hchoice⟩ := max_cases most (flowBytes flow)
    refine ⟨hr, ?_, fun ip hip => hkept' ip (hkept ip hip), ?_, UInt64.le_trans hleft hmost, ?_⟩
    · exact List.forall_mem_cons.mpr ⟨hkept' _ hflow, hflows⟩
    · exact List.forall_mem_cons.mpr ⟨UInt64.le_trans hright hmost, hle⟩
    · rcases hreached with hmax | ⟨f, hf, hreached⟩
      · rcases hchoice with hchoice | hchoice
        · exact .inl (hmax.trans hchoice)
        · exact .inr ⟨flow, List.mem_cons_self, (hmax.trans hchoice).symm⟩
      · exact .inr ⟨f, List.mem_cons_of_mem _ hf, hreached⟩

/-! ### What is listed -/

/-- The flow table is that of the packets `shown`. -/
structure Lists (sys : Platform) (database : GeoIPResolver.Database) (shown : List Arrival) (v : View) : Prop where
  flows : ∃ results s now, feedAll sys {} shown = .ok (results, s) ∧ v.flowsCache.Perm (AnalysisSession.flows s now)
  geo : ∀ flow ∈ v.flowsCache, v.gui.flowGeoCache.lookup flow.key.dstIP = some (answer database flow.key.dstIP)
  sorted : v.flowSortDirty = false → v.flowsCache.Pairwise fun a b => compareFlows v.gui b a = false
  most : Largest v.maxFlowBytes v.flowsCache
  count : v.activeFlowCount = v.flowsCache.length

/-- The flow table is that of some of the first packets, and what is remembered of the databases is right. -/
structure Tabulates (sys : Platform) (database : GeoIPResolver.Database) (cacheCapacity : ℕ) (log : List Arrival)
    (v : View) : Prop where
  lists : ∃ shown, shown <+: log ∧ Lists sys database shown v
  remembers : Remembers database cacheCapacity v.gui.flowGeoCache v.geoIPResolver

theorem lists_nil (h : v.flowsCache = []) (hmost : v.maxFlowBytes = 0) (hcount : v.activeFlowCount = 0) :
    Lists sys database [] v where
  flows := ⟨[], {}, 0, rfl, by rw [h]; rfl⟩
  geo flow hf := by
    rw [h] at hf
    cases hf
  sorted _ := by
    rw [h]
    exact .nil
  most := by
    rw [h]
    exact ⟨by simp, .inl ⟨rfl, hmost⟩⟩
  count := by
    rw [h, hcount]
    rfl

theorem tabulates_init (sys : Platform) (database : GeoIPResolver.Database) (cacheCapacity : ℕ) :
    Tabulates sys database cacheCapacity [] (init database cacheCapacity) where
  lists := ⟨[], List.prefix_rfl, lists_nil rfl rfl rfl⟩
  remembers := ⟨⟨[], GeoIPResolver.holds_make⟩, fun ip info h => by cases h⟩

/-- An event that leaves the flow table alone. -/
theorem Tabulates.frame {log' : List Arrival} (h : Tabulates sys database cacheCapacity log v) (hlog : log <+: log')
    (hflows : v'.flowsCache = v.flowsCache) (hgui : v'.gui = v.gui) (hdirty : v'.flowSortDirty = v.flowSortDirty)
    (hmost : v'.maxFlowBytes = v.maxFlowBytes) (hcount : v'.activeFlowCount = v.activeFlowCount)
    (hresolver : v'.geoIPResolver = v.geoIPResolver) : Tabulates sys database cacheCapacity log' v' := by
  obtain ⟨shown, hshown, hlists⟩ := h.lists
  refine ⟨⟨shown, hshown.trans hlog, ?_, ?_, ?_, ?_, ?_⟩, ?_⟩
  · rw [hflows]
    exact hlists.flows
  · rw [hflows, hgui]
    exact hlists.geo
  · rw [hflows, hgui, hdirty]
    exact hlists.sorted
  · rw [hflows, hmost]
    exact hlists.most
  · rw [hflows, hcount]
    exact hlists.count
  · rw [hgui, hresolver]
    exact h.remembers

/-- A refresh lists the flows there are and resolves each. -/
theorem Tabulates.refresh {results : List AnalysisSession.Result} (h : Tabulates sys database cacheCapacity log v)
    (hshows : Shows sys log results v) (now : ℚ) (nowMicroseconds : ℤ) :
    Safe (refreshFlowsCache now nowMicroseconds v) fun v' => Tabulates sys database cacheCapacity log v' ∧
      (v.lastFlowsRefresh < 0 ∨ 1 / 2 ≤ now - v.lastFlowsRefresh →
        v'.flowsCache = AnalysisSession.flows v.session nowMicroseconds ∧ Lists sys database log v') := by
  unfold refreshFlowsCache
  split
  · rename_i hrecent
    refine .ok ⟨h, fun hstale => ?_⟩
    rcases hstale with hstale | hstale
    · exact absurd hrecent.1 (not_le.mpr hstale)
    · exact absurd hrecent.2 (not_lt.mpr hstale)
  · dsimp only
    generalize hgeo : (if Table.size v.gui.flowGeoCache > 8192 then ∅ else v.gui.flowGeoCache) = geo
    have hremembers : Remembers database cacheCapacity geo v.geoIPResolver := by
      subst hgeo
      split
      · exact ⟨h.remembers.resolver, fun ip info hip => by cases hip⟩
      · exact h.remembers
    refine (hremembers.foldlM (AnalysisSession.flows v.session nowMicroseconds)).bind fun r hr => ?_
    obtain ⟨flowGeoCache, geoIPResolver, maxFlowBytes⟩ := r
    obtain ⟨hr, hflows, -, hle, -, hreached⟩ := hr
    have hlargest : Largest maxFlowBytes (AnalysisSession.flows v.session nowMicroseconds) := by
      refine ⟨hle, ?_⟩
      rcases hreached with hzero | hreached
      · cases hall : AnalysisSession.flows v.session nowMicroseconds with
        | nil => exact .inl ⟨rfl, hzero⟩
        | cons flow rest =>
          have hflow := hle flow (by rw [hall]; exact List.mem_cons_self)
          rw [hzero] at hflow
          exact .inr ⟨flow, List.mem_cons_self, (UInt64.le_zero_iff.mp hflow).trans hzero.symm⟩
      · exact .inr hreached
    have hlists : Lists sys database log { v with
        lastFlowsRefresh := now, flowsCache := AnalysisSession.flows v.session nowMicroseconds
        activeFlowCount := (AnalysisSession.flows v.session nowMicroseconds).length
        gui := { v.gui with flowGeoCache }, geoIPResolver, maxFlowBytes, flowSortDirty := true } := by
      refine ⟨⟨results, v.session, nowMicroseconds, hshows.fed, .refl _⟩, fun flow hf => ?_, (by simp), hlargest, rfl⟩
      obtain ⟨info, hinfo⟩ := Option.isSome_iff_exists.mp (hflows flow hf)
      exact hinfo.trans (congrArg some (hr.table _ _ hinfo))
    exact .ok ⟨⟨⟨log, List.prefix_rfl, hlists⟩, hr⟩, fun _ => ⟨rfl, hlists⟩⟩

theorem Tabulates.sort {sorted : List Flow} (h : Tabulates sys database cacheCapacity log v)
    (hs : if v.flowSortDirty then GuiLayer.SortFlowsCache v.gui v.flowsCache sorted else sorted = v.flowsCache) :
    Tabulates sys database cacheCapacity log { v with flowsCache := sorted, flowSortDirty := false } := by
  obtain ⟨shown, hshown, hlists⟩ := h.lists
  obtain ⟨hperm, hsorted⟩ : sorted.Perm v.flowsCache ∧ sorted.Pairwise fun a b => compareFlows v.gui b a = false := by
    split at hs
    · exact hs (GuiLayer.compareFlows_isStrictWeakOrder v.gui)
    · rename_i hclean
      subst hs
      exact ⟨.refl _, hlists.sorted (Bool.eq_false_iff.mpr hclean)⟩
  obtain ⟨results, s, now, hfed, hflows⟩ := hlists.flows
  obtain ⟨hle, hreached⟩ := hlists.most
  refine ⟨⟨shown, hshown, ⟨results, s, now, hfed, hperm.trans hflows⟩, fun flow hf => ?_, fun _ => hsorted,
    ⟨fun flow hf => ?_, ?_⟩, ?_⟩, h.remembers⟩
  · exact hlists.geo flow (hperm.mem_iff.mp hf)
  · exact hle flow (hperm.mem_iff.mp hf)
  · refine hreached.imp (fun hnone => ⟨?_, hnone.2⟩) fun ⟨flow, hf, heq⟩ => ⟨flow, hperm.mem_iff.mpr hf, heq⟩
    show sorted = []
    exact List.perm_nil.mp (hnone.1 ▸ hperm)
  · show v.activeFlowCount = sorted.length
    rw [hlists.count, hperm.length_eq]

theorem Tabulates.step {results : List AnalysisSession.Result} (h : Tabulates sys database cacheCapacity log v)
    (hshows : Shows sys log results v) (hs : Step sys v e v') :
    Tabulates sys database cacheCapacity (logStep log e) v' := by
  cases hs with
  | ingest hi =>
    obtain ⟨r, -, hv⟩ := bind_eq_ok.mp hi
    obtain rfl := Except.ok.inj hv
    exact h.frame (List.prefix_append _ _) rfl rfl rfl rfl rfl rfl
  | clear currentTime =>
    exact ⟨⟨[], List.prefix_rfl, lists_nil rfl rfl rfl⟩, h.remembers.resolver, fun ip info hip => by cases hip⟩
  | updateCharts | resume | typeFilter | filterFlow | deselect => exact h.frame List.prefix_rfl rfl rfl rfl rfl rfl rfl
  | resolveRows =>
    rw [resolveRows_frame v]
    exact h.frame List.prefix_rfl rfl rfl rfl rfl rfl rfl
  | select row =>
    rw [select_frame row, resolveRows_frame v]
    exact h.frame List.prefix_rfl rfl rfl rfl rfl rfl rfl
  | sample now =>
    rw [sampleFlowRate_frame now v]
    exact h.frame List.prefix_rfl rfl rfl rfl rfl rfl rfl
  | refresh hr => exact ((h.refresh hshows _ _).elim hr).1
  | sortBy column ascending =>
    obtain ⟨shown, hshown, hlists⟩ := h.lists
    exact ⟨⟨shown, hshown, hlists.flows, hlists.geo, (by simp [sortBy]), hlists.most, hlists.count⟩, h.remembers⟩
  | sort hsorts => exact h.sort hsorts
  | exportLookup hlookup =>
    obtain ⟨shown, hshown, hlists⟩ := h.lists
    obtain ⟨ips, hholds⟩ := h.remembers.resolver
    exact ⟨⟨shown, hshown, hlists.flows, hlists.geo, hlists.sorted, hlists.most, hlists.count⟩,
      ⟨_, ((hholds.lookup _).elim hlookup).2⟩, h.remembers.table⟩

theorem Run.tabulates (h : Run sys (init database cacheCapacity) events v) :
    Tabulates sys database cacheCapacity (logOf events) v := by
  induction h with
  | start => exact tabulates_init sys database cacheCapacity
  | step h hs ih =>
    obtain ⟨results, hshows⟩ := h.shows
    rw [logOf_concat]
    exact ih.step hshows hs

/-- **The flow table is that of the packets at the last refresh**, resolved and
sorted. It can be refreshed at any time, and is after half a second. -/
theorem run_flows (h : Run sys (init database cacheCapacity) events v) :
    (∃ shown, shown <+: logOf events ∧ Lists sys database shown v) ∧
      ∀ now nowMicroseconds, ∃ v', Step sys v (.refresh now nowMicroseconds) v' ∧
        (v.lastFlowsRefresh < 0 ∨ 1 / 2 ≤ now - v.lastFlowsRefresh →
          v'.flowsCache = AnalysisSession.flows v.session nowMicroseconds ∧ Lists sys database (logOf events) v') := by
  obtain ⟨results, hshows⟩ := h.shows
  refine ⟨h.tabulates.lists, fun now nowMicroseconds => ?_⟩
  obtain ⟨v', hv, -, hfresh⟩ := h.tabulates.refresh hshows now nowMicroseconds
  exact ⟨v', .refresh hv, hfresh⟩

/-! A segment of one flow, and a request of another to a host that it names. -/

def twoFlows : Checked View := do
  let v ← ingest AnalysisSession.Web.sys (init noDatabase 8) ack
  let v ← ingest AnalysisSession.Web.sys v request
  refreshFlowsCache 0 0 v

theorem twoFlows_run : ∃ v, twoFlows = .ok v ∧
    Run AnalysisSession.Web.sys (init noDatabase 8) [.ingest ack, .ingest request, .refresh 0 0] v := by
  obtain ⟨v₁, hv₁, h⟩ := (@Run.start AnalysisSession.Web.sys (init noDatabase 8)).takes ack
  obtain ⟨v₂, hv₂, h⟩ := h.takes request
  obtain ⟨results, hshows⟩ := h.shows
  obtain ⟨v₃, hv₃, -⟩ := h.tabulates.refresh hshows 0 0
  exact ⟨v₃, by rw [twoFlows, hv₁, ok_bind, hv₂, ok_bind, hv₃], h.step (.refresh hv₃)⟩

theorem of_twoFlows {α : Type} {f : View → α} {x : α} (hv : twoFlows = .ok v) (h : f <$> twoFlows = .ok x) :
    f v = x := by
  rw [hv] at h
  exact Except.ok.inj h

theorem keys_twoFlows (hv : twoFlows = .ok v) :
    v.flowsCache.map (·.key) = [AnalysisSession.Web.elsewhereKey, AnalysisSession.Web.key] :=
  @of_twoFlows v _ (fun v => v.flowsCache.map (·.key)) _ hv (by decide +kernel)

/-- The two flows with the fewest bytes first, and a refresh half a second later. -/
theorem run_flows_sorted : ∃ sorted v v', Run AnalysisSession.Web.sys (init noDatabase 8)
      [.ingest ack, .ingest request, .refresh 0 0, .sortBy 7 true, .sort sorted] v ∧
    v.flowsCache.map (·.key) = [AnalysisSession.Web.key, AnalysisSession.Web.elsewhereKey] ∧
    (∃ shown, shown <+: [ack, request] ∧ Lists AnalysisSession.Web.sys noDatabase shown v) ∧
    Step AnalysisSession.Web.sys v (.refresh (1 / 2) 500000) v' ∧
      v'.flowsCache = AnalysisSession.flows v.session 500000 := by
  obtain ⟨v, hv, h⟩ := twoFlows_run
  obtain ⟨a, rest, hflows, ha, hrest⟩ := List.map_eq_cons_iff.mp (keys_twoFlows hv)
  obtain ⟨b, rfl, hb⟩ := List.map_eq_singleton_iff.mp hrest
  have hless : v.flowsCache.map (fun a => v.flowsCache.map (compareFlows (sortBy 7 true v).gui a)) =
      [[false, false], [true, false]] :=
    @of_twoFlows v _ (fun v => v.flowsCache.map fun a => v.flowsCache.map (compareFlows (sortBy 7 true v).gui a)) _ hv
      (by decide +kernel)
  have hlast : v.lastFlowsRefresh = 0 := @of_twoFlows v _ (·.lastFlowsRefresh) _ hv (by decide +kernel)
  rw [hflows] at hless
  simp only [List.map_cons, List.map_nil, List.cons.injEq] at hless
  have hsort : GuiLayer.SortFlowsCache (sortBy 7 true v).gui (sortBy 7 true v).flowsCache [b, a] := by
    refine fun _ => ⟨?_, List.pairwise_pair.mpr ?_⟩
    · rw [show (sortBy 7 true v).flowsCache = [a, b] from hflows]
      exact .swap a b []
    · exact hless.1.2.1
  have hrun := (h.step (.sortBy 7 true)).step (@Step.sort _ _ [b, a] ((if_pos rfl).mpr hsort))
  obtain ⟨hlists, hrefresh⟩ := run_flows hrun
  obtain ⟨v', hs, hfresh⟩ := hrefresh (1 / 2) 500000
  refine ⟨[b, a], _, v', hrun, ?_, hlists, hs, (hfresh (.inr ?_)).1⟩
  · rw [List.map_cons, List.map_singleton, ha, hb]
  · show 1 / 2 ≤ 1 / 2 - v.lastFlowsRefresh
    rw [hlast, sub_zero]

/-! ### The selected flow -/

/-- The flow `key` of some of the first packets had the rate `rate`. -/
def RateOf (sys : Platform) (log : List Arrival) (key : FlowKey) (rate : UInt64) : Prop :=
  ∃ shown results s now, shown <+: log ∧ feedAll sys {} shown = .ok (results, s) ∧
    ∃ flow ∈ AnalysisSession.flows s now, flow.key = key ∧ flow.rateBytesPerSecond = rate

/-- The points of the sparkline are of the flow it is about, in order. -/
structure Samples (sys : Platform) (log : List Arrival) (points : List (ℚ × UInt64)) (v : View) : Prop where
  holds : v.flowRateHistory.Holds points
  room : v.flowRateHistory.MaxSize = 240
  spaced : points.Pairwise fun p q => q.1 - p.1 ≥ 1 / 2
  past : ∀ p ∈ points, p.1 ≤ v.lastFlowSampleTime
  rates : ∀ p ∈ points, ∃ key, v.flowRateKey = some key ∧ RateOf sys log key p.2

theorem RateOf.mono {log' : List Arrival} {key : FlowKey} {rate : UInt64} (h : RateOf sys log key rate)
    (hlog : log <+: log') : RateOf sys log' key rate := by
  obtain ⟨shown, results, s, now, hshown, hfed, hflow⟩ := h
  exact ⟨shown, results, s, now, hshown.trans hlog, hfed, hflow⟩

section Samples

variable {points : List (ℚ × UInt64)}

theorem Samples.frame {log' : List Arrival} (h : Samples sys log points v) (hlog : log <+: log')
    (hhistory : v'.flowRateHistory = v.flowRateHistory) (hkey : v'.flowRateKey = v.flowRateKey)
    (hlast : v'.lastFlowSampleTime = v.lastFlowSampleTime) : Samples sys log' points v' := by
  refine ⟨hhistory ▸ h.holds, hhistory ▸ h.room, h.spaced, hlast ▸ h.past, fun p hp => ?_⟩
  obtain ⟨key, hk, hrate⟩ := h.rates p hp
  exact ⟨key, hkey.trans hk, hrate.mono hlog⟩

/-- The history starts anew. -/
theorem Samples.erase {log' : List Arrival} (h : Samples sys log points v)
    (hhistory : v'.flowRateHistory = v.flowRateHistory.Erase) : Samples sys log' [] v' := by
  refine ⟨?_, ?_, .nil, by simp, by simp⟩
  · rw [hhistory]
    exact ScrollingBuffer.holds_erase _ h.holds
  · rw [hhistory, ScrollingBuffer.erase_maxSize]
    exact h.room

/-- A point half a second after the last. -/
theorem Samples.addPoint {now : ℚ} {flow : Flow} (h : Samples sys log points v) (hkey : v.flowRateKey = some flow.key)
    (hrate : RateOf sys log flow.key flow.rateBytesPerSecond) (hnow : now - v.lastFlowSampleTime ≥ 1 / 2) :
    Samples sys log (points ++ [(now, flow.rateBytesPerSecond)]) { v with
      flowRateHistory := v.flowRateHistory.AddPoint now flow.rateBytesPerSecond, lastFlowSampleTime := now } where
  holds := h.holds.addPoint now flow.rateBytesPerSecond
  room := (ScrollingBuffer.addPoint_maxSize _ _ _).trans h.room
  spaced := by
    refine List.pairwise_append.mpr ⟨h.spaced, List.pairwise_singleton _ _, fun p hp q hq => ?_⟩
    obtain rfl := List.mem_singleton.mp hq
    linarith [h.past p hp]
  past p hp := by
    rcases List.mem_append.mp hp with hp | hp
    · linarith [h.past p hp]
    · rw [List.mem_singleton.mp hp]
  rates p hp := by
    rcases List.mem_append.mp hp with hp | hp
    · exact h.rates p hp
    · rw [List.mem_singleton.mp hp]
      exact ⟨flow.key, hkey, hrate⟩

theorem Tabulates.rateOf (h : Tabulates sys database cacheCapacity log v) {flow : Flow} (hf : flow ∈ v.flowsCache) :
    RateOf sys log flow.key flow.rateBytesPerSecond := by
  obtain ⟨shown, hshown, hlists⟩ := h.lists
  obtain ⟨results, s, now, hfed, hperm⟩ := hlists.flows
  exact ⟨shown, results, s, now, hshown, hfed, flow, hperm.mem_iff.mp hf, rfl, rfl⟩

theorem selectedFlow_mem {flow : Flow} (h : selectedFlow v = some flow) : flow ∈ v.flowsCache := by
  obtain ⟨key, -, hfind⟩ := Option.bind_eq_some_iff.mp h
  exact List.mem_of_find?_eq_some hfind

theorem Samples.sample (h : Samples sys log points v) (ht : Tabulates sys database cacheCapacity log v) (now : ℚ) :
    ∃ points', Samples sys log points' (sampleFlowRate now v) := by
  unfold sampleFlowRate
  cases hsel : selectedFlow v with
  | none =>
    dsimp only
    split
    · exact ⟨[], h.erase rfl⟩
    · exact ⟨points, h⟩
  | some flow =>
    have hrate := ht.rateOf (selectedFlow_mem hsel)
    dsimp only
    split
    · split
      · exact ⟨_, (@Samples.erase sys v { v with
          flowRateKey := some flow.key, flowRateHistory := v.flowRateHistory.Erase, lastFlowSampleTime := 0 }
          log points log h rfl).addPoint rfl hrate ‹_›⟩
      · exact ⟨[], h.erase rfl⟩
    · rename_i hsame
      split
      · exact ⟨_, h.addPoint (not_not.mp hsame) hrate ‹_›⟩
      · exact ⟨points, h⟩

theorem Samples.step (h : Samples sys log points v) (ht : Tabulates sys database cacheCapacity log v)
    (hs : Step sys v e v') : ∃ points', Samples sys (logStep log e) points' v' := by
  cases hs with
  | ingest hi =>
    obtain ⟨r, -, hv⟩ := bind_eq_ok.mp hi
    obtain rfl := Except.ok.inj hv
    exact ⟨points, h.frame (List.prefix_append _ _) rfl rfl rfl⟩
  | clear currentTime => exact ⟨[], h.erase rfl⟩
  | updateCharts | resume | typeFilter | filterFlow | deselect | sortBy | sort | exportLookup =>
    exact ⟨points, h.frame List.prefix_rfl rfl rfl rfl⟩
  | resolveRows =>
    rw [resolveRows_frame v]
    exact ⟨points, h.frame List.prefix_rfl rfl rfl rfl⟩
  | select row =>
    rw [select_frame row, resolveRows_frame v]
    exact ⟨points, h.frame List.prefix_rfl rfl rfl rfl⟩
  | refresh hr =>
    rw [refreshFlowsCache_frame hr]
    exact ⟨points, h.frame List.prefix_rfl rfl rfl rfl⟩
  | sample now => exact h.sample ht now

end Samples

/-- **The sparkline is of one flow**: the points drawn are rates this flow had,
half a second apart or more. -/
theorem run_sparkline (h : Run sys (init database cacheCapacity) events v) :
    ∃ points : List (ℚ × UInt64), v.flowRateHistory.linearizeBuffer = (points.map (·.1), points.map (·.2)) ∧
      points.length ≤ 240 ∧ points.Pairwise (fun p q => q.1 - p.1 ≥ 1 / 2) ∧
      ∀ p ∈ points, ∃ key, v.flowRateKey = some key ∧ RateOf sys (logOf events) key p.2 := by
  have hsamples : ∃ points, Samples sys (logOf events) points v := by
    induction h with
    | start => exact ⟨[], ⟨.empty _, .empty _, (by decide : 0 < 240)⟩, rfl, .nil, by simp, by simp⟩
    | step h hs ih =>
      obtain ⟨points, hpoints⟩ := ih
      rw [logOf_concat]
      exact hpoints.step h.tabulates hs
  obtain ⟨points, hpoints⟩ := hsamples
  have hdrop : ∀ p ∈ points.rtake 240, p ∈ points := fun p hp => List.mem_of_mem_drop hp
  refine ⟨points.rtake 240, ?_, ?_, ?_, fun p hp => hpoints.rates p (hdrop p hp)⟩
  · rw [hpoints.holds.linearizeBuffer, hpoints.room]
  · rw [Window.length_rtake]
    exact min_le_left _ _
  · exact hpoints.spaced.drop

/-- The smaller of two flows is selected; a sample after a quarter of a second is not drawn. -/
theorem run_sparkline_selected : ∃ v, Run AnalysisSession.Web.sys (init noDatabase 8)
      [.ingest ack, .ingest request, .refresh 0 0, .filterFlow (some AnalysisSession.Web.key), .sample 1,
        .sample (5 / 4), .sample 2] v ∧
    v.flowRateHistory.linearizeBuffer = ([1, 2], [54, 54]) ∧
      ∃ key, v.flowRateKey = some key ∧ RateOf AnalysisSession.Web.sys [ack, request] key 54 := by
  obtain ⟨v, hv, h⟩ := twoFlows_run
  have hkey : AnalysisSession.Web.key ∈ v.flowsCache.map (·.key) := by
    rw [keys_twoFlows hv]
    exact List.mem_cons_of_mem _ List.mem_cons_self
  have hoffered : Offered v AnalysisSession.Web.key := .inl (List.mem_map.mp hkey)
  have hrun := (((h.step (.filterFlow fun k hk => Option.some.inj hk ▸ hoffered)).step (.sample 1)).step
    (.sample (5 / 4))).step (.sample 2)
  have hdrawn := @of_twoFlows v _ (fun v => (sampleFlowRate 2 (sampleFlowRate (5 / 4) (sampleFlowRate 1
    { v with packetFlowFilter := some AnalysisSession.Web.key }))).flowRateHistory.linearizeBuffer)
    ([1, 2], [54, 54]) hv (by decide +kernel)
  obtain ⟨points, hpoints, -, -, hrates⟩ := run_sparkline hrun
  have hshown : points.map (·.2) = [54, 54] := (congrArg Prod.snd (hdrawn.symm.trans hpoints)).symm
  have hrate : 54 ∈ points.map (·.2) := by
    rw [hshown]
    exact List.mem_cons_self
  obtain ⟨p, hp, hp'⟩ := List.mem_map.mp hrate
  exact ⟨_, hrun, hdrawn, hp' ▸ hrates p hp⟩

/-! ### Top talkers -/

/-- What the flows of a host add up to. -/
def bytesTo (flows : List Flow) (name : String) : UInt64 :=
  ((flows.filter fun flow => host flow = name).map flowBytes).sum

/-- The talker of the flows of one host. -/
theorem foldl_addFlow {name : String} : ∀ {flows : List Flow} {talker : Talker}, (∀ flow ∈ flows, host flow = name) →
    talker.host = name → flows.foldl (fun old flow => some (addFlow old flow)) (some talker) = some
      { host := name, bytes := talker.bytes + (flows.map flowBytes).sum
        packets := talker.packets + (flows.map (·.packets)).sum, flows := talker.flows + Int32.ofNat flows.length }
  | [], talker, _, ht => by
    subst ht
    simp
  | flow :: flows, talker, hhost, ht => by
    rw [List.foldl_cons, foldl_addFlow (fun f hf => hhost f (List.mem_cons_of_mem _ hf))
      (hhost flow List.mem_cons_self)]
    simp only [addFlow, Option.getD_some, flowBytes, List.map_cons, List.sum_cons, List.length_cons,
      Option.some.injEq, Talker.mk.injEq, true_and]
    exact ⟨by ac_rfl, by ac_rfl, by rw [Nat.add_comm, Int32.ofNat_add, ← Int32.add_assoc]; rfl⟩

/-- The table has one talker for each host. -/
theorem byHost_lookup {flows : List Flow} {name : String} {talker : Talker}
    (h : (byHost flows).lookup name = some talker) :
    talker.host = name ∧ talker.bytes = bytesTo flows name ∧
      talker.flows = Int32.ofNat (flows.filter fun flow => host flow = name).length := by
  rw [show byHost flows = Ranking.tally host addFlow flows from rfl, Ranking.lookup_tally] at h
  rw [bytesTo]
  have hhost : ∀ flow ∈ flows.filter (fun flow => host flow = name), host flow = name := fun flow hf => by
    simpa using (List.mem_filter.mp hf).2
  revert hhost h
  generalize (flows.filter fun flow => host flow = name) = named
  intro h hhost
  cases named with
  | nil => cases h
  | cons flow rest =>
    rw [List.foldl_cons, foldl_addFlow (fun f hf => hhost f (List.mem_cons_of_mem _ hf))
      (hhost flow List.mem_cons_self)] at h
    obtain rfl := Option.some.inj h
    refine ⟨rfl, ?_, ?_⟩
    · simp [addFlow, flowBytes]
    · rw [List.length_cons, Nat.add_comm, Int32.ofNat_add]
      rfl

section Talkers

variable {flows : List Flow} {talkers : List Talker}

theorem moreBytes_isStrictWeakOrder : IsStrictWeakOrder Talker fun a b => decide (a.bytes > b.bytes) = true where
  irrefl a h := UInt64.lt_irrefl _ (of_decide_eq_true h)
  trans a b c hab hbc := decide_eq_true (UInt64.lt_trans (of_decide_eq_true hbc) (of_decide_eq_true hab))
  incomp_trans a b c hab hbc := by
    simp only [decide_eq_true_eq, gt_iff_lt, UInt64.not_lt] at *
    exact ⟨UInt64.le_trans hab.1 hbc.1, UInt64.le_trans hbc.2 hab.2⟩

/-- The talkers are in the table, and those that are not listed have no more bytes. -/
theorem TopTalkers.spec (h : TopTalkers flows talkers) :
    (talkers.map (·.host)).Nodup ∧ talkers.Pairwise (fun a b => b.bytes ≤ a.bytes) ∧
      (∀ talker ∈ talkers, talker.bytes = bytesTo flows talker.host ∧
        talker.flows = Int32.ofNat (flows.filter fun flow => host flow = talker.host).length) ∧
      ∀ flow ∈ flows, host flow ∈ talkers.map (·.host) ∨
        talkers.length = 15 ∧ ∀ talker ∈ talkers, bytesTo flows (host flow) ≤ talker.bytes := by
  obtain ⟨listed, sorted, hlisted, hsorts, rfl⟩ := h
  obtain ⟨hperm, hpairwise⟩ := hsorts moreBytes_isStrictWeakOrder
  replace hperm := hperm.trans hlisted
  have hentry : ∀ e ∈ (byHost flows).entries, e.2.host = e.1 ∧ e.2.bytes = bytesTo flows e.1 ∧
      e.2.flows = Int32.ofNat (flows.filter fun flow => host flow = e.1).length := fun e he =>
    byHost_lookup (AList.mem_lookup_iff.mpr he)
  have hhosts : (byHost flows).entries.map (fun e => e.2.host) = (byHost flows).keys :=
    List.map_congr_left fun e he => (hentry e he).1
  refine ⟨?_, ?_, fun talker ht => ?_, fun flow hf => ?_⟩
  · refine List.Nodup.sublist ((List.take_sublist 15 sorted).map _) ?_
    rw [(hperm.map _).nodup_iff, List.map_map,
      show (fun t : Talker => t.host) ∘ (fun e : (_ : String) × Talker => e.2) =
      fun e => e.2.host from rfl, hhosts]
    exact (byHost flows).keys_nodup
  · refine (hpairwise.imp fun hab => ?_).sublist (List.take_sublist 15 sorted)
    simpa [UInt64.not_lt] using hab
  · obtain ⟨e, he, rfl⟩ := List.mem_map.mp (hperm.mem_iff.mp (List.mem_of_mem_take ht))
    obtain ⟨hname, hbytes, hflows⟩ := hentry e he
    rw [hname]
    exact ⟨hbytes, hflows⟩
  · have hin : host flow ∈ byHost flows := Ranking.mem_tally.mpr ⟨flow, hf, rfl⟩
    obtain ⟨talker, htalker⟩ := Option.isSome_iff_exists.mp (AList.lookup_isSome.mpr hin)
    obtain ⟨hname, hbytes, -⟩ := byHost_lookup htalker
    have hmem : talker ∈ sorted := hperm.mem_iff.mpr (List.mem_map.mpr ⟨_, AList.mem_lookup_iff.mp htalker, rfl⟩)
    refine (@Ranking.mem_take_or Talker (fun a b => a.bytes > b.bytes) sorted (hpairwise.imp ?_) 15 _ hmem).imp
      (fun htaken => hname ▸ List.mem_map_of_mem htaken) fun hcut => ⟨hcut.1, fun t ht => ?_⟩
    · intro a b hab
      simpa using hab
    · rw [← hbytes]
      exact UInt64.not_lt.mp (hcut.2 t ht)

theorem totalBytes_eq (flows : List Flow) : totalBytes flows = (flows.map flowBytes).sum := by
  rw [totalBytes, List.sum_eq_foldl, List.foldl_map]
  rfl

/-- The packet is one of a flow. -/
def ofFlow (sys : Platform) (packet : PacketData) : Bool :=
  match parse sys packet with
  | .ok parsed => (FlowAggregator.keyFor parsed).isSome
  | .error _ => false

theorem bytesOf_parsed {packets : List PacketData} {parsed : List ParsedPacket}
    (h : CommandLine.Parsed sys packets parsed) :
    FlowAggregator.bytesOf (parsed.filter fun p => (FlowAggregator.keyFor p).isSome) =
      octets (packets.filter (ofFlow sys)) := by
  induction h with
  | nil => rfl
  | @cons packet p packets parsed hparse _ ih =>
    have hlength : p.length = packet.length := (parse_length sys packet).elim hparse
    have hflow : ofFlow sys packet = (FlowAggregator.keyFor p).isSome := by rw [ofFlow, hparse]
    rw [List.filter_cons, List.filter_cons, hflow]
    split
    · rw [FlowAggregator.bytesOf, octets, List.map_cons, List.map_cons, List.sum_cons, List.sum_cons, hlength]
      exact congrArg _ ih
    · exact ih

/-- **The top talkers**: each host once with the bytes of its flows, most bytes
first, and none with more left out. All the hosts have together is the wire
bytes of the packets of flows at the last refresh. -/
theorem run_talkers (h : Run sys (init database cacheCapacity) events v) (ht : TopTalkers v.flowsCache talkers) :
    ((talkers.map (·.host)).Nodup ∧ talkers.Pairwise (fun a b => b.bytes ≤ a.bytes) ∧
      (∀ talker ∈ talkers, talker.bytes = bytesTo v.flowsCache talker.host ∧
        talker.flows = Int32.ofNat (v.flowsCache.filter fun flow => host flow = talker.host).length) ∧
      ∀ flow ∈ v.flowsCache, host flow ∈ talkers.map (·.host) ∨
        talkers.length = 15 ∧ ∀ talker ∈ talkers, bytesTo v.flowsCache (host flow) ≤ talker.bytes) ∧
    ∃ shown, shown <+: logOf events ∧
      totalBytes v.flowsCache = octets ((shown.map (·.packet)).filter (ofFlow sys)) := by
  obtain ⟨shown, hshown, hlists⟩ := h.tabulates.lists
  obtain ⟨results, s, now, hfed, hperm⟩ := hlists.flows
  obtain ⟨parsed, hparsed, hflows⟩ := (CommandLine.feedAll_flowsOf sys shown now).elim hfed
  refine ⟨ht.spec, shown, hshown, ?_⟩
  rw [totalBytes_eq, ← bytesOf_parsed hparsed]
  exact (hflows.perm hperm).total

/-- The host that is named comes first: it has more bytes. -/
theorem run_talkers_named : ∃ v, Run AnalysisSession.Web.sys (init noDatabase 8)
      [.ingest ack, .ingest request, .refresh 0 0] v ∧
    TopTalkers v.flowsCache [⟨"youtube.com", 91, 1, 1⟩, ⟨"93.184.216.34", 54, 1, 1⟩] ∧
    bytesTo v.flowsCache "youtube.com" = 91 ∧ bytesTo v.flowsCache "93.184.216.34" = 54 ∧
    (∀ flow ∈ v.flowsCache, host flow ∈ ["youtube.com", "93.184.216.34"]) ∧
    ∃ shown, shown <+: [ack, request] ∧ totalBytes v.flowsCache =
      octets ((shown.map (·.packet)).filter (ofFlow AnalysisSession.Web.sys)) := by
  obtain ⟨v, hv, hrun⟩ := twoFlows_run
  have hlisted : (byHost v.flowsCache).entries.map (·.2) =
      [⟨"93.184.216.34", 54, 1, 1⟩, ⟨"youtube.com", 91, 1, 1⟩] :=
    @of_twoFlows v _ (fun v => (byHost v.flowsCache).entries.map (·.2)) _ hv (by decide +kernel)
  have ht : TopTalkers v.flowsCache [⟨"youtube.com", 91, 1, 1⟩, ⟨"93.184.216.34", 54, 1, 1⟩] := by
    refine ⟨_, _, .refl _, fun _ => ⟨?_, List.pairwise_pair.mpr (by decide)⟩, rfl⟩
    rw [hlisted]
    exact .swap ..
  obtain ⟨⟨-, -, hbytes, hall⟩, htotal⟩ := run_talkers hrun ht
  refine ⟨v, hrun, ht, (hbytes _ List.mem_cons_self).1.symm,
    (hbytes _ (List.mem_cons_of_mem _ List.mem_cons_self)).1.symm, fun flow hf => ?_, htotal⟩
  exact (hall flow hf).resolve_right fun h => absurd h.1 (by decide)

end Talkers

end CaptureView
end NetProbe
