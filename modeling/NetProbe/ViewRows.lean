/-
# The packet table

The rows of a filtered table are kept from frame to frame and looked for again
only when the version of the history or the signature of the filters is another.
What is kept is always what a new search would find (`rows_current`): a
signature stands for one pair of filters (`signature_inj`), and a version for
one history. A packet that is clicked stays the packet of the detail pane for as
long as the table has it, though its place there moves, and no other packet ever
takes its place (`detail_clicked`).

Key definitions: `Cached`, `Follows`.
Key theorems: `signature_inj`, `rows_current`, `detail_clicked`.
-/
import NetProbe.AddressTexts
import NetProbe.CommandRuns
import NetProbe.ViewRuns

namespace NetProbe

open Checked

/-- Two texts before their first separator. -/
theorem separated_inj {α : Type} {sep : α} : ∀ {xs ys a b : List α}, sep ∉ xs → sep ∉ ys →
    xs ++ sep :: a = ys ++ sep :: b → xs = ys ∧ a = b
  | [], [], _, _, _, _, h => ⟨rfl, (List.cons.inj h).2⟩
  | [], y :: ys, _, _, _, hy, h => absurd (List.cons.inj h).1 fun heq => hy (heq ▸ List.mem_cons_self)
  | x :: xs, [], _, _, hx, _, h => absurd (List.cons.inj h).1 fun heq => hx (heq ▸ List.mem_cons_self)
  | x :: xs, y :: ys, a, b, hx, hy, h => by
    obtain ⟨rfl, hrest⟩ := List.cons.inj h
    obtain ⟨hxs, hab⟩ := separated_inj (fun hm => hx (List.mem_cons_of_mem _ hm))
      (fun hm => hy (List.mem_cons_of_mem _ hm)) hrest
    exact ⟨congrArg _ hxs, hab⟩

namespace CaptureView

open AnalysisSession (Arrival feedAll result_addresses)
open FlowExporter (IsAddress Keyed)
open ProtocolParser (AddressesAre Prints parse_addresses)

variable {sys : Platform} {v v' : View} {e : Event} {events : List Event}

/-! ### Signatures -/

theorem bar_notMem_address {ip : String} (h : IsAddress ip) : '|' ∉ ip.toList := fun hm =>
  absurd (h _ hm) (by decide)

theorem bar_notMem_nat (n : ℕ) : '|' ∉ (toString n).toList := by
  rw [Nat.toString_eq_repr, Nat.toList_repr]
  intro hm
  exact absurd (Nat.isDigit_of_mem_toDigits (by decide) (by decide) hm) (by decide)

theorem keyed_addresses {key : FlowKey} (h : Keyed key) : IsAddress key.srcIP ∧ IsAddress key.dstIP := by
  obtain ⟨packet, hkey, hsrc, hdst⟩ := h
  unfold FlowAggregator.keyFor at hkey
  dsimp only at hkey
  split_ifs at hkey
  all_goals first
    | exact Option.some.inj hkey ▸ ⟨hdst, hsrc⟩
    | exact Option.some.inj hkey ▸ ⟨hsrc, hdst⟩

/-- Two ports with the same text. -/
theorem toString_nat_inj {m n : ℕ} (h : (toString m).toList = (toString n).toList) : m = n := by
  rw [Nat.toString_eq_repr, Nat.toString_eq_repr, Nat.toList_repr, Nat.toList_repr] at h
  rw [← Nat.ofDigitChars_toDigits (by decide : 1 < 10) (by decide : 10 ≤ 10) (n := m), h,
    Nat.ofDigitChars_toDigits (by decide) (by decide)]

/-- A signature stands for one text and one flow. -/
theorem signature_inj {text text' : String} {flow flow' : Option FlowKey} (ht : Typed text) (ht' : Typed text')
    (hf : ∀ key ∈ flow, Keyed key) (hf' : ∀ key ∈ flow', Keyed key) (h : signature text flow = signature text' flow') :
    text = text' ∧ flow = flow' := by
  have hsep : ∀ {t u : String} {rest : List Char}, Typed t → t.toList ≠ u.toList ++ '\x1f' :: rest := fun ht heq =>
    ht (by rw [heq]; simp)
  replace h := congrArg String.toList h
  cases flow with
  | none =>
    cases flow' with
    | none => exact ⟨String.toList_inj.mp h, rfl⟩
    | some key' =>
      simp only [signature, String.toList_append, List.append_assoc] at h
      exact absurd h (hsep ht)
  | some key =>
    cases flow' with
    | none =>
      simp only [signature, String.toList_append, List.append_assoc] at h
      exact absurd h.symm (hsep ht')
    | some key' =>
      simp only [signature, String.toList_append, List.append_assoc] at h
      obtain ⟨htext, h⟩ := separated_inj ht ht' h
      obtain ⟨hsrc, hdst⟩ := keyed_addresses (hf key rfl)
      obtain ⟨hsrc', hdst'⟩ := keyed_addresses (hf' key' rfl)
      obtain ⟨hsrcIP, h⟩ := separated_inj (bar_notMem_address hsrc) (bar_notMem_address hsrc') h
      obtain ⟨hsrcPort, h⟩ := separated_inj (bar_notMem_nat _) (bar_notMem_nat _) h
      obtain ⟨hdstIP, h⟩ := separated_inj (bar_notMem_address hdst) (bar_notMem_address hdst') h
      obtain ⟨hdstPort, hprotocol⟩ := separated_inj (bar_notMem_nat _) (bar_notMem_nat _) h
      refine ⟨String.toList_inj.mp htext, congrArg some ?_⟩
      cases key
      cases key'
      simp only [FlowKey.mk.injEq]
      exact ⟨String.toList_inj.mp hsrcIP, String.toList_inj.mp hdstIP, toString_nat_inj hsrcPort,
        toString_nat_inj hdstPort, String.toList_inj.mp hprotocol⟩

/-! ### What is kept -/

variable {log : List Arrival} {results : List AnalysisSession.Result}

/-- After `n` changes of the history the rows kept are those of an earlier one,
or those that pass the filters of the signature kept. -/
structure Cached (n : ℕ) (v : View) : Prop where
  version : v.packetHistoryVersion = UInt64.ofNat n
  text : Typed v.displayFilter
  flow : ∀ key ∈ v.packetFlowFilter, Keyed key
  flows : ∀ flow ∈ v.flowsCache, Keyed flow.key
  kept : v.filterCacheHistoryVersion = UINT64_MAX ∨ ∃ m ≤ n, v.filterCacheHistoryVersion = UInt64.ofNat m ∧
    (m = n → ∃ text flow, Typed text ∧ (∀ key ∈ flow, Keyed key) ∧ v.filterCacheSignature = signature text flow ∧
      v.filteredPacketIndexes = passing v text flow)

/-- The packets of the table have the addresses that were printed for them. -/
theorem Shows.addresses (h : Shows sys log results v) (hsys : Prints sys IsAddress) {record : PacketRecord}
    (hr : record ∈ v.packetHistory) : AddressesAre IsAddress record.parsed := by
  obtain ⟨r, hrun, hall, -⟩ := AnalysisSession.feedAll_safe sys log (s := {}) QuicTracker.aligned_empty
  obtain rfl : r = (results, v.session) := Except.ok.inj (hrun.symm.trans h.fed)
  rw [h.history] at hr
  replace hr := List.mem_of_mem_drop hr
  clear h hrun
  dsimp only at hall
  induction hall with
  | nil => cases hr
  | cons hanalyses _ ih =>
    rcases List.mem_cons.mp hr with rfl | hr
    · exact result_addresses hsys (by decide) hanalyses
    · exact ih hr

theorem parsed_mem {packets : List PacketData} {parsed : List ParsedPacket}
    (h : CommandLine.Parsed sys packets parsed) {p : ParsedPacket} (hp : p ∈ parsed) :
    ∃ packet, ProtocolParser.parse sys packet = .ok p := by
  induction h with
  | nil => cases hp
  | cons hparse _ ih =>
    rcases List.mem_cons.mp hp with rfl | hp
    · exact ⟨_, hparse⟩
    · exact ih hp

/-- The flows of a session are between addresses that were printed. -/
theorem Shows.flows_keyed (h : Shows sys log results v) (hsys : Prints sys IsAddress) (now : ℤ) :
    ∀ flow ∈ AnalysisSession.flows v.session now, Keyed flow.key := by
  intro flow hflow
  obtain ⟨parsed, hparsed, hflows⟩ := (CommandLine.feedAll_flowsOf sys log now).elim h.fed
  obtain ⟨p, hp, hkey⟩ := (hflows.keys flow.key).mp (List.mem_map_of_mem hflow)
  obtain ⟨packet, hparse⟩ := parsed_mem hparsed hp
  exact ⟨p, hkey, (parse_addresses hsys (by decide) packet).elim hparse⟩

theorem cached_init (database : GeoIPResolver.Database) (cacheCapacity : ℕ) :
    Cached 0 (init database cacheCapacity) where
  version := rfl
  text := List.not_mem_nil
  flow key hkey := by cases hkey
  flows flow hflow := by cases hflow
  kept := .inl rfl

/-- The history changes, and with it the version. -/
theorem Cached.ingest {n : ℕ} {a : Arrival} (h : Cached n v) (hi : CaptureView.ingest sys v a = .ok v') :
    Cached (n + 1) v' := by
  obtain ⟨⟨result, session⟩, -, hv⟩ := bind_eq_ok.mp hi
  obtain rfl := Except.ok.inj hv
  refine ⟨?_, h.text, h.flow, h.flows, ?_⟩
  · show v.packetHistoryVersion + 1 = _
    rw [h.version, UInt64.ofNat_add]
    rfl
  · rcases h.kept with hnone | ⟨m, hm, hversion, -⟩
    · exact .inl hnone
    · exact .inr ⟨m, by omega, hversion, fun heq => by omega⟩

theorem Cached.clear {n : ℕ} (h : Cached n v) (currentTime : ℚ) : Cached (n + 1) (clearCaptureView currentTime v) where
  version := by
    show v.packetHistoryVersion + 1 = _
    rw [h.version, UInt64.ofNat_add]
    rfl
  text := h.text
  flow key hkey := by cases hkey
  flows flow hflow := by cases hflow
  kept := .inl rfl

/-- An event that leaves the history and the rows kept alone. -/
theorem Cached.frame {n : ℕ} (h : Cached n v) (hversion : v'.packetHistoryVersion = v.packetHistoryVersion)
    (hsession : v'.session = v.session) (hhistory : v'.packetHistory = v.packetHistory)
    (hkept : v'.filterCacheHistoryVersion = v.filterCacheHistoryVersion)
    (hsignature : v'.filterCacheSignature = v.filterCacheSignature)
    (hrows : v'.filteredPacketIndexes = v.filteredPacketIndexes) (htext : Typed v'.displayFilter)
    (hflow : ∀ key ∈ v'.packetFlowFilter, Keyed key) (hflows : ∀ flow ∈ v'.flowsCache, Keyed flow.key) :
    Cached n v' := by
  refine ⟨hversion.trans h.version, htext, hflow, hflows, ?_⟩
  rw [hkept, hsignature, hrows]
  unfold passing
  rw [hhistory, hsession]
  exact h.kept

/-- The rows are found again, or are those of the version and the filters there are. -/
theorem Cached.resolveRows {n : ℕ} (h : Cached n v) : Cached n (resolveRows v) := by
  unfold CaptureView.resolveRows
  dsimp only
  split
  · split
    · exact ⟨h.version, h.text, h.flow, h.flows,
        .inr ⟨n, le_rfl, h.version, fun _ => ⟨_, _, h.text, h.flow, rfl, rfl⟩⟩⟩
    · exact h
  · exact h

theorem Cached.offered {n : ℕ} (h : Cached n v) (hshows : Shows sys log results v) (hsys : Prints sys IsAddress)
    {key : FlowKey} (ho : Offered v key) : Keyed key := by
  obtain ⟨flow, hflow, rfl⟩ | ⟨record, hr, hkey⟩ := ho
  · exact h.flows flow hflow
  · exact ⟨record.parsed, hkey, hshows.addresses hsys hr⟩

/-- The steps that change the history are counted. -/
theorem Cached.step {n : ℕ} (h : Cached n v) (hshows : Shows sys log results v) (hsys : Prints sys IsAddress)
    (hs : Step sys v e v') : ∃ m ≤ n + 1, Cached m v' := by
  have hkeep : ∀ {w : View}, Cached n w → ∃ m ≤ n + 1, Cached m w := fun hw => ⟨n, by omega, hw⟩
  cases hs with
  | ingest hi => exact ⟨n + 1, le_rfl, h.ingest hi⟩
  | clear currentTime => exact ⟨n + 1, le_rfl, h.clear currentTime⟩
  | updateCharts | resume | deselect | sortBy | exportLookup =>
    exact hkeep (h.frame rfl rfl rfl rfl rfl rfl h.text h.flow h.flows)
  | typeFilter ht => exact hkeep (h.frame rfl rfl rfl rfl rfl rfl ht h.flow h.flows)
  | filterFlow hoffered =>
    exact hkeep (h.frame rfl rfl rfl rfl rfl rfl h.text (fun k hk => h.offered hshows hsys (hoffered k hk)) h.flows)
  | resolveRows => exact hkeep h.resolveRows
  | select row =>
    rw [select_frame row]
    exact hkeep (h.resolveRows.frame rfl rfl rfl rfl rfl rfl h.resolveRows.text h.resolveRows.flow h.resolveRows.flows)
  | sample now =>
    rw [sampleFlowRate_frame now v]
    exact hkeep (h.frame rfl rfl rfl rfl rfl rfl h.text h.flow h.flows)
  | refresh hr =>
    have hflows := refreshFlowsCache_flows hr
    rw [refreshFlowsCache_frame hr]
    refine hkeep (h.frame rfl rfl rfl rfl rfl rfl h.text h.flow ?_)
    rcases hflows with hflows | hflows
    · rw [hflows]
      exact h.flows
    · rw [hflows]
      exact hshows.flows_keyed hsys _
  | sort hsorts =>
    refine hkeep (h.frame rfl rfl rfl rfl rfl rfl h.text h.flow ?_)
    split at hsorts
    · have hperm := (hsorts (GuiLayer.compareFlows_isStrictWeakOrder v.gui)).1
      exact fun flow hflow => h.flows flow (hperm.mem_iff.mp hflow)
    · rw [hsorts]
      exact h.flows

variable {database : GeoIPResolver.Database} {cacheCapacity : ℕ}

theorem Run.cached (hsys : Prints sys IsAddress) (h : Run sys (init database cacheCapacity) events v) :
    ∃ n ≤ events.length, Cached n v := by
  induction h with
  | start => exact ⟨0, le_rfl, cached_init database cacheCapacity⟩
  | step h hs ih =>
    obtain ⟨n, hn, hcached⟩ := ih
    obtain ⟨results, hshows⟩ := h.shows
    obtain ⟨m, hm, h'⟩ := hcached.step hshows hsys hs
    exact ⟨m, by rw [List.length_append, List.length_singleton]; omega, h'⟩

theorem ofNat_version_inj {m n : ℕ} (hm : m < 2 ^ 64) (hn : n < 2 ^ 64) (h : UInt64.ofNat m = UInt64.ofNat n) :
    m = n := by
  rw [← UInt64.toNat_ofNat_of_lt' hm, ← UInt64.toNat_ofNat_of_lt' hn, h]

/-- The rows kept under the version and the filters there are. -/
theorem Cached.found {n : ℕ} (h : Cached n v) (hn : n < 2 ^ 64 - 1)
    (hversion : v.filterCacheHistoryVersion = v.packetHistoryVersion)
    (hsignature : v.filterCacheSignature = signature v.displayFilter v.packetFlowFilter) :
    v.filteredPacketIndexes = passing v v.displayFilter v.packetFlowFilter := by
  rw [h.version] at hversion
  rcases h.kept with hnone | ⟨m, hm, hkept, hpassing⟩
  · rw [hnone] at hversion
    have := ofNat_version_inj (by decide) (by omega) hversion
    omega
  · rw [hkept] at hversion
    obtain ⟨text, flow, ht, hf, hsig, hrows⟩ := hpassing (ofNat_version_inj (by omega) (by omega) hversion)
    obtain ⟨rfl, rfl⟩ := signature_inj ht h.text hf h.flow (hsig.symm.trans hsignature)
    exact hrows

/-- Without a filter every row passes. -/
theorem passing_unfiltered (h : ¬ anyFilter v) :
    passing v v.displayFilter v.packetFlowFilter = List.range v.packetHistory.length := by
  rw [anyFilter, Bool.or_eq_true, not_or, Bool.not_eq_true, Option.isSome_eq_false_iff, Option.isNone_iff_eq_none,
    decide_eq_true_eq, not_not] at h
  obtain ⟨hflow, htext⟩ := h
  rw [passing, List.filter_eq_self]
  intro index hindex
  rw [List.getElem?_eq_getElem (List.mem_range.mp hindex), hflow, htext]
  rfl

theorem Cached.resolved {n : ℕ} (h : Cached n v) (hn : n < 2 ^ 64 - 1) :
    rows (CaptureView.resolveRows v) = passing v v.displayFilter v.packetFlowFilter := by
  by_cases hany : anyFilter v
  · by_cases hnew : v.filterCacheHistoryVersion ≠ v.packetHistoryVersion ∨
        v.filterCacheSignature ≠ signature v.displayFilter v.packetFlowFilter
    · rw [CaptureView.resolveRows, if_pos hany, if_pos hnew, rows]
      exact if_pos hany
    · rw [CaptureView.resolveRows, if_pos hany, if_neg hnew, rows, if_pos hany]
      rw [not_or, not_not, not_not] at hnew
      exact h.found hn hnew.1 hnew.2
  · rw [CaptureView.resolveRows, if_neg hany, rows, if_neg hany, passing_unfiltered hany]

/-- **The rows of the table are those that pass the filters**, though they are
only looked for when the version or the signature is another. -/
theorem rows_current (hsys : Prints sys IsAddress) (h : Run sys (init database cacheCapacity) events v)
    (hlength : events.length < 2 ^ 64 - 1) :
    rows (resolveRows v) = passing v v.displayFilter v.packetFlowFilter := by
  obtain ⟨n, hn, hcached⟩ := h.cached hsys
  exact hcached.resolved (by omega)

theorem prints_web : Prints AnalysisSession.Web.sys IsAddress := by
  refine ⟨fun a => ?_, fun _ => (by decide : IsAddress "::")⟩
  unfold AnalysisSession.Web.sys
  dsimp only
  split_ifs <;> decide

theorem rows_current_tcp : ∃ v, Run AnalysisSession.Web.sys (init noDatabase 8)
      ([.typeFilter "tcp", .resolveRows] ++ [.ingest ack]) v ∧ rows (resolveRows v) = passing v "tcp" none := by
  have h := (@Run.start AnalysisSession.Web.sys (init noDatabase 8)).step
    (.typeFilter (v := init noDatabase 8) (show '\x1f' ∉ "tcp".toList by decide))
  replace h := h.step .resolveRows
  obtain ⟨results, hshows⟩ := h.shows
  obtain ⟨v, hv⟩ := hshows.takes ack
  obtain ⟨⟨result, session⟩, -, hr⟩ := bind_eq_ok.mp hv
  refine ⟨v, h.step (.ingest hv), (rows_current prints_web (h.step (.ingest hv)) (by decide)).trans ?_⟩
  rw [← Except.ok.inj hr]
  rfl

/-! ### The selected packet -/

/-- The events that leave the selection to itself. -/
def Quiet : Event → Prop
  | .select _ | .deselect | .clear _ => False
  | _ => True

def isIngest : Event → Bool
  | .ingest _ => true
  | _ => false

/-- `k` packets after a click on the packet at `index` of those shown. -/
structure Follows (shown : List PacketRecord) (index k : ℕ) (v : View) : Prop where
  history : ∃ more, more.length = k ∧ v.packetHistory = (shown ++ more).rtake maxPacketHistory
  place : v.selectedPacketIndex =
    if shown.length + k ≤ maxPacketHistory + index then ((index - (shown.length + k - maxPacketHistory) : ℕ) : ℤ)
    else -1

section Follows

variable {shown : List PacketRecord} {index k : ℕ}

theorem Follows.frame (h : Follows shown index k v) (hhistory : v'.packetHistory = v.packetHistory)
    (hplace : v'.selectedPacketIndex = v.selectedPacketIndex) : Follows shown index k v' := by
  refine ⟨?_, hplace.trans h.place⟩
  rw [hhistory]
  exact h.history

theorem ingest_rows {a : Arrival} (hi : CaptureView.ingest sys v a = .ok v') :
    (∃ record, v'.packetHistory = Window.keep maxPacketHistory v.packetHistory record) ∧
      v'.selectedPacketIndex = if v.packetHistory.length ≥ maxPacketHistory ∧ v.selectedPacketIndex ≥ 0
        then v.selectedPacketIndex - 1 else v.selectedPacketIndex := by
  obtain ⟨⟨result, session⟩, -, hv⟩ := bind_eq_ok.mp hi
  obtain rfl := Except.ok.inj hv
  exact ⟨⟨_, rfl⟩, rfl⟩

theorem Follows.length_eq (h : Follows shown index k v) :
    v.packetHistory.length = min maxPacketHistory (shown.length + k) := by
  obtain ⟨more, hk, hhistory⟩ := h.history
  rw [hhistory, Window.length_rtake, List.length_append, hk]

/-- The place moves with the packets, until the packet is let go. -/
theorem Follows.ingest {a : Arrival} (h : Follows shown index k v) (hi : CaptureView.ingest sys v a = .ok v') :
    Follows shown index (k + 1) v' := by
  obtain ⟨⟨record, hrecord⟩, hplace⟩ := ingest_rows hi
  obtain ⟨more, hk, hhistory⟩ := h.history
  refine ⟨⟨more ++ [record], by rw [List.length_append, hk]; rfl, ?_⟩, ?_⟩
  · rw [hrecord, hhistory, Window.keep_rtake (by decide), List.append_assoc]
  · have hpos : 0 < maxPacketHistory := by decide
    rw [hplace, h.place, h.length_eq]
    generalize maxPacketHistory = most at hpos ⊢
    split_ifs <;> omega

theorem Follows.detail (h : Follows shown index k v) (hindex : index < shown.length) :
    CaptureView.detail v = if shown.length + k ≤ maxPacketHistory + index then shown[index]? else none := by
  obtain ⟨more, hk, hhistory⟩ := h.history
  have hpos : 0 < maxPacketHistory := by decide
  have hlength := h.length_eq
  unfold CaptureView.detail
  rw [h.place]
  split_ifs with hkept hgone
  · omega
  · rw [Int.toNat_natCast, hhistory, Window.getElem?_rtake, ← hhistory, hlength, List.length_append, hk]
    rw [show shown.length + k - min maxPacketHistory (shown.length + k) +
      (index - (shown.length + k - maxPacketHistory)) = index by omega]
    exact List.getElem?_append_left hindex
  · rfl
  · omega

theorem Follows.step (h : Follows shown index k v) (hquiet : Quiet e) (hs : Step sys v e v') :
    Follows shown index (k + if isIngest e then 1 else 0) v' := by
  cases hs with
  | ingest hi => exact h.ingest hi
  | clear | select | deselect => exact hquiet.elim
  | updateCharts | resume | typeFilter | filterFlow | sortBy | sort | exportLookup => exact h.frame rfl rfl
  | resolveRows =>
    rw [resolveRows_frame v]
    exact h.frame rfl rfl
  | sample now =>
    rw [sampleFlowRate_frame now v]
    exact h.frame rfl rfl
  | refresh hr =>
    rw [refreshFlowsCache_frame hr]
    exact h.frame rfl rfl

theorem Follows.run {clicked : View} (h : Follows shown index 0 clicked) (hquiet : ∀ e ∈ events, Quiet e)
    (hr : Run sys clicked events v) : Follows shown index (events.countP isIngest) v := by
  induction hr with
  | start => exact h
  | @step events v v' e _ hs ih =>
    have hfollows := (ih fun e he => hquiet e (List.mem_append_left _ he)).step
      (hquiet e (List.mem_append_right _ List.mem_cons_self)) hs
    rwa [List.countP_append, List.countP_singleton]

end Follows

/-- **The detail pane stays with the packet clicked** while the table has it, and
shows no other packet afterwards. -/
theorem detail_clicked (hsys : Prints sys IsAddress) (h : Run sys (init database cacheCapacity) events v)
    (hlength : events.length < 2 ^ 64 - 1) {row index : ℕ} (hrow : (rows (resolveRows v))[row]? = some index)
    {later : List Event} (hquiet : ∀ e ∈ later, Quiet e) (hlater : Run sys (select row (resolveRows v)) later v') :
    detail v' = if v.packetHistory.length + later.countP isIngest ≤ maxPacketHistory + index
      then v.packetHistory[index]? else none := by
  obtain ⟨results, hshows⟩ := h.shows
  have hle : v.packetHistory.length ≤ maxPacketHistory := by
    rw [hshows.history, Window.length_rtake]
    omega
  obtain ⟨n, hn, hcached⟩ := h.cached hsys
  have hindex : index < v.packetHistory.length := by
    rw [hcached.resolved (by omega), passing] at hrow
    exact List.mem_range.mp (List.mem_of_mem_filter (List.mem_of_getElem? hrow))
  have hclicked : Follows v.packetHistory index 0 (select row (resolveRows v)) := by
    rw [select, hrow, resolveRows_frame v]
    refine ⟨⟨[], rfl, ?_⟩, ?_⟩
    · rw [List.append_nil, Window.rtake_of_length_le hle]
    · rw [if_pos (by omega)]
      simp only [Nat.cast_inj]
      omega
  exact (hclicked.run hquiet hlater).detail hindex

theorem detail_clicked_ack : ∃ v v', Run AnalysisSession.Web.sys (init noDatabase 8) [.ingest ack] v ∧
    Run AnalysisSession.Web.sys (select 0 (resolveRows v)) [.ingest ack] v' ∧
      (detail v').map (·.raw) = some ack.packet := by
  obtain ⟨v, hv⟩ := (shows_init AnalysisSession.Web.sys noDatabase 8).takes ack
  have h : Run AnalysisSession.Web.sys (init noDatabase 8) [.ingest ack] v := Run.start.step (.ingest hv)
  have h' := h.step (.select 0)
  obtain ⟨results, hshows⟩ := h.shows
  obtain ⟨results', hshows'⟩ := h'.shows
  obtain ⟨v', hv'⟩ := hshows'.takes ack
  obtain ⟨result, rfl⟩ : ∃ result, results = [result] := List.length_eq_one_iff.mp hshows.length_eq.symm
  have hhistory : v.packetHistory = [⟨ack.packet, result.parsed, result.process⟩] :=
    hshows.history.trans (Window.rtake_of_length_le (show 1 ≤ maxPacketHistory by decide))
  have hnone : ¬ anyFilter v := by
    obtain ⟨⟨r, session⟩, -, hr⟩ := bind_eq_ok.mp hv
    rw [← Except.ok.inj hr]
    simp [anyFilter, init]
  obtain ⟨n, hn, hcached⟩ := h.cached prints_web
  have hrow : (rows (resolveRows v))[0]? = some 0 := by
    rw [hcached.resolved (hn.trans_lt (by decide)), passing_unfiltered hnone, hhistory]
    rfl
  have hlater : Run AnalysisSession.Web.sys (select 0 (resolveRows v)) [.ingest ack] v' := Run.start.step (.ingest hv')
  refine ⟨v, v', h, hlater, ?_⟩
  rw [detail_clicked prints_web h (by decide) hrow (by simp [Quiet]) hlater, hhistory]
  rfl

end CaptureView
end NetProbe
