/-
# The label of a flow

A name that identifies an application is the label of its packet: the parser and
the reassemblers put it before every label of the payload or of a port. The flow
takes the last label any of its packets has, so it keeps the application until a
packet without a name brings a label of its own (`service_kept_iff`).

Key definitions: `namedService`, `Labelled`, `Yields`, `frameLabel`.
Key theorems: `analyses_labelled`, `service_kept_iff`.
-/
import NetProbe.SessionRuns

namespace NetProbe

open Checked Bytes

namespace ProtocolParser

/-! ### The label of a packet -/

/-- The application the names of a packet identify, the SNI first. -/
def namedService (p : ParsedPacket) : String :=
  if identifyService p.sni ≠ "" then identifyService p.sni else identifyService p.hostname

/-- A name that identifies an application is the label. -/
def Labelled (p : ParsedPacket) : Prop := namedService p ≠ "" → p.service = namedService p

theorem identifyService_empty : identifyService "" = "" := by decide

theorem namedService_unnamed {p : ParsedPacket} (hs : p.sni = "") (hh : p.hostname = "") :
    namedService p = "" := by
  rw [namedService, hs, hh, identifyService_empty, if_neg (by simp)]

theorem unnamed_preserved (size : ℕ) : Preserved size 0
    (fun _ q => q.sni = "" ∧ q.hostname = "" ∧ q.info = "")
    (fun _ q => q.sni = "" ∧ q.hostname = "" ∧ q.info = "") := by
  have happly : ∀ (r : Report) base (q : ParsedPacket), (r.apply base q).sni = q.sni ∧
      (r.apply base q).hostname = q.hostname ∧ (r.apply base q).info = q.info := by
    rintro ⟨protocol, _ | ⟨src, dst, _ | payload⟩, _ | tcp, service, encryptedTunnel⟩ base q <;> exact ⟨rfl, rfl, rfl⟩
  refine ⟨fun h => h, fun a h => ?_, fun _ _ _ h => ?_, fun _ _ h => ?_, fun name h => ?_, fun _ h => ?_⟩
  · cases a <;> exact h
  · rw [(happly _ _ _).1, (happly _ _ _).2.1, (happly _ _ _).2.2]
    exact h
  · rw [(happly _ _ _).1, (happly _ _ _).2.1, (happly _ _ _).2.2]
    exact h
  · rw [pushTunnel_frame, pushTunnel_frame]
    exact h
  · rw [Tunnel.settle_frame]
    exact h

/-- The decoders find no names and nothing to remark. -/
theorem decoded_unnamed (sys : Platform) (rawData : PacketData) (network : ℕ × ℕ) :
    (decoded sys rawData network).sni = "" ∧ (decoded sys rawData network).hostname = "" ∧
      (decoded sys rawData network).info = "" :=
  descend_preserved (unnamed_preserved _) (p := blank rawData) le_rfl ⟨rfl, rfl, rfl⟩

/-- Whatever the payload tells of a packet without names, its label is kept in
line with the names found. -/
theorem tells_labelled {p : ParsedPacket} (hs : p.sni = "") (hh : p.hostname = "") (hu : Unlabelled p) :
    Tells p Labelled where
  nothing h := absurd (namedService_unnamed hs hh) h
  tls sni _ h := by
    simp only [namedService, hh, identifyService_empty] at h ⊢
    split_ifs at h ⊢ with hn
    · rfl
    · exact absurd rfl h
  http info service h := absurd (namedService_unnamed hs hh) h
  host info service hostname h := by
    simp only [namedService, withHost, hs, identifyService_empty, ne_eq, not_true, if_false] at h ⊢
    rw [if_pos h]
  quic hp sni h := by
    simp only [namedService, hh, identifyService_empty, hu (.inr hp), if_true] at h ⊢
    split_ifs at h ⊢ with hn
    · rfl
    · exact absurd rfl h
  label q service hq he h := absurd ((hq h).symm.trans he) h

theorem parse_labelled (sys : Platform) (rawData : PacketData) : Safe (parse sys rawData) Labelled := by
  by_cases hb : rawData.payload = []
  · obtain ⟨protocol, -, hp⟩ := parse_none sys (.inr hb)
    exact .of_eq hp fun h => absurd (namedService_unnamed rfl rfl) h
  cases hl : linkLayer rawData.payload rawData.linkType with
  | none =>
    obtain ⟨protocol, -, hp⟩ := parse_none sys (.inl hl)
    exact .of_eq hp fun h => absurd (namedService_unnamed rfl rfl) h
  | some network =>
    obtain ⟨hs, hh, -⟩ := decoded_unnamed sys rawData network
    have htells := tells_labelled hs hh (decoded_unlabelled sys rawData network)
    rw [parse_some sys hl hb]
    refine (inspectPayload_tells sys rawData.fits htells).map fun q hq => ?_
    unfold markEncrypted
    split
    · exact hq
    · exact hq

end ProtocolParser

namespace AnalysisSession

open ProtocolParser FlowAggregator

theorem Recovers.labelled {p q : ParsedPacket} (h : Recovers p q) (hp : Labelled p) : Labelled q := by
  rcases h with rfl | ⟨hs, sni, hne, rfl⟩
  · exact hp
  · intro h
    simp only [applyRecovered, if_neg hne, namedService] at h ⊢
    by_cases hn : identifyService sni = ""
    · simp only [hn, ne_eq, not_true, if_false] at h ⊢
      have hnamed : namedService p = identifyService p.hostname := by
        rw [namedService, hs, identifyService_empty, if_neg (by simp)]
      rw [← hnamed]
      exact hp (by rwa [hnamed])
    · simp only [hn, ne_eq, not_false_eq_true, if_true]

theorem analyses_labelled {sys : Platform} {packet : PacketData} {r : Result} (h : Analyses sys packet r) :
    Labelled r.parsed := by
  obtain ⟨p, hp, hr⟩ := h
  obtain ⟨q, hq, hl⟩ := parse_labelled sys packet
  obtain rfl : p = q := Except.ok.inj (hp.symm.trans hq)
  exact hr.labelled hl

/-! ### Names and labels in a run -/

/-- The packet yields the name `h`, as SNI or as Host value. -/
def Yields (p : ParsedPacket) (h : String) : Prop := h ≠ "" ∧ (p.sni = h ∨ p.hostname = h)

/-- The label `parse` gives a frame. -/
def frameLabel (sys : Platform) (packet : PacketData) : String :=
  match parse sys packet with
  | .ok parsed => parsed.service
  | .error _ => ""

/-- A packet that yields no name has the label of its frame. -/
theorem Analyses.service_eq {sys : Platform} {packet : PacketData} {r : Result} (h : Analyses sys packet r)
    (hn : ∀ n, ¬ Yields r.parsed n) : r.parsed.service = frameLabel sys packet := by
  obtain ⟨p, hp, hr⟩ := h
  rw [frameLabel, hp]
  rcases hr with hr | ⟨-, sni, hne, hr⟩
  · rw [hr]
  · refine absurd ⟨hne, .inl ?_⟩ (hn sni)
    rw [hr, applyRecovered, if_neg hne]

/-- A packet that yields `h` and no other name is labelled by it. -/
theorem namedService_only {p : ParsedPacket} {h n : String} (hn : Yields p n) (honly : ∀ n, Yields p n → n = h)
    (hh : identifyService h ≠ "") : namedService p = identifyService h := by
  obtain ⟨hne, hor⟩ := hn
  by_cases hs : p.sni = ""
  · have hhost : p.hostname = n := hor.resolve_left fun hs' => hne (hs'.symm.trans hs)
    rw [namedService, hs, identifyService_empty, if_neg (by simp), hhost, honly n ⟨hne, hor⟩]
  · rw [namedService, honly p.sni ⟨hs, .inl rfl⟩, if_pos hh]

/-- A packet that yields `h` is labelled by it unless its SNI stands for
another application. -/
theorem namedService_yields {p : ParsedPacket} {h : String} (hy : Yields p h) (hh : identifyService h ≠ "") :
    namedService p ≠ "" ∧ (namedService p = identifyService h ↔
      (identifyService p.sni = "" ∨ identifyService p.sni = identifyService h)) := by
  unfold namedService
  by_cases hs : identifyService p.sni = ""
  · have hhost : p.hostname = h := hy.2.resolve_left fun he => hh (he ▸ hs)
    simp [hs, hhost, hh]
  · simp [hs]

/-! ### The label of a flow -/

/-- The last label wins. -/
def relabel (packet : ParsedPacket) (_ : Bool) (service : String) : String :=
  if packet.service ≠ "" then packet.service else service

theorem observes_service : Observes (·.flow.service) relabel where
  hostname _ _ := rfl
  update packet hostname process downstream state := by
    have hlabel : ∀ s, (labelFlow packet hostname process s).flow.service =
        relabel packet downstream s.flow.service := fun s => by
      simp only [labelFlow, relabel]
      split_ifs <;> rfl
    refine (hlabel _).trans (congrArg (relabel packet downstream) ?_)
    exact congrArg (·.2.2.1) (labels_before_labelFlow packet downstream state)

/-- A fold keeps `b` all along exactly when every step keeps it. -/
theorem foldl_take_iff {α β : Type} {f : β → α → β} {b : β} : ∀ {l : List α},
    (∀ n, (l.take n).foldl f b = b) ↔ ∀ x ∈ l, f b x = b
  | [] => by simp
  | x :: l => by
    rw [List.forall_mem_cons, ← foldl_take_iff]
    constructor
    · intro h
      have hx : f b x = b := h 1
      refine ⟨hx, fun n => ?_⟩
      have hn := h (n + 1)
      rwa [List.take_succ_cons, List.foldl_cons, hx] at hn
    · rintro ⟨hx, h⟩ n
      cases n with
      | zero => rfl
      | succ n => rw [List.take_succ_cons, List.foldl_cons, hx, h]

/-- After the run `flows` reports the label `service` for the flow `k`. -/
def Reports (sys : Platform) (arrivals : List Arrival) (k : FlowKey) (service : String) : Prop :=
  Safe (feedAll sys {} arrivals) fun r => ∀ now, (flowOf r.2 now k).map (·.service) = some service

/-- What the packets make of the label of the flow `k`. -/
abbrev labelOf (k : FlowKey) (seen : Option String) (results : List Result) : Option String :=
  (results.map (·.parsed)).foldl (credit k (fun _ => "") relabel) seen

theorem reports_iff {sys : Platform} {arrivals : List Arrival} {results : List Result} {s : Session}
    {k : FlowKey} {service : String} (hrun : feedAll sys {} arrivals = .ok (results, s)) :
    Reports sys arrivals k service ↔ labelOf k none results = some service := by
  have hseen : ∀ now, (flowOf s now k).map (·.service) = labelOf k none results := fun now =>
    (flowOf_observe observes_service (·.service) id (fun _ _ => rfl) hrun now k).trans (congrFun Option.map_id _)
  constructor
  · rintro ⟨r, hr, h⟩
    obtain rfl := Except.ok.inj (hr.symm.trans hrun)
    exact (hseen 0).symm.trans (h 0)
  · intro h
    exact .of_eq hrun fun now => (hseen now).trans h

/-- A frame of the flow `k` without a name is labelled `service`, if at all. -/
def KeepsLabel (sys : Platform) (k : FlowKey) (service : String) (b : Arrival) (r : Result) : Prop :=
  keyFor r.parsed = some k → (∀ n, ¬ Yields r.parsed n) →
    frameLabel sys b.packet = "" ∨ frameLabel sys b.packet = service

/-- A packet with no name but `h` leaves the label of `h` exactly when it keeps it. -/
theorem credit_fixed_iff {sys : Platform} {k : FlowKey} {h : String} {b : Arrival} {r : Result}
    (hr : Analyses sys b.packet r) (honly : keyFor r.parsed = some k → ∀ n, Yields r.parsed n → n = h)
    (hh : identifyService h ≠ "") :
    credit k (fun _ => "") relabel (some (identifyService h)) r.parsed = some (identifyService h) ↔
      KeepsLabel sys k (identifyService h) b r := by
  by_cases hk : keyFor r.parsed = some k
  · have hcredit : credit k (fun _ => "") relabel (some (identifyService h)) r.parsed =
        some (identifyService h) ↔ r.parsed.service = "" ∨ r.parsed.service = identifyService h := by
      rw [credit, if_pos hk, Option.getD_some, relabel, Option.some_inj]
      by_cases hs : r.parsed.service = ""
      · simp [hs]
      · simp [hs]
    rw [hcredit]
    by_cases hn : ∀ n, ¬ Yields r.parsed n
    · rw [hr.service_eq hn]
      exact ⟨fun hl _ _ => hl, fun hl => hl hk hn⟩
    · obtain ⟨n, hn'⟩ := not_forall_not.mp hn
      have hl := namedService_only hn' (honly hk) hh
      have := analyses_labelled hr (hl ▸ hh)
      exact ⟨fun _ _ hn' => absurd hn' hn, fun _ => .inr (this.trans hl)⟩
  · exact ⟨fun _ hk' => absurd hk' hk, fun _ => by rw [credit, if_neg hk]⟩

theorem forall_mem_iff_forall₂ {α β : Type} {R Q : α → β → Prop} {P : β → Prop} {l : List α} {l' : List β}
    (hR : List.Forall₂ R l l') (h : ∀ a b, R a b → b ∈ l' → (P b ↔ Q a b)) :
    (∀ b ∈ l', P b) ↔ List.Forall₂ Q l l' := by
  induction hR with
  | nil => simp
  | @cons a b l l' hab hR ih =>
    rw [List.forall_mem_cons, List.forall₂_cons, h a b hab List.mem_cons_self,
      ih fun a' b' hab' hb' => h a' b' hab' (List.mem_cons_of_mem _ hb')]

section Run

variable {sys : Platform} {before after : List Arrival} {a : Arrival} {s : Session}
  {earlier later : List Result} {named : Result} {k : FlowKey} {h : String}

/-- The packets of a run, and what they are analysed as. -/
theorem analyses_of_run (hrun : feedAll sys {} (before ++ a :: after) = .ok (earlier ++ named :: later, s))
    (hlen : earlier.length = before.length) :
    Analyses sys a.packet named ∧ List.Forall₂ (fun b r => Analyses sys b.packet r) after later := by
  obtain ⟨r, hr, hall, -⟩ := feedAll_safe sys (before ++ a :: after) (s := {}) QuicTracker.aligned_empty
  obtain rfl := Except.ok.inj (hr.symm.trans hrun)
  have hdrop := List.forall₂_drop before.length hall
  rw [List.drop_left, ← hlen, List.drop_left] at hdrop
  cases hdrop with
  | cons ha hafter => exact ⟨ha, hafter⟩

/-- **A flow keeps the application its name identified** for as long as the
packets without a name bring no other label: after a packet that yields a name
`h` of an application, and no other name in the flow, `flows` reports the
application all along exactly when no later frame of the flow without a name is
labelled otherwise (and the packet has no SNI that outranks `h`). -/
theorem service_kept_iff (hrun : feedAll sys {} (before ++ a :: after) = .ok (earlier ++ named :: later, s))
    (hlen : earlier.length = before.length) (hk : keyFor named.parsed = some k) (hy : Yields named.parsed h)
    (hh : identifyService h ≠ "")
    (honly : ∀ r ∈ later, keyFor r.parsed = some k → ∀ n, Yields r.parsed n → n = h) :
    (∀ n, Reports sys (before ++ a :: after.take n) k (identifyService h)) ↔
      (identifyService named.parsed.sni = "" ∨ identifyService named.parsed.sni = identifyService h) ∧
      List.Forall₂ (KeepsLabel sys k (identifyService h)) after later := by
  obtain ⟨ha, hafter⟩ := analyses_of_run hrun hlen
  obtain ⟨hne, hnamed⟩ := namedService_yields hy hh
  have hservice := analyses_labelled ha hne
  have hfold : ∀ n, labelOf k none (earlier ++ named :: later.take n) =
      labelOf k (some (namedService named.parsed)) (later.take n) := by
    intro n
    simp only [labelOf, List.map_append, List.map_cons, List.foldl_append, List.foldl_cons]
    congr 1
    rw [credit, if_pos hk, relabel, if_pos (by rw [hservice]; exact hne), hservice]
  have hreports : ∀ n, Reports sys (before ++ a :: after.take n) k (identifyService h) ↔
      labelOf k (some (namedService named.parsed)) (later.take n) = some (identifyService h) := by
    intro n
    obtain ⟨t, ht⟩ := feedAll_take hrun (before.length + (n + 1))
    rw [List.take_length_add_append, ← hlen, List.take_length_add_append, List.take_succ_cons,
      List.take_succ_cons] at ht
    rw [reports_iff ht, hfold n]
  rw [forall_congr' hreports, ← hnamed,
    ← forall_mem_iff_forall₂ hafter fun b r hr hmem => credit_fixed_iff hr (honly r hmem) hh]
  constructor
  · intro hall
    have h0 : namedService named.parsed = identifyService h := Option.some_inj.mp (hall 0)
    rw [h0] at hall
    refine ⟨h0, fun r hr => foldl_take_iff.mp (fun n => ?_) r.parsed (List.mem_map_of_mem hr)⟩
    rw [← List.map_take]
    exact hall n
  · rintro ⟨h0, hall⟩ n
    rw [h0, labelOf, List.map_take]
    refine foldl_take_iff.mpr (fun p hp => ?_) n
    obtain ⟨r, hr, rfl⟩ := List.mem_map.mp hp
    exact hall r hr

end Run

/-! A request that names its server, and the acknowledgement after it. -/

namespace Web

open Wire

def ascii (text : String) : Bytes := text.toList.map fun c => UInt8.ofNat c.toNat

def request : Arrival := arrival (frame 1000 (ascii "GET / HTTP/1.1\r\nHost: youtube.com\r\n\r\n")) 91 (by decide)

def ack : Arrival := arrival (frame 1037 []) 54 (by decide)

/-- A frame sent to a port that is not labelled. -/
def elsewhere (a : Arrival) : Arrival where
  packet := { a.packet with
    payload := a.packet.payload.take 36 ++ be16 50080 ++ a.packet.payload.drop 38
    fits := by
      have := a.packet.fits
      simp only [List.length_append, List.length_take, List.length_drop, length_be16]
      omega }
  lookupProcess := a.lookupProcess

def elsewhereKey : FlowKey := { key with dstPort := 50080 }

theorem identifyService_youtube : identifyService "youtube.com" = "YouTube" := by decide

/-- The keys and the names of the two packets. -/
theorem names_of_run : (fun r => r.1.map fun x => (keyFor x.parsed, x.parsed.sni, x.parsed.hostname)) <$>
    feedAll sys {} [request, ack] = .ok [(some key, "", "youtube.com"), (some key, "", "")] := by
  decide +kernel

theorem names_of_elsewhere : (fun r => r.1.map fun x => (keyFor x.parsed, x.parsed.sni, x.parsed.hostname)) <$>
    feedAll sys {} [elsewhere request, elsewhere ack] =
      .ok [(some elsewhereKey, "", "youtube.com"), (some elsewhereKey, "", "")] := by
  decide +kernel

end Web

open Web

/-- Between two ports without a label the application stays. -/
theorem service_kept_iff_elsewhere : ∃ results s, feedAll sys {} [elsewhere request, elsewhere ack] = .ok (results, s) ∧
    ∀ n, Reports sys ([] ++ elsewhere request :: [elsewhere ack].take n) elsewhereKey "YouTube" := by
  obtain ⟨⟨results, s⟩, hrun, -⟩ :=
    feedAll_safe sys [elsewhere request, elsewhere ack] (s := {}) QuicTracker.aligned_empty
  have hnames := names_of_elsewhere
  rw [hrun, map_ok, Except.ok.injEq] at hnames
  obtain ⟨named, rest, hresults, hnamed, hrest⟩ := List.map_eq_cons_iff.mp hnames
  obtain ⟨r, rest', hrest', hr, hnil⟩ := List.map_eq_cons_iff.mp hrest
  obtain rfl := List.map_eq_nil_iff.mp hnil
  obtain ⟨hk, hs, hh⟩ := by simpa only [Prod.mk.injEq] using hnamed
  obtain ⟨-, hs', hh'⟩ := by simpa only [Prod.mk.injEq] using hr
  have hrun' : feedAll sys {} ([] ++ elsewhere request :: [elsewhere ack]) = .ok ([] ++ named :: [r], s) :=
    hrun.trans (congrArg (fun l => Except.ok (l, s)) (hresults.trans (congrArg _ hrest')))
  have honly : ∀ r' ∈ [r], keyFor r'.parsed = some elsewhereKey → ∀ n, Yields r'.parsed n → n = "youtube.com" := by
    intro r' hr' _ n hn
    obtain rfl := List.mem_singleton.mp hr'
    exact absurd (hn.2.elim (fun h => h.symm.trans hs') fun h => h.symm.trans hh') hn.1
  have hiff := service_kept_iff hrun' rfl hk ⟨by decide, .inr hh⟩ (by rw [identifyService_youtube]; decide) honly
  rw [identifyService_youtube] at hiff
  refine ⟨results, s, hrun, hiff.mpr ⟨.inl ?_, .cons (fun _ _ => .inl ?_) .nil⟩⟩
  · rw [hs]
    decide
  · decide +kernel

/-- The label of the port replaces the application the request named. -/
theorem service_overwritten :
    (fun r => r.1.map fun x => (keyFor x.parsed, x.parsed.sni, x.parsed.hostname)) <$>
      feedAll Web.sys {} [Web.request, Web.ack] = .ok [(some Web.key, "", "youtube.com"), (some Web.key, "", "")] ∧
    identifyService "youtube.com" = "YouTube" ∧ ¬ Reports Web.sys [Web.request, Web.ack] Web.key "YouTube" := by
  refine ⟨Web.names_of_run, Web.identifyService_youtube, ?_⟩
  rintro ⟨r, hr, h⟩
  have hservice : (fun r => (flowOf r.2 0 Web.key).map (·.service)) <$>
      feedAll Web.sys {} [Web.request, Web.ack] = .ok (some "HTTP") := by decide +kernel
  rw [hr, map_ok, Except.ok.injEq, h 0] at hservice
  exact absurd hservice (by decide)

end AnalysisSession
end NetProbe
