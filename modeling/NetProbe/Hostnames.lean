/-
# The hostname of a flow

Three writers set it: the names a packet of the flow yields, the name known for
the packet's peer, and every DNS answer for an address of the flow. What they
leave is a fold over the packets and the names told so far (`feedAll_names`).
A name from an SNI stays until a packet of the flow finds another name told, or
an answer names an address of the flow (`sni_kept_iff`).

Key definitions: `Told`, `toldIn`, `lastTold`, `Keeps`.
-/
import NetProbe.ServiceLabels
import NetProbe.TlsRuns

namespace NetProbe

open Checked Bytes Wire

namespace AnalysisSession

open ProtocolParser FlowAggregator

/-! ### Names told by DNS -/

/-- A hostname told for an address. -/
structure Told where
  ip : String
  hostname : String

/-- The name an answer tells, if any. -/
def toldBy (sys : Platform) (queryName : String) (answer : DNSParser.DNSRecord) : Option Told :=
  match answer.type with
  | .A | .AAAA => some ⟨answer.value, if queryName = "" then answer.name else queryName⟩
  | .PTR => (DNSParser.reverseNameToAddress sys answer.name).map fun address => ⟨address, answer.value⟩
  | _ => none

def Told.usable (n : Told) : Bool := n.ip ≠ "" ∧ n.hostname ≠ ""

theorem Told.usable_iff {n : Told} : n.usable = true ↔ ¬ (n.ip = "" ∨ n.hostname = "") := by
  rw [Told.usable, decide_eq_true_iff, not_or]

/-- The names the answers tell, in order; one without address or hostname is ignored. -/
def toldByAll (sys : Platform) (queryName : String) (answers : List DNSParser.DNSRecord) : List Told :=
  (answers.filterMap (toldBy sys queryName)).filter Told.usable

/-- The names a packet tells. -/
def toldIn (sys : Platform) (packet : PacketData) (parsed : ParsedPacket) : List Told :=
  match DNSParser.parseResponse sys packet parsed with
  | .ok (some response) => toldByAll sys response.queryName response.answers
  | _ => []

/-- The name told last for an address that passes `test`. -/
def lastTold (test : String → Bool) (names : List Told) : Option String :=
  ((names.filter fun n => test n.ip).getLast?).map (·.hostname)

/-- The addresses of a key. -/
def endpointOf (k : FlowKey) (ip : String) : Bool := k.dstIP = ip ∨ k.srcIP = ip

theorem endpointOf_packet {p : ParsedPacket} {k : FlowKey} (h : keyFor p = some k) (ip : String) :
    endpointOf k ip = decide (p.dstIP = ip ∨ p.srcIP = ip) := by
  rw [keyFor_eq_some h]
  rcases orient_mem ClientFirst (srcEndpoint p) (dstEndpoint p) with ho | ho
  · rw [ho]
    rfl
  · rw [ho]
    exact decide_eq_decide.mpr or_comm

section Told

variable {sys : Platform} {test : String → Bool} {names : List Told} {n : Told}

theorem lastTold_append (names more : List Told) :
    lastTold test (names ++ more) = (lastTold test more).or (lastTold test names) := by
  simp only [lastTold, List.filter_append, List.getLast?_append]
  cases (more.filter fun n => test n.ip).getLast? <;> rfl

theorem lastTold_singleton : lastTold test [n] = if test n.ip then some n.hostname else none := by
  unfold lastTold
  cases h : test n.ip <;> simp [h]

theorem lastTold_mem {hostname : String} (h : lastTold test names = some hostname) :
    ∃ n ∈ names, test n.ip = true ∧ n.hostname = hostname := by
  obtain ⟨n, hn, rfl⟩ := Option.map_eq_some_iff.mp h
  obtain ⟨hmem, htest⟩ := List.mem_filter.mp (List.mem_of_getLast? hn)
  exact ⟨n, hmem, htest, rfl⟩

theorem lastTold_eq_none : lastTold test names = none ↔ ∀ n ∈ names, test n.ip = false := by
  simp [lastTold]

theorem toldIn_usable {packet : PacketData} {parsed : ParsedPacket} :
    ∀ n ∈ toldIn sys packet parsed, n.hostname ≠ "" := by
  intro n hn
  unfold toldIn at hn
  split at hn
  · have husable := Told.usable_iff.mp (List.mem_filter.mp hn).2
    exact fun hempty => husable (.inr hempty)
  · simp at hn

end Told

/-! ### What a packet makes of the names -/

/-- The hostname of the flow `k`. -/
def hostnameOf (flows : Flows) (k : FlowKey) : Option String := (flows.lookup k).map (·.flow.hostname)

theorem hostnameOf_setHostnameForAddress (flows : Flows) (k : FlowKey) {n : Told} (h : n.usable = true) :
    hostnameOf (setHostnameForAddress flows n.ip n.hostname) k =
      (hostnameOf flows k).map fun name => if endpointOf k n.ip then n.hostname else name := by
  unfold hostnameOf
  rw [setHostnameForAddress, if_neg (Told.usable_iff.mp h), Table.lookup_mapValues, Option.map_map, Option.map_map]
  refine congrArg (Option.map · _) (funext fun state => ?_)
  simp only [Function.comp_apply, endpointOf, decide_eq_true_eq]
  split <;> rfl

theorem hostnameOf_update (flows : Flows) (p : ParsedPacket) (hostname process : String) (k : FlowKey) :
    hostnameOf (update flows p hostname process) k = if keyFor p = some k then
      some (if p.sni ≠ "" then p.sni else if p.hostname ≠ "" then p.hostname else if hostname ≠ "" then hostname
        else (hostnameOf flows k).getD "")
    else hostnameOf flows k := by
  by_cases hk : keyFor p = some k
  · have hlabel : ∀ s, (labelFlow p hostname process s).flow.hostname = if p.sni ≠ "" then p.sni
        else if p.hostname ≠ "" then p.hostname else if hostname ≠ "" then hostname else s.flow.hostname := fun s => by
      simp only [labelFlow]
      split_ifs <;> rfl
    have hbefore : ∀ s, (resetSequences p <| trackDelivery p (isDownstream p k) <|
        timeHandshake p (isDownstream p k) <| countPacket p (isDownstream p k) s).flow.hostname = s.flow.hostname :=
      fun s => congrArg (·.2.1) (labels_before_labelFlow p (isDownstream p k) s)
    have hold : ((flows.lookup k).getD (newState k p.timestamp)).flow.hostname = (hostnameOf flows k).getD "" := by
      unfold hostnameOf
      cases flows.lookup k <;> rfl
    have hstate : ∀ s, (updateState p hostname process (isDownstream p k) s).flow.hostname =
        if p.sni ≠ "" then p.sni else if p.hostname ≠ "" then p.hostname else if hostname ≠ "" then hostname
        else s.flow.hostname := fun s => (hlabel _).trans (by rw [hbefore])
    rw [hostnameOf, update_lookup_self hk, if_pos hk, Option.map_some, hstate, hold]
  · rw [hostnameOf, update_lookup_ne hk, if_neg hk]
    rfl

/-- `t` is `s` after `names` have been told. -/
structure Learns (names : List Told) (s t : Session) : Prop where
  cache : ∀ ip, t.hostnameCache.lookup ip = (lastTold (· = ip) names).or (s.hostnameCache.lookup ip)
  flows : ∀ k, hostnameOf t.flowAggregator k =
    (hostnameOf s.flowAggregator k).map ((lastTold (endpointOf k) names).getD ·)

theorem Learns.of_eq {s t : Session} (hc : t.hostnameCache = s.hostnameCache)
    (hf : t.flowAggregator = s.flowAggregator) :
    Learns [] s t := ⟨fun ip => by rw [hc]; rfl, fun k => by rw [hf]; cases hostnameOf s.flowAggregator k <;> rfl⟩

theorem Learns.trans {names more : List Told} {s t u : Session} (h : Learns names s t) (h' : Learns more t u) :
    Learns (names ++ more) s u where
  cache ip := by rw [h'.cache, h.cache, lastTold_append, Option.or_assoc]
  flows k := by
    rw [h'.flows, h.flows, Option.map_map]
    refine congrArg (Option.map · _) (funext fun name => ?_)
    rw [lastTold_append]
    cases lastTold (endpointOf k) more <;> rfl

theorem learnHostname_learns (n : Told) (s : Session) :
    Learns ([n].filter Told.usable) s (learnHostname n.ip n.hostname s) := by
  by_cases h : n.usable = true
  · rw [List.filter_cons_of_pos h]
    refine ⟨fun ip => ?_, fun k => ?_⟩
    · rw [List.filter_nil, lastTold_singleton, learnHostname, HostnameCache.store,
        if_neg (Told.usable_iff.mp h)]
      by_cases hip : n.ip = ip
      · subst hip
        rw [AList.lookup_insert, if_pos (by simp)]
        rfl
      · rw [AList.lookup_insert_ne (Ne.symm hip), if_neg (by simpa using hip)]
        rfl
    · rw [List.filter_nil, lastTold_singleton, learnHostname, hostnameOf_setHostnameForAddress _ _ h]
      refine congrArg (Option.map · _) (funext fun name => ?_)
      split <;> rfl
  · have hempty : n.ip = "" ∨ n.hostname = "" := not_not.mp (mt Told.usable_iff.mpr h)
    rw [List.filter_cons_of_neg h]
    refine Learns.of_eq ?_ ?_
    · exact if_pos hempty
    · exact if_pos hempty

theorem learnAnswer_learns (sys : Platform) (queryName : String) (answer : DNSParser.DNSRecord) (s : Session) :
    Learns ((toldBy sys queryName answer).toList.filter Told.usable) s (learnAnswer sys queryName s answer) := by
  cases htype : answer.type with
  | A | AAAA =>
    simp only [learnAnswer, toldBy, htype]
    exact learnHostname_learns ⟨answer.value, _⟩ s
  | PTR =>
    simp only [learnAnswer, toldBy, htype]
    cases DNSParser.reverseNameToAddress sys answer.name with
    | none => exact .of_eq rfl rfl
    | some address => exact learnHostname_learns ⟨address, answer.value⟩ s
  | _ =>
    simp only [learnAnswer, toldBy, htype]
    exact .of_eq rfl rfl

theorem learnResponse_learns (sys : Platform) (response : DNSParser.DNSResponse) (s : Session) :
    Learns (toldByAll sys response.queryName response.answers) s (learnResponse sys response s) := by
  have hanswers : ∀ (answers : List DNSParser.DNSRecord) (s : Session),
      Learns (toldByAll sys response.queryName answers) s (answers.foldl (learnAnswer sys response.queryName) s) := by
    intro answers
    induction answers with
    | nil => exact fun s => .of_eq rfl rfl
    | cons answer answers ih =>
      intro s
      have hcons : toldByAll sys response.queryName (answer :: answers) =
          (toldBy sys response.queryName answer).toList.filter Told.usable ++
            toldByAll sys response.queryName answers := by
        rw [toldByAll, toldByAll, ← List.filter_append]
        cases h : toldBy sys response.queryName answer <;> simp [h]
      rw [hcons]
      exact (learnAnswer_learns sys response.queryName answer s).trans (ih _)
  have hcount : Learns [] s { s with
      plaintextDnsResponses := s.plaintextDnsResponses + 1
      echAdvertised := response.encryptedClientHelloAdvertised || s.echAdvertised } := .of_eq rfl rfl
  exact hcount.trans (hanswers response.answers _)

/-- The name of a flow after a packet of it, `name` before: its own, or one told
for its destination or its source. -/
def nameAfter (told : List Told) (p : ParsedPacket) (name : String) : String :=
  if p.sni ≠ "" then p.sni else if p.hostname ≠ "" then p.hostname
  else ((lastTold (· = p.dstIP) told).or (lastTold (· = p.srcIP) told)).getD name

/-- The names told in a run so far, and the name of one flow. -/
structure Names where
  told : List Told := []
  flow : Option String := none

/-- A packet on its way, and what it was analysed as. -/
abbrev Heard := PacketData × ParsedPacket

def Names.next (sys : Platform) (k : FlowKey) (names : Names) (x : Heard) : Names where
  told := names.told ++ toldIn sys x.1 x.2
  flow :=
    let flow := names.flow.map ((lastTold (endpointOf k) (toldIn sys x.1 x.2)).getD ·)
    if keyFor x.2 = some k then some (nameAfter (names.told ++ toldIn sys x.1 x.2) x.2 (flow.getD "")) else flow

/-- What the session knows of the names. -/
structure Knows (k : FlowKey) (names : Names) (s : Session) : Prop where
  cache : ∀ ip, s.hostnameCache.lookup ip = lastTold (· = ip) names.told
  flow : hostnameOf s.flowAggregator k = names.flow
  usable : ∀ n ∈ names.told, n.hostname ≠ ""

theorem harvestDns_learns {sys : Platform} {packet : PacketData} {parsed : ParsedPacket} {s t : Session}
    (h : harvestDns sys packet parsed s = .ok t) : Learns (toldIn sys packet parsed) s t := by
  obtain ⟨response, hresponse, ht⟩ := bind_eq_ok.mp h
  rw [toldIn, hresponse]
  cases response with
  | none =>
    obtain rfl := Except.ok.inj ht
    exact .of_eq rfl rfl
  | some response =>
    obtain rfl := Except.ok.inj ht
    exact learnResponse_learns sys response s

/-- The hostname a packet is attributed, in the flow of the packet. -/
theorem nameAfter_attributeHostname {told : List Told} {s : Session} (husable : ∀ n ∈ told, n.hostname ≠ "")
    (hcache : ∀ ip, s.hostnameCache.lookup ip = lastTold (· = ip) told) (p : ParsedPacket) (name : String) :
    (if p.sni ≠ "" then p.sni else if p.hostname ≠ "" then p.hostname
      else if attributeHostname p s ≠ "" then attributeHostname p s else name) = nameAfter told p name := by
  unfold nameAfter attributeHostname
  by_cases hs : p.sni ≠ ""
  · rw [if_pos hs, if_pos hs]
  by_cases hh : p.hostname ≠ ""
  · rw [if_neg hs, if_pos hh, if_neg hs, if_pos hh]
  have hne : ∀ {test : String → Bool} {hostname : String}, lastTold test told = some hostname → hostname ≠ "" := by
    intro test hostname hl
    obtain ⟨n, hn, -, rfl⟩ := lastTold_mem hl
    exact husable n hn
  simp only [if_neg hs, if_neg hh, hcache]
  cases hd : lastTold (fun ip => decide (ip = p.dstIP)) told with
  | some hostname => exact if_pos (hne hd)
  | none =>
    cases hsrc : lastTold (fun ip => decide (ip = p.srcIP)) told with
    | some hostname => exact if_pos (hne hsrc)
    | none => exact if_neg (by simp)

/-- What a packet leaves of the names. -/
theorem feed_names {sys : Platform} {k : FlowKey} {names : Names} {s t : Session} {packet : PacketData}
    {lookupProcess : ParsedPacket → String} {r : Result} (hs : QuicTracker.Aligned s.quicTracker)
    (h : Knows k names s) (hfeed : feed sys s packet lookupProcess = .ok (r, t)) :
    Knows k (names.next sys k (packet, r.parsed)) t := by
  obtain ⟨parsed, -, hfeed⟩ := bind_eq_ok.mp hfeed
  obtain ⟨⟨q, u⟩, hrecover, hfeed⟩ := bind_eq_ok.mp hfeed
  obtain ⟨v, hharvest, hfeed⟩ := bind_eq_ok.mp hfeed
  obtain ⟨rfl, rfl⟩ := Prod.mk.inj (Except.ok.inj hfeed)
  obtain ⟨r, hr, -, -, hflows, hcache⟩ := recoverSni_safe sys packet parsed hs
  obtain rfl : r = (q, u) := Except.ok.inj (hr.symm.trans hrecover)
  have hlearn := harvestDns_learns hharvest
  dsimp only at hflows hcache hlearn ⊢
  have hcount : (countEncryptedDns q v).hostnameCache = v.hostnameCache ∧
      (countEncryptedDns q v).flowAggregator = v.flowAggregator := by
    unfold countEncryptedDns
    split
    · exact ⟨rfl, rfl⟩
    · exact ⟨rfl, rfl⟩
  have hknown : ∀ ip, v.hostnameCache.lookup ip = lastTold (· = ip) (names.told ++ toldIn sys packet q) := by
    intro ip
    rw [hlearn.cache, hcache, h.cache, lastTold_append]
  have hnamed : hostnameOf v.flowAggregator k =
      names.flow.map ((lastTold (endpointOf k) (toldIn sys packet q)).getD ·) := by
    rw [hlearn.flows, hflows, h.flow]
  have husable : ∀ n ∈ names.told ++ toldIn sys packet q, n.hostname ≠ "" := by
    intro n hn
    rcases List.mem_append.mp hn with hn | hn
    · exact h.usable n hn
    · exact toldIn_usable n hn
  have hknown' : ∀ ip, (countEncryptedDns q v).hostnameCache.lookup ip =
      lastTold (· = ip) (names.told ++ toldIn sys packet q) := fun ip => by rw [hcount.1, hknown]
  refine ⟨hknown', ?_, husable⟩
  refine (hostnameOf_update _ q _ _ k).trans ?_
  rw [nameAfter_attributeHostname husable hknown', hcount.2, hnamed]
  rfl

/-! ### Runs -/

/-- The packets of a run, and what they were analysed as. -/
def heard (arrivals : List Arrival) (results : List Result) : List Heard :=
  arrivals.zipWith (fun a r => (a.packet, r.parsed)) results

/-- **What a run leaves of the names.** -/
theorem feedAll_names {sys : Platform} {k : FlowKey} : ∀ {arrivals : List Arrival} {names : Names} {s t : Session}
    {results : List Result}, QuicTracker.Aligned s.quicTracker → Knows k names s →
      feedAll sys s arrivals = .ok (results, t) → Knows k ((heard arrivals results).foldl (Names.next sys k) names) t
  | [], names, s, t, results, _, h, hrun => by
    obtain ⟨rfl, rfl⟩ := Prod.mk.inj (Except.ok.inj hrun)
    exact h
  | a :: arrivals, names, s, t, results, hs, h, hrun => by
    obtain ⟨⟨r, u⟩, hfeed, hrun⟩ := bind_eq_ok.mp hrun
    obtain ⟨⟨rest, v⟩, hrest, hrun⟩ := bind_eq_ok.mp hrun
    obtain ⟨rfl, rfl⟩ := Prod.mk.inj (Except.ok.inj hrun)
    obtain ⟨r', hr', -, hal, -⟩ := feed_safe sys hs a.packet a.lookupProcess
    obtain rfl : r' = (r, u) := Except.ok.inj (hr'.symm.trans hfeed)
    show Knows k ((heard arrivals rest).foldl (Names.next sys k) (names.next sys k (a.packet, r.parsed))) v
    exact feedAll_names hal (feed_names hs h hfeed) hrest

theorem knows_empty (k : FlowKey) : Knows k {} {} := ⟨fun _ => rfl, rfl, by simp⟩

/-- The names told by the packets of a run. -/
def toldOf (sys : Platform) (run : List Heard) : List Told := run.flatMap fun x => toldIn sys x.1 x.2

theorem toldOf_concat (sys : Platform) (run : List Heard) (x : Heard) :
    toldOf sys (run ++ [x]) = toldOf sys run ++ toldIn sys x.1 x.2 := by
  simp [toldOf]

theorem mem_heard {x : Heard} : ∀ {arrivals : List Arrival} {results : List Result}, x ∈ heard arrivals results →
    ∃ r ∈ results, x.2 = r.parsed
  | [], _, h => by simp [heard] at h
  | _ :: _, [], h => by simp [heard] at h
  | a :: arrivals, r :: results, h => by
    rcases List.mem_cons.mp h with rfl | h
    · exact ⟨r, List.mem_cons_self, rfl⟩
    · obtain ⟨r', hr', hx⟩ := mem_heard h
      exact ⟨r', List.mem_cons_of_mem _ hr', hx⟩

theorem heard_append {before after : List Arrival} {earlier later : List Result} (h : earlier.length = before.length)
    (a : Arrival) (named : Result) : heard (before ++ a :: after) (earlier ++ named :: later) =
      heard (before ++ [a]) (earlier ++ [named]) ++ heard after later := by
  unfold heard
  rw [List.zipWith_append h.symm, List.zipWith_append h.symm, List.append_assoc]
  rfl

/-- What a run makes of the names. -/
abbrev namesOf (sys : Platform) (k : FlowKey) (run : List Heard) : Names := run.foldl (Names.next sys k) {}

theorem namesOf_append (sys : Platform) (k : FlowKey) (run more : List Heard) :
    namesOf sys k (run ++ more) = more.foldl (Names.next sys k) (namesOf sys k run) :=
  List.foldl_append

theorem namesOf_told (sys : Platform) (k : FlowKey) (run : List Heard) : (namesOf sys k run).told = toldOf sys run := by
  induction run using List.reverseRecOn with
  | nil => rfl
  | append_singleton run x ih =>
    rw [namesOf_append, List.foldl_cons, List.foldl_nil, toldOf_concat]
    exact congrArg (· ++ toldIn sys x.1 x.2) ih

/-- After the run `flows` reports the hostname `h` for the flow `k`. -/
def ReportsHostname (sys : Platform) (arrivals : List Arrival) (k : FlowKey) (h : String) : Prop :=
  Safe (feedAll sys {} arrivals) fun r => ∀ now, (flowOf r.2 now k).map (·.hostname) = some h

/-- The packet `x` leaves the name `h` to the flow `k`, when `told` are the names
told up to and including `x`: a packet of the flow without a name finds no other
name for its destination or, failing that, its source; the answers of another
packet name no other one last for an address of the flow. -/
def Keeps (sys : Platform) (k : FlowKey) (h : String) (told : List Told) (x : Heard) : Prop :=
  if keyFor x.2 = some k then
    (∀ n, ¬ Yields x.2 n) → ∀ n ∈ (lastTold (· = x.2.dstIP) told).or (lastTold (· = x.2.srcIP) told), n = h
  else ∀ n ∈ lastTold (endpointOf k) (toldIn sys x.1 x.2), n = h

section Run

variable {sys : Platform} {before after : List Arrival} {a : Arrival} {s : Session} {earlier later : List Result}
  {named : Result} {k : FlowKey} {h : String}

theorem reportsHostname_iff {arrivals : List Arrival} {results : List Result}
    (hrun : feedAll sys {} arrivals = .ok (results, s)) :
    ReportsHostname sys arrivals k h ↔ (namesOf sys k (heard arrivals results)).flow = some h := by
  have hknows := feedAll_names QuicTracker.aligned_empty (knows_empty k) hrun
  have hseen : ∀ now, (flowOf s now k).map (·.hostname) = (namesOf sys k (heard arrivals results)).flow := by
    intro now
    obtain ⟨r, hr, -, -, calls, -, hflows⟩ := feedAll_safe sys arrivals (s := {}) QuicTracker.aligned_empty
    obtain rfl : r = (results, s) := Except.ok.inj (hr.symm.trans hrun)
    have hfiled : Filed s.flowAggregator := hflows ▸ filed_run filed_empty calls
    show (reported s.flowAggregator now k).map (·.hostname) = _
    rw [reported_eq hfiled, Option.map_map, ← hknows.flow]
    rfl
  constructor
  · rintro ⟨r, hr, hall⟩
    obtain rfl := Except.ok.inj (hr.symm.trans hrun)
    exact (hseen 0).symm.trans (hall 0)
  · intro hname
    exact .of_eq hrun fun now => (hseen now).trans hname

/-- A packet that yields no name but `h` leaves `h` exactly when it keeps it. -/
theorem next_fixed_iff {names : Names} {x : Heard} (hname : names.flow = some h)
    (honly : keyFor x.2 = some k → ∀ n, Yields x.2 n → n = h) :
    (names.next sys k x).flow = some h ↔ Keeps sys k h (names.told ++ toldIn sys x.1 x.2) x := by
  simp only [Names.next, hname, Option.map_some, Keeps]
  by_cases hk : keyFor x.2 = some k
  · rw [if_pos hk, if_pos hk, Option.getD_some, Option.some_inj]
    have honly := honly hk
    unfold nameAfter
    by_cases hs : x.2.sni ≠ ""
    · have hy : Yields x.2 x.2.sni := ⟨hs, .inl rfl⟩
      rw [if_pos hs]
      exact iff_of_true (honly _ hy) fun hn => (hn _ hy).elim
    by_cases hh : x.2.hostname ≠ ""
    · have hy : Yields x.2 x.2.hostname := ⟨hh, .inr rfl⟩
      rw [if_neg hs, if_pos hh]
      exact iff_of_true (honly _ hy) fun hn => (hn _ hy).elim
    rw [if_neg hs, if_neg hh]
    have hnone : ∀ n, ¬ Yields x.2 n := by
      rintro n ⟨hne, rfl | rfl⟩
      · exact hs hne
      · exact hh hne
    cases hfound : (lastTold (· = x.2.dstIP) (names.told ++ toldIn sys x.1 x.2)).or
        (lastTold (· = x.2.srcIP) (names.told ++ toldIn sys x.1 x.2)) with
    | some n =>
      rw [Option.getD_some]
      exact ⟨fun he _ m hm => (Option.some.inj hm).symm.trans he, fun hall => hall hnone n rfl⟩
    | none =>
      -- nothing is told for the addresses of the packet, which are those of the key
      have hend : lastTold (endpointOf k) (toldIn sys x.1 x.2) = none := by
        obtain ⟨hdst, hsrc⟩ := Option.or_eq_none_iff.mp hfound
        refine lastTold_eq_none.mpr fun n hn => ?_
        have hd := lastTold_eq_none.mp hdst n (List.mem_append_right _ hn)
        have hs := lastTold_eq_none.mp hsrc n (List.mem_append_right _ hn)
        simp only [decide_eq_false_iff_not] at hd hs
        rw [endpointOf_packet hk]
        simp [Ne.symm hd, Ne.symm hs]
      rw [Option.getD_none, hend]
      exact iff_of_true rfl fun _ m hm => (by cases hm)
  · rw [if_neg hk, if_neg hk]
    cases lastTold (endpointOf k) (toldIn sys x.1 x.2) with
    | none => exact iff_of_true rfl fun m hm => (by cases hm)
    | some n =>
      simp only [Option.getD_some, Option.some_inj]
      exact ⟨fun he m hm => (Option.some.inj hm).symm.trans he, fun hall => hall n rfl⟩

/-- What each next element of a list keeps exactly under `Q` holds of all its
beginnings exactly when every element meets `Q`. -/
theorem forall_take_iff {α : Type} {P : List α → Prop} {Q : List α → α → Prop} {l : List α} (hnil : P [])
    (hnext : ∀ pre x post, l = pre ++ x :: post → P pre → (P (pre ++ [x]) ↔ Q pre x)) :
    (∀ n, P (l.take n)) ↔ ∀ pre x post, l = pre ++ x :: post → Q pre x := by
  constructor
  · intro hall pre x post he
    have hpre := hall pre.length
    have hpost := hall (pre.length + 1)
    rw [he, List.take_left] at hpre
    rw [he, List.take_length_add_append, List.take_succ_cons, List.take_zero] at hpost
    exact (hnext pre x post he hpre).mp hpost
  · intro hall n
    induction n with
    | zero => exact hnil
    | succ n ih =>
      by_cases hn : n < l.length
      · have hsplit : l = l.take n ++ l[n] :: l.drop (n + 1) := by
          rw [List.cons_getElem_drop_succ, List.take_append_drop]
        rw [List.take_succ_eq_append_getElem hn]
        exact (hnext _ _ _ hsplit ih).mpr (hall _ _ _ hsplit)
      · rw [List.take_of_length_le (by omega)]
        rwa [List.take_of_length_le (by omega)] at ih

/-- **A name from an SNI stays** in the flow, for as long as its packets yield
no other name, exactly when every later packet keeps it. -/
theorem sni_kept_iff (hrun : feedAll sys {} (before ++ a :: after) = .ok (earlier ++ named :: later, s))
    (hlen : earlier.length = before.length) (hk : keyFor named.parsed = some k) (hs : named.parsed.sni = h)
    (hne : h ≠ "") (honly : ∀ r ∈ later, keyFor r.parsed = some k → ∀ n, Yields r.parsed n → n = h) :
    (∀ n, ReportsHostname sys (before ++ a :: after.take n) k h) ↔
      ∀ pre x post, heard after later = pre ++ x :: post →
        Keeps sys k h (toldOf sys (heard (before ++ [a]) (earlier ++ [named]) ++ pre ++ [x])) x := by
  have hstart : (namesOf sys k (heard (before ++ [a]) (earlier ++ [named]))).flow = some h := by
    rw [heard, List.zipWith_append hlen.symm, namesOf_append]
    simp only [List.zipWith_cons_cons, List.zipWith_nil_left, List.foldl_cons, List.foldl_nil, Names.next, if_pos hk]
    rw [nameAfter, if_pos (by rw [hs]; exact hne), hs]
  have hreports : ∀ n, ReportsHostname sys (before ++ a :: after.take n) k h ↔
      (namesOf sys k (heard (before ++ [a]) (earlier ++ [named]) ++ (heard after later).take n)).flow = some h := by
    intro n
    obtain ⟨t, ht⟩ := feedAll_take hrun (before.length + (n + 1))
    rw [List.take_length_add_append, ← hlen, List.take_length_add_append, List.take_succ_cons,
      List.take_succ_cons] at ht
    rw [reportsHostname_iff ht, heard_append hlen, heard, heard, heard, List.take_zipWith]
  generalize heard (before ++ [a]) (earlier ++ [named]) = start at hstart hreports ⊢
  rw [forall_congr' hreports]
  refine forall_take_iff (P := fun run => (namesOf sys k (start ++ run)).flow = some h)
    (by rwa [List.append_nil]) fun pre x post he hname => ?_
  have honly' : keyFor x.2 = some k → ∀ n, Yields x.2 n → n = h := by
    obtain ⟨r, hr, hx⟩ := mem_heard (x := x) (by rw [he]; simp)
    rw [hx]
    exact honly r hr
  rw [toldOf_concat, ← namesOf_told sys k, ← next_fixed_iff hname honly', ← List.append_assoc, namesOf_append]
  rfl

end Run

/-! A ClientHello that names its server, its acknowledgement, and an answer that
names the server's address. -/

namespace Web

def hello : Arrival := arrival (frame 1000 TlsReassembler.recordForAIo) 119 (by decide)

def helloAck : Arrival := arrival (frame 1065 []) 54 (by decide)

/-- The keys and the names of the two packets. -/
theorem names_of_hello : (fun r => r.1.map fun x => (keyFor x.parsed, x.parsed.sni, x.parsed.hostname)) <$>
    feedAll sys {} [hello, helloAck] = .ok [(some key, "a.io", ""), (some key, "", "")] := by
  decide +kernel

/-- The platform, with the address of a resolver. -/
def resolvingSys : Platform :=
  { sys with inetNtop4 := fun b => if b = [8, 8, 8, 8] then "8.8.8.8" else sys.inetNtop4 b }

/-- A response that gives the server's address for the name cdn. -/
def response : Bytes :=
  be16 0x1234 ++ be16 0x8180 ++ be16 1 ++ be16 1 ++ be16 0 ++ be16 0
    ++ [3, 0x63, 0x64, 0x6e, 0] ++ be16 1 ++ be16 1
    ++ [0xc0, 0x0c] ++ be16 1 ++ be16 1 ++ be32 60 ++ be16 4 ++ [93, 184, 216, 34]

/-- The response in a frame from the resolver. -/
def responseFrame : Bytes :=
  [0x02, 0, 0, 0, 0, 1, 0x02, 0, 0, 0, 0, 2] ++ be16 kEthIPv4
    ++ [0x45, 0] ++ be16 (28 + response.length) ++ [0, 0, 0, 0, 64, 17, 0, 0]
    ++ [8, 8, 8, 8] ++ [192, 168, 1, 10]
    ++ be16 53 ++ be16 53000 ++ be16 (8 + response.length) ++ [0, 0] ++ response

def answered : Arrival := arrival responseFrame 79 (by decide)

end Web

theorem sni_kept_iff_hello : ∃ named later s,
    feedAll Web.sys {} ([] ++ Web.hello :: [Web.helloAck]) = .ok ([] ++ named :: later, s) ∧
    ((∀ n, ReportsHostname Web.sys ([] ++ Web.hello :: [Web.helloAck].take n) Web.key "a.io") ↔
      ∀ pre x post, heard [Web.helloAck] later = pre ++ x :: post →
        Keeps Web.sys Web.key "a.io" (toldOf Web.sys (heard ([] ++ [Web.hello]) ([] ++ [named]) ++ pre ++ [x])) x) := by
  obtain ⟨⟨results, s⟩, hrun, -⟩ := feedAll_safe Web.sys [Web.hello, Web.helloAck] (s := {}) QuicTracker.aligned_empty
  have hnames := Web.names_of_hello
  rw [hrun, map_ok, Except.ok.injEq] at hnames
  obtain ⟨named, later, hresults, hnamed, hlater⟩ := List.map_eq_cons_iff.mp hnames
  obtain ⟨hk, hs, -⟩ := by simpa only [Prod.mk.injEq] using hnamed
  have hrun' : feedAll Web.sys {} ([] ++ Web.hello :: [Web.helloAck]) = .ok ([] ++ named :: later, s) :=
    hrun.trans (congrArg (fun l => Except.ok (l, s)) hresults)
  have honly : ∀ r ∈ later, keyFor r.parsed = some Web.key → ∀ n, Yields r.parsed n → n = "a.io" := by
    intro r hr _ n hn
    have hmem : (keyFor r.parsed, r.parsed.sni, r.parsed.hostname) ∈ [(some Web.key, "", "")] :=
      hlater ▸ List.mem_map_of_mem hr
    obtain ⟨-, hs', hh'⟩ := by simpa only [List.mem_singleton, Prod.mk.injEq] using hmem
    exact absurd (hn.2.elim (fun h => h.symm.trans hs') fun h => h.symm.trans hh') hn.1
  exact ⟨named, later, s, hrun', sni_kept_iff hrun' rfl hk hs (by decide) honly⟩

/-- The answer replaces the name the ClientHello gave. -/
theorem sni_overwritten :
    (fun r => r.1.map fun x => (keyFor x.parsed, x.parsed.sni, x.parsed.hostname)) <$>
      feedAll Web.resolvingSys {} [Web.hello, Web.answered] =
        .ok [(some Web.key, "a.io", ""), (some ⟨"192.168.1.10", "8.8.8.8", 53000, 53, "UDP"⟩, "", "")] ∧
    ¬ ReportsHostname Web.resolvingSys [Web.hello, Web.answered] Web.key "a.io" := by
  refine ⟨by decide +kernel, ?_⟩
  rintro ⟨r, hr, h⟩
  have hname : (fun r => (flowOf r.2 0 Web.key).map (·.hostname)) <$>
      feedAll Web.resolvingSys {} [Web.hello, Web.answered] = .ok (some "cdn") := by decide +kernel
  rw [hr, map_ok, Except.ok.injEq, h 0] at hname
  exact absurd hname (by decide)

end AnalysisSession
end NetProbe
