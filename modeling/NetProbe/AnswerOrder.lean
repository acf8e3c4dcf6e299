/-
# Answers before, between and after packets

A flow whose packets yield no name, with one address that DNS names, has the
name told last for that address: a packet looks the name up when it arrives, an
answer sweeps over the flows there are, and the two agree after every packet
(`Follows.next`), in whatever order packets and answers arrive.

Key definitions: `OnlyFor`, `Follows`.
Key theorem: `hostname_last_told`.
-/
import NetProbe.Hostnames

namespace NetProbe
namespace AnalysisSession

open Checked Bytes ProtocolParser FlowAggregator

/-- Of the addresses of the flow `k` the names are told for `ip` only. -/
structure OnlyFor (k : FlowKey) (ip : String) (names : List Told) : Prop where
  endpoint : endpointOf k ip = true
  only : ∀ n ∈ names, endpointOf k n.ip = true → n.ip = ip

/-- The flow has the name told last for `ip`, none if there is none. -/
def Follows (ip : String) (names : Names) : Prop :=
  ∀ name ∈ names.flow, name = (lastTold (· = ip) names.told).getD ""

section Only

variable {sys : Platform} {k : FlowKey} {ip : String} {names more : List Told} {p : ParsedPacket}

theorem OnlyFor.mono (h : OnlyFor k ip names) (hsub : more ⊆ names) : OnlyFor k ip more :=
  ⟨h.endpoint, fun n hn => h.only n (hsub hn)⟩

/-- The sweep over the flows sees the names of `ip`. -/
theorem OnlyFor.lastTold_endpointOf (h : OnlyFor k ip names) :
    lastTold (endpointOf k) names = lastTold (· = ip) names := by
  have hsame : ∀ n ∈ names, endpointOf k n.ip = decide (n.ip = ip) := by
    intro n hn
    by_cases hip : n.ip = ip
    · rw [hip, h.endpoint, decide_eq_true rfl]
    · rw [decide_eq_false hip, ← Bool.not_eq_true]
      exact fun hend => hip (h.only n hn hend)
  unfold lastTold
  rw [List.filter_congr hsame]

/-- No other address of a packet of the flow is told. -/
theorem OnlyFor.lastTold_other (h : OnlyFor k ip names) {other : String} (hend : endpointOf k other = true)
    (hne : other ≠ ip) :
    lastTold (· = other) names = none := by
  refine lastTold_eq_none.mpr fun n hn => decide_eq_false fun he => hne ?_
  rw [← he]
  exact h.only n hn (by rw [he]; exact hend)

/-- The lookup for a packet of the flow finds the name of `ip`, on whichever side it is. -/
theorem OnlyFor.lastTold_packet (h : OnlyFor k ip names) (hk : keyFor p = some k) :
    (lastTold (· = p.dstIP) names).or (lastTold (· = p.srcIP) names) = lastTold (· = ip) names := by
  have hdst : endpointOf k p.dstIP = true := by simp [endpointOf_packet hk]
  have hsrc : endpointOf k p.srcIP = true := by simp [endpointOf_packet hk]
  by_cases hd : p.dstIP = ip
  · rw [hd]
    by_cases hs : p.srcIP = ip
    · rw [hs, Option.or_self]
    · rw [h.lastTold_other hsrc hs, Option.or_none]
  · have hs : p.srcIP = ip := by simpa [endpointOf_packet hk, hd] using h.endpoint
    rw [h.lastTold_other hdst hd, Option.none_or, hs]

/-- **One packet**: what the lookup finds for it, the sweep has left to the flow. -/
theorem Follows.next {names : Names} {x : Heard} (h : Follows ip names)
    (honly : OnlyFor k ip (names.told ++ toldIn sys x.1 x.2)) (hno : keyFor x.2 = some k → ∀ n, ¬ Yields x.2 n) :
    Follows ip (names.next sys k x) := by
  have hsweep := (honly.mono (List.subset_append_right _ _)).lastTold_endpointOf
  have hswept : ∀ name ∈ names.flow.map ((lastTold (endpointOf k) (toldIn sys x.1 x.2)).getD ·),
      name = (lastTold (· = ip) (names.told ++ toldIn sys x.1 x.2)).getD "" := by
    intro name hname
    obtain ⟨old, hold, rfl⟩ := Option.map_eq_some_iff.mp hname
    rw [h old hold, hsweep, lastTold_append]
    cases lastTold (fun i => decide (i = ip)) (toldIn sys x.1 x.2) <;> rfl
  by_cases hk : keyFor x.2 = some k
  · have hs : x.2.sni = "" := by_contra fun hs => hno hk _ ⟨hs, .inl rfl⟩
    have hh : x.2.hostname = "" := by_contra fun hh => hno hk _ ⟨hh, .inr rfl⟩
    intro name hname
    simp only [Names.next, if_pos hk, Option.mem_def, Option.some.injEq] at hname
    rw [nameAfter, if_neg (not_not.mpr hs), if_neg (not_not.mpr hh), honly.lastTold_packet hk] at hname
    rw [← hname]
    show _ = (lastTold (· = ip) (names.told ++ toldIn sys x.1 x.2)).getD ""
    cases hflow : names.flow.map ((lastTold (endpointOf k) (toldIn sys x.1 x.2)).getD ·) with
    | none => rfl
    | some name =>
      rw [Option.getD_some, hswept name hflow]
      cases lastTold (fun i => decide (i = ip)) (names.told ++ toldIn sys x.1 x.2) <;> rfl
  · simp only [Follows, Names.next, if_neg hk]
    exact hswept

/-- **Any run.** -/
theorem follows_namesOf {run : List Heard} (honly : OnlyFor k ip (toldOf sys run))
    (hno : ∀ x ∈ run, keyFor x.2 = some k → ∀ n, ¬ Yields x.2 n) : Follows ip (namesOf sys k run) := by
  induction run using List.reverseRecOn with
  | nil => exact fun name hname => by cases hname
  | append_singleton run x ih =>
    rw [toldOf_concat] at honly
    have h := ih (honly.mono (List.subset_append_left _ _)) fun y hy => hno y (List.mem_append_left _ hy)
    rw [namesOf_append, List.foldl_cons, List.foldl_nil]
    refine h.next ?_ (hno x (by simp))
    rw [namesOf_told]
    exact honly

/-- A flow has a name, if only the empty one, from its first packet on. -/
theorem namesOf_isSome {run : List Heard} (h : ∃ x ∈ run, keyFor x.2 = some k) : (namesOf sys k run).flow.isSome := by
  induction run using List.reverseRecOn with
  | nil => simp at h
  | append_singleton run x ih =>
    rw [namesOf_append, List.foldl_cons, List.foldl_nil, Names.next]
    dsimp only
    by_cases hk : keyFor x.2 = some k
    · rw [if_pos hk]
      rfl
    · rw [if_neg hk, Option.isSome_map]
      obtain ⟨y, hy, hyk⟩ := h
      rcases List.mem_append.mp hy with hy | hy
      · exact ih ⟨y, hy, hyk⟩
      · rw [List.mem_singleton.mp hy] at hyk
        exact absurd hyk hk

end Only

section Run

variable {sys : Platform} {arrivals : List Arrival} {results : List Result} {s : Session} {k : FlowKey}
    {ip name : String}

theorem heard_of_mem {r : Result} :
    ∀ {arrivals : List Arrival} {results : List Result}, results.length = arrivals.length →
    r ∈ results → ∃ x ∈ heard arrivals results, x.2 = r.parsed
  | [], results, hlen, hr => by simp [List.length_eq_zero_iff.mp hlen] at hr
  | _ :: _, [], _, hr => by cases hr
  | a :: arrivals, r' :: results, hlen, hr => by
    rcases List.mem_cons.mp hr with rfl | hr
    · exact ⟨_, List.mem_cons_self, rfl⟩
    · obtain ⟨x, hx, hxr⟩ := heard_of_mem (Nat.succ.inj hlen) hr
      exact ⟨x, List.mem_cons_of_mem _ hx, hxr⟩

/-- **It does not matter when an answer arrives.** A flow whose packets yield no
name, one of whose addresses is told names, has the last of them at the end. -/
theorem hostname_last_told (hrun : feedAll sys {} arrivals = .ok (results, s))
    (hflow : ∃ r ∈ results, keyFor r.parsed = some k)
    (hno : ∀ r ∈ results, keyFor r.parsed = some k → ∀ n, ¬ Yields r.parsed n)
    (honly : OnlyFor k ip (toldOf sys (heard arrivals results)))
    (hlast : lastTold (· = ip) (toldOf sys (heard arrivals results)) = some name) :
    ReportsHostname sys arrivals k name := by
  have hlen : results.length = arrivals.length := by
    obtain ⟨r, hr, hall, -⟩ := feedAll_safe sys arrivals (s := {}) QuicTracker.aligned_empty
    obtain rfl : r = (results, s) := Except.ok.inj (hr.symm.trans hrun)
    exact hall.length_eq.symm
  have hsome : (namesOf sys k (heard arrivals results)).flow.isSome := by
    obtain ⟨r, hr, hk⟩ := hflow
    obtain ⟨x, hx, hxr⟩ := heard_of_mem hlen hr
    exact namesOf_isSome ⟨x, hx, by rw [hxr]; exact hk⟩
  have hfollows : Follows ip (namesOf sys k (heard arrivals results)) := by
    refine follows_namesOf honly fun x hx => ?_
    obtain ⟨r, hr, hxr⟩ := mem_heard hx
    rw [hxr]
    exact hno r hr
  obtain ⟨found, hfound⟩ := Option.isSome_iff_exists.mp hsome
  have hname := hfollows found hfound
  rw [namesOf_told, hlast, Option.getD_some] at hname
  rw [reportsHostname_iff hrun, hfound, hname]

end Run

namespace Web

/-- The answer between two packets of the connection. -/
def answeredBetween : List Arrival := [helloAck, answered, helloAck]

/-- What the three packets are analysed as, and the names they tell. -/
theorem answeredBetween_results : (fun r => (r.1.map fun x => (keyFor x.parsed, x.parsed.sni, x.parsed.hostname),
      (toldOf resolvingSys (heard answeredBetween r.1)).map fun n => (n.ip, n.hostname))) <$>
    feedAll resolvingSys {} answeredBetween =
      .ok ([(some key, "", ""), (some ⟨"192.168.1.10", "8.8.8.8", 53000, 53, "UDP"⟩, "", ""), (some key, "", "")],
        [("93.184.216.34", "cdn")]) := by
  decide +kernel

end Web

theorem hostname_last_told_answeredBetween : ReportsHostname Web.resolvingSys Web.answeredBetween Web.key "cdn" := by
  obtain ⟨⟨results, s⟩, hrun, -⟩ :=
    feedAll_safe Web.resolvingSys Web.answeredBetween (s := {}) QuicTracker.aligned_empty
  have hresults := Web.answeredBetween_results
  rw [hrun, map_ok, Except.ok.injEq, Prod.mk.injEq] at hresults
  obtain ⟨hpackets, htold⟩ := hresults
  dsimp only at hpackets htold
  obtain ⟨n, hn, hip, hname⟩ : ∃ n, toldOf Web.resolvingSys (heard Web.answeredBetween results) = [n] ∧
      n.ip = "93.184.216.34" ∧ n.hostname = "cdn" := by
    obtain ⟨n, hn, hpair⟩ := List.map_eq_singleton_iff.mp htold
    exact ⟨n, hn, (Prod.mk.inj hpair).1, (Prod.mk.inj hpair).2⟩
  have hanalysed : ∀ r ∈ results, (keyFor r.parsed, r.parsed.sni, r.parsed.hostname) ∈
      [(some Web.key, "", ""), (some ⟨"192.168.1.10", "8.8.8.8", 53000, 53, "UDP"⟩, "", ""), (some Web.key, "", "")] :=
    fun r hr => hpackets ▸ List.mem_map_of_mem hr
  have hno : ∀ r ∈ results, keyFor r.parsed = some Web.key → ∀ n, ¬ Yields r.parsed n := by
    intro r hr _ n hy
    have hempty : r.parsed.sni = "" ∧ r.parsed.hostname = "" := by
      have := hanalysed r hr
      simp only [List.mem_cons, Prod.mk.injEq, List.not_mem_nil, or_false] at this
      tauto
    rcases hy.2 with h | h
    · exact hy.1 (h.symm.trans hempty.1)
    · exact hy.1 (h.symm.trans hempty.2)
  have hflow : ∃ r ∈ results, keyFor r.parsed = some Web.key := by
    obtain ⟨r, rest, rfl, hr, -⟩ := List.map_eq_cons_iff.mp hpackets
    exact ⟨r, List.mem_cons_self, (Prod.mk.inj hr).1⟩
  have honly : OnlyFor Web.key "93.184.216.34" (toldOf Web.resolvingSys (heard Web.answeredBetween results)) := by
    refine ⟨by decide, fun m hm _ => ?_⟩
    rw [hn] at hm
    rw [List.mem_singleton.mp hm, hip]
  refine hostname_last_told hrun hflow hno honly ?_
  rw [hn, lastTold_singleton, hip, hname]
  rfl

end AnalysisSession
end NetProbe
