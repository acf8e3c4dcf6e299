/-
# GeoIPResolver

The country and network of an address, from the two GeoLite2 databases, behind
a cache of the addresses looked up last: a list of nodes, the latest first, and
an index from the address to its node. An iterator is the address of a node in
memory, and following one whose node is gone is a fault.

The cache is transparent and keeps the addresses used last (`lookupAll_lru`).

Key definitions: `Resolver`, `lookup`, `Indexed`, `Holds`.
Key theorem: `lookupAll_lru`.
-/
import NetProbe.Checked
import NetProbe.Recency
import NetProbe.Table
import Mathlib.Data.List.Induction

namespace NetProbe

structure GeoIPInfo where
  country : String := ""
  asn : UInt32 := 0
  organization : String := ""
  deriving DecidableEq, Repr

def organizationLabel (info : GeoIPInfo) : String :=
  if info.organization = "" then "-"
  else if info.asn = 0 then info.organization
  else "AS" ++ toString info.asn.toNat ++ " " ++ info.organization

namespace GeoIPResolver

open Checked

/-- The two databases: which of them are open, and what the entry of an address
holds, none where there is no entry or the lookup fails. -/
structure Database where
  countryOpen : Bool
  asnOpen : Bool
  country : String → Option String
  asn : String → Option (UInt32 × String)

/-- A node of `m_cache`, at `node`. -/
structure CacheEntry where
  node : ℕ
  ip : String
  info : GeoIPInfo
  deriving DecidableEq, Repr

/-- `nextNode` is where the next node goes. -/
structure Resolver where
  database : Database
  cacheCapacity : ℕ
  cache : List CacheEntry := []
  cacheIndex : Table String ℕ := ∅
  nextNode : ℕ := 0

/-- The constructor. -/
def make (database : Database) (cacheCapacity : ℕ) : Resolver :=
  { database, cacheCapacity := if cacheCapacity > 0 then cacheCapacity else 1 }

/-- What the databases give for an address. -/
def query (database : Database) (ip : String) : GeoIPInfo :=
  let info : GeoIPInfo := {}
  let info := if database.countryOpen then
      match database.country ip with
      | some country => { info with country }
      | none => info
    else info
  if database.asnOpen then
    match database.asn ip with
    | some (asn, organization) => { info with asn, organization }
    | none => info
  else info

/-- The node an iterator points at. -/
def deref (cache : List CacheEntry) (it : ℕ) : Checked CacheEntry :=
  match cache.find? (·.node = it) with
  | some e => .ok e
  | none => .error .outOfBounds

/-- `list::back`. -/
def back (cache : List CacheEntry) : Checked CacheEntry :=
  match cache.getLast? with
  | some e => .ok e
  | none => .error .outOfBounds

/-- `list::splice` of one node to the front. -/
def splice (cache : List CacheEntry) (it : ℕ) : Checked (List CacheEntry) := do
  let e ← deref cache it
  return e :: cache.filter (·.node ≠ it)

def lookup (r : Resolver) (ip : String) : Checked (GeoIPInfo × Resolver) := do
  if ip = "" then return ({}, r)
  match r.cacheIndex.lookup ip with
  | some cached =>
    let cache ← splice r.cache cached
    return ((← deref cache cached).info, { r with cache })
  | none =>
    let info := query r.database ip
    let r := { r with
      cache := ⟨r.nextNode, ip, info⟩ :: r.cache
      cacheIndex := r.cacheIndex.insert ip r.nextNode
      nextNode := r.nextNode + 1 }
    if r.cache.length > r.cacheCapacity then
      let last ← back r.cache
      return (info, { r with cacheIndex := r.cacheIndex.erase last.ip, cache := r.cache.dropLast })
    else return (info, r)

/-- The answers to a run of lookups, and the resolver after it. -/
def lookupAll (r : Resolver) (ips : List String) : Checked (List GeoIPInfo × Resolver) :=
  ips.foldlM (fun s ip => do
    let (info, r) ← lookup s.2 ip
    return (s.1 ++ [info], r)) ([], r)

/-! ### The list and its index -/

/-- Every address has one node, and the index of each points at its own. -/
structure Indexed (cache : List CacheEntry) (index : Table String ℕ) : Prop where
  ips : (cache.map (·.ip)).Nodup
  nodes : (cache.map (·.node)).Nodup
  points : ∀ ip it, index.lookup ip = some it ↔ ∃ e ∈ cache, e.ip = ip ∧ e.node = it

section Indexed

variable {cache : List CacheEntry} {index : Table String ℕ} {e : CacheEntry}

theorem indexed_empty : Indexed [] ∅ where
  ips := List.nodup_nil
  nodes := List.nodup_nil
  points ip it := by simp

theorem Indexed.eq_of_node (h : Indexed cache index) {e' : CacheEntry} (he : e ∈ cache) (he' : e' ∈ cache)
    (hn : e.node = e'.node) : e = e' := List.inj_on_of_nodup_map h.nodes he he' hn

theorem Indexed.eq_of_ip (h : Indexed cache index) {e' : CacheEntry} (he : e ∈ cache) (he' : e' ∈ cache)
    (hip : e.ip = e'.ip) : e = e' := List.inj_on_of_nodup_map h.ips he he' hip

theorem Indexed.deref (h : Indexed cache index) (he : e ∈ cache) : deref cache e.node = .ok e := by
  unfold GeoIPResolver.deref
  cases hf : cache.find? (·.node = e.node) with
  | none =>
    have hno := List.find?_eq_none.mp hf e he
    simp at hno
  | some e' =>
    have hnode : e'.node = e.node := by simpa using List.find?_some hf
    rw [h.eq_of_node (List.mem_of_find?_eq_some hf) he hnode]

/-- The nodes of the list are those that are in the index. -/
theorem Indexed.lookup_eq_none (h : Indexed cache index) {ip : String} :
    index.lookup ip = none ↔ ip ∉ cache.map (·.ip) := by
  rw [Option.eq_none_iff_forall_ne_some]
  simp only [ne_eq, h.points, List.mem_map, not_exists, not_and]
  exact ⟨fun hno e he hip => hno e.node e he hip rfl, fun hno it e he hip _ => hno e he hip⟩

/-- The node moved to the front. -/
theorem Indexed.splice (h : Indexed cache index) (he : e ∈ cache) :
    Safe (splice cache e.node) fun c => c = e :: cache.filter (·.ip ≠ e.ip) ∧ Indexed c index := by
  have hfilter : cache.filter (·.node ≠ e.node) = cache.filter (·.ip ≠ e.ip) := by
    refine List.filter_congr fun e' he' => ?_
    rw [decide_eq_decide, not_iff_not]
    exact ⟨fun hn => congrArg CacheEntry.ip (h.eq_of_node he' he hn),
      fun hip => congrArg CacheEntry.node (h.eq_of_ip he' he hip)⟩
  have hmem : ∀ e', e' ∈ e :: cache.filter (·.ip ≠ e.ip) ↔ e' ∈ cache := by
    intro e'
    rw [List.mem_cons, List.mem_filter]
    constructor
    · rintro (rfl | ⟨he', -⟩)
      · exact he
      · exact he'
    · intro he'
      by_cases hip : e'.ip = e.ip
      · exact .inl (h.eq_of_ip he' he hip)
      · exact .inr ⟨he', by simpa using hip⟩
  refine ⟨_, by rw [GeoIPResolver.splice, h.deref he, ok_bind, hfilter]; rfl, rfl, ?_, ?_, fun ip it => ?_⟩
  · rw [List.map_cons, List.nodup_cons]
    refine ⟨?_, h.ips.sublist (List.filter_sublist.map _)⟩
    simp
  · rw [List.map_cons, List.nodup_cons]
    refine ⟨fun hnode => ?_, h.nodes.sublist (List.filter_sublist.map _)⟩
    obtain ⟨e', he', hn⟩ := List.mem_map.mp hnode
    obtain ⟨he', hip⟩ := List.mem_filter.mp he'
    exact absurd (congrArg CacheEntry.ip (h.eq_of_node he' he hn)) (by simpa using hip)
  · rw [h.points]
    simp only [hmem]

/-- A node of its own for a new address. -/
theorem Indexed.emplace (h : Indexed cache index) (hip : e.ip ∉ cache.map (·.ip))
    (hnode : e.node ∉ cache.map (·.node)) :
    Indexed (e :: cache) (index.insert e.ip e.node) where
  ips := List.nodup_cons.mpr ⟨hip, h.ips⟩
  nodes := List.nodup_cons.mpr ⟨hnode, h.nodes⟩
  points ip it := by
    by_cases heq : ip = e.ip
    · subst heq
      rw [AList.lookup_insert, Option.some_inj]
      constructor
      · rintro rfl
        exact ⟨e, List.mem_cons_self, rfl, rfl⟩
      · rintro ⟨e', he', hsame, rfl⟩
        rcases List.mem_cons.mp he' with rfl | he'
        · rfl
        · exact absurd (List.mem_map.mpr ⟨e', he', hsame⟩) hip
    · rw [AList.lookup_insert_ne heq, h.points]
      constructor
      · rintro ⟨e', he', hx⟩
        exact ⟨e', List.mem_cons_of_mem _ he', hx⟩
      · rintro ⟨e', he', hsame, hn⟩
        rcases List.mem_cons.mp he' with rfl | he'
        · exact absurd hsame.symm heq
        · exact ⟨e', he', hsame, hn⟩

/-- The last node given up. -/
theorem Indexed.popBack (h : Indexed (cache ++ [e]) index) : Indexed cache (index.erase e.ip) where
  ips := h.ips.sublist ((List.sublist_append_left cache [e]).map _)
  nodes := h.nodes.sublist ((List.sublist_append_left cache [e]).map _)
  points ip it := by
    have hlast : ∀ e' ∈ cache, e'.ip ≠ e.ip := by
      have hips := h.ips
      rw [List.map_append, List.nodup_append] at hips
      intro e' he'
      exact hips.2.2 _ (List.mem_map_of_mem he') _ (by simp)
    by_cases heq : ip = e.ip
    · subst heq
      rw [AList.lookup_erase]
      refine iff_of_false (by simp) ?_
      rintro ⟨e', he', hsame, -⟩
      exact hlast e' he' hsame
    · rw [AList.lookup_erase_ne heq, h.points]
      constructor
      · rintro ⟨e', he', hsame, hn⟩
        rcases List.mem_append.mp he' with he' | he'
        · exact ⟨e', he', hsame, hn⟩
        · obtain rfl := List.mem_singleton.mp he'
          exact absurd hsame.symm heq
      · rintro ⟨e', he', hx⟩
        exact ⟨e', List.mem_append_left _ he', hx⟩

end Indexed

/-! ### The run -/

/-- What the caller is promised for an address. -/
def answer (database : Database) (ip : String) : GeoIPInfo := if ip = "" then {} else query database ip

/-- The addresses that reach the cache. -/
def used (ips : List String) : List String := ips.filter (· ≠ "")

/-- The resolver after the lookups `ips`. -/
structure Holds (database : Database) (cacheCapacity : ℕ) (ips : List String) (r : Resolver) : Prop where
  database_eq : r.database = database
  capacity_eq : r.cacheCapacity = cacheCapacity
  indexed : Indexed r.cache r.cacheIndex
  fresh : ∀ e ∈ r.cache, e.node < r.nextNode
  infos : ∀ e ∈ r.cache, e.info = query database e.ip
  order : r.cache.map (·.ip) = (Recency.recent (used ips)).take cacheCapacity

section Run

variable {database : Database} {cacheCapacity : ℕ} {ips : List String} {ip : String} {r : Resolver}

theorem used_concat (hip : ip ≠ "") : used (ips ++ [ip]) = used ips ++ [ip] := by
  simp [used, List.filter_append, hip]

theorem used_concat_empty : used (ips ++ [""]) = used ips := by simp [used, List.filter_append]

theorem Holds.length_le (h : Holds database cacheCapacity ips r) : r.cache.length ≤ cacheCapacity := by
  have hlen := congrArg List.length h.order
  rw [List.length_map, List.length_take] at hlen
  omega

theorem holds_make : Holds database (max cacheCapacity 1) [] (make database cacheCapacity) where
  database_eq := rfl
  capacity_eq := by
    show (if cacheCapacity > 0 then cacheCapacity else 1) = max cacheCapacity 1
    split <;> omega
  indexed := indexed_empty
  fresh e he := absurd he List.not_mem_nil
  infos e he := absurd he List.not_mem_nil
  order := List.take_nil.symm

/-- An address that is in the cache. -/
theorem Holds.hit (h : Holds database cacheCapacity ips r) (hip : ip ≠ "") {it : ℕ}
    (hit : r.cacheIndex.lookup ip = some it) :
    Safe (lookup r ip) fun s => s.1 = query database ip ∧ Holds database cacheCapacity (ips ++ [ip]) s.2 := by
  obtain ⟨e, he, rfl, rfl⟩ := (h.indexed.points ip it).mp hit
  obtain ⟨c, hc, rfl, hindexed⟩ := h.indexed.splice he
  have hmem : e.ip ∈ (Recency.recent (used ips)).take cacheCapacity := h.order ▸ List.mem_map_of_mem he
  have hof : ∀ e' ∈ e :: r.cache.filter (·.ip ≠ e.ip), e' ∈ r.cache := by
    intro e' he'
    rcases List.mem_cons.mp he' with rfl | he'
    · exact he
    · exact (List.mem_filter.mp he').1
  refine .of_eq (a := (e.info, { r with cache := e :: r.cache.filter (·.ip ≠ e.ip) })) ?_ ⟨h.infos e he, ?_⟩
  · rw [lookup, if_neg hip, hit]
    show (splice r.cache e.node >>= _) = _
    rw [hc, ok_bind, hindexed.deref List.mem_cons_self]
    rfl
  · refine ⟨h.database_eq, h.capacity_eq, hindexed, fun e' he' => h.fresh e' (hof e' he'),
      fun e' he' => h.infos e' (hof e' he'), ?_⟩
    have hfilter : (r.cache.filter (·.ip ≠ e.ip)).map (·.ip) = (r.cache.map (·.ip)).erase e.ip := by
      rw [h.indexed.ips.erase_eq_filter, List.filter_map]
      congr 2
      funext e'
      simp [bne, beq_eq_decide]
    calc (e :: r.cache.filter (·.ip ≠ e.ip)).map (·.ip)
        = e.ip :: (r.cache.map (·.ip)).erase e.ip := by rw [List.map_cons, hfilter]
      _ = e.ip :: ((Recency.recent (used ips)).take cacheCapacity).erase e.ip := by rw [h.order]
      _ = (e.ip :: (Recency.recent (used ips)).erase e.ip).take cacheCapacity :=
          (Recency.take_touch_of_mem hmem).symm
      _ = (Recency.recent (used (ips ++ [e.ip]))).take cacheCapacity := by
          rw [used_concat hip, Recency.recent_concat]

/-- The entry of an address that is not in the cache. -/
def newEntry (r : Resolver) (ip : String) : CacheEntry := ⟨r.nextNode, ip, query r.database ip⟩

/-- What the list and the index hold once it is in front, whether there is a place for it or not. -/
structure Emplaced (ips : List String) (ip : String) (r : Resolver) (cache : List CacheEntry) : Prop where
  indexed : Indexed cache (r.cacheIndex.insert ip r.nextNode)
  fresh : ∀ e ∈ cache, e.node < r.nextNode + 1
  infos : ∀ e ∈ cache, e.info = query r.database e.ip
  order : (cache.map (·.ip)).take r.cacheCapacity =
    (Recency.recent (used (ips ++ [ip]))).take r.cacheCapacity

theorem Holds.emplaced (h : Holds r.database r.cacheCapacity ips r) (hip : ip ≠ "")
    (hmiss : r.cacheIndex.lookup ip = none) : Emplaced ips ip r (newEntry r ip :: r.cache) := by
  have hnot : ip ∉ r.cache.map (·.ip) := h.indexed.lookup_eq_none.mp hmiss
  have hnode : r.nextNode ∉ r.cache.map (·.node) := by
    intro hn
    obtain ⟨e, he, hn⟩ := List.mem_map.mp hn
    exact absurd (h.fresh e he) (by omega)
  refine ⟨h.indexed.emplace (e := newEntry r ip) hnot hnode, fun e he => ?_, fun e he => ?_, ?_⟩
  · rcases List.mem_cons.mp he with rfl | he
    · exact Nat.lt_succ_self _
    · exact Nat.lt_succ_of_lt (h.fresh e he)
  · rcases List.mem_cons.mp he with rfl | he
    · rfl
    · exact h.infos e he
  · rw [used_concat hip, Recency.recent_concat, Recency.take_touch_of_notMem (h.order ▸ hnot), ← h.order]
    rfl

theorem lookup_miss (hip : ip ≠ "") (hmiss : r.cacheIndex.lookup ip = none) : lookup r ip =
    if (newEntry r ip :: r.cache).length > r.cacheCapacity then do
      let last ← back (newEntry r ip :: r.cache)
      return (query r.database ip, { r with
        cache := (newEntry r ip :: r.cache).dropLast
        cacheIndex := (r.cacheIndex.insert ip r.nextNode).erase last.ip
        nextNode := r.nextNode + 1 })
    else return (query r.database ip, { r with
      cache := newEntry r ip :: r.cache
      cacheIndex := r.cacheIndex.insert ip r.nextNode
      nextNode := r.nextNode + 1 }) := by
  rw [lookup, if_neg hip, hmiss]
  exact if_congr Iff.rfl rfl rfl

/-- An address that is not. -/
theorem Holds.miss (h : Holds r.database r.cacheCapacity ips r) (hip : ip ≠ "")
    (hmiss : r.cacheIndex.lookup ip = none) :
    Safe (lookup r ip) fun s =>
      s.1 = query r.database ip ∧ Holds r.database r.cacheCapacity (ips ++ [ip]) s.2 := by
  have hnew := h.emplaced hip hmiss
  have hlen := h.length_le
  rw [lookup_miss hip hmiss]
  refine .ite (fun hfull => ?_) fun hroom => ?_
  · -- the list is one longer than the capacity and loses its last
    obtain ⟨front, last, hlast⟩ : ∃ front last, newEntry r ip :: r.cache = front ++ [last] := by
      rcases List.eq_nil_or_concat (newEntry r ip :: r.cache) with hnil | ⟨front, last, hlast⟩
      · exact absurd hnil (List.cons_ne_nil _ _)
      · exact ⟨front, last, by rw [hlast, List.concat_eq_append]⟩
    have hfront : (front.map (·.ip)).length = r.cacheCapacity := by
      have hcount := congrArg List.length hlast
      rw [List.length_append, List.length_singleton] at hcount
      rw [List.length_cons] at hcount hfull
      rw [List.length_map]
      omega
    rw [hlast] at hnew ⊢
    rw [back, List.getLast?_concat, ok_bind, List.dropLast_concat]
    refine .ok ⟨rfl, rfl, rfl, hnew.indexed.popBack, fun e he => hnew.fresh e (List.mem_append_left _ he),
      fun e he => hnew.infos e (List.mem_append_left _ he), ?_⟩
    calc front.map (·.ip) = ((front ++ [last]).map (·.ip)).take r.cacheCapacity := by
          rw [List.map_append, ← hfront, List.take_left]
      _ = (Recency.recent (used (ips ++ [ip]))).take r.cacheCapacity := hnew.order
  · refine .ok ⟨rfl, rfl, rfl, hnew.indexed, hnew.fresh, hnew.infos, ?_⟩
    rw [← hnew.order, List.take_of_length_le (by rw [List.length_map]; omega)]

theorem Holds.lookup (h : Holds database cacheCapacity ips r) (ip : String) :
    Safe (lookup r ip) fun s => s.1 = answer database ip ∧ Holds database cacheCapacity (ips ++ [ip]) s.2 := by
  by_cases hip : ip = ""
  · subst hip
    exact .ok ⟨rfl, { h with order := by rw [used_concat_empty]; exact h.order }⟩
  · rw [answer, if_neg hip]
    cases hfind : r.cacheIndex.lookup ip with
    | some it => exact h.hit hip hfind
    | none =>
      obtain rfl := h.database_eq
      obtain rfl := h.capacity_eq
      exact h.miss hip hfind

/-- Every run. -/
theorem lookupAll_holds (database : Database) (cacheCapacity : ℕ) (ips : List String) :
    Safe (lookupAll (make database cacheCapacity) ips) fun s =>
      s.1 = ips.map (answer database) ∧ Holds database (max cacheCapacity 1) ips s.2 := by
  induction ips using List.reverseRecOn with
  | nil => exact .ok ⟨rfl, holds_make⟩
  | append_singleton ips ip ih =>
    rw [lookupAll, List.foldlM_append]
    refine Safe.bind ih fun s hs => ?_
    obtain ⟨a, ha, hinfo, hholds⟩ := hs.2.lookup ip
    refine .of_eq (a := (s.1 ++ [a.1], a.2)) ?_ ⟨?_, hholds⟩
    · rw [List.foldlM_cons, ha]
      rfl
    · rw [hs.1, hinfo, List.map_append, List.map_singleton]

/-- The cache is transparent: every lookup gives what the databases do, and
what is kept is the addresses used last, the latest first, each with its node. -/
theorem lookupAll_lru (database : Database) (cacheCapacity : ℕ) (ips : List String) :
    Safe (lookupAll (make database cacheCapacity) ips) fun s =>
      s.1 = ips.map (answer database) ∧
      Indexed s.2.cache s.2.cacheIndex ∧
      (∀ ip, ip ∈ s.2.cacheIndex ↔ ip ∈ s.2.cache.map (·.ip)) ∧
      s.2.cache.length ≤ max cacheCapacity 1 ∧
      s.2.cache.map (·.ip) = (Recency.recent (used ips)).take (max cacheCapacity 1) := by
  refine (lookupAll_holds database cacheCapacity ips).mono fun s hs => ?_
  refine ⟨hs.1, hs.2.indexed, fun ip => ?_, hs.2.length_le, hs.2.order⟩
  rw [← AList.lookup_isSome, Option.isSome_iff_ne_none, ne_eq, hs.2.indexed.lookup_eq_none, not_not]

/-- A full cache gives up the address unused for longest. -/
example : (lookupAll (make ⟨true, false, some, fun _ => none⟩ 2) ["a", "b", "a", "c"]).map
    (fun s => s.2.cache.map (·.ip)) = .ok ["c", "a"] := by decide

end Run

end GeoIPResolver
end NetProbe
