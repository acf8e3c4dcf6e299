/-
# ProcessResolver

The process that owns the local endpoint of a packet, as the Linux build finds
it: `refreshTables` reads the sockets of the system and the inodes each process
holds, and names every process it has no name for; `lookup` refreshes when the
tables are 1.5 s old and answers from them. What the system shows at one moment
is a `Snapshot`; times are nanoseconds of the steady clock.

The endpoints are read anew on each refresh, while a name stays as it was when
its pid was first listed, and the local addresses as they were at the start:
`tryLookup_resolverAfter` says what the whole history makes of a lookup, and
`lookup_current_iff` when that is what the last snapshot says.

Key definitions: `Snapshot`, `refreshTables`, `lookup`, `resolverAfter`, `firstName`.
Key theorems: `run_resolverAfter`, `tryLookup_resolverAfter`, `lookup_current_iff`.
-/
import NetProbe.Packet
import NetProbe.Table
import Mathlib.Data.List.Induction

namespace NetProbe
namespace ProcessResolver

structure Endpoint where
  ip : String
  port : ℕ
  protocol : String
  deriving DecidableEq, Repr

/-- A row of the tables under /proc/net, its inode not 0. -/
structure SocketEntry where
  ip : String
  port : ℕ
  protocol : String
  inode : ℕ
  deriving DecidableEq, Repr

/-- An address of an interface, as `inet_ntop` prints it. -/
structure InterfaceAddress where
  v6 : Bool
  text : String
  deriving DecidableEq, Repr

/-- What the system shows at one moment: the addresses (none when `getifaddrs`
fails), the rows of the socket tables in the order they are read, the process
that holds a socket inode, and the name of a process, empty when it cannot be
read. -/
structure Snapshot where
  interfaces : Option (List InterfaceAddress)
  sockets : List SocketEntry
  inodeToPid : ℕ → Option ℕ
  readProcessName : ℕ → String

structure Resolver where
  endpointToPid : Table Endpoint ℕ := ∅
  pidToName : Table ℕ String := ∅
  localIps : List String := []
  lastRefresh : ℤ := 0
  localsLoaded : Bool := false

/-! ### Refreshing -/

/-- The local addresses, an IPv6 one without its zone. -/
def collectInterfaceAddresses (os : Snapshot) : List String :=
  match os.interfaces with
  | none => []
  | some addresses =>
    (addresses.map fun a => if a.v6 then String.ofList (a.text.toList.takeWhile (· ≠ '%')) else a.text) ++
      ["127.0.0.1", "::1"]

def refreshLocalAddresses (os : Snapshot) (r : Resolver) : Resolver :=
  { r with localIps := collectInterfaceAddresses os, localsLoaded := true }

def findOrResolvePidName (os : Snapshot) (pid : ℕ) (r : Resolver) : String × Resolver :=
  match r.pidToName.lookup pid with
  | some name => (name, r)
  | none =>
    let name := os.readProcessName pid
    (name, { r with pidToName := r.pidToName.insert pid name })

/-- The endpoints whose process is known, row by row. -/
def Snapshot.owners (os : Snapshot) : List (Endpoint × ℕ) :=
  os.sockets.filterMap fun s => (os.inodeToPid s.inode).map fun pid => (⟨s.ip, s.port, s.protocol⟩, pid)

/-- The pids are named in the order of the rows; in the source they come from a
set, in no order, and naming one does not touch another. -/
def refreshTables (os : Snapshot) (now : ℤ) (r : Resolver) : Resolver :=
  let r := { r with endpointToPid := ∅, lastRefresh := now }
  if os.sockets = [] then r
  else
    let r := { r with endpointToPid := os.owners.foldl (fun t o => t.insert o.1 o.2) r.endpointToPid }
    os.owners.foldl (fun r o => (findOrResolvePidName os o.2 r).2) r

/-- The constructor. -/
def construct (os : Snapshot) (now : ℤ) : Resolver := refreshTables os now (refreshLocalAddresses os {})

/-! ### Looking up -/

def tryLookup (r : Resolver) (protocol ip : String) (port : ℕ) : String :=
  if ip ∉ r.localIps then ""
  else
    -- UDP and listening sockets often bind to 0.0.0.0 / ::.
    let pid := (r.endpointToPid.lookup ⟨ip, port, protocol⟩).or
      ((r.endpointToPid.lookup ⟨"0.0.0.0", port, protocol⟩).or (r.endpointToPid.lookup ⟨"::", port, protocol⟩))
    match pid with
    | none => ""
    | some pid => (r.pidToName.lookup pid).getD ""

def kRefreshNanoseconds : ℤ := 1500000000

/-- The tables as `lookup` uses them at `now`. -/
def refreshed (os : Snapshot) (now : ℤ) (r : Resolver) : Resolver :=
  if now - r.lastRefresh > kRefreshNanoseconds then
    refreshTables os now (if ¬ r.localsLoaded then refreshLocalAddresses os r else r)
  else r

/-- The name of the process behind the packet, and the tables left; `os` is what
the system shows at `now`. -/
def lookup (os : Snapshot) (now : ℤ) (r : Resolver) (packet : ParsedPacket) : String × Resolver :=
  if packet.protocol ≠ "TCP" ∧ packet.protocol ≠ "UDP" then ("", r)
  else if packet.srcPort = 0 ∧ packet.dstPort = 0 then ("", r)
  else
    let r := refreshed os now r
    let name := tryLookup r packet.protocol packet.srcIP packet.srcPort
    if name ≠ "" then (name, r) else (tryLookup r packet.protocol packet.dstIP packet.dstPort, r)

/-! ### What a refresh leaves -/

/-- The pid the last row of an endpoint has. -/
def Snapshot.ownerOf (os : Snapshot) (e : Endpoint) : Option ℕ := ((os.owners.filter (·.1 = e)).getLast?).map (·.2)

/-- The snapshot lists a socket of the process. -/
def Snapshot.lists (os : Snapshot) (pid : ℕ) : Bool := os.owners.any (·.2 = pid)

section Refresh

variable {os : Snapshot} {now : ℤ} {r : Resolver}

theorem owners_of_no_sockets (h : os.sockets = []) : os.owners = [] := by rw [Snapshot.owners, h]; rfl

theorem lookup_foldl_insert (rows : List (Endpoint × ℕ)) (e : Endpoint) (t : Table Endpoint ℕ) :
    (rows.foldl (fun t o => t.insert o.1 o.2) t).lookup e =
      (((rows.filter (·.1 = e)).getLast?).map (·.2)).or (t.lookup e) := by
  induction rows using List.reverseRecOn with
  | nil => rfl
  | append_singleton rows row ih =>
    rw [List.foldl_append, List.foldl_cons, List.foldl_nil, List.filter_append]
    by_cases h : row.1 = e
    · subst h
      rw [AList.lookup_insert]
      simp
    · rw [AList.lookup_insert_ne (Ne.symm h), ih]
      simp [h]

/-- Naming a process fills its place in the cache, and no other. -/
theorem findOrResolvePidName_lookup (pid k : ℕ) : ((findOrResolvePidName os pid r).2.pidToName).lookup k =
    (r.pidToName.lookup k).or (if k = pid then some (os.readProcessName pid) else none) := by
  unfold findOrResolvePidName
  cases h : r.pidToName.lookup pid with
  | some name =>
    by_cases hk : k = pid
    · subst hk
      rw [h, if_pos rfl]
      rfl
    · rw [if_neg hk, Option.or_none]
  | none =>
    by_cases hk : k = pid
    · subst hk
      rw [h, if_pos rfl]
      exact AList.lookup_insert _
    · rw [if_neg hk, Option.or_none]
      exact AList.lookup_insert_ne hk

theorem findOrResolvePidName_frame (pid : ℕ) : (findOrResolvePidName os pid r).2 =
    { r with pidToName := (findOrResolvePidName os pid r).2.pidToName } := by
  unfold findOrResolvePidName
  cases r.pidToName.lookup pid <;> rfl

theorem nameAll_lookup (rows : List (Endpoint × ℕ)) (k : ℕ) (r : Resolver) :
    (rows.foldl (fun r o => (findOrResolvePidName os o.2 r).2) r).pidToName.lookup k =
      (r.pidToName.lookup k).or (if rows.any (·.2 = k) then some (os.readProcessName k) else none) := by
  induction rows generalizing r with
  | nil => exact (Option.or_none).symm
  | cons row rows ih =>
    rw [List.foldl_cons, ih, findOrResolvePidName_lookup, Option.or_assoc, List.any_cons]
    congr 1
    by_cases h : row.2 = k
    · subst h
      simp
    · have hno : decide (row.2 = k) = false := decide_eq_false h
      rw [if_neg (Ne.symm h), Option.none_or, hno, Bool.false_or]

theorem nameAll_frame (rows : List (Endpoint × ℕ)) (r : Resolver) :
    rows.foldl (fun r o => (findOrResolvePidName os o.2 r).2) r =
      { r with pidToName := (rows.foldl (fun r o => (findOrResolvePidName os o.2 r).2) r).pidToName } := by
  induction rows generalizing r with
  | nil => rfl
  | cons row rows ih =>
    rw [List.foldl_cons]
    exact (ih _).trans (by rw [findOrResolvePidName_frame])

/-- A refresh takes the endpoints from the snapshot; it adds the names of
the processes listed that had none, and touches nothing else. -/
theorem refreshTables_spec (os : Snapshot) (now : ℤ) (r : Resolver) :
    (∀ e, (refreshTables os now r).endpointToPid.lookup e = os.ownerOf e) ∧
    (∀ pid, (refreshTables os now r).pidToName.lookup pid =
      (r.pidToName.lookup pid).or (if os.lists pid then some (os.readProcessName pid) else none)) ∧
    refreshTables os now r = { r with
      endpointToPid := (refreshTables os now r).endpointToPid
      pidToName := (refreshTables os now r).pidToName
      lastRefresh := now } := by
  unfold refreshTables
  by_cases h : os.sockets = []
  · have hnone := owners_of_no_sockets h
    simp only [if_pos h]
    refine ⟨fun e => ?_, fun pid => ?_, trivial⟩
    · rw [Snapshot.ownerOf, hnone]
      rfl
    · rw [Snapshot.lists, hnone]
      exact (Option.or_none).symm
  · simp only [if_neg h]
    rw [nameAll_frame]
    refine ⟨fun e => ?_, fun pid => nameAll_lookup os.owners pid _, rfl⟩
    exact (lookup_foldl_insert os.owners e ∅).trans (Option.or_none)

end Refresh

/-! ### Histories -/

/-- The resolver made at `first` and refreshed at each of `later`. -/
def resolverAfter (first : Snapshot × ℤ) (later : List (Snapshot × ℤ)) : Resolver :=
  later.foldl (fun r s => refreshTables s.1 s.2 r) (construct first.1 first.2)

/-- The snapshot of the last refresh, and its time. -/
def lastOf (first : Snapshot × ℤ) (later : List (Snapshot × ℤ)) : Snapshot × ℤ := later.getLast?.getD first

/-- The name a process has in the first snapshot that lists a socket of it. -/
def firstName (history : List Snapshot) (pid : ℕ) : Option String :=
  (history.find? (·.lists pid)).map (·.readProcessName pid)

/-- The process a socket of which takes the packets at an endpoint. -/
def Snapshot.boundTo (os : Snapshot) (protocol ip : String) (port : ℕ) : Option ℕ :=
  (os.ownerOf ⟨ip, port, protocol⟩).or
    ((os.ownerOf ⟨"0.0.0.0", port, protocol⟩).or (os.ownerOf ⟨"::", port, protocol⟩))

section History

variable (first : Snapshot × ℤ) (later : List (Snapshot × ℤ))

theorem resolverAfter_concat (s : Snapshot × ℤ) :
    resolverAfter first (later ++ [s]) = refreshTables s.1 s.2 (resolverAfter first later) := by
  rw [resolverAfter, List.foldl_append]
  rfl

theorem firstName_concat (history : List Snapshot) (os : Snapshot) (pid : ℕ) : firstName (history ++ [os]) pid =
    (firstName history pid).or (if os.lists pid then some (os.readProcessName pid) else none) := by
  rw [firstName, firstName, List.find?_append]
  cases history.find? (·.lists pid) with
  | some os' => rfl
  | none => cases h : os.lists pid <;> simp [h]

/-- What a history leaves in the tables. -/
theorem resolverAfter_spec :
    (∀ e, (resolverAfter first later).endpointToPid.lookup e = (lastOf first later).1.ownerOf e) ∧
    (∀ pid, (resolverAfter first later).pidToName.lookup pid = firstName ((first :: later).map (·.1)) pid) ∧
    (resolverAfter first later).localIps = collectInterfaceAddresses first.1 ∧
    (resolverAfter first later).localsLoaded = true ∧
    (resolverAfter first later).lastRefresh = (lastOf first later).2 := by
  induction later using List.reverseRecOn with
  | nil =>
    obtain ⟨hends, hnames, hrest⟩ := refreshTables_spec first.1 first.2 (refreshLocalAddresses first.1 {})
    refine ⟨hends, fun pid => ?_, congrArg Resolver.localIps hrest, congrArg Resolver.localsLoaded hrest,
      congrArg Resolver.lastRefresh hrest⟩
    rw [List.map_singleton, ← List.nil_append [first.1], firstName_concat]
    exact hnames pid
  | append_singleton later s ih =>
    obtain ⟨-, hnames, hips, hloaded, -⟩ := ih
    obtain ⟨hends, hnames', hrest⟩ := refreshTables_spec s.1 s.2 (resolverAfter first later)
    have hlast : lastOf first (later ++ [s]) = s := by rw [lastOf, List.getLast?_concat]; rfl
    rw [resolverAfter_concat, hlast]
    refine ⟨hends, fun pid => ?_, (congrArg Resolver.localIps hrest).trans hips,
      (congrArg Resolver.localsLoaded hrest).trans hloaded, congrArg Resolver.lastRefresh hrest⟩
    rw [hnames', hnames, ← List.cons_append, List.map_append, List.map_singleton, firstName_concat]

/-- What a lookup finds: the process bound to the endpoint now, under the name
it had at first, at an address that was local at first. -/
theorem tryLookup_resolverAfter (protocol ip : String) (port : ℕ) :
    tryLookup (resolverAfter first later) protocol ip port =
      if ip ∈ collectInterfaceAddresses first.1 then
        (((lastOf first later).1.boundTo protocol ip port).bind
          fun pid => firstName ((first :: later).map (·.1)) pid).getD ""
      else "" := by
  obtain ⟨hends, hnames, hips, -, -⟩ := resolverAfter_spec first later
  unfold tryLookup
  rw [hips]
  by_cases hip : ip ∈ collectInterfaceAddresses first.1
  · rw [if_neg (not_not.mpr hip), if_pos hip, hends, hends, hends]
    show _ = (((lastOf first later).1.boundTo protocol ip port).bind _).getD ""
    rw [Snapshot.boundTo]
    dsimp only
    cases ((lastOf first later).1.ownerOf ⟨ip, port, protocol⟩).or
      (((lastOf first later).1.ownerOf ⟨"0.0.0.0", port, protocol⟩).or
        ((lastOf first later).1.ownerOf ⟨"::", port, protocol⟩)) with
    | none => rfl
    | some pid => exact congrArg (Option.getD · "") (hnames pid)
  · rw [if_pos hip, if_neg hip]

/-- The refreshes up to a lookup at `now`, its own included. -/
def refreshesAt (os : Snapshot) (now : ℤ) : List (Snapshot × ℤ) :=
  if now - (lastOf first later).2 > kRefreshNanoseconds then later ++ [(os, now)] else later

theorem refreshed_resolverAfter (os : Snapshot) (now : ℤ) :
    refreshed os now (resolverAfter first later) = resolverAfter first (refreshesAt first later os now) := by
  obtain ⟨-, -, -, hloaded, hlast⟩ := resolverAfter_spec first later
  unfold refreshed refreshesAt
  rw [hlast, if_neg (not_not.mpr hloaded)]
  split
  · exact (resolverAfter_concat first later (os, now)).symm
  · rfl

end History

/-! ### Runs of lookups -/

/-- A lookup, and what the system shows at the time. -/
structure Call where
  os : Snapshot
  now : ℤ
  packet : ParsedPacket

def run (r : Resolver) (calls : List Call) : Resolver := calls.foldl (fun r c => (lookup c.os c.now r c.packet).2) r

/-- Lookups leave what a history of some of their snapshots leaves. -/
theorem run_resolverAfter (first : Snapshot × ℤ) (calls : List Call) :
    ∃ later, later.Sublist (calls.map fun c => (c.os, c.now)) ∧
      run (construct first.1 first.2) calls = resolverAfter first later := by
  induction calls using List.reverseRecOn with
  | nil => exact ⟨[], List.Sublist.refl _, rfl⟩
  | append_singleton calls c ih =>
    obtain ⟨later, hsub, hrun⟩ := ih
    have hstep : run (construct first.1 first.2) (calls ++ [c]) =
        (lookup c.os c.now (resolverAfter first later) c.packet).2 := by
      rw [← hrun, run, List.foldl_append]
      rfl
    have hsame : later.Sublist ((calls ++ [c]).map fun c => (c.os, c.now)) := by
      rw [List.map_append]
      exact hsub.trans (List.sublist_append_left _ _)
    rw [hstep]
    unfold lookup
    by_cases hproto : c.packet.protocol ≠ "TCP" ∧ c.packet.protocol ≠ "UDP"
    · rw [if_pos hproto]
      exact ⟨later, hsame, rfl⟩
    · rw [if_neg hproto]
      by_cases hports : c.packet.srcPort = 0 ∧ c.packet.dstPort = 0
      · rw [if_pos hports]
        exact ⟨later, hsame, rfl⟩
      · rw [if_neg hports]
        refine ⟨refreshesAt first later c.os c.now, ?_, ?_⟩
        · unfold refreshesAt
          split
          · rw [List.map_append]
            exact hsub.append (List.Sublist.refl _)
          · exact hsame
        · rw [← refreshed_resolverAfter]
          dsimp only
          split <;> rfl

/-! ### Names that are still true -/

section Current

variable (first : Snapshot × ℤ) (later : List (Snapshot × ℤ)) (os : Snapshot) (now : ℤ)

/-- The snapshot a lookup at `now` answers from. -/
def currentAt : Snapshot := (lastOf first (refreshesAt first later os now)).1

/-- The snapshots read up to then. -/
def historyAt : List Snapshot := (first :: refreshesAt first later os now).map (·.1)

variable (packet : ParsedPacket) (pid : ℕ)

/-- The source address was local from the start, and the process is called as
it was when a socket of it was first listed. -/
def StillCalled : Prop :=
  packet.srcIP ∈ collectInterfaceAddresses first.1 ∧
    firstName (historyAt first later os now) pid = some ((currentAt first later os now).readProcessName pid)

/-- The source gets no name, and the process at the destination was called at
first as `pid` is now. -/
def NamesakeAtDestination : Prop :=
  (packet.srcIP ∉ collectInterfaceAddresses first.1 ∨ firstName (historyAt first later os now) pid = some "") ∧
    packet.dstIP ∈ collectInterfaceAddresses first.1 ∧
    ∃ peer, (currentAt first later os now).boundTo packet.protocol packet.dstIP packet.dstPort = some peer ∧
      firstName (historyAt first later os now) peer = some ((currentAt first later os now).readProcessName pid)

variable {first later os now packet pid}

/-- A process the current snapshot lists has a name by then. -/
theorem exists_firstName {e : Endpoint} (howner : (currentAt first later os now).ownerOf e = some pid) :
    ∃ name, firstName (historyAt first later os now) pid = some name := by
  obtain ⟨row, hrow, rfl⟩ := Option.map_eq_some_iff.mp howner
  have hlists : (currentAt first later os now).lists row.2 = true :=
    List.any_eq_true.mpr ⟨row, (List.mem_filter.mp (List.mem_of_getLast? hrow)).1, by simp⟩
  have hcurrent : currentAt first later os now ∈ historyAt first later os now := by
    refine List.mem_map_of_mem ?_
    rw [lastOf]
    cases hlast : (refreshesAt first later os now).getLast? with
    | none => exact List.mem_cons_self
    | some s => exact List.mem_cons_of_mem _ (List.mem_of_getLast? hlast)
  obtain ⟨found, hfound⟩ : ∃ found, (historyAt first later os now).find? (·.lists row.2) = some found :=
    Option.isSome_iff_exists.mp (List.find?_isSome.mpr ⟨_, hcurrent, hlists⟩)
  exact ⟨found.readProcessName row.2, by rw [firstName, hfound]; rfl⟩

/-- The name the history gives to an endpoint. -/
def attributed (first : Snapshot × ℤ) (later : List (Snapshot × ℤ)) (os : Snapshot) (now : ℤ) (protocol ip : String)
    (port : ℕ) : String :=
  if ip ∈ collectInterfaceAddresses first.1 then
    (((currentAt first later os now).boundTo protocol ip port).bind
      fun pid => firstName (historyAt first later os now) pid).getD ""
  else ""

theorem attributed_eq_iff {protocol ip : String} {port : ℕ} {name : String} (hname : name ≠ "") :
    attributed first later os now protocol ip port = name ↔ ip ∈ collectInterfaceAddresses first.1 ∧
      ∃ owner, (currentAt first later os now).boundTo protocol ip port = some owner ∧
        firstName (historyAt first later os now) owner = some name := by
  unfold attributed
  by_cases hlocal : ip ∈ collectInterfaceAddresses first.1
  · rw [if_pos hlocal, ← Option.bind_eq_some_iff]
    cases ((currentAt first later os now).boundTo protocol ip port).bind
        fun pid => firstName (historyAt first later os now) pid with
    | none => exact iff_of_false (Ne.symm hname) (by simp)
    | some found => simp [hlocal]
  · rw [if_neg hlocal]
    exact iff_of_false (Ne.symm hname) fun h => hlocal h.1

theorem lookup_eq_attributed (hprotocol : packet.protocol = "TCP" ∨ packet.protocol = "UDP")
    (hports : packet.srcPort ≠ 0 ∨ packet.dstPort ≠ 0) : (lookup os now (resolverAfter first later) packet).1 =
      if attributed first later os now packet.protocol packet.srcIP packet.srcPort ≠ "" then
        attributed first later os now packet.protocol packet.srcIP packet.srcPort
      else attributed first later os now packet.protocol packet.dstIP packet.dstPort := by
  unfold lookup
  rw [if_neg (by tauto), if_neg (by tauto), refreshed_resolverAfter]
  dsimp only
  rw [tryLookup_resolverAfter, tryLookup_resolverAfter]
  show (if attributed first later os now packet.protocol packet.srcIP packet.srcPort ≠ "" then _ else _ :
    String × Resolver).1 = _
  split <;> rfl

/-- **A lookup gives the name that the last snapshot gives the owner of the
packet's source endpoint exactly when the process is still called as it was at
first**, or by coincidence. -/
theorem lookup_current_iff (hprotocol : packet.protocol = "TCP" ∨ packet.protocol = "UDP")
    (howner : (currentAt first later os now).ownerOf ⟨packet.srcIP, packet.srcPort, packet.protocol⟩ = some pid)
    (hname : (currentAt first later os now).readProcessName pid ≠ "") :
    (lookup os now (resolverAfter first later) packet).1 = (currentAt first later os now).readProcessName pid ↔
      (packet.srcPort ≠ 0 ∨ packet.dstPort ≠ 0) ∧
      (StillCalled first later os now packet pid ∨ NamesakeAtDestination first later os now packet pid) := by
  by_cases hports : packet.srcPort = 0 ∧ packet.dstPort = 0
  · unfold lookup
    rw [if_neg (by tauto), if_pos hports]
    exact iff_of_false (Ne.symm hname) (by tauto)
  have hsome : packet.srcPort ≠ 0 ∨ packet.dstPort ≠ 0 := by tauto
  obtain ⟨name, hfirst⟩ := exists_firstName howner
  have hbound : (currentAt first later os now).boundTo packet.protocol packet.srcIP packet.srcPort = some pid := by
    rw [Snapshot.boundTo, howner, Option.some_or]
  have hsource : attributed first later os now packet.protocol packet.srcIP packet.srcPort =
      if packet.srcIP ∈ collectInterfaceAddresses first.1 then name else "" := by
    rw [attributed, hbound, Option.bind_some, hfirst]
    rfl
  have hdestination := @attributed_eq_iff first later os now packet.protocol packet.dstIP packet.dstPort _ hname
  rw [lookup_eq_attributed hprotocol hsome, hsource, StillCalled, NamesakeAtDestination, hfirst, Option.some_inj,
    Option.some_inj, ← hdestination]
  by_cases hlocal : packet.srcIP ∈ collectInterfaceAddresses first.1
  · rw [if_pos hlocal]
    by_cases hempty : name = ""
    · subst hempty
      simp [hsome, Ne.symm hname]
    · rw [if_pos hempty]
      simp [hsome, hlocal, hempty]
  · rw [if_neg hlocal]
    simp [hsome, hlocal]

end Current

/-! A pid that goes to another process. -/

namespace Reuse

/-- One socket of the process 100, called `name`, at `port`. -/
def snapshot (name : String) (port : ℕ) : Snapshot where
  interfaces := some [⟨false, "10.0.0.2"⟩]
  sockets := [⟨"10.0.0.2", port, "TCP", 7⟩]
  inodeToPid inode := if inode = 7 then some 100 else none
  readProcessName pid := if pid = 100 then name else ""

def packet : ParsedPacket :=
  { protocol := "TCP", srcIP := "10.0.0.2", srcPort := 50001, dstIP := "93.184.216.34", dstPort := 443 }

end Reuse

/-- A process that keeps its pid and its name. -/
theorem lookup_current_iff_kept :
    (lookup (Reuse.snapshot "curl" 50001) 2000000001
      (resolverAfter (Reuse.snapshot "curl" 50000, 0) [(Reuse.snapshot "curl" 50001, 2000000000)]) Reuse.packet).1 =
        "curl" :=
  (@lookup_current_iff (Reuse.snapshot "curl" 50000, 0) [(Reuse.snapshot "curl" 50001, 2000000000)]
    (Reuse.snapshot "curl" 50001) 2000000001 Reuse.packet 100 (.inl rfl) (by decide +kernel)
    (by decide +kernel)).mpr ⟨.inl (by decide), .inl ⟨by decide +kernel, by decide +kernel⟩⟩

/-- The pid of a browser goes to ssh, whose traffic is put down to the browser. -/
theorem lookup_stale_name :
    (lookup (Reuse.snapshot "ssh" 50001) 2000000001
      (resolverAfter (Reuse.snapshot "firefox" 50000, 0) [(Reuse.snapshot "ssh" 50001, 2000000000)]) Reuse.packet).1 =
        "firefox" ∧
      Reuse.packet.srcIP ∈ collectInterfaceAddresses (Reuse.snapshot "ssh" 50001) ∧
      (Reuse.snapshot "ssh" 50001).ownerOf ⟨Reuse.packet.srcIP, Reuse.packet.srcPort, "TCP"⟩ = some 100 ∧
      (Reuse.snapshot "ssh" 50001).readProcessName 100 = "ssh" :=
  ⟨by decide +kernel, by decide +kernel, by decide +kernel, by decide +kernel⟩

end ProcessResolver
end NetProbe
