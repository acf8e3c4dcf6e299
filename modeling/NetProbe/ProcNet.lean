/-
# ProcNet

Where the Linux build of `ProcessResolver` gets a snapshot from: the socket
tables of /proc/net, the descriptors of every process that can be read, and the
names of processes. Tables are read back whatever their header, their blanks and
their other columns are (`snapshot_sockets`), so that a packet is put down to
the process that holds the socket (`proc_attributed`).

Key definitions: `ProcFs`, `appendProcNetTable`, `buildInodeToPidMap`, `ProcFs.snapshot`, `Sockets`, `Written`, `Opens`.
Key theorems: `readEntry_written`, `snapshot_sockets`, `proc_attributed`.
-/
import NetProbe.ProcessResolver
import NetProbe.Scan

namespace NetProbe
namespace ProcessResolver

open Scan

/-! ### The socket tables -/

/-- A `uint32_t` as it lies in memory, least significant byte first. -/
def memory (n : ℕ) : Bytes := [.ofNat n, .ofNat (n / 256), .ofNat (n / 65536), .ofNat (n / 16777216)]

def parseHexIpv4 (sys : Platform) (hex : List Char) : Option String :=
  if hex.length ≠ 8 then none else some (sys.inetNtop4 (memory (strtoul 16 hex)))

def parseHexIpv6 (sys : Platform) (hex : List Char) : Option String :=
  if hex.length ≠ 32 then none
  else some (sys.inetNtop6 ((List.range 4).flatMap fun i => memory (strtoul 16 ((hex.drop (i * 8)).take 8))))

/-- A line of a table. Ten fields are read, of which the second and the tenth are used. -/
def readEntry (sys : Platform) (protocol : String) (ipv6 : Bool) (line : List Char) : Option SocketEntry :=
  match (words line)[1]?, (words line)[9]? with
  | some localText, some inodeText =>
    if ':' ∉ localText then none
    else
      let ipHex := localText.takeWhile (· ≠ ':')
      let portHex := (localText.dropWhile (· ≠ ':')).tail
      match if ipv6 then parseHexIpv6 sys ipHex else parseHexIpv4 sys ipHex with
      | none => none
      | some ip =>
        let port := strtoul 16 portHex % 2 ^ 16
        let inode := strtoul 10 inodeText
        -- TIME_WAIT, orphans, etc.
        if inode = 0 then none else some ⟨ip, port, protocol, inode⟩
  | _, _ => none

/-- The first line is a header. -/
def appendProcNetTable (sys : Platform) (out : List SocketEntry) (file : Option (List Char)) (protocol : String)
    (ipv6 : Bool) : List SocketEntry :=
  match file with
  | none => out
  | some text => out ++ (lines text).tail.filterMap (readEntry sys protocol ipv6)

/-! ### The processes -/

/-- An entry of a directory /proc/<pid>/fd, with what `readlink` gives for it. -/
structure Descriptor where
  name : List Char
  target : Option (List Char)

/-- An entry of /proc, with its descriptors if they can be read. -/
structure ProcEntry where
  name : List Char
  fd : Option (List Descriptor)

def isPid (name : List Char) : Bool := name ≠ [] && name.all Char.isDigit

/-- The inode of the socket that a descriptor is, not 0. -/
def socketInode (d : Descriptor) : Option ℕ :=
  if d.name.head? = some '.' then none
  else match d.target with
    | none => none
    | some target =>
      -- the buffer has room for 255 characters
      let target := target.take 255
      if "socket:[".toList.isPrefixOf target then
        let inode := strtoul 10 (target.drop 8)
        if inode ≠ 0 then some inode else none
      else none

/-- One descriptor of a process. -/
def walkDescriptor (pid : ℕ) (result : Table ℕ ℕ) (d : Descriptor) : Table ℕ ℕ :=
  match socketInode d with
  | none => result
  | some inode => result.insert inode pid

/-- One entry of /proc. -/
def walkEntry (result : Table ℕ ℕ) (entry : ProcEntry) : Table ℕ ℕ :=
  if ¬ isPid entry.name then result
  else
    let pid := strtoul 10 entry.name % 2 ^ 32
    match entry.fd with
    | none => result
    | some descriptors => descriptors.foldl (walkDescriptor pid) result

def buildInodeToPidMap (proc : Option (List ProcEntry)) : Table ℕ ℕ :=
  match proc with
  | none => ∅
  | some entries => entries.foldl walkEntry ∅

/-- What the system shows of itself in files. -/
structure ProcFs where
  interfaces : Option (List InterfaceAddress)
  tcp : Option (List Char)
  tcp6 : Option (List Char)
  udp : Option (List Char)
  udp6 : Option (List Char)
  proc : Option (List ProcEntry)
  /-- /proc/<pid>/comm -/
  comm : ℕ → Option (List Char)

def readProcessName (fs : ProcFs) (pid : ℕ) : String :=
  match fs.comm pid with
  | none => ""
  | some text => String.ofList ((lines text).head?.getD [])

def ProcFs.snapshot (sys : Platform) (fs : ProcFs) : Snapshot where
  interfaces := fs.interfaces
  sockets :=
    let sockets := appendProcNetTable sys [] fs.tcp "TCP" false
    let sockets := appendProcNetTable sys sockets fs.tcp6 "TCP" true
    let sockets := appendProcNetTable sys sockets fs.udp "UDP" false
    appendProcNetTable sys sockets fs.udp6 "UDP" true
  inodeToPid := (buildInodeToPidMap fs.proc).lookup
  readProcessName := readProcessName fs

/-! ### Tables read back -/

/-- How the kernel writes an address: each four bytes as the number they are in
memory. -/
def hexAddress : Bytes → List Char
  | a :: b :: c :: d :: rest =>
    hexPad 8 (a.toNat + 256 * b.toNat + 65536 * c.toNat + 16777216 * d.toNat) ++ hexAddress rest
  | _ => []

section Addresses

variable (a b c d : UInt8)

theorem word_lt : a.toNat + 256 * b.toNat + 65536 * c.toNat + 16777216 * d.toNat < 16 ^ 8 := by
  have ha := a.toNat_lt
  have hb := b.toNat_lt
  have hc := c.toNat_lt
  have hd := d.toNat_lt
  omega

theorem memory_word : memory (a.toNat + 256 * b.toNat + 65536 * c.toNat + 16777216 * d.toNat) = [a, b, c, d] := by
  have ha := a.toNat_lt
  have hb := b.toNat_lt
  have hc := c.toNat_lt
  have hd := d.toNat_lt
  rw [memory, List.cons.injEq, List.cons.injEq, List.cons.injEq, List.cons.injEq, ← UInt8.toNat_inj,
    ← UInt8.toNat_inj, ← UInt8.toNat_inj, ← UInt8.toNat_inj, UInt8.toNat_ofNat', UInt8.toNat_ofNat',
    UInt8.toNat_ofNat', UInt8.toNat_ofNat']
  refine ⟨?_, ?_, ?_, ?_, rfl⟩ <;> omega

end Addresses

theorem exists_word {address : Bytes} {k : ℕ} (h : address.length = 4 * (k + 1)) :
    ∃ a b c d rest, address = a :: b :: c :: d :: rest ∧ rest.length = 4 * k := by
  match address, h with
  | a :: b :: c :: d :: rest, h =>
    refine ⟨a, b, c, d, rest, rfl, ?_⟩
    rw [List.length_cons, List.length_cons, List.length_cons, List.length_cons] at h
    omega

theorem length_hexAddress {address : Bytes} {k : ℕ} (h : address.length = 4 * k) :
    (hexAddress address).length = 8 * k := by
  induction k generalizing address with
  | zero =>
    rw [List.length_eq_zero_iff.mp h]
    rfl
  | succ k ih =>
    obtain ⟨a, b, c, d, rest, rfl, hrest⟩ := exists_word h
    rw [hexAddress, List.length_append, length_hexPad, ih hrest]
    omega

/-- Group by group the address is read back. -/
theorem groups_hexAddress {address : Bytes} {k : ℕ} (h : address.length = 4 * k) :
    ((List.range k).flatMap fun i => memory (strtoul 16 (((hexAddress address).drop (i * 8)).take 8))) = address := by
  induction k generalizing address with
  | zero => rw [List.length_eq_zero_iff.mp h]; rfl
  | succ k ih =>
    obtain ⟨a, b, c, d, rest, rfl, hrest⟩ := exists_word h
    have hlen := length_hexPad 8 (a.toNat + 256 * b.toNat + 65536 * c.toNat + 16777216 * d.toNat)
    rw [List.range_succ_eq_map, List.flatMap_cons, List.flatMap_map, hexAddress]
    have hfirst : (hexPad 8 (a.toNat + 256 * b.toNat + 65536 * c.toNat + 16777216 * d.toNat) ++
        hexAddress rest).take 8 = hexPad 8 _ := List.take_left' hlen
    have hlater : ∀ i, (hexPad 8 (a.toNat + 256 * b.toNat + 65536 * c.toNat + 16777216 * d.toNat) ++
        hexAddress rest).drop (i.succ * 8) = (hexAddress rest).drop (i * 8) := by
      intro i
      rw [Nat.succ_mul, Nat.add_comm, ← List.drop_drop, List.drop_left' hlen]
    simp only [hlater, Nat.zero_mul, List.drop_zero]
    rw [hfirst, ih hrest, strtoul_hexPad (by decide) (by decide) (word_lt a b c d), memory_word]
    rfl

theorem colon_notMem_hexAddress (address : Bytes) : ':' ∉ hexAddress address := by
  induction address using hexAddress.induct with
  | case1 a b c d rest ih =>
    rw [hexAddress, List.mem_append, not_or]
    exact ⟨fun h => absurd rfl (mem_hexPad h), ih⟩
  | case2 address h =>
    rw [hexAddress]
    · exact List.not_mem_nil
    · exact h

/-- A socket, of which the kernel shows the local endpoint and the inode. -/
structure Socket (ipv6 : Bool) where
  address : Block (if ipv6 then 16 else 4)
  port : ℕ
  inode : ℕ
  port_lt : port < 2 ^ 16
  inode_lt : inode < 2 ^ 64

/-- A line for the socket, its second and tenth field as they should be. -/
def Written {ipv6 : Bool} (socket : Socket ipv6) (line : List Char) : Prop :=
  '\n' ∉ line ∧ ∃ ws, Spaced ws line ∧
    ws[1]? = some (hexAddress socket.address.1 ++ ':' :: hexPad 4 socket.port) ∧
    ws[9]? = some (Nat.toDigits 10 socket.inode)

/-- The table of the sockets, with any header. A table may be missing, as those
of IPv6 are where the kernel has none. -/
def Listed {ipv6 : Bool} (sockets : List (Socket ipv6)) : Option (List Char) → Prop
  | none => sockets = []
  | some text => ∃ header ls, text = (header :: ls).flatMap (· ++ ['\n']) ∧ '\n' ∉ header ∧
      List.Forall₂ Written sockets ls

section Tables

variable (sys : Platform) (protocol : String) {ipv6 : Bool}

/-- What there is to know of a socket that a process may hold. -/
def Socket.entry (socket : Socket ipv6) : Option SocketEntry :=
  if socket.inode = 0 then none
  else some ⟨if ipv6 then sys.inetNtop6 socket.address.1 else sys.inetNtop4 socket.address.1, socket.port, protocol,
    socket.inode⟩

theorem parseHex_hexAddress (address : Block (if ipv6 then 16 else 4)) :
    (if ipv6 then parseHexIpv6 sys (hexAddress address.1) else parseHexIpv4 sys (hexAddress address.1)) =
      some (if ipv6 then sys.inetNtop6 address.1 else sys.inetNtop4 address.1) := by
  cases ipv6 with
  | true =>
    have hlen : address.1.length = 4 * 4 := address.2
    simp only [if_true]
    rw [parseHexIpv6, if_neg (not_not.mpr (length_hexAddress hlen)), groups_hexAddress hlen]
  | false =>
    have hlen : address.1.length = 4 * 1 := address.2
    have hgroup := groups_hexAddress hlen
    have htext : (hexAddress address.1).take 8 = hexAddress address.1 :=
      List.take_of_length_le (length_hexAddress hlen).le
    rw [List.range_one, List.flatMap_singleton, Nat.zero_mul, List.drop_zero, htext] at hgroup
    simp only [Bool.false_eq_true, if_false]
    rw [parseHexIpv4, if_neg (not_not.mpr (length_hexAddress hlen)), hgroup]

/-- A line is read back, whatever its other fields are. -/
theorem readEntry_written {socket : Socket ipv6} {line : List Char} (h : Written socket line) :
    readEntry sys protocol ipv6 line = socket.entry sys protocol := by
  obtain ⟨-, ws, hspaced, hlocal, hinode⟩ := h
  have hcolon : ∀ c ∈ hexAddress socket.address.1, decide (c ≠ ':') = true := fun c hc =>
    decide_eq_true (ne_of_mem_of_not_mem hc (colon_notMem_hexAddress socket.address.1))
  have hbefore : (hexAddress socket.address.1 ++ ':' :: hexPad 4 socket.port).takeWhile (· ≠ ':') =
      hexAddress socket.address.1 := by
    rw [List.takeWhile_append_of_pos hcolon]
    simp
  have hafter : (hexAddress socket.address.1 ++ ':' :: hexPad 4 socket.port).dropWhile (· ≠ ':') =
      ':' :: hexPad 4 socket.port := by
    rw [List.dropWhile_append_of_pos hcolon]
    simp
  have hnumber := strtoul_toDigits socket.inode_lt (fun c (hc : [].head? = some c) => by cases hc)
  rw [List.append_nil] at hnumber
  rw [readEntry, words_spaced hspaced, hlocal, hinode]
  dsimp only
  rw [if_neg (by simp), hbefore, hafter, parseHex_hexAddress, List.tail_cons,
    strtoul_hexPad (by decide) (by decide) socket.port_lt, Nat.mod_eq_of_lt socket.port_lt, hnumber]
  rfl

theorem filterMap_written {sockets : List (Socket ipv6)} {ls : List (List Char)} (h : List.Forall₂ Written sockets ls) :
    ls.filterMap (readEntry sys protocol ipv6) = sockets.filterMap (·.entry sys protocol) := by
  induction h with
  | nil => rfl
  | cons hline _ ih => rw [List.filterMap_cons, List.filterMap_cons, readEntry_written sys protocol hline, ih]

theorem written_line {sockets : List (Socket ipv6)} {ls : List (List Char)} (h : List.Forall₂ Written sockets ls) :
    ∀ l ∈ ls, '\n' ∉ l := by
  induction h with
  | nil => exact List.forall_mem_nil _
  | cons hline _ ih => exact List.forall_mem_cons.mpr ⟨hline.1, ih⟩

/-- A table is read back, whatever its header is. -/
theorem appendProcNetTable_listed {sockets : List (Socket ipv6)} {file : Option (List Char)} (h : Listed sockets file)
    (out : List SocketEntry) :
    appendProcNetTable sys out file protocol ipv6 = out ++ sockets.filterMap (·.entry sys protocol) := by
  cases file with
  | none =>
    rw [show sockets = [] from h]
    exact (List.append_nil out).symm
  | some text =>
    obtain ⟨header, ls, rfl, hheader, hls⟩ := h
    have hends : ∀ l ∈ header :: ls, '\n' ∉ l := List.forall_mem_cons.mpr ⟨hheader, written_line hls⟩
    rw [appendProcNetTable, lines_flatMap hends, List.tail_cons, filterMap_written sys protocol hls]

end Tables

/-! ### Processes read back -/

/-- A process whose descriptors may be read, with the inodes of the sockets it has open. -/
structure Process where
  pid : ℕ
  inodes : List ℕ
  name : List Char
  pid_lt : pid < 2 ^ 32
  inodes_lt : ∀ inode ∈ inodes, 0 < inode ∧ inode < 2 ^ 64
  name_line : '\n' ∉ name

/-- What the descriptor of a socket links to. -/
def socketLink (inode : ℕ) : List Char := "socket:[".toList ++ (Nat.toDigits 10 inode ++ [']'])

/-- A directory of descriptors: sockets, and what is no socket. -/
inductive Opens : List ℕ → List Descriptor → Prop
  | nil : Opens [] []
  | socket {inode : ℕ} {inodes : List ℕ} {d : Descriptor} {ds : List Descriptor} (hname : d.name.head? ≠ some '.')
      (htarget : d.target = some (socketLink inode)) (hrest : Opens inodes ds) : Opens (inode :: inodes) (d :: ds)
  | other {inodes : List ℕ} {d : Descriptor} {ds : List Descriptor}
      (h : d.name.head? = some '.' ∨ ∀ target, d.target = some target → ¬ "socket:[".toList <+: target)
      (hrest : Opens inodes ds) : Opens inodes (d :: ds)

/-- The directory /proc: processes, and entries that are none or may not be read. -/
inductive Runs : List Process → List ProcEntry → Prop
  | nil : Runs [] []
  | process {p : Process} {ps : List Process} {entry : ProcEntry} {entries : List ProcEntry} {ds : List Descriptor}
      (hname : entry.name = Nat.toDigits 10 p.pid) (hfd : entry.fd = some ds) (hopens : Opens p.inodes ds)
      (hrest : Runs ps entries) : Runs (p :: ps) (entry :: entries)
  | other {ps : List Process} {entry : ProcEntry} {entries : List ProcEntry}
      (h : isPid entry.name = false ∨ entry.fd = none) (hrest : Runs ps entries) : Runs ps (entry :: entries)

theorem socketInode_socket {d : Descriptor} {inode : ℕ} (hname : d.name.head? ≠ some '.')
    (htarget : d.target = some (socketLink inode)) (hinode : 0 < inode ∧ inode < 2 ^ 64) :
    socketInode d = some inode := by
  have hdigits : (Nat.toDigits 10 inode).length ≤ 20 :=
    Nat.toDigits_length 10 inode 20 (by omega) (by omega)
  have hshort : (socketLink inode).take 255 = socketLink inode := by
    refine List.take_of_length_le ?_
    unfold socketLink
    simp
    omega
  have hread : strtoul 10 ((socketLink inode).drop 8) = inode := by
    have hdrop : (socketLink inode).drop 8 = Nat.toDigits 10 inode ++ [']'] := List.drop_left' rfl
    rw [hdrop]
    refine strtoul_toDigits hinode.2 fun c hc => ?_
    rw [← Option.some.inj hc]
    rfl
  have hprefix : "socket:[".toList.isPrefixOf (socketLink inode) = true :=
    List.isPrefixOf_iff_prefix.mpr (List.prefix_append _ _)
  rw [socketInode, if_neg hname, htarget]
  dsimp only
  rw [hshort, if_pos hprefix, hread, if_pos hinode.1.ne']

theorem socketInode_other {d : Descriptor}
    (h : d.name.head? = some '.' ∨ ∀ target, d.target = some target → ¬ "socket:[".toList <+: target) :
    socketInode d = none := by
  unfold socketInode
  split
  · rfl
  · rename_i hname
    split
    · rfl
    · rename_i target htarget
      refine if_neg fun hprefix => h.resolve_left hname target htarget ?_
      exact (List.isPrefixOf_iff_prefix.mp hprefix).trans (List.take_prefix 255 target)

theorem walkDescriptor_opens {inodes : List ℕ} {ds : List Descriptor} (h : Opens inodes ds)
    (hinodes : ∀ inode ∈ inodes, 0 < inode ∧ inode < 2 ^ 64) (pid : ℕ) (result : Table ℕ ℕ) :
    ds.foldl (walkDescriptor pid) result =
      (inodes.map fun inode => (inode, pid)).foldl (fun t row => t.insert row.1 row.2) result := by
  induction h generalizing result with
  | nil => rfl
  | socket hname htarget _ ih =>
    obtain ⟨hinode, hrest⟩ := List.forall_mem_cons.mp hinodes
    rw [List.foldl_cons, List.map_cons, List.foldl_cons, walkDescriptor, socketInode_socket hname htarget hinode]
    exact ih hrest _
  | other h _ ih =>
    rw [List.foldl_cons, walkDescriptor, socketInode_other h]
    exact ih hinodes _

/-- The sockets of the process. -/
def Process.holdings (p : Process) : List (ℕ × ℕ) := p.inodes.map fun inode => (inode, p.pid)

theorem walkEntry_runs {ps : List Process} {entries : List ProcEntry} (h : Runs ps entries) (result : Table ℕ ℕ) :
    entries.foldl walkEntry result =
      (ps.flatMap Process.holdings).foldl (fun t row => t.insert row.1 row.2) result := by
  induction h generalizing result with
  | nil => rfl
  | @process p ps entry entries ds hname hfd hopens _ ih =>
    have hpid : isPid (Nat.toDigits 10 p.pid) = true := by
      have hdigits := fun c hc => Nat.isDigit_of_mem_toDigits (c := c) (b := 10) (n := p.pid) (by decide) (by decide) hc
      simp [isPid, Nat.toDigits_ne_nil, List.all_eq_true.mpr hdigits]
    have hnumber := strtoul_toDigits (p.pid_lt.trans (by decide)) (fun c (hc : [].head? = some c) => by cases hc)
    rw [List.append_nil] at hnumber
    have hentry : walkEntry result entry =
        p.holdings.foldl (fun t row => t.insert row.1 row.2) result := by
      rw [walkEntry, hname, if_neg (not_not.mpr hpid), hfd, hnumber, Nat.mod_eq_of_lt p.pid_lt]
      exact walkDescriptor_opens hopens p.inodes_lt p.pid result
    rw [List.foldl_cons, List.flatMap_cons, List.foldl_append, hentry]
    exact ih _
  | @other ps entry entries h _ ih =>
    have hentry : walkEntry result entry = result := by
      unfold walkEntry
      rcases h with h | h
      · rw [if_pos (by simp [h])]
      · rw [h]
        split <;> rfl
    rw [List.foldl_cons, hentry]
    exact ih _

/-! ### The machine behind the files -/

structure Machine where
  tcp : List (Socket false)
  tcp6 : List (Socket true)
  udp : List (Socket false)
  udp6 : List (Socket true)
  /-- Those whose descriptors may be read. -/
  processes : List Process

/-- What the kernel makes of the machine. -/
structure Shows (fs : ProcFs) (m : Machine) : Prop where
  tcp : Listed m.tcp fs.tcp
  tcp6 : Listed m.tcp6 fs.tcp6
  udp : Listed m.udp fs.udp
  udp6 : Listed m.udp6 fs.udp6
  processes : ∃ entries, fs.proc = some entries ∧ Runs m.processes entries
  names : ∀ p ∈ m.processes, fs.comm p.pid = some (p.name ++ ['\n'])

section Machines

variable (sys : Platform)

def Machine.sockets (m : Machine) : List SocketEntry :=
  m.tcp.filterMap (·.entry sys "TCP") ++ m.tcp6.filterMap (·.entry sys "TCP") ++
    m.udp.filterMap (·.entry sys "UDP") ++ m.udp6.filterMap (·.entry sys "UDP")

/-- The process has a socket bound to the endpoint, and no other process has one. -/
structure Machine.Owns (m : Machine) (p : Process) (e : Endpoint) : Prop where
  process : p ∈ m.processes
  socket : ∃ s ∈ m.sockets sys, (⟨s.ip, s.port, s.protocol⟩ : Endpoint) = e ∧ s.inode ∈ p.inodes
  alone : ∀ s ∈ m.sockets sys, (⟨s.ip, s.port, s.protocol⟩ : Endpoint) = e →
    ∀ q ∈ m.processes, s.inode ∈ q.inodes → q.pid = p.pid

variable {sys} {fs : ProcFs} {m : Machine} (h : Shows fs m)

include h

/-- The snapshot has the sockets of the machine. -/
theorem snapshot_sockets : (fs.snapshot sys).sockets = m.sockets sys := by
  show appendProcNetTable sys (appendProcNetTable sys (appendProcNetTable sys (appendProcNetTable sys [] fs.tcp "TCP"
    false) fs.tcp6 "TCP" true) fs.udp "UDP" false) fs.udp6 "UDP" true = _
  rw [appendProcNetTable_listed sys _ h.tcp, appendProcNetTable_listed sys _ h.tcp6,
    appendProcNetTable_listed sys _ h.udp, appendProcNetTable_listed sys _ h.udp6, List.nil_append]
  rfl

theorem snapshot_inodeToPid (inode : ℕ) : (fs.snapshot sys).inodeToPid inode =
    (((m.processes.flatMap Process.holdings).filter (·.1 = inode)).getLast?).map (·.2) := by
  obtain ⟨entries, hproc, hruns⟩ := h.processes
  show (buildInodeToPidMap fs.proc).lookup inode = _
  rw [hproc, buildInodeToPidMap, walkEntry_runs hruns, Table.lookup_insertAll]
  exact Option.or_none

theorem snapshot_name {p : Process} (hp : p ∈ m.processes) :
    (fs.snapshot sys).readProcessName p.pid = String.ofList p.name := by
  have hlines : lines (p.name ++ ['\n']) = [p.name] := by
    have hread := lines_flatMap (List.forall_mem_singleton.mpr p.name_line)
    rwa [List.flatMap_singleton] at hread
  show readProcessName fs p.pid = _
  rw [readProcessName, h.names p hp]
  dsimp only
  rw [hlines]
  rfl

/-- A pid of the snapshot is that of a process that has the socket. -/
theorem holder_of_inodeToPid {inode pid : ℕ} (hpid : (fs.snapshot sys).inodeToPid inode = some pid) :
    ∃ q ∈ m.processes, inode ∈ q.inodes ∧ q.pid = pid := by
  rw [snapshot_inodeToPid h] at hpid
  obtain ⟨row, hrow, rfl⟩ := Option.map_eq_some_iff.mp hpid
  obtain ⟨hmem, hinode⟩ := List.mem_filter.mp (List.mem_of_getLast? hrow)
  obtain ⟨q, hq, hheld⟩ := List.mem_flatMap.mp hmem
  obtain ⟨held, hin, rfl⟩ := List.mem_map.mp hheld
  exact ⟨q, hq, of_decide_eq_true hinode ▸ hin, rfl⟩

theorem exists_inodeToPid {inode : ℕ} {p : Process} (hp : p ∈ m.processes) (hheld : inode ∈ p.inodes) :
    ∃ pid, (fs.snapshot sys).inodeToPid inode = some pid := by
  have hrow : (inode, p.pid) ∈ (m.processes.flatMap Process.holdings).filter (·.1 = inode) :=
    List.mem_filter.mpr ⟨List.mem_flatMap.mpr ⟨p, hp, List.mem_map.mpr ⟨inode, hheld, rfl⟩⟩, by simp⟩
  rw [snapshot_inodeToPid h, List.getLast?_eq_some_getLast (List.ne_nil_of_mem hrow)]
  exact ⟨_, rfl⟩

/-- An endpoint goes to the process that owns it. -/
theorem ownerOf_owns {p : Process} {e : Endpoint} (howns : m.Owns sys p e) :
    (fs.snapshot sys).ownerOf e = some p.pid := by
  have hall : ∀ row ∈ (fs.snapshot sys).owners.filter (·.1 = e), row.2 = p.pid := by
    intro row hrow
    obtain ⟨hmem, he⟩ := List.mem_filter.mp hrow
    obtain ⟨s, hs, hentry⟩ := List.mem_filterMap.mp hmem
    obtain ⟨pid, hpid, rfl⟩ := Option.map_eq_some_iff.mp hentry
    obtain ⟨q, hq, hheld, rfl⟩ := holder_of_inodeToPid h hpid
    rw [snapshot_sockets h] at hs
    exact howns.alone s hs (of_decide_eq_true he) q hq hheld
  obtain ⟨s, hs, he, hheld⟩ := howns.socket
  obtain ⟨pid, hpid⟩ := @exists_inodeToPid sys fs m h s.inode p howns.process hheld
  have hrow : (e, pid) ∈ (fs.snapshot sys).owners.filter (·.1 = e) := by
    refine List.mem_filter.mpr ⟨List.mem_filterMap.mpr ⟨s, ?_, ?_⟩, by simp⟩
    · rwa [snapshot_sockets h]
    · rw [hpid, he]
      rfl
  have hlast := List.getLast?_eq_some_getLast (List.ne_nil_of_mem hrow)
  rw [Snapshot.ownerOf, hlast]
  exact congrArg some (hall _ (List.getLast_mem _))

/-- A process that the snapshot lists is one of the machine. -/
theorem process_of_lists {pid : ℕ} (hlists : (fs.snapshot sys).lists pid = true) :
    ∃ q ∈ m.processes, q.pid = pid := by
  obtain ⟨row, hrow, hpid⟩ := List.any_eq_true.mp hlists
  obtain ⟨s, -, hentry⟩ := List.mem_filterMap.mp hrow
  obtain ⟨found, hfound, rfl⟩ := Option.map_eq_some_iff.mp hentry
  obtain ⟨q, hq, -, rfl⟩ := holder_of_inodeToPid h hfound
  exact ⟨q, hq, of_decide_eq_true hpid⟩

end Machines

/-! ### Attribution -/

/-- A machine at a moment, with what its files show. -/
structure Moment where
  machine : Machine
  fs : ProcFs
  shows : Shows fs machine
  now : ℤ

section Attribution

variable (sys : Platform)

def Moment.read (m : Moment) : Snapshot × ℤ := (m.fs.snapshot sys, m.now)

/-- A lookup at the moment. -/
def Moment.call (m : Moment) (packet : ParsedPacket) : Call := ⟨m.fs.snapshot sys, m.now, packet⟩

/-- A lookup answers from a snapshot at most 1.5 s old. -/
theorem currentAt_fresh (first : Snapshot × ℤ) (later : List (Snapshot × ℤ)) (os : Snapshot) (now : ℤ) :
    ∃ s ∈ first :: (later ++ [(os, now)]), currentAt first later os now = s.1 ∧ now - s.2 ≤ kRefreshNanoseconds := by
  unfold currentAt refreshesAt
  by_cases hstale : now - (lastOf first later).2 > kRefreshNanoseconds
  · refine ⟨(os, now), by simp, ?_, by simp [kRefreshNanoseconds]⟩
    rw [if_pos hstale, lastOf, List.getLast?_concat]
    rfl
  · rw [if_neg hstale]
    refine ⟨lastOf first later, ?_, rfl, not_lt.mp hstale⟩
    rw [lastOf]
    cases hlast : later.getLast? with
    | none => exact List.mem_cons_self
    | some s => exact List.mem_cons_of_mem _ (List.mem_append_left _ (List.mem_of_getLast? hlast))

theorem historyAt_subset {first : Snapshot × ℤ} {later : List (Snapshot × ℤ)} {os seen : Snapshot} {now : ℤ}
    (h : seen ∈ historyAt first later os now) : ∃ s ∈ first :: (later ++ [(os, now)]), s.1 = seen := by
  obtain ⟨s, hmem, hseen⟩ := List.mem_map.mp h
  refine ⟨s, ?_, hseen⟩
  unfold refreshesAt at hmem
  split at hmem
  · exact hmem
  · exact (List.cons_subset_cons _ (List.subset_append_left _ _)) hmem

variable {sys} {first : Moment} {calls : List (Moment × ParsedPacket)} {now : Moment} {packet : ParsedPacket}
  {p : Process}

/-- **A packet is put down to the process that holds its source socket**: read
from the files of the machine, whatever lookups came before, if the process has
had the socket for the last 1.5 s, has a name, and nobody had its pid under
another. -/
theorem proc_attributed (hprotocol : packet.protocol = "TCP" ∨ packet.protocol = "UDP") (hport : packet.srcPort ≠ 0)
    (hlocal : packet.srcIP ∈ collectInterfaceAddresses (first.fs.snapshot sys))
    (howns : ∀ m ∈ first :: (calls.map (·.1) ++ [now]), now.now - m.now ≤ kRefreshNanoseconds →
      m.machine.Owns sys p ⟨packet.srcIP, packet.srcPort, packet.protocol⟩)
    (hname : ∀ m ∈ first :: (calls.map (·.1) ++ [now]), ∀ q ∈ m.machine.processes, q.pid = p.pid → q.name = p.name)
    (hnamed : p.name ≠ []) :
    (lookup (now.fs.snapshot sys) now.now
      (run (construct (first.fs.snapshot sys) first.now) (calls.map fun c => c.1.call sys c.2)) packet).1 =
        String.ofList p.name := by
  obtain ⟨later, hsub, hrun⟩ := run_resolverAfter (first.read sys) (calls.map fun c => c.1.call sys c.2)
  -- what the resolver has read are snapshots of the moments
  have hmoment : ∀ s ∈ first.read sys :: (later ++ [now.read sys]),
      ∃ m ∈ first :: (calls.map (·.1) ++ [now]), m.read sys = s := by
    intro s hs
    refine List.mem_map.mp ?_
    rw [List.map_cons, List.map_append, List.map_map, List.map_singleton]
    rw [List.map_map] at hsub
    exact List.cons_subset_cons _ (List.append_subset.mpr
      ⟨fun s hs => List.mem_append_left _ (hsub.subset hs), List.subset_append_right _ _⟩) hs
  obtain ⟨s, hs, hcurrent, hfresh⟩ := currentAt_fresh (first.read sys) later (now.fs.snapshot sys) now.now
  obtain ⟨m, hm, rfl⟩ := hmoment s hs
  have howner : (currentAt (first.read sys) later (now.fs.snapshot sys) now.now).ownerOf
      ⟨packet.srcIP, packet.srcPort, packet.protocol⟩ = some p.pid := by
    rw [hcurrent]
    exact ownerOf_owns m.shows (howns m hm hfresh)
  -- whenever the process is listed it has its name
  obtain ⟨name, hfirst⟩ := exists_firstName howner
  have hfound : name = String.ofList p.name := by
    obtain ⟨found, hfind, rfl⟩ := Option.map_eq_some_iff.mp hfirst
    obtain ⟨s, hs, hseen⟩ := historyAt_subset (List.mem_of_find?_eq_some hfind)
    obtain ⟨m, hm, rfl⟩ := hmoment s hs
    have hlists : (m.fs.snapshot sys).lists p.pid = true := by
      have hlisted := List.find?_some hfind
      rwa [← hseen] at hlisted
    obtain ⟨q, hq, hpid⟩ := process_of_lists m.shows hlists
    rw [← hseen, ← hpid, ← hname m hm q hq hpid]
    exact snapshot_name m.shows hq
  have hsome : String.ofList p.name ≠ "" := fun h => hnamed (by simpa using h)
  have hsource : attributed (first.read sys) later (now.fs.snapshot sys) now.now packet.protocol packet.srcIP
      packet.srcPort = String.ofList p.name := by
    refine (attributed_eq_iff hsome).mpr ⟨hlocal, p.pid, ?_, hfirst.trans (congrArg some hfound)⟩
    rw [Snapshot.boundTo, howner, Option.some_or]
  have hanswer := @lookup_eq_attributed (first.read sys) later (now.fs.snapshot sys) now.now packet hprotocol
    (.inl hport)
  rw [hsource, if_pos hsome] at hanswer
  rw [← hanswer, ← hrun]
  rfl

end Attribution

/-! A process with a connection. -/

namespace Connected

def sys : Platform where
  inetNtop4 b := if b = [10, 0, 0, 2] then "10.0.0.2" else ""
  inetNtop6 _ := "::"
  mbedtls := ⟨fun _ _ => none, fun _ _ _ => none, fun _ _ => none, fun _ _ _ _ _ => none⟩

def socket : Socket false := ⟨⟨[10, 0, 0, 2], rfl⟩, 50001, 7, by decide, by decide⟩

def curl : Process := ⟨100, [7], "curl".toList, by decide, by decide, by decide⟩

def machine : Machine := ⟨[socket], [], [], [], [curl]⟩

/-- The fields of its row. -/
def fields : List (List Char) :=
  ["0:", "0200000A:C351", "22D8B85D:01BB", "01", "00000000:00000000", "00:00000000", "00000000", "1000", "0", "7",
    "1"].map String.toList

def fs : ProcFs where
  interfaces := some [⟨false, "10.0.0.2"⟩]
  tcp := some (["sl local_address rem_address st".toList, [' '].intercalate fields].flatMap (· ++ ['\n']))
  tcp6 := none
  udp := none
  udp6 := none
  proc := some [⟨"uptime".toList, none⟩,
    ⟨"100".toList, some [⟨".".toList, none⟩, ⟨"3".toList, some "socket:[7]".toList⟩]⟩]
  comm pid := if pid = 100 then some "curl\n".toList else none

theorem shows_machine : Shows fs machine where
  tcp := ⟨_, _, rfl, by decide, .cons ⟨by decide, fields, spaced_intercalate (by decide), by decide, by decide⟩ .nil⟩
  tcp6 := rfl
  udp := rfl
  udp6 := rfl
  processes := ⟨_, rfl, .other (.inl (by decide))
    (.process (by decide) rfl (.other (.inl rfl) (.socket (by decide) (by decide) .nil)) .nil)⟩
  names p hp := by
    rw [List.mem_singleton.mp hp]
    decide

theorem curl_owns : machine.Owns sys curl ⟨"10.0.0.2", 50001, "TCP"⟩ where
  process := List.mem_singleton_self curl
  socket := ⟨⟨"10.0.0.2", 50001, "TCP", 7⟩, by decide, rfl, by decide⟩
  alone _ _ _ q hq _ := congrArg Process.pid (List.mem_singleton.mp hq)

def moment (now : ℤ) : Moment := ⟨machine, fs, shows_machine, now⟩

def packet : ParsedPacket :=
  { protocol := "TCP", srcIP := "10.0.0.2", srcPort := 50001, dstIP := "93.184.216.34", dstPort := 443 }

theorem machine_of_mem {m : Moment} (h : m ∈ [moment 0, moment 1000000000, moment 3000000000]) :
    m.machine = machine := by
  simp only [List.mem_cons, List.not_mem_nil, or_false] at h
  rcases h with rfl | rfl | rfl <;> rfl

end Connected

/-- The packets of a connection, with one lookup before. -/
theorem proc_attributed_curl :
    (lookup (Connected.fs.snapshot Connected.sys) 3000000000
      (run (construct (Connected.fs.snapshot Connected.sys) 0)
        [⟨Connected.fs.snapshot Connected.sys, 1000000000, Connected.packet⟩]) Connected.packet).1 = "curl" :=
  @proc_attributed Connected.sys (Connected.moment 0) [(Connected.moment 1000000000, Connected.packet)]
    (Connected.moment 3000000000) Connected.packet Connected.curl (.inl rfl) (by decide) (by decide)
    (fun _ hm _ => Connected.machine_of_mem hm ▸ Connected.curl_owns)
    (fun m hm q hq _ => by
      rw [Connected.machine_of_mem hm] at hq
      exact congrArg Process.name (List.mem_singleton.mp hq))
    (by decide)

end ProcessResolver
end NetProbe
