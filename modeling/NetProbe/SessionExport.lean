/-
# SessionExport

The session that `CaptureEngine` retains, its export and the reading of a
capture file. A file's packets and link type are what the capture library says;
the engine keeps the last packets read and the link type of their source.
`dltFromLinkType` undoes `linkTypeFromDlt` but for the link types the program
cannot decode, which it writes as Ethernet, so a session reads back exactly when
its source is of a type the program knows or it is empty (`session_reads_back_iff`).

Key definitions: `Libpcap`, `Engine`, `exportSession`, `openFile`, `Captured`, `ReadsBack`.
Key theorems: `linkTypeFromDlt_dltFromLinkType`, `nextPacket_record`, `session_reads_back_iff`.
-/
import NetProbe.PacketQueue
import NetProbe.ProtocolParser

namespace NetProbe
namespace SessionExport

/-! ### Link types -/

def kDltNull : ℤ := 0
def kDltEn10Mb : ℤ := 1
def kDltRaw : ℤ := 12
def kDltRawAlt : ℤ := 14
def kDltLoop : ℤ := 108
def kDltLinuxSll : ℤ := 113
def kDltIpv4 : ℤ := 228
def kDltIpv6 : ℤ := 229
def kDltLinuxSll2 : ℤ := 276

def linkTypeFromDlt (dlt : ℤ) : LinkType :=
  if dlt = kDltEn10Mb then .Ethernet
  else if dlt = kDltNull then .NullLoopback
  else if dlt = kDltLoop then .Loop
  else if dlt = kDltRaw ∨ dlt = kDltRawAlt then .RawIP
  else if dlt = kDltLinuxSll then .LinuxSLL
  else if dlt = kDltLinuxSll2 then .LinuxSLL2
  else if dlt = kDltIpv4 then .IPv4
  else if dlt = kDltIpv6 then .IPv6
  else .Unsupported

def dltFromLinkType : LinkType → ℤ
  | .Ethernet => kDltEn10Mb
  | .NullLoopback => kDltNull
  | .Loop => kDltLoop
  | .RawIP => kDltRaw
  | .LinuxSLL => kDltLinuxSll
  | .LinuxSLL2 => kDltLinuxSll2
  | .IPv4 => kDltIpv4
  | .IPv6 => kDltIpv6
  | .Unsupported => kDltEn10Mb

/-- The tables are inverse on every link type but `Unsupported`. -/
theorem linkTypeFromDlt_dltFromLinkType (link : LinkType) :
    linkTypeFromDlt (dltFromLinkType link) = link ↔ link ≠ .Unsupported := by
  cases link <;> decide

/-! ### The capture library -/

/-- `pcap_pkthdr` and the bytes it is for. -/
structure Record where
  tvSec : ℤ
  tvUsec : ℤ
  caplen : UInt32
  len : UInt32
  bytes : Bytes
  complete : bytes.length = caplen.toNat

/-- What reading a capture file gives: the packets up to its end, or up to an error. -/
structure Contents where
  dlt : ℤ
  records : List Record := []
  damaged : Bool := false

/-- The savefile functions of libpcap. The texts are those of `pcap_geterr`. -/
structure Libpcap (File : Type) where
  openDead : (dlt : ℤ) → Bool
  dumpOpen : (dlt : ℤ) → Except String File
  dump : File → Record → File
  openOffline : File → Except String Contents

/-- libpcap returns the link type and the packets it was given. -/
structure Libpcap.Faithful {File : Type} (pcap : Libpcap File) : Prop where
  opened : ∀ {dlt file}, pcap.dumpOpen dlt = .ok file → pcap.openOffline file = .ok { dlt }
  dumped : ∀ {file contents} (r : Record), pcap.openOffline file = .ok contents →
    pcap.openOffline (pcap.dump file r) = .ok { contents with records := contents.records ++ [r] }

/-! ### The engine -/

def maxSessionPackets : ℕ := 10000

/-- The part of `CaptureEngine` that the packets go through. -/
structure Engine where
  queue : PacketQueue PacketData
  sessionPackets : List PacketData := []
  sessionLinkType : LinkType := .Ethernet

/-- `nextPacket` when libpcap has a packet. -/
def nextPacket (linkType : LinkType) (r : Record) : PacketData where
  timestamp := r.tvSec * 1000000 + r.tvUsec
  length := r.len.toNat
  capturedLength := r.caplen.toNat
  linkType
  payload := r.bytes
  fits := by
    have := r.caplen.toNat_lt
    rw [r.complete]
    omega

/-- When full, the oldest packet goes. -/
def retainPacket (packets : List PacketData) (packet : PacketData) : List PacketData :=
  if packets.length ≥ maxSessionPackets then packets.tail ++ [packet] else packets ++ [packet]

def consumePacket (e : Engine) (packet : PacketData) : Engine :=
  { e with sessionPackets := retainPacket e.sessionPackets packet, queue := e.queue.push packet }

/-- A device or a file with link type `dlt` is open. -/
def openSource (e : Engine) (dlt : ℤ) : Engine :=
  { queue := e.queue.clear, sessionPackets := [], sessionLinkType := linkTypeFromDlt dlt }

/-- `startCapture`; `device` is the link type of the device, if it can be opened and takes the filter. -/
def startCapture (e : Engine) (device : Option ℤ) : Engine :=
  match device with
  | none => { e with queue := e.queue.clear, sessionPackets := [] }
  | some dlt => openSource e dlt

variable {File : Type}

def openFile (pcap : Libpcap File) (e : Engine) (file : File) : Bool × Engine :=
  match pcap.openOffline file with
  | .error _ => (false, { e with queue := e.queue.clear, sessionPackets := [] })
  | .ok contents =>
    let link := linkTypeFromDlt contents.dlt
    (!contents.damaged, (contents.records.map (nextPacket link)).foldl consumePacket (openSource e contents.dlt))

/-- The header and the bytes written for a packet. -/
def record (packet : PacketData) : Record where
  tvSec := packet.timestamp.tdiv 1000000
  tvUsec := packet.timestamp.tmod 1000000
  caplen := UInt32.ofNat packet.payload.length
  len := UInt32.ofNat packet.length
  bytes := packet.payload.take (UInt32.ofNat packet.payload.length).toNat
  complete := by
    rw [List.length_take, UInt32.toNat_ofNat']
    exact min_eq_left (Nat.mod_le _ _)

def exportSession (pcap : Libpcap File) (e : Engine) : Except String File :=
  let dlt := dltFromLinkType e.sessionLinkType
  if ¬ pcap.openDead dlt then .error "Unable to create a PCAP writer."
  else (pcap.dumpOpen dlt).map fun file => (e.sessionPackets.map record).foldl pcap.dump file

/-! ### Sessions -/

/-- The states of an engine whose source has the link type `dlt`, while packets
are read and taken from the queue. -/
inductive Captured (dlt : ℤ) : Engine → Prop
  | opened (e) : Captured dlt (openSource e dlt)
  | read {e} (h : Captured dlt e) (r) : Captured dlt (consumePacket e (nextPacket (linkTypeFromDlt dlt) r))
  | taken {e} (h : Captured dlt e) : Captured dlt { e with queue := e.queue.tryPop.2 }

/-- What a session from a source of link type `dlt` holds. -/
structure Retained (dlt : ℤ) (e : Engine) : Prop where
  linkType : e.sessionLinkType = linkTypeFromDlt dlt
  fits : e.sessionPackets.length ≤ maxSessionPackets
  read : ∀ p ∈ e.sessionPackets, ∃ r, p = nextPacket (linkTypeFromDlt dlt) r

section Lemmas

variable {pcap : Libpcap File} {dlt : ℤ} {e e' : Engine} {file : File}

theorem Captured.startCapture (e : Engine) : Captured dlt (startCapture e (some dlt)) := .opened e

theorem Captured.foldl (h : Captured dlt e) (records : List Record) :
    Captured dlt ((records.map (nextPacket (linkTypeFromDlt dlt))).foldl consumePacket e) := by
  induction records generalizing e with
  | nil => exact h
  | cons r records ih => exact ih (h.read r)

theorem captured_openFile {contents : Contents} (h : pcap.openOffline file = .ok contents) (e : Engine) :
    Captured contents.dlt (openFile pcap e file).2 := by
  simp only [openFile, h]
  exact (Captured.opened e).foldl contents.records

theorem length_retainPacket {packets : List PacketData} (h : packets.length ≤ maxSessionPackets) (p : PacketData) :
    (retainPacket packets p).length ≤ maxSessionPackets := by
  unfold retainPacket
  split
  · rw [List.length_append, List.length_tail, List.length_singleton]
    have : 0 < maxSessionPackets := by decide
    omega
  · rw [List.length_append, List.length_singleton]
    omega

theorem mem_retainPacket {packets : List PacketData} {p q : PacketData} (h : q ∈ retainPacket packets p) :
    q ∈ packets ∨ q = p := by
  unfold retainPacket at h
  split at h
  all_goals rcases List.mem_append.mp h with h | h
  · exact .inl (List.mem_of_mem_tail h)
  · exact .inr (List.mem_singleton.mp h)
  · exact .inl h
  · exact .inr (List.mem_singleton.mp h)

theorem Captured.retained (h : Captured dlt e) : Retained dlt e := by
  induction h with
  | opened e => exact ⟨rfl, Nat.zero_le _, fun _ hp => absurd hp List.not_mem_nil⟩
  | read h r ih =>
    refine ⟨ih.linkType, length_retainPacket ih.fits _, fun p hp => ?_⟩
    rcases mem_retainPacket hp with hp | rfl
    · exact ih.read p hp
    · exact ⟨r, rfl⟩
  | taken h ih => exact ⟨ih.linkType, ih.fits, ih.read⟩

/-! ### Writing and reading -/

/-- A packet written and read is what it was, on a source of the link type the file has. -/
theorem nextPacket_record (link link' : LinkType) (r : Record) :
    nextPacket link' (record (nextPacket link r)) = nextPacket link' r := by
  have htime : ∀ t : ℤ, t.tdiv 1000000 * 1000000 + t.tmod 1000000 = t := fun t => by
    rw [mul_comm]
    exact Int.mul_tdiv_add_tmod t 1000000
  have hcaplen : UInt32.ofNat r.bytes.length = r.caplen := by rw [r.complete, UInt32.ofNat_toNat]
  have hbytes : r.bytes.take r.caplen.toNat = r.bytes := by rw [← r.complete, List.take_length]
  simp only [nextPacket, record, htime, hcaplen, hbytes, UInt32.ofNat_toNat]

theorem foldl_dump (hp : pcap.Faithful) (records : List Record) {contents : Contents}
    (h : pcap.openOffline file = .ok contents) : pcap.openOffline (records.foldl pcap.dump file) =
      .ok { contents with records := contents.records ++ records } := by
  induction records generalizing file contents with
  | nil => simpa using h
  | cons r records ih => simpa using ih (hp.dumped r h)

/-- What an exported file contains. -/
theorem contents_exportSession (hp : pcap.Faithful) (h : exportSession pcap e = .ok file) :
    pcap.openOffline file =
      .ok { dlt := dltFromLinkType e.sessionLinkType, records := e.sessionPackets.map record } := by
  simp only [exportSession] at h
  split at h
  · cases h
  · cases hopen : pcap.dumpOpen (dltFromLinkType e.sessionLinkType) with
    | error text => simp [hopen, Except.map] at h
    | ok empty =>
      simp only [hopen, Except.map, Except.ok.injEq] at h
      have hread := foldl_dump hp (e.sessionPackets.map record) (hp.opened hopen)
      rw [← h, hread, List.nil_append]

theorem foldl_retain (packets : List PacketData)
    (hroom : e.sessionPackets.length + packets.length ≤ maxSessionPackets) :
    (packets.foldl consumePacket e).sessionPackets = e.sessionPackets ++ packets := by
  induction packets generalizing e with
  | nil => simp
  | cons p packets ih =>
    rw [List.length_cons] at hroom
    have hkeep : (consumePacket e p).sessionPackets = e.sessionPackets ++ [p] := if_neg (by omega)
    rw [List.foldl_cons, ih (by rw [hkeep, List.length_append, List.length_singleton]; omega), hkeep,
      List.append_assoc, List.singleton_append]

theorem foldl_push (packets : List PacketData) (hroom : e.queue.size + packets.length ≤ e.queue.maxSize) :
    (packets.foldl consumePacket e).queue.queue = e.queue.queue ++ packets := by
  induction packets generalizing e with
  | nil => simp
  | cons p packets ih =>
    rw [List.length_cons] at hroom
    have hpush : (consumePacket e p).queue = { e.queue with queue := e.queue.queue ++ [p] } := if_neg (by omega)
    rw [List.foldl_cons, ih, hpush]
    · simp
    · simp only [hpush, PacketQueue.size, List.length_append, List.length_singleton] at hroom ⊢
      omega

theorem foldl_linkType (packets : List PacketData) :
    (packets.foldl consumePacket e).sessionLinkType = e.sessionLinkType := by
  induction packets generalizing e with
  | nil => rfl
  | cons p packets ih => exact ih

end Lemmas

/-- The file that `e` has written, opened by `e'`, gives the packets of `e`'s
session: as the session, in the queue if that is large enough for any session,
and to the parser. -/
structure ReadsBack (pcap : Libpcap File) (e e' : Engine) (file : File) : Prop where
  opens : (openFile pcap e' file).1 = true
  session : (openFile pcap e' file).2.sessionPackets = e.sessionPackets
  queue : maxSessionPackets ≤ e'.queue.maxSize → (openFile pcap e' file).2.queue.queue = e.sessionPackets
  parse : ∀ platform, (openFile pcap e' file).2.sessionPackets.map (ProtocolParser.parse platform) =
    e.sessionPackets.map (ProtocolParser.parse platform)

section Main

variable {pcap : Libpcap File} {dlt : ℤ} {e e' : Engine} {file : File}

/-- What a packet of the session is once written and read. -/
def reread (e : Engine) (packet : PacketData) : PacketData :=
  nextPacket (linkTypeFromDlt (dltFromLinkType e.sessionLinkType)) (record packet)

theorem openFile_exported (hp : pcap.Faithful) (hr : Retained dlt e) (hx : exportSession pcap e = .ok file)
    (e' : Engine) :
    (openFile pcap e' file).1 = true ∧
    (openFile pcap e' file).2.sessionPackets = e.sessionPackets.map (reread e) ∧
    (maxSessionPackets ≤ e'.queue.maxSize → (openFile pcap e' file).2.queue.queue = e.sessionPackets.map (reread e)) ∧
    (openFile pcap e' file).2.sessionLinkType = linkTypeFromDlt (dltFromLinkType e.sessionLinkType) := by
  have hfits := hr.fits
  have hlength :
      ((e.sessionPackets.map record).map (nextPacket (linkTypeFromDlt (dltFromLinkType e.sessionLinkType)))).length =
      e.sessionPackets.length := by rw [List.length_map, List.length_map]
  have hmap : (e.sessionPackets.map record).map (nextPacket (linkTypeFromDlt (dltFromLinkType e.sessionLinkType))) =
      e.sessionPackets.map (reread e) := List.map_map
  simp only [openFile, contents_exportSession hp hx]
  refine ⟨rfl, ?_, fun hroom => ?_, foldl_linkType _⟩
  · rw [foldl_retain _ (by rw [hlength]; exact (Nat.zero_add _).trans_le hfits), hmap]
    rfl
  · rw [foldl_push _ (by rw [hlength]; exact (Nat.zero_add _).trans_le (hfits.trans hroom)), hmap]
    rfl

/-- On a source the program can decode nothing changes. -/
theorem Retained.reread (hr : Retained dlt e) (hd : linkTypeFromDlt dlt ≠ .Unsupported) :
    e.sessionPackets.map (reread e) = e.sessionPackets := by
  refine (List.map_congr_left fun p hp => ?_).trans (List.map_id _)
  obtain ⟨r, rfl⟩ := hr.read p hp
  rw [SessionExport.reread, hr.linkType, (linkTypeFromDlt_dltFromLinkType _).mpr hd, nextPacket_record]
  rfl

/-- On any other each packet comes back as Ethernet. -/
theorem Retained.linkType_reread (hr : Retained dlt e) (hd : linkTypeFromDlt dlt = .Unsupported) {p : PacketData}
    (hp : p ∈ e.sessionPackets) : SessionExport.reread e p ≠ p := by
  obtain ⟨r, rfl⟩ := hr.read p hp
  intro h
  have hlink := congrArg PacketData.linkType h
  simp only [SessionExport.reread, nextPacket, hr.linkType, hd] at hlink
  exact absurd hlink (by decide)

/-- **An exported session reads back** exactly when its source has a link type
the program knows, or there is no packet in it; and only then does the file's
link type read as the session's. -/
theorem session_reads_back_iff (hp : pcap.Faithful) (he : Captured dlt e) (hx : exportSession pcap e = .ok file)
    (e' : Engine) :
    (ReadsBack pcap e e' file ↔ linkTypeFromDlt dlt ≠ .Unsupported ∨ e.sessionPackets = []) ∧
    ((openFile pcap e' file).2.sessionLinkType = e.sessionLinkType ↔ linkTypeFromDlt dlt ≠ .Unsupported) := by
  have hr := he.retained
  obtain ⟨hopens, hsession, hqueue, hlink⟩ := openFile_exported hp hr hx e'
  refine ⟨⟨fun h => ?_, fun h => ?_⟩, ?_⟩
  · by_cases hd : linkTypeFromDlt dlt = .Unsupported
    · right
      have hsame := hsession.symm.trans h.session
      cases hl : e.sessionPackets with
      | nil => rfl
      | cons p packets =>
        rw [hl, List.map_cons, List.cons.injEq] at hsame
        exact absurd hsame.1 (hr.linkType_reread hd (hl ▸ List.mem_cons_self))
    · exact .inl hd
  · have hsame : e.sessionPackets.map (reread e) = e.sessionPackets := by
      rcases h with hd | hnil
      · exact hr.reread hd
      · rw [hnil, List.map_nil]
    rw [hsame] at hsession hqueue
    exact ⟨hopens, hsession, hqueue, fun platform => by rw [hsession]⟩
  · rw [hlink, hr.linkType]
    exact linkTypeFromDlt_dltFromLinkType _

end Main

/-! ### A capture library that keeps files in memory -/

def memory : Libpcap Contents where
  openDead _ := true
  dumpOpen dlt := .ok { dlt }
  dump contents r := { contents with records := contents.records ++ [r] }
  openOffline := .ok

theorem memory_faithful : memory.Faithful where
  opened h := by
    obtain rfl := Except.ok.inj h
    rfl
  dumped r h := by
    obtain rfl := Except.ok.inj h
    rfl

def idle : Engine := { queue := PacketQueue.make 50000 }

def beacon : Record :=
  { tvSec := 1700000000, tvUsec := 5, caplen := 2, len := 80, bytes := [0x80, 0x00], complete := rfl }

/-- The session after one packet from a source of link type `dlt`. -/
def oneRead (dlt : ℤ) : Engine := consumePacket (openSource idle dlt) (nextPacket (linkTypeFromDlt dlt) beacon)

/-- DLT 127 is 802.11 with radiotap headers: its packet comes back as Ethernet. -/
theorem session_read_as_ethernet : Captured 127 (oneRead 127) ∧
    exportSession memory (oneRead 127) = .ok { dlt := 1, records := [beacon] } ∧
    ¬ ReadsBack memory (oneRead 127) idle { dlt := 1, records := [beacon] } := by
  refine ⟨(Captured.opened idle).read beacon, rfl, fun h => ?_⟩
  have hlink := congrArg (List.map PacketData.linkType) h.session
  exact absurd hlink (by decide)

theorem session_reads_back_iff_loopback : ReadsBack memory (oneRead 0) idle { dlt := 0, records := [beacon] } :=
  (session_reads_back_iff memory_faithful ((Captured.opened idle).read beacon) rfl idle).1.mpr (.inl (by decide))

end SessionExport
end NetProbe
