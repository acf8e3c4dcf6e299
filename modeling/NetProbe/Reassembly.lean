/-
# The reassemblers: QuicTracker and TlsReassembler

Both keep the start of a stream until its ClientHello is complete: `QuicTracker`
the CRYPTO bytes of an Initial flight, by connection id and in any order,
`TlsReassembler` the TCP payloads of a client, by address pair and in sequence.
-/
import NetProbe.Overlay
import NetProbe.Table
import NetProbe.ProtocolParser

namespace NetProbe

open Checked Bytes

namespace QuicTracker

open QuicParser

def kMaxStreamBytes : ℕ := 64 * 1024
def kConnectionTimeoutMicroseconds : ℤ := 10000000
def kMaxTrackedConnections : ℕ := 1024

structure Connection where
  stream : Bytes := []
  present : List Bool := []
  lastSeen : ℤ := 0
  deriving DecidableEq, Repr

/-- The connections, by destination connection id. -/
abbrev Tracker := Table Bytes Connection

/-- Number of bytes available contiguously from offset 0. -/
def contiguousPrefix (connection : Connection) : ℕ := (connection.present.takeWhile id).length

def expireStale (connections : Tracker) (now : ℤ) : Tracker :=
  connections.keep fun c => ¬ now - c.lastSeen > kConnectionTimeoutMicroseconds

/-- The fragment loop of `feed`; none when one ends past the stream limit. -/
def addFragments : List CryptoFragment → Connection → Checked (Option Connection)
  | [], connection => .ok (some connection)
  | fragment :: rest, connection => do
    let stop ← add fragment.offset fragment.data.length
    if stop > kMaxStreamBytes then return none
    let connection := if connection.stream.length < stop then
      { connection with
        stream := resize connection.stream stop 0
        present := resize connection.present stop false }
      else connection
    let stream ← copyTo connection.stream fragment.offset fragment.data
    let present ← copyTo connection.present fragment.offset
      (List.replicate fragment.data.length true)
    addFragments rest { connection with stream, present }

/-- `feed` once the connection's entry is found or made. -/
def feedConnection (connections : Tracker) (dcid : Bytes) (connection : Connection)
    (crypto : List CryptoFragment) (timestampMicroseconds : ℤ) : Checked (Option String × Tracker) := do
  let connection := { connection with lastSeen := timestampMicroseconds }
  let some connection ← addFragments crypto connection | return (none, connections.erase dcid)
  let usable := contiguousPrefix connection
  if usable < 4 then return (none, connections.insert dcid connection)
  let some sni ← sniFromClientHello (← window connection.stream 0 usable)
    | return (none, connections.insert dcid connection)
  return (some sni, connections.erase dcid)

/-- `feed` on a parsed Initial. -/
def feedInitial (connections : Tracker) (initial : InitialPacket) (timestampMicroseconds : ℤ) :
    Checked (Option String × Tracker) := do
  if initial.crypto = [] then return (none, connections)
  let dcid := initial.destinationConnectionId
  match connections.lookup dcid with
  | some connection => feedConnection connections dcid connection initial.crypto timestampMicroseconds
  | none =>
    if connections.size ≥ kMaxTrackedConnections then
      let connections := expireStale connections timestampMicroseconds
      if connections.size ≥ kMaxTrackedConnections then return (none, connections)
      feedConnection connections dcid {} initial.crypto timestampMicroseconds
    else feedConnection connections dcid {} initial.crypto timestampMicroseconds

/-- Feeds one UDP payload; the SNI on the packet that completes the
ClientHello. `parseInitial` is `QuicParser.parseInitial`. -/
def feed (parseInitial : Bytes → Checked (Option InitialPacket)) (connections : Tracker)
    (payload : Bytes) (timestampMicroseconds : ℤ) : Checked (Option String × Tracker) := do
  let some initial ← parseInitial payload | return (none, connections)
  feedInitial connections initial timestampMicroseconds

end QuicTracker

namespace TlsReassembler

open ProtocolParser

def kMaxBufferedBytes : ℕ := 64 * 1024
def kStreamTimeoutMicroseconds : ℤ := 30000000
def kMaxTrackedStreams : ℕ := 2048

structure StreamKey where
  srcIP : String
  dstIP : String
  srcPort : ℕ
  dstPort : ℕ
  deriving DecidableEq, Repr

structure Stream where
  buffer : Bytes
  nextSeq : BitVec 32
  needed : ℕ
  lastSeen : ℤ
  deriving DecidableEq, Repr

abbrev Streams := Table StreamKey Stream

def expireStale (streams : Streams) (now : ℤ) : Streams :=
  streams.keep fun s => ¬ now - s.lastSeen > kStreamTimeoutMicroseconds

/-- A segment of an untracked stream: tracking starts on the one that opens a
handshake record and does not complete it. -/
def feedNew (streams : Streams) (key : StreamKey) (packet : ParsedPacket) (payload : Bytes) :
    Checked (Option String × Streams) := do
  if ¬ (← looksLikeTlsHandshake payload) then return (none, streams)
  let recordLength := (← readU8 payload 3) <<< 8 ||| (← readU8 payload 4)
  let needed := 5 + recordLength
  if needed ≤ payload.length then return (none, streams)
  if needed > kMaxBufferedBytes then return (none, streams)
  let stream : Stream :=
    { buffer := payload, nextSeq := packet.tcpSeq + BitVec.ofNat 32 payload.length
      needed, lastSeen := packet.timestamp }
  if streams.size ≥ kMaxTrackedStreams then
    let streams := expireStale streams packet.timestamp
    if streams.size ≥ kMaxTrackedStreams then return (none, streams)
    return (none, streams.insert key stream)
  else return (none, streams.insert key stream)

/-- A segment of a tracked stream: only in-order continuations are kept. -/
def feedExisting (streams : Streams) (key : StreamKey) (stream : Stream) (packet : ParsedPacket)
    (payload : Bytes) : Checked (Option String × Streams) := do
  let stream := { stream with lastSeen := packet.timestamp }
  if packet.tcpSeq ≠ stream.nextSeq then
    if packet.tcpSeq + BitVec.ofNat 32 payload.length = stream.nextSeq then
      return (none, streams.insert key stream)
    return (none, streams.erase key)
  if stream.buffer.length + payload.length > kMaxBufferedBytes then
    return (none, streams.erase key)
  let stream := { stream with
    buffer := stream.buffer ++ payload
    nextSeq := stream.nextSeq + BitVec.ofNat 32 payload.length }
  if stream.buffer.length < stream.needed then return (none, streams.insert key stream)
  let some sni ← parseTlsClientHello stream.buffer | return (none, streams.erase key)
  return (if sni ≠ "" then some sni else none, streams.erase key)

/-- Feeds one TCP segment's payload; the SNI on the segment that completes the
ClientHello. -/
def feed (streams : Streams) (packet : ParsedPacket) (payload : Bytes) :
    Checked (Option String × Streams) := do
  if packet.protocol ≠ "TCP" ∨ payload = [] then return (none, streams)
  let key : StreamKey := ⟨packet.srcIP, packet.dstIP, packet.srcPort, packet.dstPort⟩
  match streams.lookup key with
  | none => feedNew streams key packet payload
  | some stream => feedExisting streams key stream packet payload

end TlsReassembler
end NetProbe
