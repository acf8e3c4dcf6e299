/-
# AnalysisSession

The per-packet pipeline: parse, recover an SNI across packets, harvest DNS
answers, attribute a hostname, aggregate. The owning process comes from the
operating system and is a parameter of each `feed`.
-/
import NetProbe.Reassembly
import NetProbe.DNSParser
import NetProbe.FlowAggregator

namespace NetProbe

namespace HostnameCache

/-- Hostnames by address. -/
abbrev Cache := Table String String

def store (cache : Cache) (ip hostname : String) : Cache :=
  if ip = "" ∨ hostname = "" then cache else cache.insert ip hostname

end HostnameCache

namespace AnalysisSession

open Checked Bytes ProtocolParser

structure Session where
  flowAggregator : FlowAggregator.Flows := ∅
  hostnameCache : HostnameCache.Cache := ∅
  tlsReassembler : TlsReassembler.Streams := ∅
  quicTracker : QuicTracker.Tracker := ∅
  plaintextDnsResponses : UInt64 := 0
  encryptedDnsPackets : UInt64 := 0
  echAdvertised : Bool := false

structure Result where
  parsed : ParsedPacket
  hostname : String
  process : String

/-- What a name recovered from earlier packets of the stream changes. -/
def applyRecovered (recovered : Option String) (parsed : ParsedPacket) : ParsedPacket :=
  match recovered with
  | some sni =>
    if sni = "" then parsed
    else
      let named := identifyService sni
      { parsed with sni, service := if named ≠ "" then named else parsed.service }
  | none => parsed

/-- Recover an SNI that the single-packet parse could not see. -/
def recoverSni (sys : Platform) (packet : PacketData) (parsed : ParsedPacket) (s : Session) :
    Checked (ParsedPacket × Session) := do
  if parsed.sni = "" ∧ parsed.payloadLength > 0 ∧ parsed.payloadOffset < packet.payload.length then
    let payload ← window packet.payload parsed.payloadOffset
      (min parsed.payloadLength (← sub packet.payload.length parsed.payloadOffset))
    if parsed.protocol = "TCP" then
      let (recovered, streams) ← TlsReassembler.feed s.tlsReassembler parsed payload
      return (applyRecovered recovered parsed, { s with tlsReassembler := streams })
    else if parsed.protocol = "UDP" then
      if ← QuicParser.looksLikeLongHeader payload then
        let (recovered, connections) ←
          QuicTracker.feed (QuicParser.parseInitial sys.mbedtls) s.quicTracker payload parsed.timestamp
        return (applyRecovered recovered parsed, { s with quicTracker := connections })
      else return (parsed, s)
    else return (parsed, s)
  else return (parsed, s)

/-- A name for an address goes to the cache and to the flows of the address. -/
def learnHostname (ip hostname : String) (s : Session) : Session :=
  { s with
    hostnameCache := HostnameCache.store s.hostnameCache ip hostname
    flowAggregator := FlowAggregator.setHostnameForAddress s.flowAggregator ip hostname }

/-- One answer of a DNS response. -/
def learnAnswer (sys : Platform) (queryName : String) (s : Session) (answer : DNSParser.DNSRecord) :
    Session :=
  match answer.type with
  | .A | .AAAA => learnHostname answer.value (if queryName = "" then answer.name else queryName) s
  | .PTR =>
    match DNSParser.reverseNameToAddress sys answer.name with
    | some address => learnHostname address answer.value s
    | none => s
  | _ => s

def learnResponse (sys : Platform) (response : DNSParser.DNSResponse) (s : Session) : Session :=
  response.answers.foldl (learnAnswer sys response.queryName) { s with
    plaintextDnsResponses := s.plaintextDnsResponses + 1
    echAdvertised := response.encryptedClientHelloAdvertised || s.echAdvertised }

def harvestDns (sys : Platform) (packet : PacketData) (parsed : ParsedPacket) (s : Session) :
    Checked Session := do
  match ← DNSParser.parseResponse sys packet parsed with
  | some response => return learnResponse sys response s
  | none => return s

def countEncryptedDns (parsed : ParsedPacket) (s : Session) : Session :=
  if parsed.service = "DNS-over-HTTPS" ∨ parsed.service = "DNS-over-TLS"
      ∨ parsed.service = "DNS-over-QUIC" then
    { s with encryptedDnsPackets := s.encryptedDnsPackets + 1 }
  else s

/-- Best hostname for the peer: SNI, Host header, then a DNS-derived name. -/
def attributeHostname (parsed : ParsedPacket) (s : Session) : String :=
  if parsed.sni ≠ "" then parsed.sni
  else if parsed.hostname ≠ "" then parsed.hostname
  else match s.hostnameCache.lookup parsed.dstIP with
    | some destinationHostname => destinationHostname
    | none => (s.hostnameCache.lookup parsed.srcIP).getD ""

/-- One packet; `lookupProcess` is the process resolver at this moment. -/
def feed (sys : Platform) (s : Session) (packet : PacketData) (lookupProcess : ParsedPacket → String) :
    Checked (Result × Session) := do
  let parsed ← parse sys packet
  let (parsed, s) ← recoverSni sys packet parsed s
  let s ← harvestDns sys packet parsed s
  let s := countEncryptedDns parsed s
  let hostname := attributeHostname parsed s
  let process := lookupProcess parsed
  return (⟨parsed, hostname, process⟩,
    { s with flowAggregator := FlowAggregator.update s.flowAggregator parsed hostname process })

/-- The flows as reported at `now`. -/
def flows (s : Session) (nowMicroseconds : ℤ) : List Flow :=
  FlowAggregator.snapshot s.flowAggregator nowMicroseconds

end AnalysisSession
end NetProbe
