/-
# FlowAggregator

Flows by canonical key: `keyFor` orients a packet's endpoints, `update` credits
the flow (bytes, handshake RTT, delivery problems, labels, rate window) and
`snapshot` reports. 64-bit counters are `UInt64`, sequence numbers `BitVec 32`;
`rateBytesPerSecond` is the byte count that becomes the reported double.
-/
import Mathlib.Data.UInt
import NetProbe.Table
import NetProbe.Packet

namespace NetProbe

structure FlowKey where
  srcIP : String
  dstIP : String
  srcPort : ℕ
  dstPort : ℕ
  protocol : String
  deriving DecidableEq, Repr

structure Flow where
  key : FlowKey
  bytesUp : UInt64 := 0
  bytesDown : UInt64 := 0
  packets : UInt64 := 0
  /-- Timestamps of packets, and as there their differences do not overflow. -/
  firstSeen : ℤ := 0
  lastSeen : ℤ := 0
  hostname : String := ""
  service : String := ""
  process : String := ""
  rateBytesPerSecond : UInt64 := 0
  initialRttMicroseconds : ℤ := 0
  encryptedTunnel : Bool := false
  retransmissionsUp : UInt64 := 0
  retransmissionsDown : UInt64 := 0
  outOfOrderUp : UInt64 := 0
  outOfOrderDown : UInt64 := 0
  deriving DecidableEq, Repr

namespace FlowAggregator

def oneSecondInMicroseconds : ℤ := 1000000

structure TrafficSample where
  timestamp : ℤ
  bytes : ℕ
  deriving DecidableEq, Repr

/-- Highest sequence number seen so far in one direction of a stream. -/
structure DirectionSequence where
  nextExpected : BitVec 32 := 0
  valid : Bool := false
  deriving DecidableEq, Repr

structure FlowState where
  flow : Flow
  recentTraffic : List TrafficSample := []
  upSequence : DirectionSequence := {}
  downSequence : DirectionSequence := {}
  synTimestamp : ℤ := 0
  synSeen : Bool := false
  deriving DecidableEq, Repr

abbrev Flows := Table FlowKey FlowState

/-! ### Keys -/

def isLikelyServerPort (port : ℕ) : Bool :=
  port ∈ [1194, 1433, 3306, 3478, 5222, 5432, 5900, 6379, 6443, 8080, 8443, 9092, 9200, 27017, 51820]
    || (port > 0 && port ≤ 1024)

/-- `std::tie(srcIP, srcPort) <= std::tie(dstIP, dstPort)`. -/
def endpointLe (srcIP : String) (srcPort : ℕ) (dstIP : String) (dstPort : ℕ) : Prop :=
  srcIP < dstIP ∨ (srcIP = dstIP ∧ srcPort ≤ dstPort)

instance (a : String) (m : ℕ) (b : String) (n : ℕ) : Decidable (endpointLe a m b n) :=
  inferInstanceAs (Decidable (_ ∨ _))

/-- The packet's own orientation. -/
def forward (packet : ParsedPacket) : FlowKey :=
  ⟨packet.srcIP, packet.dstIP, packet.srcPort, packet.dstPort, packet.protocol⟩

/-- The orientation of its reply. -/
def reversed (packet : ParsedPacket) : FlowKey :=
  ⟨packet.dstIP, packet.srcIP, packet.dstPort, packet.srcPort, packet.protocol⟩

/-- No key for packets that do not describe an IP transport flow. -/
def keyFor (packet : ParsedPacket) : Option FlowKey :=
  if packet.srcIP = "" ∨ packet.dstIP = "" ∨ (packet.protocol ≠ "TCP" ∧ packet.protocol ≠ "UDP") then
    none
  else
    let srcIsServer := isLikelyServerPort packet.srcPort && !isLikelyServerPort packet.dstPort
    let dstIsServer := isLikelyServerPort packet.dstPort && !isLikelyServerPort packet.srcPort
    if srcIsServer then some (reversed packet)
    else if dstIsServer then some (forward packet)
    else if endpointLe packet.srcIP packet.srcPort packet.dstIP packet.dstPort then
      some (forward packet)
    else some (reversed packet)

/-- `matches` in the source. -/
def matchesKey (packet : ParsedPacket) (key : FlowKey) : Bool := keyFor packet = some key

def isDownstream (packet : ParsedPacket) (key : FlowKey) : Bool :=
  packet.srcIP = key.dstIP && packet.srcPort = key.dstPort

/-! ### Update -/

/-- Timestamps, packet and byte counts. -/
def countPacket (packet : ParsedPacket) (downstream : Bool) (state : FlowState) : FlowState :=
  let flow := { state.flow with
    lastSeen := packet.timestamp
    packets := state.flow.packets + 1
    encryptedTunnel := packet.encryptedTunnel || state.flow.encryptedTunnel }
  let length := UInt64.ofNat packet.length
  { state with flow :=
      if downstream then { flow with bytesDown := flow.bytesDown + length }
      else { flow with bytesUp := flow.bytesUp + length } }

/-- Initial-RTT tracking: outgoing SYN starts the timer, the SYN-ACK stops it. -/
def timeHandshake (packet : ParsedPacket) (downstream : Bool) (state : FlowState) : FlowState :=
  if packet.protocol = "TCP" ∧ state.flow.initialRttMicroseconds = 0 then
    if packet.tcpSyn ∧ ¬ packet.tcpAck ∧ ¬ downstream ∧ ¬ state.synSeen then
      { state with synTimestamp := packet.timestamp, synSeen := true }
    else if packet.tcpSyn ∧ packet.tcpAck ∧ downstream ∧ state.synSeen then
      let delta := packet.timestamp - state.synTimestamp
      if delta > 0 then { state with flow := { state.flow with initialRttMicroseconds := delta } }
      else state
    else state
  else state

/-- The references `update` binds for one direction. -/
structure Delivery where
  sequence : DirectionSequence
  retransmissions : UInt64
  outOfOrder : UInt64
  deriving DecidableEq, Repr

def FlowState.delivery (state : FlowState) (downstream : Bool) : Delivery :=
  if downstream then ⟨state.downSequence, state.flow.retransmissionsDown, state.flow.outOfOrderDown⟩
  else ⟨state.upSequence, state.flow.retransmissionsUp, state.flow.outOfOrderUp⟩

def FlowState.setDelivery (state : FlowState) (downstream : Bool) (d : Delivery) : FlowState :=
  if downstream then
    { state with
      downSequence := d.sequence
      flow := { state.flow with retransmissionsDown := d.retransmissions, outOfOrderDown := d.outOfOrder } }
  else
    { state with
      upSequence := d.sequence
      flow := { state.flow with retransmissionsUp := d.retransmissions, outOfOrderUp := d.outOfOrder } }

/-- A data segment, judged against the highest sequence number seen so far by
the signed 32-bit difference. -/
def judgeSegment (tcpSeq segmentEnd : BitVec 32) (d : Delivery) : Delivery :=
  if ¬ d.sequence.valid then { d with sequence := { nextExpected := segmentEnd, valid := true } }
  else
    let offsetFromExpected := (tcpSeq - d.sequence.nextExpected).toInt
    if offsetFromExpected = 0 then
      { d with sequence := { d.sequence with nextExpected := segmentEnd } }
    else if offsetFromExpected < 0 then
      { d with
        retransmissions := d.retransmissions + 1
        sequence := if (segmentEnd - d.sequence.nextExpected).toInt > 0 then
          { d.sequence with nextExpected := segmentEnd } else d.sequence }
    else
      { d with
        outOfOrder := d.outOfOrder + 1
        sequence := { d.sequence with nextExpected := segmentEnd } }

/-- Only data-bearing segments take part. -/
def trackDelivery (packet : ParsedPacket) (downstream : Bool) (state : FlowState) : FlowState :=
  if packet.protocol = "TCP" ∧ packet.payloadLength > 0 then
    state.setDelivery downstream
      (judgeSegment packet.tcpSeq (packet.tcpSeq + BitVec.ofNat 32 packet.payloadLength)
        (state.delivery downstream))
  else state

/-- A reset ends the byte stream. -/
def resetSequences (packet : ParsedPacket) (state : FlowState) : FlowState :=
  if packet.tcpRst then { state with upSequence := {}, downSequence := {} } else state

/-- Hostname, service and process. -/
def labelFlow (packet : ParsedPacket) (hostname process : String) (state : FlowState) : FlowState :=
  let flow := state.flow
  let flow := if hostname ≠ "" then { flow with hostname } else flow
  let flow := if packet.sni ≠ "" then { flow with hostname := packet.sni }
    else if packet.hostname ≠ "" then { flow with hostname := packet.hostname } else flow
  let flow := if packet.service ≠ "" then { flow with service := packet.service } else flow
  let flow := if flow.process = "" ∧ process ≠ "" then { flow with process } else flow
  { state with flow }

/-- The rate window keeps the last second. -/
def sampleTraffic (packet : ParsedPacket) (state : FlowState) : FlowState :=
  let cutoff := packet.timestamp - oneSecondInMicroseconds
  let sample : TrafficSample := ⟨packet.timestamp, packet.length⟩
  { state with
    recentTraffic := (state.recentTraffic ++ [sample]).dropWhile fun s => s.timestamp < cutoff }

/-- What `update` does to the flow of the packet. -/
def updateState (packet : ParsedPacket) (hostname process : String) (downstream : Bool)
    (state : FlowState) : FlowState :=
  sampleTraffic packet <| labelFlow packet hostname process <| resetSequences packet <|
    trackDelivery packet downstream <| timeHandshake packet downstream <|
    countPacket packet downstream state

/-- A flow that has seen no packet yet. -/
def newState (key : FlowKey) (firstSeen : ℤ) : FlowState := { flow := { key, firstSeen } }

def update (flows : Flows) (packet : ParsedPacket) (hostname process : String) : Flows :=
  match keyFor packet with
  | none => flows
  | some key =>
    let state := (flows.lookup key).getD (newState key packet.timestamp)
    flows.insert key (updateState packet hostname process (isDownstream packet key) state)

def setHostnameForAddress (flows : Flows) (ip hostname : String) : Flows :=
  if ip = "" ∨ hostname = "" then flows
  else flows.mapValues fun key state =>
    if key.dstIP = ip ∨ key.srcIP = ip then { state with flow := { state.flow with hostname } } else state

/-- The flow as reported at `now`. -/
def report (now : ℤ) (state : FlowState) : Flow :=
  let cutoff := now - oneSecondInMicroseconds
  let window := state.recentTraffic.filter fun s => s.timestamp ≥ cutoff ∧ s.timestamp ≤ now
  { state.flow with rateBytesPerSecond := (window.map fun s => UInt64.ofNat s.bytes).sum }

def snapshot (flows : Flows) (nowMicroseconds : ℤ) : List Flow :=
  flows.entries.map fun e => report nowMicroseconds e.2

end FlowAggregator
end NetProbe
