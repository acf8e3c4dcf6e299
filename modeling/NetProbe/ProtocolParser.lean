/-
# ProtocolParser: application hints and `parse`

The TLS ClientHello walk, the HTTP header walk and `parse` itself: link layer,
network layer, then one look at the innermost transport payload. A C++ pair
`(payload, len)` is a `Bytes` of length `len`.
-/
import NetProbe.Decode
import NetProbe.QuicParser

namespace NetProbe
namespace ProtocolParser

open Checked Bytes

/-! ### TLS -/

/-- Handshake record, TLS major version 3, minor 0..4. -/
def looksLikeTlsHandshake (payload : Bytes) : Checked Bool := do
  if payload.length < 5 then return false
  return (← readU8 payload 0) = 0x16 ∧ (← readU8 payload 1) = 0x03 ∧ (← readU8 payload 2) ≤ 0x04

/-- The name loop of a server_name extension, from `pos` on. -/
def nameListLoop (payload : Bytes) (nameListEnd : ℕ) : (fuel pos : ℕ) → Checked (Option String)
  | 0, _ => .error .outOfFuel
  | fuel + 1, pos => do
    if (← sub nameListEnd pos) < 3 then return none
    let nameType ← readU8 payload pos
    let nameLength ← readU16 payload (pos + 1)
    let pos := pos + 3
    if nameLength > (← sub nameListEnd pos) then return none
    if nameType = 0x00 then return some (ofBytes (← window payload pos nameLength))
    nameListLoop payload nameListEnd fuel (pos + nameLength)

/-- The extension loop of `parseTlsClientHello`, from `pos` on. -/
def extensionLoop (payload : Bytes) (extensionsEnd : ℕ) : (fuel pos : ℕ) → Checked (Option String)
  | 0, _ => .error .outOfFuel
  | fuel + 1, pos => do
    if (← sub extensionsEnd pos) < 4 then return none
    let extensionType ← readU16 payload pos
    let extensionLength ← readU16 payload (pos + 2)
    let pos := pos + 4
    if extensionLength > (← sub extensionsEnd pos) then return none
    let extensionEnd := pos + extensionLength
    if extensionType = 0x0000 then
      if (← sub extensionEnd pos) < 2 then return none
      let nameListLength ← readU16 payload pos
      let pos := pos + 2
      if nameListLength > (← sub extensionEnd pos) then return none
      nameListLoop payload (pos + nameListLength) payload.length pos
    else extensionLoop payload extensionsEnd fuel extensionEnd

/-- `outSni` when the function returns true. -/
def parseTlsClientHello (payload : Bytes) : Checked (Option String) := do
  if ¬ (← looksLikeTlsHandshake payload) then return none
  let recordLength ← readU16 payload 3
  if 5 + recordLength > payload.length then return none
  let recordEnd := 5 + recordLength
  let pos := 5
  if recordEnd < pos + 4 then return none
  if (← readU8 payload pos) ≠ 0x01 then return none
  let handshakeLength := (← readU8 payload (pos + 1)) <<< 16 ||| (← readU8 payload (pos + 2)) <<< 8
    ||| (← readU8 payload (pos + 3))
  let pos := pos + 4
  if pos + handshakeLength > recordEnd then return none
  let handshakeEnd := pos + handshakeLength
  if handshakeEnd < pos + 34 then return none
  let pos := pos + 34
  if pos ≥ handshakeEnd then return none
  let sessionIdLength ← readU8 payload pos
  let pos := pos + 1
  if sessionIdLength > (← sub handshakeEnd pos) then return none
  let pos := pos + sessionIdLength
  if (← sub handshakeEnd pos) < 2 then return none
  let cipherSuitesLength ← readU16 payload pos
  let pos := pos + 2
  if cipherSuitesLength > (← sub handshakeEnd pos) then return none
  let pos := pos + cipherSuitesLength
  if pos ≥ handshakeEnd then return none
  let compressionMethodsLength ← readU8 payload pos
  let pos := pos + 1
  if compressionMethodsLength > (← sub handshakeEnd pos) then return none
  let pos := pos + compressionMethodsLength
  if (← sub handshakeEnd pos) < 2 then return none
  let extensionsLength ← readU16 payload pos
  let pos := pos + 2
  if extensionsLength > (← sub handshakeEnd pos) then return none
  extensionLoop payload (pos + extensionsLength) payload.length pos

def parseTLS (payload : Bytes) (outPacket : ParsedPacket) : Checked ParsedPacket := do
  let some sni ← parseTlsClientHello payload | return outPacket
  if sni = "" then return outPacket
  return { outPacket with sni, service := identifyService sni }

/-! ### HTTP -/

/-- `std::memcmp(payload, text, n) == 0`. -/
def startsWith (payload : Bytes) (text : String) : Checked Bool := do
  return ofBytes (← window payload 0 text.length) = text

/-- The position of the CRLF that ends the line at `i`, `scanLen` if none. -/
def lineEnd (payload : Bytes) (scanLen : ℕ) : (fuel i : ℕ) → Checked ℕ
  | 0, _ => .error .outOfFuel
  | fuel + 1, i => do
    if i + 1 < scanLen then
      if (← readU8 payload i) = 0x0D ∧ (← readU8 payload (i + 1)) = 0x0A then return i
      lineEnd payload scanLen fuel (i + 1)
    else return scanLen

def httpMethods : List String :=
  ["GET", "POST", "HEAD", "PUT", "DELETE", "OPTIONS", "PATCH", "TRACE", "CONNECT"]

/-- The request starts with one of `methods` and a space. -/
def isHttpMethod (p : Bytes) (len : ℕ) : (methods : List String) → Checked Bool
  | [] => .ok false
  | method :: rest => do
    if len > method.length + 1 then
      if (← startsWith p method) ∧ (← readU8 p method.length) = 0x20 then return true
      isHttpMethod p len rest
    else isHttpMethod p len rest

/-- `std::tolower` in the C locale. -/
def tolower (c : ℕ) : ℕ := if 0x41 ≤ c ∧ c ≤ 0x5A then c + 0x20 else c

/-- The five bytes at `pos` are `host:` in any letter case. -/
def isHostHeader (payload : Bytes) (pos : ℕ) : Checked Bool := do
  return tolower (← readU8 payload pos) = 0x68 ∧ tolower (← readU8 payload (pos + 1)) = 0x6F
    ∧ tolower (← readU8 payload (pos + 2)) = 0x73 ∧ tolower (← readU8 payload (pos + 3)) = 0x74
    ∧ tolower (← readU8 payload (pos + 4)) = 0x3A

/-- The first position from `pos` up to `stop` that holds no space. -/
def skipSpaces (payload : Bytes) (stop : ℕ) : (fuel pos : ℕ) → Checked ℕ
  | 0, _ => .error .outOfFuel
  | fuel + 1, pos => do
    if pos < stop then
      if (← readU8 payload pos) = 0x20 then skipSpaces payload stop fuel (pos + 1) else return pos
    else return pos

/-- What a `Host:` line from `pos` to `stop` leaves in the packet. -/
def readHost (payload : Bytes) (pos stop : ℕ) (outPacket : ParsedPacket) : Checked ParsedPacket := do
  let valueStart ← skipSpaces payload stop (payload.length + 1) (pos + 5)
  if valueStart < stop then
    let hostname := ofBytes (← window payload valueStart (← sub stop valueStart))
    let named := identifyService hostname
    return { outPacket with
      hostname, service := if named ≠ "" then named else outPacket.service }
  else return outPacket

/-- Walk header lines looking for Host. -/
def headerLoop (payload : Bytes) (scanLen : ℕ) :
    (fuel pos : ℕ) → ParsedPacket → Checked ParsedPacket
  | 0, _, _ => .error .outOfFuel
  | fuel + 1, pos, outPacket => do
    if pos < scanLen then
      let stop ← lineEnd payload scanLen (scanLen + 1) pos
      if stop = pos then return outPacket
      if stop = scanLen then return outPacket
      if (← sub stop pos) > 5 then
        if ← isHostHeader payload pos then readHost payload pos stop outPacket
        else headerLoop payload scanLen fuel (stop + 2) outPacket
      else headerLoop payload scanLen fuel (stop + 2) outPacket
    else return outPacket

def parseHTTP (payload : Bytes) (outPacket : ParsedPacket) : Checked ParsedPacket := do
  let scanLen := min payload.length 2048
  let isResponse ← if scanLen ≥ 12 then startsWith payload "HTTP/1." else pure false
  let service := if outPacket.service = "" then "HTTP" else outPacket.service
  if isResponse then
    let stop ← lineEnd payload scanLen (scanLen + 1) 0
    return { outPacket with info := ofBytes (← window payload 0 stop), service }
  if ¬ (← isHttpMethod payload scanLen httpMethods) then return outPacket
  let requestLineEnd ← lineEnd payload scanLen (scanLen + 1) 0
  let info := ofBytes (← window payload 0 (min requestLineEnd 120))
  headerLoop payload scanLen (scanLen + 1) (requestLineEnd + 2) { outPacket with info, service }

/-! ### parse -/

/-- The label of the port that looks like the server's. -/
def classifyPorts (classify : ℕ → ParsedPacket → ParsedPacket) (p : ParsedPacket) : ParsedPacket :=
  classify p.srcPort (classify p.dstPort p)

/-- A QUIC Initial names its server; any QUIC packet gets a label. -/
def parseQuic (m : Mbedtls) (payload : Bytes) (parsed : ParsedPacket) : Checked ParsedPacket := do
  if ← QuicParser.looksLikeLongHeader payload then
    let named ← do
      match ← QuicParser.extractInitialSni m payload with
      | some sni => pure { parsed with
          sni, service := if parsed.service = "" then identifyService sni else parsed.service }
      | none => pure parsed
    return if named.service = "" then { named with service := "QUIC" } else named
  else return parsed

/-- Application-layer DPI, once, on the innermost transport payload. -/
def inspectPayload (sys : Platform) (buffer : Bytes) (parsed : ParsedPacket) : Checked ParsedPacket := do
  if parsed.payloadLength > 0 ∧ parsed.payloadOffset < buffer.length then
    let payload ← window buffer parsed.payloadOffset
      (min parsed.payloadLength (← sub buffer.length parsed.payloadOffset))
    if parsed.protocol = "TCP" then
      let parsed ←
        if ← looksLikeTlsHandshake payload then parseTLS payload parsed else parseHTTP payload parsed
      return classifyPorts classifyTcpPort parsed
    else if parsed.protocol = "UDP" then
      return classifyPorts classifyUdpPort (← parseQuic sys.mbedtls payload parsed)
    else return parsed
  else if parsed.protocol = "TCP" then return classifyPorts classifyTcpPort parsed
  else if parsed.protocol = "UDP" then return classifyPorts classifyUdpPort parsed
  else return parsed

/-- Encrypted tunnels that ride on UDP are only recognisable by port. -/
def markEncrypted (parsed : ParsedPacket) : ParsedPacket :=
  if parsed.service = "WireGuard" ∨ parsed.service = "OpenVPN" ∨ parsed.service = "IPsec" then
    { parsed with encryptedTunnel := true }
  else parsed

def parse (sys : Platform) (rawData : PacketData) : Checked ParsedPacket := do
  let parsed : ParsedPacket :=
    { timestamp := rawData.timestamp, length := rawData.length, protocol := "Unknown" }
  let buffer := rawData.payload
  if buffer = [] then return parsed
  let some (offset, etherType) ← decodeLinkLayer buffer rawData.linkType
    | return { parsed with protocol :=
        if rawData.linkType = .Unsupported then "Unsupported link type" else "Truncated" }
  let parsed ← decodeNetwork sys buffer (kMaxTunnelDepth + 1) buffer.length offset etherType parsed 0
  return markEncrypted (← inspectPayload sys buffer parsed)

end ProtocolParser
end NetProbe
