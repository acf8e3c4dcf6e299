/-
# QuicParser

The QUIC Initial parser: long-header detection, `parseInitial` (header fields,
Initial keys, header protection, AEAD, CRYPTO frames), the ClientHello walk
`sniFromClientHello` and the single-packet `extractInitialSni`.

A C++ pair `(data, size)` is a `Bytes` of length `size`. Sums of 64-bit lengths
are `Checked.add`, differences `Checked.sub`; a loop carries the number of
turns its buffer bounds it by.
-/
import NetProbe.Packet

namespace NetProbe
namespace QuicParser

open Checked Bytes

/-- One CRYPTO frame's contribution to the TLS handshake stream. -/
structure CryptoFragment where
  offset : ℕ
  data : Bytes
  deriving DecidableEq, Repr

/-- A decrypted client Initial. -/
structure InitialPacket where
  destinationConnectionId : Bytes
  crypto : List CryptoFragment
  deriving DecidableEq, Repr

/-! ### Versions and keys -/

def kQuicV1 : ℕ := 0x00000001

def kQuicV2 : ℕ := 0x6b3343cf

def kInitialSaltV1 : Bytes := [
  0x38, 0x76, 0x2c, 0xf7, 0xf5, 0x59, 0x34, 0xb3,
  0x4d, 0x17, 0x9a, 0xe6, 0xa4, 0xc8, 0x0c, 0xad,
  0xcc, 0xbb, 0x7f, 0x0a]

def kInitialSaltV2 : Bytes := [
  0x0d, 0xed, 0xe3, 0xde, 0xf7, 0x00, 0xa6, 0xdb,
  0x81, 0x93, 0x81, 0xbe, 0x6e, 0x26, 0x9d, 0xcb,
  0xf9, 0xbd, 0x2e, 0xd9]

/-- The constants that differ between v1 and v2. -/
structure VersionParams where
  salt : Bytes
  keyLabel : String
  ivLabel : String
  hpLabel : String
  initialTypeBits : ℕ
  deriving DecidableEq, Repr

def versionParams (version : ℕ) : Option VersionParams :=
  if version = kQuicV1 then
    some ⟨kInitialSaltV1, "quic key", "quic iv", "quic hp", 0x00⟩
  else if version = kQuicV2 then
    some ⟨kInitialSaltV2, "quicv2 key", "quicv2 iv", "quicv2 hp", 0x10⟩
  else none

structure InitialKeys where
  key : Block 16
  iv : Block 12
  hp : Block 16

/-- The bytes of a `const char*` label. -/
def labelBytes (label : String) : Bytes := label.toList.map fun c => UInt8.ofNat c.toNat

/-- HKDF-Expand-Label with an empty context. -/
def hkdfExpandLabel (m : Mbedtls) (secret : Bytes) (label : String) (outLen : ℕ) :
    Option (Block outLen) :=
  let fullLabelLen := 6 + (labelBytes label).length
  if fullLabelLen > 255 then none
  else
    let info := [UInt8.ofNat (outLen >>> 8), UInt8.ofNat outLen, UInt8.ofNat fullLabelLen]
      ++ labelBytes "tls13 " ++ labelBytes label ++ [0]
    m.hkdfExpand secret info outLen

def deriveClientInitialKeys (m : Mbedtls) (params : VersionParams) (dcid : Bytes) :
    Option InitialKeys := do
  let initialSecret ← m.hkdfExtract params.salt dcid
  let clientSecret ← hkdfExpandLabel m initialSecret.1 "client in" 32
  let key ← hkdfExpandLabel m clientSecret.1 params.keyLabel 16
  let iv ← hkdfExpandLabel m clientSecret.1 params.ivLabel 12
  let hp ← hkdfExpandLabel m clientSecret.1 params.hpLabel 16
  return ⟨key, iv, hp⟩

/-! ### Variable-length integers -/

/-- The loop of `readVarint`: `n` more bytes from `pos + i` on. -/
def varintLoop (data : Bytes) (pos : ℕ) : (n i out : ℕ) → Checked ℕ
  | 0, _, out => .ok out
  | n + 1, i, out => do
    let b ← readU8 data (← add pos i)
    varintLoop data pos n (i + 1) (out <<< 8 ||| b)

/-- The integer at `pos` and the position after it; none when its encoding
runs past the buffer. -/
def readVarint (data : Bytes) (pos : ℕ) : Checked (Option (ℕ × ℕ)) := do
  if pos ≥ data.length then return none
  let first ← readU8 data pos
  let len := 1 <<< (first >>> 6)
  if (← add pos len) > data.length then return none
  let out ← varintLoop data pos (len - 1) 1 (first &&& 0x3F)
  return some (out, ← add pos len)

/-! ### Header protection and payload -/

/-- `a ^ b`, byte by byte. -/
def xorBytes (a b : Bytes) : Bytes := List.zipWith (· ^^^ ·) a b

/-- The unmasked first byte, the four packet-number bytes with the first
`pnLen` unmasked, and `pnLen`. -/
def removeHeaderProtection (m : Mbedtls) (keys : InitialKeys) (sample : Bytes) (firstByte : UInt8)
    (pnBytes : Bytes) : Option (UInt8 × Bytes × ℕ) := do
  let mask ← m.aesEcbEncrypt keys.hp.1 sample
  let firstByte := firstByte ^^^ (mask.1.getD 0 0 &&& 0x0F)
  let pnLen := (firstByte &&& 0x03).toNat + 1
  return (firstByte, xorBytes (pnBytes.take pnLen) (slice mask.1 1 pnLen) ++ pnBytes.drop pnLen, pnLen)

/-- The packet number, big-endian and right-aligned to 12 bytes. -/
def nonceBytes (packetNumber : ℕ) : Bytes :=
  ([0, 0, 0, 0] : Bytes) ++
    (List.range 8).map fun i => UInt8.ofNat (packetNumber >>> ((7 - i) * 8) &&& 0xFF)

def decryptPayload (m : Mbedtls) (keys : InitialKeys) (packetNumber : ℕ) (aad ciphertext tag : Bytes) :
    Option Bytes :=
  if ciphertext.length = 0 then none
  else
    let nonce := xorBytes keys.iv.1 (nonceBytes packetNumber)
    (m.gcmAuthDecrypt keys.key.1 nonce aad tag ciphertext).map (·.1)

/-! ### CRYPTO frames -/

def kSaneCryptoBound : ℕ := 1 <<< 24

/-- `n` integers in a row; the values are not kept. -/
def skipVarints (data : Bytes) : (n pos : ℕ) → Checked (Option ℕ)
  | 0, pos => .ok (some pos)
  | n + 1, pos => do
    let some (_, pos) ← readVarint data pos | return none
    skipVarints data n pos

/-- An ACK frame after its type: four integers, the third of which counts the
ranges that follow, then the ECN counts of a type-3 frame. -/
def skipAck (plaintext : Bytes) (frameType pos : ℕ) : Checked (Option ℕ) := do
  let some (_, pos) ← readVarint plaintext pos | return none
  let some (_, pos) ← readVarint plaintext pos | return none
  let some (rangeCount, pos) ← readVarint plaintext pos | return none
  let some (_, pos) ← readVarint plaintext pos | return none
  if rangeCount > plaintext.length then return none
  let some pos ← skipVarints plaintext (2 * rangeCount) pos | return none
  if frameType = 0x03 then skipVarints plaintext 3 pos else return some pos

/-- A CRYPTO frame after its type. -/
def readCrypto (plaintext : Bytes) (pos : ℕ) : Checked (Option (CryptoFragment × ℕ)) := do
  let some (offset, pos) ← readVarint plaintext pos | return none
  let some (dataLen, pos) ← readVarint plaintext pos | return none
  if dataLen > (← sub plaintext.length pos) then return none
  if offset > kSaneCryptoBound ∨ dataLen > kSaneCryptoBound then return none
  let data ← window plaintext pos dataLen
  return some (⟨offset, data⟩, ← add pos dataLen)

/-- The frame loop from `pos` on; `out` holds the fragments found so far. -/
def cryptoFrameLoop (plaintext : Bytes) :
    (fuel pos : ℕ) → List CryptoFragment → Checked (Option (List CryptoFragment))
  | 0, pos, out => if pos < plaintext.length then .error .outOfFuel else .ok (some out)
  | fuel + 1, pos, out => do
    if pos ≥ plaintext.length then return some out
    let frameType ← readU8 plaintext pos
    let pos := pos + 1
    if frameType = 0x00 ∨ frameType = 0x01 then cryptoFrameLoop plaintext fuel pos out
    else if frameType = 0x02 ∨ frameType = 0x03 then
      let some pos ← skipAck plaintext frameType pos | return none
      cryptoFrameLoop plaintext fuel pos out
    else if frameType = 0x06 then
      let some (fragment, pos) ← readCrypto plaintext pos | return none
      cryptoFrameLoop plaintext fuel pos (out ++ [fragment])
    else return none

/-- The CRYPTO frames of a decrypted Initial, in order. -/
def collectCryptoFrames (plaintext : Bytes) : Checked (Option (List CryptoFragment)) :=
  cryptoFrameLoop plaintext plaintext.length 0 []

/-! ### Initial packets -/

/-- Long header bit, fixed bit and a version we can decrypt. -/
def looksLikeLongHeader (data : Bytes) : Checked Bool := do
  if data.length < 5 then return false
  if (← readU8 data 0) &&& 0xC0 ≠ 0xC0 then return false
  return (versionParams (← readU32 data 1)).isSome

/-- Where the header fields of a long header end, and what they say. -/
structure InitialHeader where
  params : VersionParams
  dcid : Bytes
  pnOffset : ℕ
  length : ℕ

/-- A connection id: a length byte, at most 20, and as many bytes. -/
def readConnectionId (data : Bytes) (pos : ℕ) : Checked (Option (Bytes × ℕ)) := do
  if pos ≥ data.length then return none
  let len ← readU8 data pos
  let pos := pos + 1
  if len > 20 ∨ (← add pos len) > data.length then return none
  return some (← window data pos len, ← add pos len)

/-- `parseInitial` up to the Length field. -/
def parseHeader (data : Bytes) : Checked (Option InitialHeader) := do
  if data.length < 20 then return none
  if (← readU8 data 0) &&& 0xC0 ≠ 0xC0 then return none
  let some params := versionParams (← readU32 data 1) | return none
  let some (dcid, pos) ← readConnectionId data 5 | return none
  let some (_, pos) ← readConnectionId data pos | return none
  let some (tokenLen, pos) ← readVarint data pos | return none
  if tokenLen > data.length then return none
  if (← add pos tokenLen) > data.length then return none
  let some (length, pnOffset) ← readVarint data (← add pos tokenLen) | return none
  if (← add pnOffset length) > data.length then return none
  if length < 16 + 1 then return none
  return some ⟨params, dcid, pnOffset, length⟩

/-- `parseInitial` from the packet number on. -/
def openInitial (m : Mbedtls) (data : Bytes) (h : InitialHeader) : Checked (Option InitialPacket) := do
  if (← add h.pnOffset (4 + 16)) > data.length then return none
  let sample ← window data (h.pnOffset + 4) 16
  let some keys := deriveClientInitialKeys m h.params h.dcid | return none
  let firstByte ← readU8 data 0
  let pn ← window data h.pnOffset 4
  let some (firstByte, pnBytes, pnLen) :=
    removeHeaderProtection m keys sample (UInt8.ofNat firstByte) pn | return none
  if firstByte &&& 0x30 ≠ UInt8.ofNat h.params.initialTypeBits then return none
  if pnLen = 0 ∨ pnLen > 4 then return none
  let packetNumber := (pnBytes.take pnLen).foldl (fun n b => n <<< 8 ||| b.toNat) 0
  let aad ← window data 0 (← add h.pnOffset pnLen)
  let aad ← copyTo aad 0 [firstByte]
  let aad ← copyTo aad h.pnOffset (pnBytes.take pnLen)
  let payloadStart ← add h.pnOffset pnLen
  let payloadEnd ← add h.pnOffset h.length
  if (← add payloadStart 16) > payloadEnd then return none
  let ciphertextLen ← sub (← sub payloadEnd payloadStart) 16
  let ciphertext ← window data payloadStart ciphertextLen
  let tag ← window data (← sub payloadEnd 16) 16
  let some plaintext := decryptPayload m keys packetNumber aad ciphertext tag | return none
  let some crypto ← collectCryptoFrames plaintext | return none
  return some ⟨h.dcid, crypto⟩

/-- A client Initial: its connection id and CRYPTO fragments. -/
def parseInitial (m : Mbedtls) (data : Bytes) : Checked (Option InitialPacket) := do
  let some h ← parseHeader data | return none
  openInitial m data h

/-! ### The ClientHello -/

/-- The host name of a server_name extension of `extDataLen` bytes at `p`;
none when the walk goes on to the next extension. -/
def serverName (body : Bytes) (p extDataLen : ℕ) : Checked (Option String) := do
  if extDataLen < 5 then return none
  let listLen ← readU16 body p
  if listLen + 2 > extDataLen then return none
  let sl := p + 2
  if listLen < 3 then return none
  let nameType ← readU8 body sl
  if nameType ≠ 0x00 then return none
  let nameLen ← readU16 body (sl + 1)
  if 3 + nameLen > listLen then return none
  return some (ofBytes (← window body (sl + 3) nameLen))

/-- The extension loop of `sniFromClientHello`, from `p` up to `stop`. -/
def sniExtensionLoop (body : Bytes) (stop : ℕ) : (fuel p : ℕ) → Checked (Option String)
  | 0, p => if p + 4 ≤ stop then .error .outOfFuel else .ok none
  | fuel + 1, p => do
    if (← add p 4) > stop then return none
    let extType ← readU16 body p
    let extDataLen ← readU16 body (p + 2)
    let p := p + 4
    if (← add p extDataLen) > stop then return none
    if extType = 0x0000 then
      let some name ← serverName body p extDataLen | sniExtensionLoop body stop fuel (p + extDataLen)
      return some name
    else sniExtensionLoop body stop fuel (p + extDataLen)

/-- The body of a ClientHello, after its handshake header. -/
def sniFromBody (body : Bytes) : Checked (Option String) := do
  let bodyLen := body.length
  let pos := 0
  if (← add pos 34) > bodyLen then return none
  let pos := pos + 34
  if (← add pos 1) > bodyLen then return none
  let sidLen ← readU8 body pos
  let pos := pos + 1
  if (← add pos sidLen) > bodyLen then return none
  let pos := pos + sidLen
  if (← add pos 2) > bodyLen then return none
  let csLen ← readU16 body pos
  let pos := pos + 2
  if (← add pos csLen) > bodyLen then return none
  let pos := pos + csLen
  if (← add pos 1) > bodyLen then return none
  let compLen ← readU8 body pos
  let pos := pos + 1
  if (← add pos compLen) > bodyLen then return none
  let pos := pos + compLen
  if (← add pos 2) > bodyLen then return none
  let extLen ← readU16 body pos
  let pos := pos + 2
  if (← add pos extLen) > bodyLen then return none
  sniExtensionLoop body (pos + extLen) extLen pos

/-- The SNI of a complete TLS ClientHello handshake message. -/
def sniFromClientHello (data : Bytes) : Checked (Option String) := do
  if data.length < 4 then return none
  if (← readU8 data 0) ≠ 0x01 then return none
  let bodyLen := (← readU8 data 1) <<< 16 ||| (← readU8 data 2) <<< 8 ||| (← readU8 data 3)
  if (← add 4 bodyLen) > data.length then return none
  sniFromBody (← window data 4 bodyLen)

/-! ### The single-packet path -/

/-- Copies every fragment to its offset. -/
def stitch : List CryptoFragment → Bytes → Checked Bytes
  | [], stream => .ok stream
  | f :: fs, stream => do stitch fs (← copyTo stream f.offset f.data)

/-- The furthest end of a fragment. -/
def furthestEnd : List CryptoFragment → (reached : ℕ) → Checked ℕ
  | [], reached => .ok reached
  | f :: fs, reached => do furthestEnd fs (max reached (← add f.offset f.data.length))

/-- The SNI of the ClientHello a single Initial carries, if any. -/
def extractInitialSni (m : Mbedtls) (data : Bytes) : Checked (Option String) := do
  let some initial ← parseInitial m data | return none
  if initial.crypto = [] then return none
  let reached ← furthestEnd initial.crypto 0
  if reached = 0 then return none
  let stream ← stitch initial.crypto (List.replicate reached 0)
  sniFromClientHello stream

end QuicParser
end NetProbe
