/-
# Packets before and after parsing

The data the stages of the analysis hand to each other: `PacketData` as the
capture delivers it, `ParsedPacket` as `ProtocolParser.parse` fills it in, and
the functions of the platform (`inet_ntop`, the mbedTLS primitives) the parsers
call, as parameters.

A `std::string` is a `String` whose characters are the bytes of the C++ string
(`ofBytes`), so that the program's own texts read as in the source.
-/
import NetProbe.Checked

namespace NetProbe

/-- The string with the bytes `bs`. -/
def ofBytes (bs : Bytes) : String := String.ofList (bs.map fun b => Char.ofNat b.toNat)

@[simp] theorem length_ofBytes (bs : Bytes) : (ofBytes bs).length = bs.length := by
  simp [ofBytes]

theorem ofBytes_eq_empty {bs : Bytes} : ofBytes bs = "" ↔ bs = [] := by
  rw [← String.length_eq_zero_iff, length_ofBytes, List.length_eq_zero_iff]

/-- The link-layer encapsulation a capture was recorded with. -/
inductive LinkType
  | Ethernet | RawIP | NullLoopback | Loop | LinuxSLL | LinuxSLL2 | IPv4 | IPv6 | Unsupported
  deriving DecidableEq, Repr

/-- One captured frame. No C++ array reaches 2^63 bytes. -/
structure PacketData where
  /-- An `int64_t` of microseconds; the difference of two of them is taken not to overflow. -/
  timestamp : ℤ
  length : ℕ
  capturedLength : ℕ
  linkType : LinkType := .Ethernet
  payload : Bytes
  fits : payload.length < 2 ^ 63

/-- What `ProtocolParser.parse` reports of a frame. -/
structure ParsedPacket where
  timestamp : ℤ := 0
  srcIP : String := ""
  dstIP : String := ""
  srcPort : ℕ := 0
  dstPort : ℕ := 0
  protocol : String := ""
  length : ℕ := 0
  tcpSyn : Bool := false
  tcpAck : Bool := false
  tcpFin : Bool := false
  tcpRst : Bool := false
  tcpSeq : BitVec 32 := 0
  payloadOffset : ℕ := 0
  payloadLength : ℕ := 0
  tunnel : String := ""
  outerSrcIP : String := ""
  outerDstIP : String := ""
  encryptedTunnel : Bool := false
  sni : String := ""
  service : String := ""
  hostname : String := ""
  info : String := ""
  deriving DecidableEq, Repr

/-- An array of `n` bytes. -/
abbrev Block (n : ℕ) := { b : Bytes // b.length = n }

/-- The mbedTLS calls of `QuicParser`: each gives no value when mbedTLS
reports an error, and writes exactly as many bytes as its buffer has. -/
structure Mbedtls where
  hkdfExtract : (salt ikm : Bytes) → Option (Block 32)
  hkdfExpand : (prk info : Bytes) → (okmLen : ℕ) → Option (Block okmLen)
  aesEcbEncrypt : (key input : Bytes) → Option (Block 16)
  gcmAuthDecrypt : (key iv aad tag input : Bytes) → Option (Block input.length)

/-- What the parsers call outside the repository. -/
structure Platform where
  inetNtop4 : Bytes → String
  inetNtop6 : Bytes → String
  mbedtls : Mbedtls

end NetProbe
