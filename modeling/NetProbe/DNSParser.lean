/-
# DNSParser

DNS, mDNS and LLMNR responses: name decompression, the answer records the
hostname cache and the ECH indicator are filled from, and reverse-lookup names.
-/
import NetProbe.Packet

namespace NetProbe
namespace DNSParser

open Checked Bytes

inductive DNSRecordType
  | A | AAAA | CNAME | PTR | SRV | TXT | HTTPS | SVCB
  deriving DecidableEq, Repr

structure DNSRecord where
  type : DNSRecordType
  name : String
  value : String
  priority : ℕ := 0
  deriving DecidableEq, Repr

structure DNSResponse where
  queryName : String := ""
  answers : List DNSRecord := []
  encryptedClientHelloAdvertised : Bool := false
  deriving DecidableEq, Repr

def dnsPort : ℕ := 53
def mdnsPort : ℕ := 5353
def llmnrPort : ℕ := 5355
def dnsClassInternet : ℕ := 1

def rrA : ℕ := 1
def rrCname : ℕ := 5
def rrPtr : ℕ := 12
def rrTxt : ℕ := 16
def rrAaaa : ℕ := 28
def rrSrv : ℕ := 33
def rrSvcb : ℕ := 64
def rrHttps : ℕ := 65

def svcParamEch : ℕ := 5

def kMaxTxtBytes : ℕ := 255

/-! ### Names -/

/-- The loop of `readName` at `cursor`: `position` is where the message goes on
after the name, as far as known. -/
def readNameLoop (data : Bytes) : (fuel : ℕ) → (name : String) → (cursor pointerCount : ℕ) →
    (followedPointer : Bool) → (position : ℕ) → Checked (Option (String × ℕ))
  | 0, _, _, _, _, _ => .error .outOfFuel
  | fuel + 1, name, cursor, pointerCount, followedPointer, position => do
    if cursor < data.length then
      let labelLength ← readU8 data cursor
      if labelLength = 0 then
        return some (name, if followedPointer then position else cursor + 1)
      else if labelLength &&& 0xC0 = 0xC0 then
        if cursor + 1 ≥ data.length ∨ pointerCount + 1 > data.length then return none
        let pointer := (labelLength &&& 0x3F) <<< 8 ||| (← readU8 data (cursor + 1))
        if pointer ≥ data.length then return none
        readNameLoop data fuel name pointer (pointerCount + 1) true
          (if followedPointer then position else cursor + 2)
      else if labelLength &&& 0xC0 ≠ 0 ∨ labelLength > 63 ∨ cursor + 1 + labelLength > data.length then
        return none
      else
        let name := if name ≠ "" then name ++ "." else name
        let label := ofBytes (← window data (cursor + 1) labelLength)
        readNameLoop data fuel (name ++ label) (cursor + 1 + labelLength) pointerCount followedPointer position
    else return none

/-- The name at `position` and the position after it. Between two pointers the
cursor only moves forward, and there are at most `size` pointers. -/
def readName (data : Bytes) (position : ℕ) : Checked (Option (String × ℕ)) :=
  readNameLoop data ((data.length + 1) * (data.length + 1)) "" position 0 false position

/-! ### Reverse-lookup names -/

/-- The labels of a name, split at each dot. -/
def splitLabels (name : String) : List String := (name.toList.splitOn '.').map String.ofList

def toLower (value : String) : String := String.ofList (value.toList.map Char.toLower)

/-- One to three digits that stand for at most 255. -/
def isOctet (octet : String) : Bool :=
  octet ≠ "" && octet.length ≤ 3 && octet.toList.all Char.isDigit
    && octet.toList.foldl (fun n c => n * 10 + (c.toNat - 48)) 0 ≤ 255

/-- `1.1.168.192.in-addr.arpa` gives `192.168.1.1`. -/
def reverseIpv4 (labels : List String) : Option String :=
  if labels.length ≠ 6 then none
  else
    let octets := (labels.take 4).reverse
    if octets.all isOctet then some (".".intercalate octets) else none

/-- The value of a one-character hex label. -/
def nibbleValue (nibble : String) : Option ℕ :=
  match nibble.toList with
  | [c] =>
    let c := c.toLower
    if c.isDigit then some (c.toNat - 48)
    else if 'a' ≤ c ∧ c ≤ 'f' then some (c.toNat - 87)
    else none
  | _ => none

/-- The bytes of pairs of nibbles, high nibble first. -/
def pairNibbles : List ℕ → Bytes
  | hi :: lo :: rest => UInt8.ofNat (hi <<< 4 ||| lo) :: pairNibbles rest
  | _ => []

/-- 32 reversed nibble labels give an IPv6 address. -/
def reverseIpv6 (sys : Platform) (labels : List String) : Option String :=
  if labels.length ≠ 34 then none
  else do
    let nibbles ← (labels.take 32).reverse.mapM nibbleValue
    let text := sys.inetNtop6 (pairNibbles nibbles)
    if text = "" then none else some text

def reverseNameToAddress (sys : Platform) (name : String) : Option String :=
  let labels := splitLabels (toLower name)
  if labels.length ≥ 3 then
    let tld := labels.getD (labels.length - 1) ""
    let sld := labels.getD (labels.length - 2) ""
    if tld = "arpa" ∧ sld = "in-addr" then reverseIpv4 labels
    else if tld = "arpa" ∧ sld = "ip6" then reverseIpv6 sys labels
    else none
  else none

/-! ### Answer records -/

/-- The parameter loop of `svcbAdvertisesEch`, from `position` on. -/
def svcParamLoop (message : Bytes) (recordEnd : ℕ) : (fuel position : ℕ) → Checked Bool
  | 0, _ => .error .outOfFuel
  | fuel + 1, position => do
    if position + 4 ≤ recordEnd then
      let key ← readU16 message position
      let valueLength ← readU16 message (position + 2)
      let position := position + 4
      if valueLength > (← sub recordEnd position) then return false
      if key = svcParamEch ∧ valueLength > 0 then return true
      svcParamLoop message recordEnd fuel (position + valueLength)
    else return false

/-- Whether a SVCB or HTTPS record from `position` to `recordEnd` advertises ECH. -/
def svcbAdvertisesEch (message : Bytes) (position recordEnd : ℕ) : Checked Bool := do
  if (← sub recordEnd position) < 2 then return false
  let some (_, targetPosition) ← readName message (position + 2) | return false
  svcParamLoop message recordEnd (recordEnd + 1) targetPosition

/-- The chunk loop of a TXT record, from `cursor` on; `text` is joined so far. -/
def txtLoop (message : Bytes) (recordEnd : ℕ) : (fuel cursor : ℕ) → (text : Bytes) → Checked Bytes
  | 0, _, _ => .error .outOfFuel
  | fuel + 1, cursor, text => do
    if cursor < recordEnd ∧ text.length < kMaxTxtBytes then
      let chunkLength ← readU8 message cursor
      let cursor := cursor + 1
      if chunkLength > (← sub recordEnd cursor) then return text
      let text := if text ≠ [] then text ++ [0x20] else text
      let chunk ← window message cursor (min chunkLength (← sub kMaxTxtBytes text.length))
      txtLoop message recordEnd fuel (cursor + chunkLength) (text ++ chunk)
    else return text

/-- The answer a record of class IN contributes, if any, and whether it
advertises ECH. -/
def readAnswer (sys : Platform) (message : Bytes) (owner : String) (type position dataLength : ℕ) :
    Checked (Option DNSRecord × Bool) := do
  let recordEnd := position + dataLength
  if type = rrA then
    if dataLength = 4 then
      return (some ⟨.A, owner, sys.inetNtop4 (← window message position 4), 0⟩, false)
    else return (none, false)
  else if type = rrAaaa then
    if dataLength = 16 then
      return (some ⟨.AAAA, owner, sys.inetNtop6 (← window message position 16), 0⟩, false)
    else return (none, false)
  else if type = rrCname then
    let some (canonicalName, cursor) ← readName message position | return (none, false)
    return (if cursor ≤ recordEnd then some ⟨.CNAME, owner, canonicalName, 0⟩ else none, false)
  else if type = rrPtr then
    let some (target, cursor) ← readName message position | return (none, false)
    return (if cursor ≤ recordEnd ∧ target ≠ "" then some ⟨.PTR, owner, target, 0⟩ else none, false)
  else if type = rrSrv then
    if dataLength < 7 then return (none, false)
    let priority ← readU16 message position
    let port ← readU16 message (position + 4)
    let some (target, cursor) ← readName message (position + 6) | return (none, false)
    return (if cursor ≤ recordEnd ∧ target ≠ "" then
      some ⟨.SRV, owner, target ++ ":" ++ toString port, priority⟩ else none, false)
  else if type = rrTxt then
    let text ← txtLoop message recordEnd (recordEnd + 1) position []
    return (if text ≠ [] then some ⟨.TXT, owner, ofBytes text, 0⟩ else none, false)
  else if type = rrSvcb ∨ type = rrHttps then
    if dataLength < 2 then return (none, false)
    let priority ← readU16 message position
    let target ← readName message (position + 2)
    let ech ← svcbAdvertisesEch message position recordEnd
    let value := match target with
      | some (target, _) => if target ≠ "" then target else owner
      | none => owner
    return (some ⟨if type = rrHttps then .HTTPS else .SVCB, owner, value, priority⟩, ech)
  else return (none, false)

/-! ### Messages -/

/-- The question loop, `n` questions from `position` on: their names and the
position after them. -/
def questionLoop (message : Bytes) : (n position : ℕ) → Checked (Option (List String × ℕ))
  | 0, position => .ok (some ([], position))
  | n + 1, position => do
    let some (name, position) ← readName message position | return none
    if (← sub message.length position) < 4 then return none
    let some (names, position) ← questionLoop message n (position + 4) | return none
    return some (name :: names, position)

/-- The answer loop, `n` records from `position` on. -/
def answerLoop (sys : Platform) (message : Bytes) :
    (n position : ℕ) → DNSResponse → Checked (Option DNSResponse)
  | 0, _, response => .ok (some response)
  | n + 1, position, response => do
    let some (owner, position) ← readName message position | return none
    if (← sub message.length position) < 10 then return none
    let type ← readU16 message position
    let recordClass := (← readU16 message (position + 2)) &&& 0x7FFF
    let dataLength ← readU16 message (position + 8)
    let position := position + 10
    if dataLength > (← sub message.length position) then return none
    let (answer, ech) ←
      if recordClass = dnsClassInternet then readAnswer sys message owner type position dataLength
      else pure (none, false)
    answerLoop sys message n (position + dataLength) { response with
      answers := response.answers ++ answer.toList
      encryptedClientHelloAdvertised := response.encryptedClientHelloAdvertised || ech }

def parseMessage (sys : Platform) (message : Bytes) : Checked (Option DNSResponse) := do
  if message.length < 12 then return none
  let flags ← readU16 message 2
  if flags &&& 0x8000 = 0 then return none
  let questionCount ← readU16 message 4
  let answerCount ← readU16 message 6
  let some (names, position) ← questionLoop message questionCount 12 | return none
  answerLoop sys message answerCount position { queryName := names.headD "" }

/-- The DNS message of a packet that `ProtocolParser.parse` has read. -/
def parseResponse (sys : Platform) (rawData : PacketData) (parsed : ParsedPacket) :
    Checked (Option DNSResponse) := do
  if parsed.protocol ≠ "UDP" ∨ parsed.payloadLength = 0 then return none
  let isDns := parsed.srcPort = dnsPort ∨ parsed.dstPort = dnsPort
    ∨ parsed.srcPort = mdnsPort ∨ parsed.dstPort = mdnsPort
    ∨ parsed.srcPort = llmnrPort ∨ parsed.dstPort = llmnrPort
  if ¬ isDns then return none
  if parsed.payloadOffset ≥ rawData.payload.length then return none
  let available := min parsed.payloadLength (← sub rawData.payload.length parsed.payloadOffset)
  parseMessage sys (← window rawData.payload parsed.payloadOffset available)

end DNSParser
end NetProbe
