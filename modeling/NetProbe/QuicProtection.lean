/-
# Initial protection

How a client protects an Initial (RFC 9001, RFC 9369 for version 2): the keys
from the destination connection id, the sealed payload, the masked first byte
and packet number. `QuicParser.parseInitial` undoes all of it: on a protected
packet, with anything after it in the datagram, it gives the connection id and
the CRYPTO frames.

Key definitions: `Primitives`, `Mbedtls.Implements`, `Initial`, `Initial.packet`.
Key theorems: `deriveClientInitialKeys_eq`, `parseHeader_packet`,
`parseInitial_packet`.
-/
import NetProbe.QuicFrames
import Mathlib.Tactic.IntervalCases

namespace NetProbe
namespace QuicParser

open Checked Bytes Wire

/-! ### Primitives -/

/-- HKDF and AES-128 in ECB mode as functions, and AES-128-GCM encryption:
the ciphertext and its tag. -/
structure Primitives where
  extract : (salt ikm : Bytes) → Block 32
  expand : (prk info : Bytes) → (n : ℕ) → Block n
  ecb : (key block : Bytes) → Block 16
  gcmSeal : (key nonce aad plaintext : Bytes) → Block plaintext.length × Block 16

/-- mbedTLS computes `c` on arguments of the right sizes, and opens what `c` sealed. -/
structure Mbedtls.Implements (m : Mbedtls) (c : Primitives) : Prop where
  extract : ∀ salt ikm, m.hkdfExtract salt ikm = some (c.extract salt ikm)
  expand : ∀ prk info n, prk.length = 32 → n ≤ 255 * 32 →
    m.hkdfExpand prk info n = some (c.expand prk info n)
  ecb : ∀ key block, key.length = 16 → block.length = 16 → m.aesEcbEncrypt key block = some (c.ecb key block)
  opens : ∀ key nonce aad plaintext, key.length = 16 → nonce.length = 12 →
    (m.gcmAuthDecrypt key nonce aad (c.gcmSeal key nonce aad plaintext).2.1
      (c.gcmSeal key nonce aad plaintext).1.1).map (·.1) = some plaintext

/-! ### Versions and keys -/

/-- The versions whose Initials are protected with known keys. -/
inductive Version
  | v1 | v2
  deriving DecidableEq, Repr

namespace Version

def number : Version → ℕ
  | v1 => 0x00000001
  | v2 => 0x6b3343cf

def salt : Version → Bytes
  | v1 => bigEndian 20 0x38762cf7f55934b34d179ae6a4c80cadccbb7f0a
  | v2 => bigEndian 20 0x0dede3def700a6db819381be6e269dcbf9bd2ed9

/-- What the key labels start with. -/
def labelPrefix : Version → String
  | v1 => "quic "
  | v2 => "quicv2 "

/-- The long-header type of an Initial, in place. -/
def typeBits : Version → ℕ
  | v1 => 0x00
  | v2 => 0x10

end Version

/-- The HkdfLabel of a label with an empty context. -/
def labelInfo (label : String) (n : ℕ) : Bytes :=
  be16 n ++ vec8 (labelBytes "tls13 " ++ labelBytes label) ++ vec8 []

/-- HKDF-Expand-Label with an empty context. -/
def expandLabel (c : Primitives) (secret : Bytes) (label : String) (n : ℕ) : Block n :=
  c.expand secret (labelInfo label n) n

/-- The secret of the client's Initials. -/
def clientSecret (c : Primitives) (v : Version) (dcid : Bytes) : Block 32 :=
  expandLabel c (c.extract v.salt dcid).1 "client in" 32

/-- The packet-protection key, nonce base and header-protection key. -/
def clientKeys (c : Primitives) (v : Version) (dcid : Bytes) : InitialKeys where
  key := expandLabel c (clientSecret c v dcid).1 (v.labelPrefix ++ "key") 16
  iv := expandLabel c (clientSecret c v dcid).1 (v.labelPrefix ++ "iv") 12
  hp := expandLabel c (clientSecret c v dcid).1 (v.labelPrefix ++ "hp") 16

/-- The constants the parser has for a version. -/
def Version.params (v : Version) : VersionParams :=
  ⟨v.salt, v.labelPrefix ++ "key", v.labelPrefix ++ "iv", v.labelPrefix ++ "hp", v.typeBits⟩

theorem versionParams_number (v : Version) : versionParams v.number = some v.params := by
  cases v <;> decide

theorem hkdfExpandLabel_eq {m : Mbedtls} {c : Primitives} (h : Mbedtls.Implements m c) {secret : Bytes}
    (hs : secret.length = 32) {label : String} (hl : (labelBytes label).length ≤ 249) {n : ℕ}
    (hn : n ≤ 255 * 32) : hkdfExpandLabel m secret label n = some (expandLabel c secret label n) := by
  have h6 : (labelBytes "tls13 ").length = 6 := by decide
  have hinfo : [UInt8.ofNat (n >>> 8), UInt8.ofNat n, UInt8.ofNat (6 + (labelBytes label).length)]
      ++ labelBytes "tls13 " ++ labelBytes label ++ [0] =
      labelInfo label n := by
    rw [labelInfo, vec8, List.length_append, h6, Nat.shiftRight_eq_div_pow]
    simp [be16, vec8]
  unfold hkdfExpandLabel
  dsimp only
  rw [if_neg (by omega), hinfo, h.expand _ _ _ hs hn, expandLabel]

theorem deriveClientInitialKeys_eq {m : Mbedtls} {c : Primitives} (h : Mbedtls.Implements m c)
    (v : Version) (dcid : Bytes) :
    deriveClientInitialKeys m v.params dcid = some (clientKeys c v dcid) := by
  have hsecret := (c.extract v.salt dcid).2
  have hclient := (clientSecret c v dcid).2
  have hlabels : (labelBytes (v.labelPrefix ++ "key")).length ≤ 249 ∧
      (labelBytes (v.labelPrefix ++ "iv")).length ≤ 249 ∧
      (labelBytes (v.labelPrefix ++ "hp")).length ≤ 249 := by
    cases v <;> decide
  obtain ⟨hkey, hiv, hhp⟩ := hlabels
  unfold deriveClientInitialKeys
  simp only [Version.params, Option.bind_eq_bind, Option.pure_def]
  rw [h.extract, Option.bind_some, hkdfExpandLabel_eq h hsecret (by decide) (by decide), Option.bind_some,
    ← clientSecret, hkdfExpandLabel_eq h hclient hkey (by decide), Option.bind_some,
    hkdfExpandLabel_eq h hclient hiv (by decide), Option.bind_some,
    hkdfExpandLabel_eq h hclient hhp (by decide), Option.bind_some, clientKeys]

/-! ### A protected Initial -/

/-- An Initial before protection. -/
structure Initial where
  version : Version
  dcid : Bytes
  scid : Bytes
  token : Bytes
  tokenLength : VarInt
  length : VarInt
  pnLength : ℕ
  packetNumber : ℕ
  frames : List Frame
  dcid_le : dcid.length ≤ 20
  scid_le : scid.length ≤ 20
  tokenLength_eq : tokenLength.value = token.length
  pnLength_pos : 1 ≤ pnLength
  pnLength_le : pnLength ≤ 4
  packetNumber_lt : packetNumber < 2 ^ (8 * pnLength)
  frames_ne_nil : frames ≠ []
  sample_le : 4 ≤ pnLength + (frames.flatMap Frame.bytes).length
  length_eq : length.value = pnLength + (frames.flatMap Frame.bytes).length + 16

namespace Initial

variable (c : Primitives) (i : Initial)

def payload : Bytes := i.frames.flatMap Frame.bytes

/-- The first byte: long header, fixed bit, type and packet-number length. -/
def firstByte : UInt8 := UInt8.ofNat (0xC0 + i.version.typeBits + (i.pnLength - 1))

/-- The header after its first byte, up to the packet number. -/
def headerRest : Bytes :=
  be32 i.version.number ++ vec8 i.dcid ++ vec8 i.scid ++ i.tokenLength.bytes ++ i.token ++ i.length.bytes

def pnBytes : Bytes := bigEndian i.pnLength i.packetNumber

def keys : InitialKeys := clientKeys c i.version i.dcid

/-- The nonce: the packet number, padded to the left, over the base. -/
def nonce : Bytes := xorBytes (i.keys c).iv.1 (bigEndian 12 i.packetNumber)

/-- The payload sealed with the header as associated data. -/
def sealed : Block i.payload.length × Block 16 :=
  c.gcmSeal (i.keys c).key.1 (i.nonce c) (i.firstByte :: i.headerRest ++ i.pnBytes) i.payload

/-- The header-protection mask: a block from four bytes after the start of the
packet number on, enciphered. -/
def mask : Block 16 :=
  c.ecb (i.keys c).hp.1 (slice (i.pnBytes ++ (i.sealed c).1.1 ++ (i.sealed c).2.1) 4 16)

/-- The first byte, its low bits masked. -/
def maskedFirst : UInt8 := i.firstByte ^^^ ((i.mask c).1.getD 0 0 &&& 0x0F)

/-- The packet number, masked. -/
def maskedPn : Bytes := xorBytes i.pnBytes (slice (i.mask c).1 1 i.pnLength)

/-- The protected packet. -/
def packet : Bytes :=
  i.maskedFirst c :: i.headerRest ++ i.maskedPn c ++ (i.sealed c).1.1 ++ (i.sealed c).2.1

/-- What the parser is to find. -/
def parsed : InitialPacket := ⟨i.dcid, i.frames.flatMap Frame.fragments⟩

end Initial

/-! ### Unmasking -/

theorem length_xorBytes {a b : Bytes} (h : a.length ≤ b.length) : (xorBytes a b).length = a.length := by
  simp [xorBytes, h]

theorem xorBytes_xorBytes {a b : Bytes} (h : a.length ≤ b.length) : xorBytes (xorBytes a b) b = a := by
  induction a generalizing b with
  | nil => rfl
  | cons x a ih =>
    cases b with
    | nil => simp at h
    | cons y b =>
      have ih := ih (b := b) (by simpa using h)
      simp only [xorBytes, List.zipWith_cons_cons, List.cons.injEq] at ih ⊢
      exact ⟨by rw [UInt8.xor_assoc, UInt8.xor_self, UInt8.xor_zero], ih⟩

/-- Masking leaves the form bits of the first byte. -/
theorem masked_and_form (f k : UInt8) : (f ^^^ (k &&& 0x0F)) &&& 0xC0 = f &&& 0xC0 := by
  apply UInt8.toBitVec_inj.mp
  simp only [UInt8.toBitVec_and, UInt8.toBitVec_xor]
  ext j hj
  interval_cases j <;> simp

theorem masked_masked (f k : UInt8) : f ^^^ (k &&& 0x0F) ^^^ (k &&& 0x0F) = f := by
  rw [UInt8.xor_assoc, UInt8.xor_self, UInt8.xor_zero]

/-- The nonce bytes are the packet number in 12 bytes. -/
theorem nonceBytes_eq {n : ℕ} (h : n < 2 ^ 64) : nonceBytes n = bigEndian 12 n := by
  have hb : ∀ k, UInt8.ofNat (n >>> k &&& 0xFF) = UInt8.ofNat (n / 2 ^ k) := fun k => by
    apply UInt8.toNat_inj.mp
    rw [toNat_ofNat, toNat_ofNat, show 0xFF = 2 ^ 8 - 1 from rfl, Nat.and_two_pow_sub_one_eq_mod,
      Nat.shiftRight_eq_div_pow]
    omega
  have hz : ∀ k, 64 ≤ k → UInt8.ofNat (n / 2 ^ k) = 0 := fun k hk => by
    rw [Nat.div_eq_of_lt (h.trans_le (Nat.pow_le_pow_right (by norm_num) hk))]
    rfl
  have hp : ∀ k, 256 ^ k = 2 ^ (8 * k) := fun k => by rw [pow_mul]; norm_num
  simp only [nonceBytes, List.range, List.range.loop, List.map_cons, List.map_nil, hb, bigEndian, hp]
  rw [hz (8 * 11) (by norm_num), hz (8 * 10) (by norm_num), hz (8 * 9) (by norm_num),
    hz (8 * 8) (by norm_num)]
  rfl

namespace Initial

variable {c : Primitives} {i : Initial}

theorem firstByte_bits (i : Initial) : i.firstByte &&& 0xC0 = 0xC0 ∧
    i.firstByte &&& 0x30 = UInt8.ofNat i.version.typeBits ∧ (i.firstByte &&& 0x03).toNat + 1 = i.pnLength := by
  have h1 := i.pnLength_pos
  have h4 := i.pnLength_le
  unfold firstByte
  generalize i.version = v
  generalize i.pnLength = n at h1 h4
  interval_cases n <;> cases v <;> decide

theorem packetNumber_lt_64 (i : Initial) : i.packetNumber < 2 ^ 64 :=
  i.packetNumber_lt.trans_le (Nat.pow_le_pow_right (by norm_num) (by have := i.pnLength_le; omega))

@[simp] theorem length_pnBytes (i : Initial) : i.pnBytes.length = i.pnLength := length_bigEndian ..

theorem length_mask_slice (i : Initial) : (slice (i.mask c).1 1 i.pnLength).length = i.pnLength := by
  refine length_slice _ ?_
  rw [(i.mask c).2]
  have := i.pnLength_le
  omega

@[simp] theorem length_maskedPn : (i.maskedPn c).length = i.pnLength := by
  rw [maskedPn, length_xorBytes (by rw [length_mask_slice, length_pnBytes]), length_pnBytes]

@[simp] theorem length_ciphertext : (i.sealed c).1.1.length = i.payload.length := (i.sealed c).1.2

@[simp] theorem length_tag : (i.sealed c).2.1.length = 16 := (i.sealed c).2.2

theorem length_packet : (i.packet c).length =
    1 + i.headerRest.length + i.pnLength + i.payload.length + 16 := by
  simp only [packet, List.cons_append, List.length_cons, List.length_append, length_maskedPn,
    length_ciphertext, length_tag]
  omega

/-- The parser's packet number is the one written. -/
theorem foldl_pnBytes (i : Initial) :
    i.pnBytes.foldl (fun n b => n <<< 8 ||| b.toNat) 0 = i.packetNumber := by
  have h : i.packetNumber < 256 ^ i.pnLength := by
    have := i.packetNumber_lt
    rwa [pow_mul] at this
  rw [pnBytes, foldl_bigEndian, Nat.zero_mul, Nat.zero_add, Nat.mod_eq_of_lt h]

theorem payload_length_pos (i : Initial) : 0 < i.payload.length := by
  obtain ⟨f, fs, h⟩ := List.exists_cons_of_ne_nil i.frames_ne_nil
  have := f.length_bytes_pos
  rw [payload, h, List.flatMap_cons, List.length_append]
  omega

end Initial

/-! ### The parser on a protected packet -/

theorem readConnectionId_vec8 {data : Bytes} (hdata : data.length < 2 ^ 63) {pos : ℕ} {xs : Bytes}
    (h : At data pos (vec8 xs)) (hx : xs.length ≤ 20) :
    readConnectionId data pos = .ok (some (xs, pos + (vec8 xs).length)) := by
  have hle := h.le
  rw [length_vec8] at hle
  have hlen : (UInt8.ofNat xs.length).toNat = xs.length := by rw [toNat_ofNat]; omega
  unfold readConnectionId
  rw [if_neg (by omega), h.readU8, ok_bind, hlen]
  dsimp only
  rw [add_eq (by omega), ok_bind, if_neg (by omega), (at_cons.mp h).2.window, ok_bind, ok_bind,
    length_vec8, Nat.add_assoc]
  rfl

theorem window_of_at {b xs : Bytes} {p j n : ℕ} (h : At b p xs) (hj : j + n ≤ xs.length) :
    window b (p + j) n = .ok (slice xs j n) := by
  have hat : At b (p + j) (slice xs j n) := h.trans (at_take_drop hj)
  have hlen : (slice xs j n).length = n := length_slice _ hj
  have hw := hat.window
  rwa [hlen] at hw

theorem copyTo_append (a : Bytes) {b b' : Bytes} (d : Bytes) (h : b'.length = b.length) :
    copyTo (a ++ b ++ d) a.length b' = .ok (a ++ b' ++ d) := by
  unfold copyTo
  rw [if_pos (by simp only [List.length_append]; omega), h, ← List.length_append, List.drop_left,
    List.append_assoc a b d, List.take_left]

section Parse

variable {m : Mbedtls} {c : Primitives} {i : Initial} {data : Bytes}

theorem parseHeader_packet (hdata : data.length < 2 ^ 63) (h : At data 0 (i.packet c)) :
    parseHeader data =
      .ok (some ⟨i.version.params, i.dcid, 1 + i.headerRest.length, i.length.value⟩) := by
  have hpos := i.pnLength_pos
  have hsample := i.sample_le
  have hlength := i.length_eq
  have hpayload : i.payload.length = (i.frames.flatMap Frame.bytes).length := rfl
  have hle := h.le
  rw [Initial.length_packet] at hle
  -- The header's parts, each at its position.
  simp only [Initial.packet, Initial.headerRest, List.cons_append, List.append_assoc] at h
  have h0 := h.readU8
  obtain ⟨hversion, h⟩ := at_append.mp (at_cons.mp h).2
  obtain ⟨hdcid, h⟩ := at_append.mp h
  obtain ⟨hscid, h⟩ := at_append.mp h
  obtain ⟨htoken, h⟩ := at_append.mp h
  obtain ⟨-, h⟩ := at_append.mp h
  obtain ⟨hlen, -⟩ := at_append.mp h
  have hlenle := hlen.le
  have hform : (i.maskedFirst c).toNat &&& 0xC0 = 0xC0 := by
    have := congrArg UInt8.toNat (masked_and_form i.firstByte ((i.mask c).1.getD 0 0))
    rw [i.firstByte_bits.1, UInt8.toNat_and] at this
    exact this
  have hnumber : i.version.number < 2 ^ 32 := by cases i.version <;> decide
  have hheader : 1 + i.headerRest.length = 0 + 1 + (be32 i.version.number).length +
      (vec8 i.dcid).length + (vec8 i.scid).length + i.tokenLength.bytes.length + i.token.length +
      i.length.bytes.length := by
    simp only [Initial.headerRest, List.length_append]; omega
  unfold parseHeader
  rw [if_neg (by omega), h0, ok_bind, if_neg (by rw [hform]; simp),
    show 1 = 0 + 1 from rfl, hversion.readU32 hnumber, ok_bind, versionParams_number]
  dsimp only
  rw [show 5 = 0 + 1 + (be32 i.version.number).length from rfl,
    readConnectionId_vec8 hdata hdcid i.dcid_le, ok_bind]
  dsimp only
  rw [readConnectionId_vec8 hdata hscid i.scid_le, ok_bind]
  dsimp only
  rw [readVarint_bytes hdata htoken, ok_bind]
  dsimp only
  rw [i.tokenLength_eq, if_neg (by omega), add_eq (by omega), ok_bind, if_neg (by omega), ok_bind,
    readVarint_bytes hdata hlen, ok_bind]
  dsimp only
  rw [add_eq (by omega), ok_bind, if_neg (by omega), if_neg (by omega), ← hheader]
  rfl

/-- The windows `parseInitial` opens in a packet, from the packet number on. -/
theorem packet_windows (h : At data 0 (i.packet c)) :
    readU8 data 0 = .ok (i.maskedFirst c).toNat ∧
    window data (1 + i.headerRest.length + 4) 16 =
      .ok (slice (i.pnBytes ++ (i.sealed c).1.1 ++ (i.sealed c).2.1) 4 16) ∧
    (∃ rest, window data (1 + i.headerRest.length) 4 = .ok (i.maskedPn c ++ rest)) ∧
    window data 0 (1 + i.headerRest.length + i.pnLength) =
      .ok (i.maskedFirst c :: i.headerRest ++ i.maskedPn c) ∧
    window data (1 + i.headerRest.length + i.pnLength) i.payload.length = .ok (i.sealed c).1.1 ∧
    window data (1 + i.headerRest.length + i.pnLength + i.payload.length) 16 = .ok (i.sealed c).2.1 := by
  have hsample := i.sample_le
  have hpn := i.pnLength_le
  have hpayload : i.payload.length = (i.frames.flatMap Frame.bytes).length := rfl
  have hheader : (i.maskedFirst c :: i.headerRest).length = 1 + i.headerRest.length := by
    rw [List.length_cons, Nat.add_comm]
  rw [Initial.packet] at h
  obtain ⟨h', htag⟩ := at_append.mp h
  obtain ⟨h', hct⟩ := at_append.mp h'
  have haad := h'.window
  obtain ⟨h', hmasked⟩ := at_append.mp h'
  have hbody : At data (1 + i.headerRest.length) (i.maskedPn c ++ ((i.sealed c).1.1 ++ (i.sealed c).2.1)) := by
    rw [List.append_assoc, List.append_assoc] at h
    have := (at_append.mp h).2
    rwa [hheader, Nat.zero_add] at this
  have hblen : (i.maskedPn c ++ ((i.sealed c).1.1 ++ (i.sealed c).2.1)).length =
      i.pnLength + (i.payload.length + 16) := by
    simp only [List.length_append, Initial.length_maskedPn, Initial.length_ciphertext, Initial.length_tag]
  -- The sample starts past the packet number, so masking does not touch it.
  have hskip : ∀ a : Bytes, a.length = i.pnLength → slice (a ++ ((i.sealed c).1.1 ++ (i.sealed c).2.1)) 4 16 =
      slice ((i.sealed c).1.1 ++ (i.sealed c).2.1) (4 - i.pnLength) 16 := fun a ha => by
    rw [slice, slice, List.drop_append, List.drop_eq_nil_of_le (by omega), List.nil_append, ha]
  have hsampled := window_of_at (j := 4) (n := 16) hbody (by omega)
  rw [hskip _ Initial.length_maskedPn, ← hskip _ i.length_pnBytes, ← List.append_assoc] at hsampled
  have hpnWindow := window_of_at (j := 0) (n := 4) hbody (by omega)
  rw [slice_zero, List.take_append, List.take_of_length_le (by rw [Initial.length_maskedPn]; omega),
    Nat.add_zero] at hpnWindow
  rw [List.length_append, hheader, Initial.length_maskedPn] at haad
  have hct' := hct.window
  rw [List.length_append, hheader, Initial.length_maskedPn, Nat.zero_add, Initial.length_ciphertext] at hct'
  have htag' := htag.window
  rw [List.length_append, List.length_append, hheader, Initial.length_maskedPn, Nat.zero_add,
    Initial.length_ciphertext, Initial.length_tag] at htag'
  exact ⟨h'.readU8, hsampled, ⟨_, hpnWindow⟩, haad, hct', htag'⟩

/-- Header protection comes off: the first byte, the packet number and its length. -/
theorem removeHeaderProtection_packet (hm : Mbedtls.Implements m c) (rest : Bytes) :
    removeHeaderProtection m (i.keys c)
      (slice (i.pnBytes ++ (i.sealed c).1.1 ++ (i.sealed c).2.1) 4 16) (i.maskedFirst c)
      (i.maskedPn c ++ rest) = some (i.firstByte, i.pnBytes ++ rest, i.pnLength) := by
  have hmask : i.pnBytes.length ≤ (slice (i.mask c).1 1 i.pnLength).length := by
    rw [i.length_mask_slice, i.length_pnBytes]
  have hsample : (slice (i.pnBytes ++ (i.sealed c).1.1 ++ (i.sealed c).2.1) 4 16).length = 16 := by
    have hpayload : i.payload.length = (i.frames.flatMap Frame.bytes).length := rfl
    have := i.sample_le
    refine length_slice _ ?_
    simp only [List.length_append, i.length_pnBytes, Initial.length_ciphertext, Initial.length_tag]
    omega
  have hecb := hm.ecb (i.keys c).hp.1 _ (i.keys c).hp.2 hsample
  rw [← Initial.mask] at hecb
  have hfirst : i.maskedFirst c ^^^ ((i.mask c).1.getD 0 0 &&& 0x0F) = i.firstByte := masked_masked ..
  simp only [removeHeaderProtection, hecb, Option.bind_eq_bind, Option.bind_some, hfirst,
    i.firstByte_bits.2.2, Option.pure_def]
  rw [List.take_left' Initial.length_maskedPn, List.drop_left' Initial.length_maskedPn, Initial.maskedPn,
    xorBytes_xorBytes hmask]

theorem decryptPayload_packet (hm : Mbedtls.Implements m c) :
    decryptPayload m (i.keys c) i.packetNumber (i.firstByte :: i.headerRest ++ i.pnBytes)
      (i.sealed c).1.1 (i.sealed c).2.1 = some i.payload := by
  have hpos := i.payload_length_pos
  have hnonce : (i.nonce c).length = 12 := by
    rw [Initial.nonce, length_xorBytes (by rw [length_bigEndian, (i.keys c).iv.2]), (i.keys c).iv.2]
  unfold decryptPayload
  dsimp only
  rw [if_neg (by rw [Initial.length_ciphertext]; omega), nonceBytes_eq i.packetNumber_lt_64,
    ← Initial.nonce]
  exact hm.opens _ _ _ _ (i.keys c).key.2 hnonce

/-- The associated data is rebuilt as it was before masking. -/
theorem rebuild_aad (first first' : UInt8) (header : Bytes) {pn pn' : Bytes} (h : pn'.length = pn.length) :
    (do
      let aad ← copyTo (first :: header ++ pn) 0 [first']
      copyTo aad (1 + header.length) pn') = .ok (first' :: header ++ pn') := by
  have h1 : copyTo ([] ++ [first] ++ (header ++ pn)) _ [first'] = _ := copyTo_append [] (header ++ pn) rfl
  have h2 := copyTo_append (first' :: header) [] h
  simp only [List.nil_append, List.append_nil, List.length_nil, List.length_cons, List.cons_append] at h1 h2
  rw [List.cons_append, h1, ok_bind, Nat.add_comm 1, h2, List.cons_append]

theorem openInitial_packet (hm : Mbedtls.Implements m c) (hdata : data.length < 2 ^ 63)
    (h : At data 0 (i.packet c)) :
    openInitial m data ⟨i.version.params, i.dcid, 1 + i.headerRest.length, i.length.value⟩ =
      .ok (some i.parsed) := by
  have hpos := i.pnLength_pos
  have hpn := i.pnLength_le
  have hsample := i.sample_le
  have hlength := i.length_eq
  have hpayload : i.payload.length = (i.frames.flatMap Frame.bytes).length := rfl
  have hpayloadPos := i.payload_length_pos
  have hle := h.le
  rw [Initial.length_packet] at hle
  obtain ⟨hfirst, hsampled, ⟨rest, hpnWindow⟩, haad, hct, htag⟩ := packet_windows h
  have hrebuild := rebuild_aad (i.maskedFirst c) i.firstByte i.headerRest
    (show i.pnBytes.length = (i.maskedPn c).length by rw [i.length_pnBytes, Initial.length_maskedPn])
  have hend : 1 + i.headerRest.length + i.length.value =
      1 + i.headerRest.length + i.pnLength + i.payload.length + 16 := by omega
  unfold openInitial
  dsimp only
  rw [add_eq (by omega), ok_bind, if_neg (by omega), hsampled, ok_bind, deriveClientInitialKeys_eq hm]
  dsimp only
  rw [hfirst, ok_bind, hpnWindow, ok_bind, UInt8.ofNat_toNat, ← Initial.keys,
    removeHeaderProtection_packet hm]
  dsimp only
  rw [if_neg (by rw [i.firstByte_bits.2.1]; simp [Version.params]), if_neg (by omega),
    List.take_left' i.length_pnBytes, add_eq (by omega), ok_bind, haad, ok_bind, ← bind_assoc, hrebuild,
    ok_bind, ok_bind, add_eq (by omega), ok_bind, add_eq (by omega), ok_bind, if_neg (by omega), hend,
    sub_eq (by omega), ok_bind, sub_eq (by omega), ok_bind]
  have hlen : 1 + i.headerRest.length + i.pnLength + i.payload.length + 16 -
      (1 + i.headerRest.length + i.pnLength) - 16 = i.payload.length := by omega
  rw [hlen, hct, ok_bind, sub_eq (by omega), ok_bind, Nat.add_sub_cancel, htag, ok_bind, i.foldl_pnBytes,
    decryptPayload_packet hm]
  dsimp only
  rw [show collectCryptoFrames i.payload = .ok (some (i.frames.flatMap Frame.fragments)) from
    collectCryptoFrames_bytes (by omega) rfl, ok_bind]
  rfl

/-- `parseInitial` undoes Initial protection, whatever follows in the datagram. -/
theorem parseInitial_packet (hm : Mbedtls.Implements m c) (i : Initial) (trailing : Bytes)
    (hsize : (i.packet c ++ trailing).length < 2 ^ 63) :
    parseInitial m (i.packet c ++ trailing) =
      .ok (some ⟨i.dcid, i.frames.flatMap Frame.fragments⟩) := by
  have h : At (i.packet c ++ trailing) 0 (i.packet c) := (At.refl _).append_right trailing
  rw [parseInitial, parseHeader_packet hsize h, ok_bind]
  exact openInitial_packet hm hsize h

end Parse

/-! ### A recorded Initial

The values HKDF, AES and AES-GCM take on one version-1 Initial of the
connection 8394c8f03e515708, which brings the first six bytes of a ClientHello
and its end from byte 38 on. -/

namespace Recorded

def dcid : Bytes := [0x83, 0x94, 0xc8, 0xf0, 0x3e, 0x51, 0x57, 0x08]

def initialSecret : Bytes := [
  0x7d, 0xb5, 0xdf, 0x06, 0xe7, 0xa6, 0x9e, 0x43, 0x24, 0x96, 0xad, 0xed, 0xb0, 0x08, 0x51, 0x92,
  0x35, 0x95, 0x22, 0x15, 0x96, 0xae, 0x2a, 0xe9, 0xfb, 0x81, 0x15, 0xc1, 0xe9, 0xed, 0x0a, 0x44]

def clientSecret : Bytes := [
  0xc0, 0x0c, 0xf1, 0x51, 0xca, 0x5b, 0xe0, 0x75, 0xed, 0x0e, 0xbf, 0xb5, 0xc8, 0x03, 0x23, 0xc4,
  0x2d, 0x6b, 0x7d, 0xb6, 0x78, 0x81, 0x28, 0x9a, 0xf4, 0x00, 0x8f, 0x1f, 0x6c, 0x35, 0x7a, 0xea]

def key : Bytes := [
  0x1f, 0x36, 0x96, 0x13, 0xdd, 0x76, 0xd5, 0x46, 0x77, 0x30, 0xef, 0xcb, 0xe3, 0xb1, 0xa2, 0x2d]

def iv : Bytes := [0xfa, 0x04, 0x4b, 0x2f, 0x42, 0xa3, 0xfd, 0x3b, 0x46, 0xfb, 0x25, 0x5c]

def hp : Bytes := [
  0x9f, 0x50, 0x44, 0x9e, 0x04, 0xa0, 0xe8, 0x10, 0x28, 0x3a, 0x1e, 0x99, 0x33, 0xad, 0xed, 0xd2]

def nonce : Bytes := [0xfa, 0x04, 0x4b, 0x2f, 0x42, 0xa3, 0xfd, 0x3b, 0x46, 0xfb, 0x25, 0x5e]

def aad : Bytes := [
  0xc0, 0x00, 0x00, 0x00, 0x01, 0x08, 0x83, 0x94, 0xc8, 0xf0, 0x3e, 0x51, 0x57, 0x08, 0x00, 0x00,
  0x40, 0x33, 0x02]

def plaintext : Bytes := [
  0x06, 0x00, 0x06, 0x01, 0x00, 0x00, 0x38, 0x03, 0x03, 0x06, 0x26, 0x16, 0x00, 0x00, 0x02, 0x13,
  0x01, 0x01, 0x00, 0x00, 0x0d, 0x00, 0x00, 0x00, 0x09, 0x00, 0x07, 0x00, 0x00, 0x04, 0x61, 0x2e,
  0x69, 0x6f]

def ciphertext : Bytes := [
  0xd1, 0xb1, 0x8f, 0x7d, 0xd6, 0x68, 0xa7, 0x56, 0xec, 0x14, 0x1f, 0xac, 0x4b, 0x75, 0x2f, 0xa1,
  0xe0, 0x02, 0xe1, 0x7c, 0x81, 0xeb, 0xd5, 0xc2, 0xf8, 0x67, 0xb4, 0xc8, 0xb2, 0x22, 0x1e, 0x2b,
  0x4a, 0x5c]

def tag : Bytes := [
  0x0b, 0xa6, 0x17, 0x83, 0xa3, 0x7f, 0xbc, 0x26, 0xab, 0x51, 0x7c, 0xec, 0x12, 0xd7, 0x08, 0x86]

def mask : Bytes := [
  0x85, 0x07, 0x28, 0x42, 0x86, 0x8a, 0x3b, 0x61, 0xbc, 0x32, 0x35, 0xbc, 0x84, 0x47, 0x6a, 0x2e]

/-- `bytes`, where there are `n` of them. -/
def block (n : ℕ) (bytes : Bytes) : Block n :=
  if h : bytes.length = n then ⟨bytes, h⟩ else ⟨List.replicate n 0, List.length_replicate⟩

/-- The keys derived, by secret and label. -/
def expansions : List ((Bytes × Bytes) × Bytes) := [
  ((initialSecret, labelInfo "client in" 32), clientSecret),
  ((clientSecret, labelInfo "quic key" 16), key),
  ((clientSecret, labelInfo "quic iv" 12), iv),
  ((clientSecret, labelInfo "quic hp" 16), hp)]

/-- Functions with the recorded values; elsewhere the blocks are zero, and
sealing leaves the plaintext as it is. -/
def primitives : Primitives where
  extract salt ikm := block 32 (if (salt, ikm) = (kInitialSaltV1, dcid) then initialSecret else [])
  expand prk info n := block n ((expansions.lookup (prk, info)).getD [])
  ecb k sample := block 16 (if (k, sample) = (hp, slice ciphertext 3 16) then mask else [])
  gcmSeal k n a p :=
    if (k, n, a, p) = (key, nonce, aad, plaintext) then (block p.length ciphertext, block 16 tag)
    else (⟨p, rfl⟩, block 16 [])

def mbedtls : Mbedtls where
  hkdfExtract salt ikm := some (primitives.extract salt ikm)
  hkdfExpand prk info n := some (primitives.expand prk info n)
  aesEcbEncrypt k sample := some (primitives.ecb k sample)
  gcmAuthDecrypt k n a t c :=
    if (k, n, a, t, c) = (key, nonce, aad, tag, ciphertext) then some (block c.length plaintext)
    else if t = (block 16 []).1 then some ⟨c, rfl⟩ else none

theorem mbedtls_implements : Mbedtls.Implements mbedtls primitives where
  extract _ _ := rfl
  expand _ _ _ _ _ := rfl
  ecb _ _ _ _ := rfl
  opens k n a p _ _ := by
    have hct : (block plaintext.length ciphertext).1 = ciphertext := by decide
    have htag : (block 16 tag).1 = tag := by decide
    have hzero : (block 16 []).1 ≠ tag := by decide
    by_cases h : (k, n, a, p) = (key, nonce, aad, plaintext)
    · have hseal : primitives.gcmSeal k n a p = (block p.length ciphertext, block 16 tag) := if_pos h
      obtain ⟨rfl, rfl, rfl, rfl⟩ : k = key ∧ n = nonce ∧ a = aad ∧ p = plaintext := by simpa using h
      rw [hseal]
      simp only [mbedtls, hct, htag, if_pos, Option.map_some, Option.some.injEq]
      decide
    · have hseal : primitives.gcmSeal k n a p = (⟨p, rfl⟩, block 16 []) := if_neg h
      rw [hseal]
      simp [mbedtls, hzero]

/-- The Initial recorded. -/
def initial : Initial where
  version := .v1
  dcid := dcid
  scid := []
  token := []
  tokenLength := ⟨0, 0, by decide⟩
  length := ⟨51, 1, by decide⟩
  pnLength := 1
  packetNumber := 2
  frames := [
    .crypto ⟨0, 0, by decide⟩ ⟨6, 0, by decide⟩ (slice plaintext 3 6) (by decide) (by decide) (by decide),
    .crypto ⟨38, 0, by decide⟩ ⟨22, 0, by decide⟩ (slice plaintext 12 22) (by decide) (by decide) (by decide)]
  dcid_le := by decide
  scid_le := by decide
  tokenLength_eq := by decide
  pnLength_pos := by decide
  pnLength_le := by decide
  packetNumber_lt := by decide
  frames_ne_nil := by simp
  sample_le := by decide
  length_eq := by decide

/-- The datagram recorded. -/
def datagram : Bytes := [
  0xc5, 0x00, 0x00, 0x00, 0x01, 0x08, 0x83, 0x94, 0xc8, 0xf0, 0x3e, 0x51, 0x57, 0x08, 0x00, 0x00,
  0x40, 0x33, 0x05, 0xd1, 0xb1, 0x8f, 0x7d, 0xd6, 0x68, 0xa7, 0x56, 0xec, 0x14, 0x1f, 0xac, 0x4b,
  0x75, 0x2f, 0xa1, 0xe0, 0x02, 0xe1, 0x7c, 0x81, 0xeb, 0xd5, 0xc2, 0xf8, 0x67, 0xb4, 0xc8, 0xb2,
  0x22, 0x1e, 0x2b, 0x4a, 0x5c, 0x0b, 0xa6, 0x17, 0x83, 0xa3, 0x7f, 0xbc, 0x26, 0xab, 0x51, 0x7c,
  0xec, 0x12, 0xd7, 0x08, 0x86]

example : initial.packet primitives = datagram := by decide

end Recorded

theorem parseInitial_packet_recorded :
    parseInitial Recorded.mbedtls (Recorded.initial.packet Recorded.primitives ++ [0, 0]) =
      .ok (some ⟨Recorded.dcid, [⟨0, slice Recorded.plaintext 3 6⟩, ⟨38, slice Recorded.plaintext 12 22⟩]⟩) :=
  parseInitial_packet Recorded.mbedtls_implements Recorded.initial [0, 0] (by decide)

end QuicParser
end NetProbe
