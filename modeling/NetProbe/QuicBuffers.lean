/-
# QuicParser on its arrays

The functions around the mbedTLS calls write into arrays of fixed size: the
`info` of HKDF-Expand-Label, the nonce, the four packet number bytes and the
plaintext. `InPlace` has them on those arrays, index by index, and so the
functions that call them; they never leave an array, and give what the
functions of `QuicParser` do (`InPlace.parseInitial_eq`).

Key definitions: `InPlace.removeHeaderProtection`, `InPlace.parseInitial`.
Key theorems: `InPlace.parseInitial_eq`, `decoding_safe`.
-/
import NetProbe.QuicProtection
import NetProbe.QuicSafety

namespace NetProbe
namespace QuicParser

open Checked Bytes

namespace InPlace

/-! ### The functions -/

/-- `memcpy` to the end of what is filled, `p` bytes so far. -/
def put (s : Bytes × ℕ) (src : Bytes) : Checked (Bytes × ℕ) := do
  let buffer ← copyTo s.1 s.2 src
  return (buffer, ← add s.2 src.length)

def hkdfExpandLabel (m : Mbedtls) (secret : Bytes) (label : String) (outLen : ℕ) :
    Checked (Option (Block outLen)) := do
  let fullLabelLen := 6 + (labelBytes label).length
  if fullLabelLen > 255 then return none
  let info : Bytes := List.replicate (2 + 1 + 255 + 1) 0
  let (info, p) ← [[UInt8.ofNat (outLen >>> 8)], [UInt8.ofNat outLen], [UInt8.ofNat fullLabelLen],
    labelBytes "tls13 ", labelBytes label, [0]].foldlM put (info, 0)
  return m.hkdfExpand secret (← window info 0 p) outLen

def deriveClientInitialKeys (m : Mbedtls) (params : VersionParams) (dcid : Bytes) :
    Checked (Option InitialKeys) := do
  let some initialSecret := m.hkdfExtract params.salt dcid | return none
  let some clientSecret ← hkdfExpandLabel m initialSecret.1 "client in" 32 | return none
  let some key ← hkdfExpandLabel m clientSecret.1 params.keyLabel 16 | return none
  let some iv ← hkdfExpandLabel m clientSecret.1 params.ivLabel 12 | return none
  let some hp ← hkdfExpandLabel m clientSecret.1 params.hpLabel 16 | return none
  return some ⟨key, iv, hp⟩

/-- `buffer[i] ^= b`. -/
def xorAt (buffer : Bytes) (i : ℕ) (b : UInt8) : Checked Bytes := do
  let old ← readU8 buffer i
  copyTo buffer i [UInt8.ofNat old ^^^ b]

/-- The packet number bytes from `i` on, `n` of them. -/
def unmaskLoop (mask : Bytes) : (n i : ℕ) → (pnBytes : Bytes) → Checked Bytes
  | 0, _, pnBytes => .ok pnBytes
  | n + 1, i, pnBytes => do
    let b ← readU8 mask (i + 1)
    unmaskLoop mask n (i + 1) (← xorAt pnBytes i (UInt8.ofNat b))

def removeHeaderProtection (m : Mbedtls) (keys : InitialKeys) (sample : Bytes) (firstByte : UInt8)
    (pnBytes : Bytes) : Checked (Option (UInt8 × Bytes × ℕ)) := do
  let some mask := m.aesEcbEncrypt keys.hp.1 sample | return none
  let firstByte := firstByte ^^^ (UInt8.ofNat (← readU8 mask.1 0) &&& 0x0F)
  let pnLen := (firstByte &&& 0x03).toNat + 1
  return some (firstByte, ← unmaskLoop mask.1 pnLen 0 pnBytes, pnLen)

/-- The nonce from its end, `n` bytes of the packet number from byte `i` on. -/
def nonceLoop (packetNumber : ℕ) : (n i : ℕ) → (nonce : Bytes) → Checked Bytes
  | 0, _, nonce => .ok nonce
  | n + 1, i, nonce => do
    let at' ← sub (12 - 1) i
    nonceLoop packetNumber n (i + 1) (← xorAt nonce at' (UInt8.ofNat (packetNumber >>> (i * 8) &&& 0xFF)))

def decryptPayload (m : Mbedtls) (keys : InitialKeys) (packetNumber : ℕ) (aad ciphertext tag : Bytes) :
    Checked (Option Bytes) := do
  if ciphertext.length = 0 then return none
  let nonce ← copyTo (List.replicate 12 0) 0 keys.iv.1
  let nonce ← nonceLoop packetNumber 8 0 nonce
  let outPlaintext := List.replicate ciphertext.length 0
  let some plaintext := m.gcmAuthDecrypt keys.key.1 nonce aad tag ciphertext | return none
  return some (← copyTo outPlaintext 0 plaintext.1)

/-- `QuicParser.openInitial`, with the functions above. -/
def openInitial (m : Mbedtls) (data : Bytes) (h : InitialHeader) : Checked (Option InitialPacket) := do
  if (← add h.pnOffset (4 + 16)) > data.length then return none
  let sample ← window data (h.pnOffset + 4) 16
  let some keys ← deriveClientInitialKeys m h.params h.dcid | return none
  let firstByte ← readU8 data 0
  let pn ← window data h.pnOffset 4
  let some (firstByte, pnBytes, pnLen) ←
    removeHeaderProtection m keys sample (UInt8.ofNat firstByte) pn | return none
  if firstByte &&& 0x30 ≠ UInt8.ofNat h.params.initialTypeBits then return none
  if pnLen = 0 ∨ pnLen > 4 then return none
  let packetNumber := (pnBytes.take pnLen).foldl (fun n b => n <<< 8 ||| b.toNat) 0
  let aad ← window data 0 (← add h.pnOffset pnLen)
  let aad ← copyTo aad 0 [firstByte]
  let aad ← copyTo aad h.pnOffset (pnBytes.take pnLen)
  let payloadStart ← add h.pnOffset pnLen
  let payloadEnd ← add h.pnOffset h.length
  if (← add payloadStart 16) > payloadEnd then return none
  let ciphertextLen ← sub (← sub payloadEnd payloadStart) 16
  let ciphertext ← window data payloadStart ciphertextLen
  let tag ← window data (← sub payloadEnd 16) 16
  let some plaintext ← decryptPayload m keys packetNumber aad ciphertext tag | return none
  let some crypto ← collectCryptoFrames plaintext | return none
  return some ⟨h.dcid, crypto⟩

def parseInitial (m : Mbedtls) (data : Bytes) : Checked (Option InitialPacket) := do
  let some h ← parseHeader data | return none
  openInitial m data h

def extractInitialSni (m : Mbedtls) (data : Bytes) : Checked (Option String) := do
  let some initial ← parseInitial m data | return none
  if initial.crypto = [] then return none
  let reached ← furthestEnd initial.crypto 0
  if reached = 0 then return none
  let stream ← stitch initial.crypto (List.replicate reached 0)
  sniFromClientHello stream

/-! ### One array -/

theorem bind_congr {α β : Type} {x : Checked α} {f g : α → Checked β} (h : ∀ a, x = .ok a → f a = g a) :
    (x >>= f) = (x >>= g) := by
  cases x with
  | error e => rfl
  | ok a => exact h a rfl

theorem copyTo_append {α : Type} {front old back src : List α} (h : src.length = old.length) :
    copyTo (front ++ old ++ back) front.length src = .ok (front ++ src ++ back) := by
  have htake : (front ++ old ++ back).take front.length = front := by rw [List.append_assoc, List.take_left]
  have hdrop : (front ++ old ++ back).drop (front.length + src.length) = back := by
    rw [h, ← List.length_append, List.drop_left]
  rw [copyTo, if_pos (by simp only [List.length_append]; omega), htake, hdrop]

/-- The whole array. -/
theorem copyTo_all {α : Type} {dest src : List α} (h : src.length = dest.length) : copyTo dest 0 src = .ok src := by
  have hall := @copyTo_append α [] dest [] src h
  simpa using hall

theorem put_append {filled rest src : Bytes} (hfits : filled.length + src.length + rest.length < 2 ^ 64)
    {old : Bytes} (h : src.length = old.length) :
    put (filled ++ old ++ rest, filled.length) src = .ok (filled ++ src ++ rest, (filled ++ src).length) := by
  rw [put, copyTo_append h, ok_bind, add_eq (by omega), List.length_append]
  rfl

/-- Whatever fits is filled in, one part after the other. -/
theorem foldlM_put : ∀ (srcs : List Bytes) {filled rest : Bytes}, srcs.flatten.length ≤ rest.length →
    filled.length + rest.length < 2 ^ 64 →
    srcs.foldlM put (filled ++ rest, filled.length) =
      .ok (filled ++ srcs.flatten ++ rest.drop srcs.flatten.length, (filled ++ srcs.flatten).length)
  | [], filled, rest, _, _ => by simp
  | src :: srcs, filled, rest, hlen, hfits => by
    rw [List.flatten_cons, List.length_append] at hlen
    have hsrc : src.length = (rest.take src.length).length := by
      rw [List.length_take]
      omega
    have hput : put (filled ++ rest, filled.length) src =
        .ok ((filled ++ src) ++ rest.drop src.length, (filled ++ src).length) := by
      have hfit := @put_append filled (rest.drop src.length) src (by rw [List.length_drop]; omega) _ hsrc
      rwa [List.append_assoc filled, List.take_append_drop] at hfit
    rw [List.foldlM_cons, hput, ok_bind, foldlM_put srcs]
    · rw [List.flatten_cons, List.drop_drop, List.append_assoc filled, ← List.length_append]
    · rw [List.length_drop]
      omega
    · rw [List.length_append, List.length_drop]
      omega

theorem xorAt_append (front back : Bytes) (b c : UInt8) :
    xorAt (front ++ [b] ++ back) front.length c = .ok (front ++ [b ^^^ c] ++ back) := by
  have hb : readU8 (front ++ [b] ++ back) front.length = .ok b.toNat := by
    rw [readU8_eq (by simp)]
    simp [u8]
  rw [xorAt, hb, ok_bind, UInt8.ofNat_toNat]
  exact copyTo_append rfl

theorem unmaskLoop_eq (mask : Bytes) : ∀ (n : ℕ) {front rest : Bytes}, n ≤ rest.length →
    front.length + n < mask.length →
    unmaskLoop mask n front.length (front ++ rest) =
      .ok (front ++ xorBytes (rest.take n) (slice mask (front.length + 1) n) ++ rest.drop n)
  | 0, front, rest, _, _ => by simp [unmaskLoop, xorBytes]
  | n + 1, front, b :: rest, hn, hmask => by
    have hcons : mask.drop (front.length + 1) = mask[front.length + 1] :: mask.drop (front.length + 1 + 1) :=
      List.drop_eq_getElem_cons (by omega)
    have hu8 : UInt8.ofNat (u8 mask (front.length + 1)) = mask[front.length + 1] := by
      rw [u8, List.getD_eq_getElem?_getD, List.getElem?_eq_getElem (by omega), Option.getD_some, UInt8.ofNat_toNat]
    have hone : front ++ b :: rest = front ++ [b] ++ rest := by rw [List.append_assoc]; rfl
    rw [unmaskLoop, readU8_eq (by omega), ok_bind, hu8, hone, xorAt_append, ok_bind]
    have ih := @unmaskLoop_eq mask n (front ++ [b ^^^ mask[front.length + 1]]) rest
      (by simpa using hn) (by rw [List.length_append, List.length_singleton]; omega)
    rw [List.length_append, List.length_singleton] at ih
    have hslice : slice mask (front.length + 1) (n + 1) =
        mask[front.length + 1] :: slice mask (front.length + 1 + 1) n := by
      rw [slice, hcons, List.take_succ_cons]
      rfl
    rw [ih, hslice, List.take_succ_cons, List.drop_succ_cons, List.append_assoc front]
    rfl

theorem nonceLoop_eq (packetNumber : ℕ) : ∀ (n i : ℕ) {front mid back : Bytes}, mid.length = n → back.length = i →
    front.length + n + i = 12 →
    nonceLoop packetNumber n i (front ++ mid ++ back) =
      .ok (front ++ xorBytes mid ((List.range n).map fun j =>
        UInt8.ofNat (packetNumber >>> ((i + (n - 1 - j)) * 8) &&& 0xFF)) ++ back)
  | 0, i, front, mid, back, hmid, _, _ => by
    obtain rfl := List.length_eq_zero_iff.mp hmid
    simp [nonceLoop, xorBytes]
  | n + 1, i, front, mid, back, hmid, hback, hlen => by
    obtain ⟨mid, b, rfl⟩ : ∃ mid' b, mid = mid' ++ [b] := by
      rcases List.eq_nil_or_concat mid with rfl | ⟨mid', b, rfl⟩
      · simp at hmid
      · exact ⟨mid', b, List.concat_eq_append⟩
    rw [List.length_append, List.length_singleton, Nat.add_right_cancel_iff] at hmid
    set c := UInt8.ofNat (packetNumber >>> (i * 8) &&& 0xFF) with hc
    have hat : (12 - 1 : ℕ) - i = (front ++ mid).length := by
      rw [List.length_append]
      omega
    have hxor := xorAt_append (front ++ mid) back b c
    rw [← List.append_assoc front, nonceLoop, sub_eq (by omega), ok_bind, hat, ← hc, hxor, ok_bind,
      List.append_assoc (front ++ mid), List.singleton_append,
      nonceLoop_eq packetNumber n (i + 1) hmid (by rw [List.length_cons, hback]) (by omega)]
    have hbytes : (List.range n).map (fun j => UInt8.ofNat (packetNumber >>> ((i + 1 + (n - 1 - j)) * 8) &&& 0xFF)) =
        (List.range n).map fun j => UInt8.ofNat (packetNumber >>> ((i + (n + 1 - 1 - j)) * 8) &&& 0xFF) := by
      refine List.map_congr_left fun j hj => ?_
      have hj := List.mem_range.mp hj
      rw [show i + 1 + (n - 1 - j) = i + (n + 1 - 1 - j) by omega]
    rw [hbytes, List.range_succ, List.map_append, xorBytes, xorBytes,
      List.zipWith_append (by rw [List.length_map, List.length_range, hmid])]
    rw [List.append_assoc front, List.append_assoc front, List.append_assoc]
    simp [hc]

theorem nonceLoop_iv (packetNumber : ℕ) {iv : Bytes} (hiv : iv.length = 12) :
    nonceLoop packetNumber 8 0 iv = .ok (xorBytes iv (nonceBytes packetNumber)) := by
  have hfour : (iv.take 4).length = 4 := by
    rw [List.length_take, hiv]
    rfl
  have hzero : ∀ {l : Bytes}, l.length = 4 → List.zipWith (· ^^^ ·) l ([0, 0, 0, 0] : Bytes) = l := by
    intro l hl
    obtain ⟨a, b, c, d, rfl⟩ := List.length_eq_four.mp hl
    simp
  have hloop := @nonceLoop_eq packetNumber 8 0 (iv.take 4) (iv.drop 4) [] (by rw [List.length_drop, hiv]) rfl
    (by rw [hfour])
  rw [List.append_nil, List.take_append_drop, List.append_nil] at hloop
  rw [hloop]
  conv_rhs => rw [← List.take_append_drop 4 iv]
  rw [nonceBytes, xorBytes, xorBytes, List.zipWith_append (by rw [hfour]; rfl), hzero hfour]
  simp only [Nat.zero_add]

/-! ### The functions -/

theorem hkdfExpandLabel_eq (m : Mbedtls) (secret : Bytes) (label : String) (outLen : ℕ) :
    hkdfExpandLabel m secret label outLen = .ok (QuicParser.hkdfExpandLabel m secret label outLen) := by
  unfold hkdfExpandLabel QuicParser.hkdfExpandLabel
  dsimp only
  split
  · rfl
  · rename_i hlen
    have hprefix : (labelBytes "tls13 ").length = 6 := rfl
    set srcs : List Bytes := [[UInt8.ofNat (outLen >>> 8)], [UInt8.ofNat outLen],
      [UInt8.ofNat (6 + (labelBytes label).length)], labelBytes "tls13 ", labelBytes label, [0]] with hsrcs
    have hflat : srcs.flatten.length ≤ 2 + 1 + 255 + 1 := by
      simp only [hsrcs, List.flatten_cons, List.flatten_nil, List.length_append, List.length_singleton,
        List.length_nil, hprefix]
      omega
    have hfill : srcs.foldlM put (List.replicate (2 + 1 + 255 + 1) 0, 0) =
        .ok (srcs.flatten ++ (List.replicate (2 + 1 + 255 + 1) 0).drop srcs.flatten.length, srcs.flatten.length) :=
      @foldlM_put srcs [] (List.replicate (2 + 1 + 255 + 1) 0) (by rwa [List.length_replicate])
        (by rw [List.length_replicate]; decide)
    rw [hfill, ok_bind, window_eq (by rw [List.length_append]; omega), ok_bind, slice_zero, List.take_left]
    simp [hsrcs, List.append_assoc]

theorem deriveClientInitialKeys_eq (m : Mbedtls) (params : VersionParams) (dcid : Bytes) :
    deriveClientInitialKeys m params dcid = .ok (QuicParser.deriveClientInitialKeys m params dcid) := by
  unfold deriveClientInitialKeys QuicParser.deriveClientInitialKeys
  cases m.hkdfExtract params.salt dcid with
  | none => rfl
  | some initialSecret =>
    simp only [hkdfExpandLabel_eq, ok_bind]
    show _ = Except.ok ((QuicParser.hkdfExpandLabel m initialSecret.1 "client in" 32).bind _)
    cases QuicParser.hkdfExpandLabel m initialSecret.1 "client in" 32 with
    | none => rfl
    | some clientSecret =>
      dsimp only
      show _ = Except.ok ((QuicParser.hkdfExpandLabel m clientSecret.1 params.keyLabel 16).bind _)
      cases QuicParser.hkdfExpandLabel m clientSecret.1 params.keyLabel 16 with
      | none => rfl
      | some key =>
        dsimp only
        show _ = Except.ok ((QuicParser.hkdfExpandLabel m clientSecret.1 params.ivLabel 12).bind _)
        cases QuicParser.hkdfExpandLabel m clientSecret.1 params.ivLabel 12 with
        | none => rfl
        | some iv =>
          dsimp only
          show _ = Except.ok ((QuicParser.hkdfExpandLabel m clientSecret.1 params.hpLabel 16).bind _)
          cases QuicParser.hkdfExpandLabel m clientSecret.1 params.hpLabel 16 with
          | none => rfl
          | some hp => rfl

theorem removeHeaderProtection_eq (m : Mbedtls) (keys : InitialKeys) (sample : Bytes) (firstByte : UInt8)
    {pnBytes : Bytes} (hpn : pnBytes.length = 4) :
    removeHeaderProtection m keys sample firstByte pnBytes =
      .ok (QuicParser.removeHeaderProtection m keys sample firstByte pnBytes) := by
  unfold removeHeaderProtection QuicParser.removeHeaderProtection
  cases m.aesEcbEncrypt keys.hp.1 sample with
  | none => rfl
  | some mask =>
    obtain ⟨mask, hmask⟩ := mask
    have hfirst : UInt8.ofNat (u8 mask 0) = mask.getD 0 0 := by rw [u8, UInt8.ofNat_toNat]
    dsimp only
    rw [readU8_eq (by omega), ok_bind, hfirst]
    set pnLen := ((firstByte ^^^ (mask.getD 0 0 &&& 0x0F)) &&& 0x03).toNat + 1 with hpnLen
    have hle : pnLen ≤ 4 := by
      rw [hpnLen, UInt8.toNat_and]
      exact Nat.succ_le_succ (Nat.and_le_right.trans (by decide))
    have hloop := @unmaskLoop_eq mask pnLen [] pnBytes (by omega) (by rw [List.length_nil]; omega)
    rw [List.length_nil, List.nil_append, Nat.zero_add] at hloop
    show (unmaskLoop mask pnLen 0 pnBytes >>= _) = _
    rw [hloop, ok_bind]
    rfl

theorem decryptPayload_eq (m : Mbedtls) (keys : InitialKeys) (packetNumber : ℕ) (aad ciphertext tag : Bytes) :
    decryptPayload m keys packetNumber aad ciphertext tag =
      .ok (QuicParser.decryptPayload m keys packetNumber aad ciphertext tag) := by
  unfold decryptPayload QuicParser.decryptPayload
  split
  · rfl
  · have hiv : copyTo (List.replicate 12 0) 0 keys.iv.1 = .ok keys.iv.1 :=
      copyTo_all (by rw [keys.iv.2, List.length_replicate])
    have hnonce : nonceLoop packetNumber 8 0 keys.iv.1 = .ok (xorBytes keys.iv.1 (nonceBytes packetNumber)) := by
      exact nonceLoop_iv packetNumber keys.iv.2
    rw [hiv, ok_bind, hnonce, ok_bind]
    dsimp only
    cases m.gcmAuthDecrypt keys.key.1 (xorBytes keys.iv.1 (nonceBytes packetNumber)) aad tag ciphertext with
    | none => rfl
    | some plaintext =>
      dsimp only
      rw [copyTo_all (by rw [plaintext.2, List.length_replicate])]
      rfl

theorem openInitial_eq (m : Mbedtls) (data : Bytes) (h : InitialHeader) :
    openInitial m data h = QuicParser.openInitial m data h := by
  unfold openInitial QuicParser.openInitial
  simp only [deriveClientInitialKeys_eq, decryptPayload_eq, ok_bind]
  refine bind_congr fun sampleEnd _ => ?_
  split
  · rfl
  · refine bind_congr fun sample _ => ?_
    cases QuicParser.deriveClientInitialKeys m h.params h.dcid with
    | none => rfl
    | some keys =>
      refine bind_congr fun firstByte _ => bind_congr fun pn hpn => ?_
      have hunmasked := removeHeaderProtection_eq m keys sample (UInt8.ofNat firstByte) (length_of_window hpn)
      generalize removeHeaderProtection m keys sample (UInt8.ofNat firstByte) pn = unmasked at hunmasked ⊢
      subst hunmasked
      rfl

theorem parseInitial_eq (m : Mbedtls) (data : Bytes) : parseInitial m data = QuicParser.parseInitial m data := by
  refine bind_congr fun header _ => ?_
  cases header with
  | none => rfl
  | some h => exact openInitial_eq m data h

theorem extractInitialSni_eq (m : Mbedtls) (data : Bytes) :
    extractInitialSni m data = QuicParser.extractInitialSni m data := by
  have hparsed := parseInitial_eq m data
  unfold extractInitialSni QuicParser.extractInitialSni
  generalize parseInitial m data = parsed at hparsed ⊢
  subst hparsed
  rfl

end InPlace

/-- No input makes the decoding leave an array, wrap a length or run on,
whatever mbedTLS does: on any array C++ can hold. -/
theorem decoding_safe (m : Mbedtls) {data : Bytes} (hd : data.length < 2 ^ 63) :
    Safe (looksLikeLongHeader data) (fun _ => True) ∧
    (∀ pos, Safe (readVarint data pos) fun r =>
      ∀ e, r = some e → e.1 < 2 ^ 62 ∧ pos < e.2 ∧ e.2 ≤ data.length) ∧
    Safe (collectCryptoFrames data) (fun _ => True) ∧
    Safe (sniFromClientHello data) (fun _ => True) ∧
    Safe (InPlace.parseInitial m data) (fun r => parseInitial m data = .ok r) ∧
    Safe (InPlace.extractInitialSni m data) (fun r => extractInitialSni m data = .ok r) := by
  refine ⟨looksLikeLongHeader_safe data, readVarint_safe hd, collectCryptoFrames_safe hd,
    (sniFromClientHello_iff data).mono fun _ _ => trivial, ?_, ?_⟩
  · rw [InPlace.parseInitial_eq]
    obtain ⟨r, hr, -⟩ := parseInitial_safe hd m
    exact ⟨r, hr, hr⟩
  · rw [InPlace.extractInitialSni_eq]
    obtain ⟨r, hr, -⟩ := extractInitialSni_safe hd m
    exact ⟨r, hr, hr⟩

theorem decoding_safe_recorded :
    Safe (InPlace.parseInitial Recorded.mbedtls Recorded.datagram)
        (fun r => parseInitial Recorded.mbedtls Recorded.datagram = .ok r) ∧
      Safe (InPlace.extractInitialSni Recorded.mbedtls Recorded.datagram)
        (fun r => extractInitialSni Recorded.mbedtls Recorded.datagram = .ok r) :=
  (decoding_safe Recorded.mbedtls (show Recorded.datagram.length < 2 ^ 63 by decide)).2.2.2.2

end QuicParser
end NetProbe
