/-
# QuicParser never faults

On any buffer a C++ program can hold, with any mbedTLS: the header fields, the
packet protection, the frame loop and the ClientHello walk end in a value.

Key theorems: `readVarint_safe`, `parseInitial_safe`, `extractInitialSni_safe`.
-/
import NetProbe.QuicReassembly

namespace NetProbe
namespace QuicParser

open Checked Bytes

section

variable {data : Bytes} (hd : data.length < 2 ^ 63)
include hd

/-- Every byte adds eight bits. -/
theorem varintLoop_safe {pos : ℕ} : ∀ {n i k out : ℕ}, pos + i + n ≤ data.length → out < 2 ^ k →
    Safe (varintLoop data pos n i out) fun r => r < 2 ^ (k + 8 * n) := by
  intro n
  induction n with
  | zero => intro i k out _ ho; exact .ok ho
  | succ n ih =>
    intro i k out h ho
    refine (safe_add (by omega)).bind fun j hj => (safe_readU8 (by omega)).bind fun b hb => ?_
    have hnext : out <<< 8 ||| b < 2 ^ (k + 8) := by
      rw [shiftLeft_or hb.2, Nat.pow_add]
      omega
    refine (ih (by omega) hnext).mono fun r hr => ?_
    rwa [show k + 8 * (n + 1) = k + 8 + 8 * n by ring]

/-- An integer has 62 bits; the position after it is further on, and in the
buffer. -/
theorem readVarint_safe (pos : ℕ) : Safe (readVarint data pos) fun r =>
    ∀ e, r = some e → e.1 < 2 ^ 62 ∧ pos < e.2 ∧ e.2 ≤ data.length := by
  refine .guard (by simp) fun hp => (safe_readU8 (by omega)).bind fun first hf => ?_
  have hlen : 1 ≤ 1 <<< (first >>> 6) ∧ 1 <<< (first >>> 6) ≤ 8 := by
    have hk : first >>> 6 ≤ 3 := by
      rw [Nat.shiftRight_eq_div_pow]
      omega
    rw [Nat.shiftLeft_eq, Nat.one_mul]
    exact ⟨Nat.one_le_two_pow, Nat.pow_le_pow_right (by decide) hk⟩
  have hsix : first &&& 0x3F < 2 ^ 6 := Nat.and_lt_two_pow _ (by decide)
  refine (safe_add (by omega)).bind fun stop hs => .guard (by simp) fun hle => ?_
  refine (varintLoop_safe hd (by omega) hsix).bind fun out ho => ?_
  refine (safe_add (by omega)).bind fun next hn => .ok fun e he => ?_
  cases he
  refine ⟨ho.trans_le (Nat.pow_le_pow_right (by decide) (by omega)), ?_, ?_⟩ <;> dsimp only <;> omega

theorem skipVarints_safe : ∀ {n pos : ℕ}, pos ≤ data.length → Safe (skipVarints data n pos) fun r =>
    ∀ e, r = some e → pos ≤ e ∧ e ≤ data.length := by
  intro n
  induction n with
  | zero => intro pos h; exact .ok fun e he => by cases he; exact ⟨le_rfl, h⟩
  | succ n ih =>
    intro pos h
    refine (readVarint_safe hd pos).bind fun r hr => ?_
    cases r with
    | none => exact .ok (by simp)
    | some e =>
      have := hr e rfl
      exact (ih this.2.2).mono fun r' hr' e' he' => ⟨by have := hr' e' he'; omega, (hr' e' he').2⟩

theorem skipAck_safe (frameType pos : ℕ) : Safe (skipAck data frameType pos) fun r =>
    ∀ e, r = some e → pos < e ∧ e ≤ data.length := by
  refine (readVarint_safe hd pos).bind fun r1 h1 => ?_
  cases r1 with
  | none => exact .ok (by simp)
  | some e1 =>
    have h1 := h1 e1 rfl
    refine (readVarint_safe hd e1.2).bind fun r2 h2 => ?_
    cases r2 with
    | none => exact .ok (by simp)
    | some e2 =>
      have h2 := h2 e2 rfl
      refine (readVarint_safe hd e2.2).bind fun r3 h3 => ?_
      cases r3 with
      | none => exact .ok (by simp)
      | some e3 =>
        have h3 := h3 e3 rfl
        refine (readVarint_safe hd e3.2).bind fun r4 h4 => ?_
        cases r4 with
        | none => exact .ok (by simp)
        | some e4 =>
          have h4 := h4 e4 rfl
          refine .guard (by simp) fun _ => ?_
          refine (skipVarints_safe hd h4.2.2).bind fun r5 h5 => ?_
          cases r5 with
          | none => exact .ok (by simp)
          | some e5 =>
            have h5 := h5 e5 rfl
            refine .ite (fun _ => ?_) fun _ => .ok fun e he => ?_
            · exact (skipVarints_safe hd h5.2).mono fun r hr e he => ⟨by have := hr e he; omega, (hr e he).2⟩
            · cases he
              omega

theorem readCrypto_safe (pos : ℕ) : Safe (readCrypto data pos) fun r =>
    ∀ e, r = some e → pos < e.2 ∧ e.2 ≤ data.length := by
  refine (readVarint_safe hd pos).bind fun r1 h1 => ?_
  cases r1 with
  | none => exact .ok (by simp)
  | some e1 =>
    have h1 := h1 e1 rfl
    refine (readVarint_safe hd e1.2).bind fun r2 h2 => ?_
    cases r2 with
    | none => exact .ok (by simp)
    | some e2 =>
      have h2 := h2 e2 rfl
      refine (safe_sub h2.2.2).bind fun rest hrest => .guard (by simp) fun hle => .guard (by simp) fun _ => ?_
      refine (safe_window (by omega)).bind fun w _ => (safe_add (by omega)).bind fun next hn => .ok fun e he => ?_
      cases he
      dsimp only
      omega

/-- Every frame takes at least its type byte. -/
theorem cryptoFrameLoop_safe : ∀ {fuel pos : ℕ} {out : List CryptoFragment}, pos ≤ data.length →
    data.length ≤ pos + fuel → Safe (cryptoFrameLoop data fuel pos out) fun _ => True := by
  intro fuel
  induction fuel with
  | zero =>
    intro pos out h h'
    unfold cryptoFrameLoop
    rw [if_neg (by omega)]
    exact .ok trivial
  | succ fuel ih =>
    intro pos out h h'
    refine .guard trivial fun hp => (safe_readU8 (by omega)).bind fun frameType _ => ?_
    refine .ite (fun _ => ih (by omega) (by omega)) fun _ => .ite (fun _ => ?_) fun _ => .ite (fun _ => ?_)
      fun _ => .ok trivial
    · refine (skipAck_safe hd frameType (pos + 1)).bind fun r hr => ?_
      cases r with
      | none => exact .ok trivial
      | some e =>
        have := hr e rfl
        exact ih (by omega) (by omega)
    · refine (readCrypto_safe hd (pos + 1)).bind fun r hr => ?_
      cases r with
      | none => exact .ok trivial
      | some e =>
        have := hr e rfl
        exact ih (by omega) (by omega)

theorem collectCryptoFrames_safe : Safe (collectCryptoFrames data) fun _ => True :=
  cryptoFrameLoop_safe hd (Nat.zero_le _) (by omega)

theorem readConnectionId_safe (pos : ℕ) : Safe (readConnectionId data pos) fun r =>
    ∀ e, r = some e → pos < e.2 ∧ e.2 ≤ data.length := by
  refine .guard (by simp) fun hp => (safe_readU8 (by omega)).bind fun len hlen => ?_
  refine (safe_add (by omega)).bind fun stop hs => .guard (by simp) fun hle => ?_
  have hle := (not_or.mp hle).2
  refine (safe_window (by omega)).bind fun w _ => (safe_add (by omega)).bind fun next hn => .ok fun e he => ?_
  cases he
  dsimp only
  omega

/-- An accepted header leaves room for a packet number and an AEAD tag. -/
theorem parseHeader_safe : Safe (parseHeader data) fun r =>
    ∀ h, r = some h → 0 < h.pnOffset ∧ 17 ≤ h.length ∧ h.pnOffset + h.length ≤ data.length := by
  refine .guard (by simp) fun hl => (safe_readU8 (by omega)).bind fun first _ => .guard (by simp) fun _ => ?_
  refine (safe_readU32 (by omega)).bind fun version _ => ?_
  cases versionParams version with
  | none => exact .ok (by simp)
  | some params =>
    refine (readConnectionId_safe hd 5).bind fun r1 h1 => ?_
    cases r1 with
    | none => exact .ok (by simp)
    | some e1 =>
      have h1 := h1 e1 rfl
      refine (readConnectionId_safe hd e1.2).bind fun r2 h2 => ?_
      cases r2 with
      | none => exact .ok (by simp)
      | some e2 =>
        have h2 := h2 e2 rfl
        refine (readVarint_safe hd e2.2).bind fun r3 h3 => ?_
        cases r3 with
        | none => exact .ok (by simp)
        | some e3 =>
          have h3 := h3 e3 rfl
          refine .guard (by simp) fun htok => (safe_add (by omega)).bind fun stop hs => .guard (by simp) fun hle => ?_
          refine (safe_add (by omega)).bind fun at' hat => (readVarint_safe hd at').bind fun r4 h4 => ?_
          cases r4 with
          | none => exact .ok (by simp)
          | some e4 =>
            have h4 := h4 e4 rfl
            refine (safe_add (by omega)).bind fun stop hs => .guard (by simp) fun hle => ?_
            refine .guard (by simp) fun hlen => .ok fun h hh => ?_
            cases hh
            dsimp only
            omega

/-- The payload is as long as its ciphertext. -/
theorem openInitial_safe (m : Mbedtls) (h : InitialHeader) (hp : 0 < h.pnOffset) (hlen : 17 ≤ h.length)
    (hle : h.pnOffset + h.length ≤ data.length) : Safe (openInitial m data h) fun _ => True := by
  refine (safe_add (by omega)).bind fun sampleEnd hs => .guard trivial fun hse => ?_
  refine (safe_window (by omega)).bind fun sample _ => ?_
  cases deriveClientInitialKeys m h.params h.dcid with
  | none => exact .ok trivial
  | some keys =>
    refine (safe_readU8 (by omega)).bind fun firstByte _ => (safe_window (by omega)).bind fun pn _ => ?_
    dsimp only
    cases removeHeaderProtection m keys sample (UInt8.ofNat firstByte) pn with
    | none => exact .ok trivial
    | some e =>
      obtain ⟨first, pnBytes, pnLen⟩ := e
      refine .guard trivial fun _ => .guard trivial fun hpn => ?_
      have hpn := not_or.mp hpn
      refine (safe_add (by omega)).bind fun aadLen ha => (safe_window (by omega)).bind fun aad haad => ?_
      refine (safe_copyTo (by simp; omega)).bind fun aad' haad' => ?_
      have hpl : (pnBytes.take pnLen).length ≤ pnLen := List.length_take_le ..
      refine (safe_copyTo (by omega)).bind fun aad'' _ => ?_
      refine (safe_add (by omega)).bind fun payloadStart hps => (safe_add (by omega)).bind fun payloadEnd hpe => ?_
      refine (safe_add (by omega)).bind fun tagged ht => .guard trivial fun hroom => ?_
      refine (safe_sub (by omega)).bind fun left hl => (safe_sub (by omega)).bind fun ciphertextLen hc => ?_
      refine (safe_window (by omega)).bind fun ciphertext hct => ?_
      refine (safe_sub (by omega)).bind fun tagAt hta => (safe_window (by omega)).bind fun tag _ => ?_
      cases hdec : decryptPayload m keys _ aad'' ciphertext tag with
      | none => exact .ok trivial
      | some plaintext =>
        have hplain : plaintext.length < 2 ^ 63 := by
          unfold decryptPayload at hdec
          split_ifs at hdec
          obtain ⟨block, -, rfl⟩ := Option.map_eq_some_iff.mp hdec
          rw [block.2]
          omega
        refine (collectCryptoFrames_safe hplain).bind fun crypto _ => ?_
        cases crypto <;> exact .ok trivial

theorem parseInitial_safe (m : Mbedtls) : Safe (parseInitial m data) fun _ => True := by
  refine (parseHeader_safe hd).bind fun r hr => ?_
  cases r with
  | none => exact .ok trivial
  | some h =>
    obtain ⟨hp, hlen, hle⟩ := hr h rfl
    exact openInitial_safe hd m h hp hlen hle

theorem extractInitialSni_safe (m : Mbedtls) : Safe (extractInitialSni m data) fun _ => True := by
  obtain ⟨r, hr, -⟩ := parseInitial_safe hd m
  cases r with
  | none =>
    unfold extractInitialSni
    rw [hr]
    exact .ok trivial
  | some initial =>
    rw [extractInitialSni_eq hr (parseInitial_addressable hr)]
    exact (sniFromClientHello_iff _).mono fun _ _ => trivial

end

theorem looksLikeLongHeader_safe (data : Bytes) : Safe (looksLikeLongHeader data) fun _ => True := by
  refine .guard trivial fun hl => (safe_readU8 (by omega)).bind fun first _ => .guard trivial fun _ => ?_
  exact (safe_readU32 (by omega)).bind fun version _ => .ok trivial

end QuicParser
end NetProbe
