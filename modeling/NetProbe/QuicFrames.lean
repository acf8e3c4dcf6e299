/-
# The frames of a client Initial

How a client writes variable-length integers and the frames of an Initial, and
that the frame walk of `QuicParser` reads them back: `collectCryptoFrames` gives
the CRYPTO frames of any sequence of PADDING, PING, ACK and CRYPTO frames, in
order, whatever widths their integers are written in.

Key definitions: `VarInt`, `Frame`.
Key theorems: `readVarint_bytes`, `cryptoFrameLoop_frame`,
`collectCryptoFrames_bytes`.
-/
import NetProbe.QuicParser
import NetProbe.Wire

namespace NetProbe
namespace QuicParser

open Checked Bytes Wire

/-! ### Big-endian numbers -/

/-- `x` in `n` bytes, most significant first. -/
def bigEndian : (n x : ℕ) → Bytes
  | 0, _ => []
  | n + 1, x => UInt8.ofNat (x / 256 ^ n) :: bigEndian n x

@[simp] theorem length_bigEndian (n x : ℕ) : (bigEndian n x).length = n := by
  induction n with
  | zero => rfl
  | succ n ih => simp [bigEndian, ih]

/-- Shifting in the bytes of `x` appends its last `n` bytes. -/
theorem foldl_bigEndian (n x out : ℕ) :
    (bigEndian n x).foldl (fun n b => n <<< 8 ||| b.toNat) out = out * 256 ^ n + x % 256 ^ n := by
  induction n generalizing out with
  | zero => simp [bigEndian, Nat.mod_one]
  | succ n ih =>
    have hb : (UInt8.ofNat (x / 256 ^ n)).toNat < 256 := UInt8.toNat_lt _
    rw [bigEndian, List.foldl_cons, ih, shiftLeft_or (n := 8) hb, toNat_ofNat,
      Nat.pow_succ (n := 256), Nat.mod_mul]
    ring

theorem varintLoop_bigEndian {data : Bytes} (hdata : data.length < 2 ^ 63) {pos : ℕ} (n x : ℕ) :
    ∀ {i out : ℕ}, At data (pos + i) (bigEndian n x) →
      varintLoop data pos n i out = .ok (out * 256 ^ n + x % 256 ^ n) := by
  induction n with
  | zero =>
    intro i out _
    simp [varintLoop, Nat.mod_one]
  | succ n ih =>
    intro i out h
    have hle := h.le
    rw [length_bigEndian] at hle
    have hb : (UInt8.ofNat (x / 256 ^ n)).toNat < 256 := UInt8.toNat_lt _
    obtain ⟨h0, h1⟩ := at_cons.mp h
    rw [varintLoop, add_eq (by omega), ok_bind, h0.readU8, ok_bind, ih h1, shiftLeft_or (n := 8) hb,
      toNat_ofNat, Nat.pow_succ (n := 256), Nat.mod_mul]
    congr 1
    ring

/-! ### Variable-length integers -/

/-- An integer and the width it is written in: 1, 2, 4 or 8 bytes. -/
structure VarInt where
  value : ℕ
  form : Fin 4
  fits : value < 2 ^ (8 * 2 ^ form.val - 2)
  deriving DecidableEq

namespace VarInt

/-- The bytes of `v`: the form in the two top bits of the first. -/
def bytes (v : VarInt) : Bytes :=
  bigEndian (2 ^ v.form.val) (v.form.val * 2 ^ (8 * 2 ^ v.form.val - 2) + v.value)

@[simp] theorem length_bytes (v : VarInt) : v.bytes.length = 2 ^ v.form.val := length_bigEndian ..

theorem length_bytes_pos (v : VarInt) : 0 < v.bytes.length := by
  rw [length_bytes]; exact Nat.two_pow_pos _

theorem two_pow_form (v : VarInt) : 2 ^ (8 * 2 ^ v.form.val - 2) = 64 * 256 ^ (2 ^ v.form.val - 1) := by
  obtain ⟨k, hk⟩ : ∃ k, 2 ^ v.form.val = k + 1 :=
    ⟨2 ^ v.form.val - 1, by have := Nat.two_pow_pos v.form.val; omega⟩
  rw [hk, Nat.add_sub_cancel, show 8 * (k + 1) - 2 = 6 + 8 * k by omega, pow_add, pow_mul]
  norm_num

/-- The six value bits of the first byte. -/
def high (v : VarInt) : ℕ := v.value / 256 ^ (2 ^ v.form.val - 1)

theorem high_lt (v : VarInt) : v.high < 64 := by
  have h := v.fits
  rw [two_pow_form, Nat.mul_comm] at h
  exact Nat.div_lt_of_lt_mul h

/-- The first byte and the rest. -/
theorem bytes_eq (v : VarInt) :
    v.bytes = UInt8.ofNat (v.form.val * 64 + v.high) ::
      bigEndian (2 ^ v.form.val - 1) (v.form.val * (64 * 256 ^ (2 ^ v.form.val - 1)) + v.value) := by
  obtain ⟨k, hk⟩ : ∃ k, 2 ^ v.form.val = k + 1 :=
    ⟨2 ^ v.form.val - 1, by have := Nat.two_pow_pos v.form.val; omega⟩
  rw [bytes, two_pow_form, high, hk, bigEndian, Nat.add_sub_cancel]
  congr 2
  rw [← Nat.mul_assoc, Nat.add_comm, Nat.add_mul_div_right _ _ (Nat.pow_pos (by norm_num)), Nat.add_comm]

/-- The first byte and the rest give the value. -/
theorem high_mul_add (v : VarInt) : v.high * 256 ^ (2 ^ v.form.val - 1) +
    (v.form.val * (64 * 256 ^ (2 ^ v.form.val - 1)) + v.value) % 256 ^ (2 ^ v.form.val - 1) = v.value := by
  rw [← Nat.mul_assoc, Nat.add_comm _ v.value, Nat.add_mul_mod_self_right]
  exact Nat.div_add_mod' ..

end VarInt

theorem readVarint_bytes {data : Bytes} (hdata : data.length < 2 ^ 63) {pos : ℕ} {v : VarInt}
    (h : At data pos v.bytes) : readVarint data pos = .ok (some (v.value, pos + v.bytes.length)) := by
  have hle := h.le
  have hpos := v.length_bytes_pos
  have hlen := v.length_bytes
  have hhigh := v.high_lt
  have hform := v.form.isLt
  rw [v.bytes_eq] at h
  obtain ⟨h0, h1⟩ := at_cons.mp h
  have hfirst : (UInt8.ofNat (v.form.val * 64 + v.high)).toNat = v.form.val * 64 + v.high := by
    rw [toNat_ofNat]; omega
  have hshift : (v.form.val * 64 + v.high) >>> 6 = v.form.val := by
    rw [Nat.shiftRight_eq_div_pow]; omega
  have hmask : (v.form.val * 64 + v.high) &&& 0x3F = v.high := by
    rw [show 0x3F = 2 ^ 6 - 1 from rfl, Nat.and_two_pow_sub_one_eq_mod]; omega
  have hone : 1 <<< v.form.val = v.bytes.length := by rw [Nat.shiftLeft_eq, Nat.one_mul, hlen]
  unfold readVarint
  rw [if_neg (by omega), h0.readU8, ok_bind, hfirst, hshift, hone]
  dsimp only
  rw [add_eq (by omega), ok_bind, if_neg (by omega), hmask, hlen, varintLoop_bigEndian hdata _ _ h1,
    ok_bind, v.high_mul_add]
  rfl

theorem skipVarints_bytes {data : Bytes} (hdata : data.length < 2 ^ 63) :
    ∀ {vs : List VarInt} {pos : ℕ}, At data pos (vs.flatMap VarInt.bytes) →
      skipVarints data vs.length pos = .ok (some (pos + (vs.flatMap VarInt.bytes).length))
  | [], pos, _ => by simp [skipVarints]
  | v :: vs, pos, h => by
    rw [List.flatMap_cons, at_append] at h
    rw [List.length_cons, skipVarints, readVarint_bytes hdata h.1, ok_bind]
    dsimp only
    rw [skipVarints_bytes hdata h.2, List.flatMap_cons, List.length_append, Nat.add_assoc]

/-! ### Frames -/

/-- A frame of a client Initial, with the widths its integers are written in. -/
inductive Frame
  | padding
  | ping
  | ack (largest delay count first : VarInt) (ranges : List (VarInt × VarInt))
      (counted : count.value = ranges.length)
  | ackEcn (largest delay count first : VarInt) (ranges : List (VarInt × VarInt))
      (counted : count.value = ranges.length) (ect0 ect1 ce : VarInt)
  | crypto (offset length : VarInt) (data : Bytes) (measured : length.value = data.length)
      (offsetBound : offset.value ≤ 2 ^ 24) (lengthBound : data.length ≤ 2 ^ 24)

namespace Frame

/-- The gaps and lengths of an ACK frame's ranges. -/
def rangeBytes (ranges : List (VarInt × VarInt)) : List VarInt := ranges.flatMap fun r => [r.1, r.2]

theorem length_rangeBytes (ranges : List (VarInt × VarInt)) :
    (rangeBytes ranges).length = 2 * ranges.length := by
  induction ranges with
  | nil => rfl
  | cons r ranges ih =>
    rw [rangeBytes, List.flatMap_cons, List.length_append, ← rangeBytes, ih]
    simp only [List.length_cons, List.length_nil]
    omega

/-- The integers of an ACK frame. -/
def ackBytes (largest delay count first : VarInt) (ranges : List (VarInt × VarInt)) : Bytes :=
  largest.bytes ++ delay.bytes ++ count.bytes ++ first.bytes ++ (rangeBytes ranges).flatMap VarInt.bytes

/-- The frame on the wire. -/
def bytes : Frame → Bytes
  | padding => [0x00]
  | ping => [0x01]
  | ack largest delay count first ranges _ => 0x02 :: ackBytes largest delay count first ranges
  | ackEcn largest delay count first ranges _ ect0 ect1 ce =>
    0x03 :: (ackBytes largest delay count first ranges ++ [ect0, ect1, ce].flatMap VarInt.bytes)
  | crypto offset length data _ _ _ => 0x06 :: (offset.bytes ++ length.bytes ++ data)

/-- What the frame adds to the CRYPTO stream. -/
def fragments : Frame → List CryptoFragment
  | crypto offset _ data _ _ _ => [⟨offset.value, data⟩]
  | _ => []

theorem length_bytes_pos (f : Frame) : 0 < f.bytes.length := by
  cases f <;> simp [bytes]

end Frame

theorem length_le_flatMap_bytes (vs : List VarInt) : vs.length ≤ (vs.flatMap VarInt.bytes).length := by
  induction vs with
  | nil => simp
  | cons v vs ih =>
    have := v.length_bytes_pos
    rw [List.flatMap_cons, List.length_append, List.length_cons]
    omega

section Walk

variable {plaintext : Bytes} (hlen : plaintext.length < 2 ^ 63)
include hlen

/-- The integers of an ACK frame, up to its ECN counts. -/
theorem skipAck_bytes {pos t : ℕ} {largest delay count first : VarInt}
    {ranges : List (VarInt × VarInt)} (counted : count.value = ranges.length)
    (h : At plaintext pos (Frame.ackBytes largest delay count first ranges)) :
    skipAck plaintext t pos =
      if t = 0x03 then
        skipVarints plaintext 3 (pos + (Frame.ackBytes largest delay count first ranges).length)
      else .ok (some (pos + (Frame.ackBytes largest delay count first ranges).length)) := by
  have hle := h.le
  have hranges := length_le_flatMap_bytes (Frame.rangeBytes ranges)
  have hcount := Frame.length_rangeBytes ranges
  simp only [Frame.ackBytes, List.length_append] at hle ⊢
  simp only [Frame.ackBytes, List.append_assoc, at_append] at h
  obtain ⟨h1, h2, h3, h4, h5⟩ := h
  have hskip := skipVarints_bytes hlen h5
  rw [hcount] at hskip
  unfold skipAck
  rw [readVarint_bytes hlen h1, ok_bind]
  dsimp only
  rw [readVarint_bytes hlen h2, ok_bind]
  dsimp only
  rw [readVarint_bytes hlen h3, ok_bind]
  dsimp only
  rw [readVarint_bytes hlen h4, ok_bind]
  dsimp only
  rw [if_neg (by omega), counted, hskip, ok_bind]
  simp only [Nat.add_assoc]
  rfl

theorem readCrypto_bytes {pos : ℕ} {offset length : VarInt} {data : Bytes}
    (measured : length.value = data.length) (ho : offset.value ≤ 2 ^ 24) (hl : data.length ≤ 2 ^ 24)
    (h : At plaintext pos (offset.bytes ++ length.bytes ++ data)) :
    readCrypto plaintext pos =
      .ok (some (⟨offset.value, data⟩, pos + (offset.bytes ++ length.bytes ++ data).length)) := by
  have hle := h.le
  have hk : kSaneCryptoBound = 2 ^ 24 := rfl
  simp only [List.length_append] at hle ⊢
  simp only [List.append_assoc, at_append] at h
  obtain ⟨h1, h2, h3⟩ := h
  unfold readCrypto
  rw [readVarint_bytes hlen h1, ok_bind]
  dsimp only
  rw [readVarint_bytes hlen h2, ok_bind]
  dsimp only
  rw [sub_eq (by omega), ok_bind, if_neg (by omega), if_neg (by rw [hk]; omega), measured, h3.window,
    ok_bind, add_eq (by omega), ok_bind]
  simp only [Nat.add_assoc]
  rfl

/-- One turn of the frame loop reads one frame. -/
theorem cryptoFrameLoop_frame {f : Frame} {fuel pos : ℕ} {out : List CryptoFragment}
    (h : At plaintext pos f.bytes) :
    cryptoFrameLoop plaintext (fuel + 1) pos out =
      cryptoFrameLoop plaintext fuel (pos + f.bytes.length) (out ++ f.fragments) := by
  have hle := h.le
  have hpos := f.length_bytes_pos
  rw [cryptoFrameLoop, if_neg (by omega)]
  cases f with
  | padding =>
    rw [At.readU8 h, ok_bind, if_pos (.inl rfl)]
    simp [Frame.fragments, Frame.bytes]
  | ping =>
    rw [At.readU8 h, ok_bind, if_pos (.inr rfl)]
    simp [Frame.fragments, Frame.bytes]
  | ack largest delay count first ranges counted =>
    have hack := fun type => skipAck_bytes hlen (t := type) counted (at_cons.mp h).2
    rw [At.readU8 h, ok_bind, if_neg (by decide), if_pos (.inl rfl)]
    rw [show (2 : UInt8).toNat = 2 from rfl, hack, if_neg (by decide), ok_bind]
    simp [Frame.fragments, Frame.bytes, Nat.add_assoc, Nat.add_comm 1]
  | ackEcn largest delay count first ranges counted ect0 ect1 ce =>
    obtain ⟨h1, h2⟩ := at_append.mp (at_cons.mp h).2
    have hack := fun type => skipAck_bytes hlen (t := type) counted h1
    have hecn := skipVarints_bytes hlen h2
    rw [At.readU8 h, ok_bind, if_neg (by decide), if_pos (.inr rfl)]
    rw [show (3 : UInt8).toNat = 3 from rfl, hack, if_pos rfl]
    rw [show 3 = [ect0, ect1, ce].length from rfl, hecn, ok_bind]
    simp [Frame.fragments, Frame.bytes, Nat.add_assoc, Nat.add_comm 1]
  | crypto offset length data measured ho hl =>
    have hcrypto := readCrypto_bytes hlen measured ho hl (at_cons.mp h).2
    rw [At.readU8 h, ok_bind, if_neg (by decide), if_neg (by decide), if_pos (by decide), hcrypto,
      ok_bind]
    simp [Frame.fragments, Frame.bytes, Nat.add_assoc, Nat.add_comm 1]

/-- The frame loop reads every frame up to the end of the payload. -/
theorem cryptoFrameLoop_bytes : ∀ {frames : List Frame} {fuel pos : ℕ} {out : List CryptoFragment},
    At plaintext pos (frames.flatMap Frame.bytes) →
    pos + (frames.flatMap Frame.bytes).length = plaintext.length → plaintext.length ≤ pos + fuel →
    cryptoFrameLoop plaintext fuel pos out = .ok (some (out ++ frames.flatMap Frame.fragments)) := by
  intro frames
  induction frames with
  | nil =>
    intro fuel pos out _ hend _
    simp only [List.flatMap_nil, List.length_nil, Nat.add_zero, List.append_nil] at hend ⊢
    cases fuel with
    | zero => rw [cryptoFrameLoop, if_neg (by omega)]
    | succ fuel => rw [cryptoFrameLoop, if_pos (by omega)]; rfl
  | cons f frames ih =>
    intro fuel pos out h hend hfuel
    have hpos := f.length_bytes_pos
    rw [List.flatMap_cons, List.length_append] at hend
    rw [List.flatMap_cons, at_append] at h
    cases fuel with
    | zero => omega
    | succ fuel =>
      rw [cryptoFrameLoop_frame hlen h.1, ih h.2 (by omega) (by omega), List.flatMap_cons,
        List.append_assoc]

/-- The frame walk inverts writing a payload's frames one after the other. -/
theorem collectCryptoFrames_bytes {frames : List Frame} (h : plaintext = frames.flatMap Frame.bytes) :
    collectCryptoFrames plaintext = .ok (some (frames.flatMap Frame.fragments)) := by
  have hat : At plaintext 0 (frames.flatMap Frame.bytes) := h ▸ At.refl _
  exact cryptoFrameLoop_bytes hlen hat (by rw [h, Nat.zero_add]) (by omega)

end Walk

end QuicParser
end NetProbe
