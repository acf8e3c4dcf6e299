/-
# JsonStrings

The string literals of the JSON export. `appendJsonString` walks the bytes of
the value, escapes the ASCII characters that JSON does not take as they are,
copies each valid sequence of several bytes and writes U+FFFD for any other
byte. Whatever the value, what it appends is one literal, and reading it back
gives the value (`appendJsonString_read_back`).

Key definitions: `leadByte`, `validSequence`, `appendJsonString`.
Key theorems: `validSequence_safe`, `jsonLoop_spells`, `appendJsonString_read_back`.
-/
import NetProbe.Checked
import NetProbe.Json
import NetProbe.Utf8

namespace NetProbe
namespace FlowExporter

open Bytes Checked

def kHex : List Char := "0123456789abcdef".toList

/-- What is written for the character `c` below 0x80. -/
def asciiText (c : Char) : List Char :=
  match c with
  | '"' => ['\\', '"']
  | '\\' => ['\\', '\\']
  | '\x08' => ['\\', 'b']
  | '\x0C' => ['\\', 'f']
  | '\n' => ['\\', 'n']
  | '\r' => ['\\', 'r']
  | '\t' => ['\\', 't']
  | _ =>
    if c.toNat < 0x20 then
      ['\\', 'u', '0', '0', kHex.getD (c.toNat >>> 4 &&& 0x0F) '0', kHex.getD (c.toNat &&& 0x0F) '0']
    else [c]

/-- The length that a first byte from 0x80 on declares (0: none) and its bits of the code point. -/
def leadByte (c : ℕ) : ℕ × ℕ :=
  if c &&& 0xE0 = 0xC0 then (2, c &&& 0x1F)
  else if c &&& 0xF0 = 0xE0 then (3, c &&& 0x0F)
  else if c &&& 0xF8 = 0xF0 then (4, c &&& 0x07)
  else (0, 0)

/-- The code point once `count` more bytes from `position` on are read; none where one is no continuation. -/
def continuationLoop (bytes : Bytes) : (count position codepoint : ℕ) → Checked (Option ℕ)
  | 0, _, codepoint => return some codepoint
  | count + 1, position, codepoint => do
    let continuation ← readU8 bytes position
    if continuation &&& 0xC0 ≠ 0x80 then return none
    continuationLoop bytes count (position + 1) (codepoint <<< 6 ||| (continuation &&& 0x3F))

def overlong (length codepoint : ℕ) : Bool :=
  (length = 2 && codepoint < 0x80) || (length = 3 && codepoint < 0x800) || (length = 4 && codepoint < 0x10000)

def surrogate (codepoint : ℕ) : Bool := 0xD800 ≤ codepoint && codepoint ≤ 0xDFFF

/-- The length of the sequence at `i`, where the byte is `c`, if it is valid. -/
def validSequence (bytes : Bytes) (i c : ℕ) : Checked (Option ℕ) := do
  let (length, lead) := leadByte c
  if length = 0 ∨ bytes.length < i + length then return none
  match ← continuationLoop bytes (length - 1) (i + 1) lead with
  | none => return none
  | some codepoint =>
    return if overlong length codepoint || surrogate codepoint || codepoint > 0x10FFFF then none else some length

def jsonLoop (bytes : Bytes) : (fuel : ℕ) → (out : Bytes) → (i : ℕ) → Checked Bytes
  | 0, _, _ => throw .outOfFuel
  | fuel + 1, out, i =>
    if i < bytes.length then do
      let c ← readU8 bytes i
      if c < 0x80 then jsonLoop bytes fuel (out ++ Utf8.encode (asciiText (Char.ofNat c))) (i + 1)
      else
        match ← validSequence bytes i c with
        | none => jsonLoop bytes fuel (out ++ [0xEF, 0xBF, 0xBD]) (i + 1)
        | some length => do
          let sequence ← window bytes i length
          jsonLoop bytes fuel (out ++ sequence) (i + length)
    else return out

def appendJsonString (out value : Bytes) : Checked Bytes := do
  let out ← jsonLoop value (value.length + 1) (out ++ Utf8.encode ['"']) 0
  return out ++ Utf8.encode ['"']

/-! ### ASCII -/

theorem hexDigit_kHex : ∀ n < 16, Json.hexDigit (kHex.getD n '0') = some n := by decide

theorem spells_control {c : Char} (hc : c.toNat < 0x20) :
    Json.Spells ['\\', 'u', '0', '0', kHex.getD (c.toNat >>> 4 &&& 0x0F) '0', kHex.getD (c.toNat &&& 0x0F) '0']
      [c] := by
  have hsum : ∀ v < 0x20, ((0 * 16 + 0) * 16 + (v >>> 4 &&& 0x0F)) * 16 + (v &&& 0x0F) = v := by decide
  have hzero : Json.hexDigit '0' = some 0 := rfl
  have hdigit : ∀ v, v &&& 0x0F < 16 := fun v => Nat.and_lt_two_pow v (n := 4) (by decide)
  have h := Json.spells_unit hzero hzero (hexDigit_kHex _ (hdigit (c.toNat >>> 4)))
    (hexDigit_kHex _ (hdigit c.toNat)) (by rw [hsum _ hc]; omega)
  rwa [hsum _ hc, Char.ofNat_toNat] at h

theorem spells_asciiText (c : Char) : Json.Spells (asciiText c) [c] := by
  unfold asciiText
  split
  case h_8 hquote hbackslash _ _ _ _ _ =>
    split
    · exact spells_control ‹_›
    · exact Json.spells_plain hquote hbackslash (by omega)
  all_goals exact Json.spells_short rfl

/-! ### Sequences -/

/-- What a first byte declares. -/
theorem leadByte_mark : ∀ n, 1 ≤ n ∧ n ≤ 3 → ∀ lead < 2 ^ (6 - n), leadByte (Utf8.mark n + lead) = (n + 1, lead) := by
  rintro n ⟨h1, h3⟩
  interval_cases n <;> decide

theorem leadByte_declares : ∀ c < 256, leadByte c = (0, 0) ∨
    (1 ≤ (leadByte c).1 - 1 ∧ (leadByte c).1 - 1 ≤ 3) ∧
      (leadByte c).2 < 2 ^ (6 - ((leadByte c).1 - 1)) ∧ c = Utf8.mark ((leadByte c).1 - 1) + (leadByte c).2 := by
  decide +kernel

theorem slice_succ {bytes : Bytes} {i : ℕ} (hi : i < bytes.length) (n : ℕ) :
    slice bytes i (n + 1) = UInt8.ofNat (u8 bytes i) :: slice bytes (i + 1) n := by
  rw [slice, List.drop_eq_getElem_cons hi, List.take_succ_cons, u8, List.getD_eq_getElem?_getD,
    List.getElem?_eq_getElem hi,
    Option.getD_some, UInt8.ofNat_toNat, slice]

theorem continuation_iff : ∀ b < 256, b &&& 0xC0 = 0x80 ↔ 0x80 ≤ b ∧ b < 0xC0 := by decide +kernel

/-- The loop reads six bits a byte: its code points are those whose last bytes these are. -/
theorem continuationLoop_safe {bytes : Bytes} : ∀ {count position lead : ℕ}, position + count ≤ bytes.length →
    Safe (continuationLoop bytes count position lead) fun r => ∀ v,
      r = some v ↔ slice bytes position count = Utf8.tail count v ∧ v / 64 ^ count = lead := by
  intro count
  induction count with
  | zero =>
    intro position lead _
    refine .ok fun v => ?_
    simp [slice, Utf8.tail, eq_comm]
  | succ count ih =>
    intro position lead h
    have hb := u8_lt bytes position
    have hsix : ∀ v, v / 64 ^ (count + 1) = v / 64 ^ count / 64 := fun v => by rw [pow_succ, Nat.div_div_eq_div_mul]
    rw [continuationLoop, readU8_eq (by omega)]
    simp only [ok_bind]
    rw [slice_succ (by omega)]
    refine .ite (fun hc => .ok fun v => ?_) fun hc => ?_
    · -- the byte that stops the loop is none of a sequence
      rw [Ne, continuation_iff _ hb] at hc
      refine iff_of_false (by simp) ?_
      rintro ⟨hs, -⟩
      have hbyte := congrArg UInt8.toNat (List.cons.inj hs).1
      rw [UInt8.toNat_ofNat', UInt8.toNat_ofNat'] at hbyte
      omega
    · rw [not_not, continuation_iff _ hb] at hc
      refine (ih (by omega)).mono fun r hr v => ?_
      rw [hr, shiftLeft_or (Nat.and_lt_two_pow _ (by decide)), Nat.and_two_pow_sub_one_eq_mod _ 6, hsix, Utf8.tail,
        List.cons.injEq, ← UInt8.toNat_inj, UInt8.toNat_ofNat', UInt8.toNat_ofNat']
      constructor
      · rintro ⟨hs, hv⟩
        exact ⟨⟨by omega, hs⟩, by omega⟩
      · rintro ⟨⟨hbyte, hs⟩, hv⟩
        exact ⟨hs, by omega⟩

/-- The checks on a code point of `n + 1` bytes leave the characters of so many. -/
theorem codepoint_iff {n v : ℕ} (hn : 1 ≤ n ∧ n ≤ 3) (hlead : v / 64 ^ n < 2 ^ (6 - n)) :
    (overlong (n + 1) v || surrogate v || decide (v > 0x10FFFF)) = false ↔
      v.isValidChar ∧ Utf8.least n ≤ v ∧ v < Utf8.least (n + 1) := by
  obtain ⟨h1, h3⟩ := hn
  interval_cases n <;> simp [overlong, surrogate, Utf8.least, Nat.isValidChar] at hlead ⊢ <;> omega

/-- A character of several bytes stands at `i`, and `length` is how many. -/
def CharAt (bytes : Bytes) (i length : ℕ) : Prop :=
  ∃ c : Char, 0x80 ≤ c.toNat ∧ i + length ≤ bytes.length ∧ slice bytes i length = String.utf8EncodeChar c

theorem charAt_iff {bytes : Bytes} {i length : ℕ} (hi : i < bytes.length) : CharAt bytes i length ↔
    ∃ n v, (1 ≤ n ∧ n ≤ 3) ∧ length = n + 1 ∧ i + (n + 1) ≤ bytes.length ∧
      leadByte (u8 bytes i) = (n + 1, v / 64 ^ n) ∧ slice bytes (i + 1) n = Utf8.tail n v ∧
      (overlong (n + 1) v || surrogate v || decide (v > 0x10FFFF)) = false := by
  have hb := u8_lt bytes i
  constructor
  · rintro ⟨c, hc, hl, hs⟩
    obtain ⟨n, hn, hle, hlt⟩ := Utf8.exists_follow hc
    have henc := Utf8.encodeChar_multibyte hn hle hlt
    have hlead := Utf8.lead_lt hn hlt
    obtain rfl : length = n + 1 := by
      rw [← length_slice bytes hl, hs, henc, List.length_cons, Utf8.length_tail]
    rw [henc, slice_succ hi, List.cons.injEq, ← UInt8.toNat_inj, UInt8.toNat_ofNat', UInt8.toNat_ofNat',
      Nat.mod_eq_of_lt hb, Nat.mod_eq_of_lt (Utf8.first_lt hn hlt)] at hs
    obtain ⟨hfirst, hs⟩ := hs
    refine ⟨n, c.toNat, hn, rfl, hl, ?_, hs, (codepoint_iff hn hlead).mpr ⟨c.valid, hle, hlt⟩⟩
    rw [hfirst, leadByte_mark n hn _ hlead]
  · rintro ⟨n, v, hn, rfl, hl, hlead, hs, hv⟩
    rcases leadByte_declares _ hb with h0 | ⟨-, hlt, hfirst⟩
    · rw [h0] at hlead
      cases hlead
    rw [hlead] at hlt hfirst
    obtain ⟨hvalid, hle, hlt'⟩ := (codepoint_iff hn hlt).mp hv
    have hc : (Char.ofNat v).toNat = v := by
      rw [Char.ofNat, dif_pos hvalid]
      rfl
    refine ⟨Char.ofNat v, ?_, hl, ?_⟩
    · rw [hc]
      exact (Utf8.le_least hn).trans hle
    · rw [Utf8.encodeChar_multibyte hn (by rwa [hc]) (by rwa [hc]), hc, slice_succ hi, hs, hfirst]
      rfl

theorem validSequence_safe {bytes : Bytes} {i : ℕ} (hi : i < bytes.length) :
    Safe (validSequence bytes i (u8 bytes i)) fun r => ∀ length, r = some length ↔ CharAt bytes i length := by
  have hcharAt := fun {length : ℕ} => @charAt_iff bytes i length hi
  have hdeclares := leadByte_declares _ (u8_lt bytes i)
  rw [validSequence]
  generalize leadByte (u8 bytes i) = first at hcharAt hdeclares
  obtain ⟨size, lead⟩ := first
  refine .ite (fun h => .ok fun length => iff_of_false (by simp) fun hc => ?_) fun h => ?_
  · obtain ⟨n, v, -, rfl, hl, hfirst, -⟩ := hcharAt.mp hc
    obtain ⟨rfl, -⟩ := Prod.mk.inj hfirst
    omega
  · obtain ⟨n, rfl⟩ : ∃ n, size = n + 1 := ⟨size - 1, by omega⟩
    rw [Nat.add_sub_cancel]
    refine (continuationLoop_safe (by omega)).bind fun r hr => ?_
    cases r with
    | none =>
      refine .ok fun length => iff_of_false (by simp) fun hc => ?_
      obtain ⟨m, v, -, rfl, hl, hfirst, hs, -⟩ := hcharAt.mp hc
      obtain ⟨hm, rfl⟩ := Prod.mk.inj hfirst
      obtain rfl := Nat.succ.inj hm
      cases (hr v).mpr ⟨hs, rfl⟩
    | some v =>
      obtain ⟨hs, rfl⟩ := (hr v).mp rfl
      have hn : 1 ≤ n ∧ n ≤ 3 := by
        rcases hdeclares with h0 | ⟨hn, -⟩
        · cases h0
        · exact hn
      refine .ok fun length => ⟨fun hl => ?_, fun hc => ?_⟩
      · split at hl
        · cases hl
        · rename_i hv
          obtain rfl := Option.some.inj hl
          exact hcharAt.mpr ⟨n, v, hn, rfl, by omega, rfl, hs, Bool.eq_false_iff.mpr hv⟩
      · obtain ⟨m, w, -, rfl, -, hfirst, hs', hv⟩ := hcharAt.mp hc
        obtain ⟨hm, hlead⟩ := Prod.mk.inj hfirst
        obtain rfl := Nat.succ.inj hm
        obtain rfl := Option.some.inj ((hr w).mpr ⟨hs', hlead.symm⟩)
        rw [hv]
        rfl

/-! ### The literal -/

theorem drop_of_slice {bytes front : Bytes} {i n : ℕ} (h : slice bytes i n = front) :
    bytes.drop i = front ++ bytes.drop (i + n) := by
  rw [← h, slice, ← List.drop_drop, List.take_append_drop]

/-- A byte from 0x80 on starts a sequence where a character of several bytes stands. -/
theorem charAt_of_starts {bytes : Bytes} {i : ℕ} (hi : i < bytes.length) (h8 : 0x80 ≤ u8 bytes i)
    (h : Utf8.Starts (bytes.drop i)) : ∃ length, CharAt bytes i length := by
  obtain ⟨c, rest, h⟩ := h
  have hlen := congrArg List.length h
  rw [List.length_drop, List.length_append] at hlen
  have hs : slice bytes i (String.utf8EncodeChar c).length = String.utf8EncodeChar c := by
    rw [slice, h, List.take_left]
  refine ⟨(String.utf8EncodeChar c).length, c, ?_, by omega, hs⟩
  by_contra hc
  rw [Utf8.encodeChar_ascii (not_le.mp hc), List.length_singleton, slice_succ hi, List.cons.injEq,
    ← UInt8.toNat_inj, UInt8.toNat_ofNat', UInt8.toNat_ofNat'] at hs
  have := u8_lt bytes i
  omega

/-- What the loop appends from `i` on is text for the bytes from `i` on, with the invalid ones replaced. -/
theorem jsonLoop_spells {bytes : Bytes} : ∀ {fuel i : ℕ} {out : Bytes}, i ≤ bytes.length → bytes.length < i + fuel →
    ∃ text value, jsonLoop bytes fuel out i = .ok (out ++ Utf8.encode text) ∧ Json.Spells text value ∧
      Utf8.Replaces (bytes.drop i) value := by
  intro fuel
  induction fuel with
  | zero => intros; omega
  | succ fuel ih =>
    intro i out hi hf
    -- one round: `piece` stands for the character `c`, and `rest` starts at `j`
    have hround : ∀ {j : ℕ} {piece : List Char} {c : Char}, i < j → j ≤ bytes.length → Json.Spells piece [c] →
        (∀ {value}, Utf8.Replaces (bytes.drop j) value → Utf8.Replaces (bytes.drop i) (c :: value)) →
        ∃ text value, jsonLoop bytes fuel (out ++ Utf8.encode piece) j = .ok (out ++ Utf8.encode text) ∧
          Json.Spells text value ∧ Utf8.Replaces (bytes.drop i) value := by
      intro j piece c hij hj hpiece hrep
      obtain ⟨text, value, hloop, hspells, hvalue⟩ := @ih j (out ++ Utf8.encode piece) hj (by omega)
      refine ⟨piece ++ text, c :: value, ?_, hpiece.append hspells, hrep hvalue⟩
      rw [hloop, Utf8.encode_append, List.append_assoc]
    rw [jsonLoop]
    by_cases hend : i < bytes.length
    · rw [if_pos hend, readU8_eq hend, ok_bind]
      have hcons : bytes.drop i = UInt8.ofNat (u8 bytes i) :: bytes.drop (i + 1) :=
        drop_of_slice (slice_succ hend 0)
      split
      · rename_i hc
        have hnat : (Char.ofNat (u8 bytes i)).toNat = u8 bytes i := by
          rw [Char.ofNat, dif_pos (Or.inl (by omega))]
          rfl
        refine hround (Nat.lt_succ_self i) hend (spells_asciiText _) fun hvalue => ?_
        have hkept := hvalue.kept (Char.ofNat (u8 bytes i))
        rwa [Utf8.encodeChar_ascii (by omega), hnat, List.singleton_append, ← hcons] at hkept
      · rename_i hc
        obtain ⟨r, hr, hspec⟩ := validSequence_safe hend
        rw [hr, ok_bind]
        cases r with
        | none =>
          have hpiece : Json.Spells ['\uFFFD'] ['\uFFFD'] := Json.spells_plain (by decide) (by decide) (by decide)
          refine hround (Nat.lt_succ_self i) hend hpiece fun hvalue => ?_
          rw [hcons]
          refine .replaced (fun hstarts => ?_) hvalue
          obtain ⟨length, hl⟩ := charAt_of_starts hend (not_lt.mp hc) (hcons ▸ hstarts)
          cases (hspec length).mpr hl
        | some length =>
          obtain ⟨c, h8, hl, hs⟩ := (hspec length).mp rfl
          have hne : ∀ {d : Char}, d.toNat < 0x80 → c ≠ d := by
            rintro d hd rfl
            omega
          have hpos : 0 < length := by
            rw [← length_slice bytes hl, hs]
            exact List.length_pos_iff.mpr (Utf8.encodeChar_ne_nil c)
          have hpiece : slice bytes i length = Utf8.encode [c] := by
            rw [hs, Utf8.encode_cons, Utf8.encode_nil, List.append_nil]
          simp only [window_eq hl, ok_bind, hpiece]
          refine hround (by omega) hl (Json.spells_plain (hne (by decide)) (hne (by decide)) (by omega)) fun hvalue => ?_
          rw [drop_of_slice hs]
          exact hvalue.kept c
    · rw [if_neg hend]
      refine ⟨[], [], by simp, .nil, ?_⟩
      rw [List.drop_eq_nil_of_le (by omega)]
      exact .nil

/-- **JSON strings are valid and faithful.** For every value and every buffer,
`appendJsonString` appends UTF-8 text without control characters that is one
string literal, and the literal stands for the value with each byte that starts
no valid sequence replaced: for the value itself if that is valid. -/
theorem appendJsonString_read_back (out value : Bytes) : ∃ text string : List Char,
    appendJsonString out value = .ok (out ++ Utf8.encode text) ∧
    Json.read text = some string ∧ (∀ b ∈ Utf8.encode text, 0x20 ≤ b) ∧
    Utf8.Replaces value string ∧ (Utf8.Valid value → Utf8.encode string = value) := by
  obtain ⟨text, string, hloop, hspells, hvalue⟩ := @jsonLoop_spells value (value.length + 1) 0
    (out ++ Utf8.encode ['"']) (Nat.zero_le _) (by omega)
  rw [List.drop_zero] at hvalue
  have hread := Json.read_quoted hspells
  refine ⟨'"' :: (text ++ ['"']), string, ?_, hread, Utf8.ge_of_mem_encode (Json.ge_of_read hread), hvalue,
    hvalue.encode_eq⟩
  rw [appendJsonString, hloop, ok_bind, pure_eq]
  simp [Utf8.encode_append]

end FlowExporter
end NetProbe
