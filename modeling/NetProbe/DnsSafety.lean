/-
# DNSParser never faults

Every loop of the message walk ends, reads inside the message and subtracts
nothing that wraps, whatever the message says. A name is read with at most
`size` pointers, and between two pointers the cursor only moves forward, so the
fuel of `readName` is never used up. What the data of a record gives is said
type by type, from `readAnswer_a` to `readAnswer_other`.

Key theorems: `readName_safe`, `parseMessage_safe`, `parseResponse_safe`.
-/
import NetProbe.DNSParser

namespace NetProbe
namespace DNSParser

open Checked Bytes

section Message

variable {message : Bytes}

/-- What is left of the fuel pays for the pointers not yet followed, a whole
pass of the message each, and for the rest of this pass. -/
theorem readNameLoop_safe : ∀ {fuel : ℕ} {name : String} {cursor pointerCount position : ℕ} {followed : Bool},
    pointerCount ≤ message.length → (followed = true → position ≤ message.length) →
    (message.length - pointerCount) * (message.length + 1) + (message.length - cursor) < fuel →
    Safe (readNameLoop message fuel name cursor pointerCount followed position)
      fun r => ∀ e ∈ r, e.2 ≤ message.length := by
  intro fuel
  induction fuel with
  | zero => intro name cursor pointerCount position followed _ _ h; omega
  | succ fuel ih =>
    intro name cursor pointerCount position followed hpc hpos h
    refine .ite (fun hc => ?_) fun _ => .ok (by simp)
    refine (safe_readU8 hc).bind fun labelLength _ => ?_
    refine .ite (fun _ => ?_) fun hl => .ite (fun _ => ?_) fun _ => ?_
    · refine .ok ?_
      rintro e ⟨⟩
      dsimp only
      split
      · exact hpos ‹_›
      · omega
    · -- a pointer: one pass fewer
      refine .guard (by simp) fun hg => (safe_readU8 (by omega)).bind fun low _ => .guard (by simp) fun hp => ?_
      obtain ⟨k, hk⟩ : ∃ k, message.length - pointerCount = k + 1 := ⟨message.length - pointerCount - 1, by omega⟩
      have hk' : message.length - (pointerCount + 1) = k := by omega
      rw [hk, Nat.add_mul, Nat.one_mul] at h
      refine ih (by omega) (fun _ => ?_) (by rw [hk']; omega)
      split
      · exact hpos ‹_›
      · omega
    · -- a label: the cursor moves on
      refine .guard (by simp) fun hg => (safe_window (by omega)).bind fun label _ => ?_
      exact ih hpc hpos (by omega)

theorem readName_safe (position : ℕ) :
    Safe (readName message position) fun r => ∀ e ∈ r, e.2 ≤ message.length := by
  refine readNameLoop_safe (Nat.zero_le _) (by simp) ?_
  rw [Nat.sub_zero, Nat.add_mul, Nat.one_mul]
  omega

/-! ### Answer records -/

variable {recordEnd : ℕ}

theorem svcParamLoop_safe (h : recordEnd ≤ message.length) : ∀ {fuel position : ℕ}, 0 < fuel →
    recordEnd < position + fuel → Safe (svcParamLoop message recordEnd fuel position) fun _ => True := by
  intro fuel
  induction fuel with
  | zero => intro position h0; omega
  | succ fuel ih =>
    intro position _ hf
    refine .ite (fun hp => ?_) fun _ => .ok trivial
    refine (safe_readU16 (by omega)).bind fun key _ => (safe_readU16 (by omega)).bind fun valueLength _ => ?_
    refine (safe_sub (by omega)).bind fun room hroom => .guard trivial fun hv => .guard trivial fun _ => ?_
    exact ih (by omega) (by omega)

theorem svcbAdvertisesEch_safe (h : recordEnd ≤ message.length) {position : ℕ} (hp : position ≤ recordEnd) :
    Safe (svcbAdvertisesEch message position recordEnd) fun _ => True := by
  refine (safe_sub hp).bind fun room _ => .guard trivial fun _ => ?_
  refine (readName_safe (position + 2)).bind fun target _ => ?_
  cases target with
  | none => exact .ok trivial
  | some e => exact svcParamLoop_safe h (by omega) (by omega)

/-- The joined text never grows past its limit. -/
theorem txtLoop_safe (h : recordEnd ≤ message.length) : ∀ {fuel cursor : ℕ} {text : Bytes},
    text.length ≤ kMaxTxtBytes → 0 < fuel → recordEnd < cursor + fuel →
    Safe (txtLoop message recordEnd fuel cursor text) fun r => r.length ≤ kMaxTxtBytes := by
  intro fuel
  induction fuel with
  | zero => intro cursor text _ h0; omega
  | succ fuel ih =>
    intro cursor text ht _ hf
    refine .ite (fun hc => ?_) fun _ => .ok ht
    refine (safe_readU8 (by omega)).bind fun chunkLength _ => ?_
    refine (safe_sub (by omega)).bind fun room hroom => .guard ht fun hl => ?_
    extract_lets joined
    have hj : joined.length ≤ kMaxTxtBytes := by
      simp only [joined]
      split
      · rw [List.length_append, List.length_singleton]
        omega
      · exact ht
    refine (safe_sub hj).bind fun left hleft => (safe_window (by omega)).bind fun chunk hchunk => ?_
    refine ih ?_ (by omega) (by omega)
    rw [List.length_append, hchunk.2]
    omega

/-! ### Record data, type by type -/

section Types

variable {sys : Platform} {owner : String} {position dataLength : ℕ} {target : Option (String × ℕ)}

theorem readAnswer_a (h : position + dataLength ≤ message.length) :
    readAnswer sys message owner rrA position dataLength =
      .ok (if dataLength = 4 then some ⟨.A, owner, sys.inetNtop4 (slice message position 4), 0⟩ else none, false) := by
  unfold readAnswer
  dsimp only
  rw [if_pos rfl]
  split_ifs
  · rw [window_eq (by omega)]
    rfl
  · rfl

theorem readAnswer_aaaa (h : position + dataLength ≤ message.length) :
    readAnswer sys message owner rrAaaa position dataLength =
      .ok (if dataLength = 16 then some ⟨.AAAA, owner, sys.inetNtop6 (slice message position 16), 0⟩
        else none, false) := by
  unfold readAnswer
  dsimp only
  rw [if_neg (by decide), if_pos rfl]
  split_ifs
  · rw [window_eq (by omega)]
    rfl
  · rfl

theorem readAnswer_cname (hname : readName message position = .ok target) :
    readAnswer sys message owner rrCname position dataLength = .ok (target.bind fun t =>
      if t.2 ≤ position + dataLength then some ⟨.CNAME, owner, t.1, 0⟩ else none, false) := by
  unfold readAnswer
  dsimp only
  rw [if_neg (by decide), if_neg (by decide), if_pos rfl, hname]
  cases target <;> rfl

theorem readAnswer_ptr (hname : readName message position = .ok target) :
    readAnswer sys message owner rrPtr position dataLength = .ok (target.bind fun t =>
      if t.2 ≤ position + dataLength ∧ t.1 ≠ "" then some ⟨.PTR, owner, t.1, 0⟩ else none, false) := by
  unfold readAnswer
  dsimp only
  rw [if_neg (by decide), if_neg (by decide), if_neg (by decide), if_pos rfl, hname]
  cases target <;> rfl

theorem readAnswer_srv (h : position + dataLength ≤ message.length)
    (hname : readName message (position + 6) = .ok target) :
    readAnswer sys message owner rrSrv position dataLength = .ok (if dataLength < 7 then none else target.bind fun t =>
      if t.2 ≤ position + dataLength ∧ t.1 ≠ "" then
        some ⟨.SRV, owner, t.1 ++ ":" ++ toString (u16 message (position + 4)), u16 message position⟩
        else none, false) := by
  unfold readAnswer
  dsimp only
  rw [if_neg (by decide), if_neg (by decide), if_neg (by decide), if_neg (by decide), if_pos rfl]
  split_ifs
  · rfl
  · rw [readU16_eq (by omega), ok_bind, readU16_eq (by omega), ok_bind, hname]
    cases target <;> rfl

theorem readAnswer_txt {text : Bytes}
    (htext : txtLoop message (position + dataLength) (position + dataLength + 1) position [] =
      .ok text) : readAnswer sys message owner rrTxt position dataLength =
      .ok (if text ≠ [] then some ⟨.TXT, owner, ofBytes text, 0⟩ else none, false) := by
  unfold readAnswer
  dsimp only
  rw [if_neg (by decide), if_neg (by decide), if_neg (by decide), if_neg (by decide), if_neg (by decide), if_pos rfl,
    htext]
  rfl

/-- The target of a service record, the owner for the root or none. -/
def serviceTarget (owner : String) : Option (String × ℕ) → String
  | some (target, _) => if target ≠ "" then target else owner
  | none => owner

theorem readAnswer_service {type : ℕ} {ech : Bool} (htype : type = rrSvcb ∨ type = rrHttps)
    (h : position + dataLength ≤ message.length) (hlen : 2 ≤ dataLength)
    (hname : readName message (position + 2) = .ok target)
    (hech : svcbAdvertisesEch message position (position + dataLength) = .ok ech) :
    readAnswer sys message owner type position dataLength = .ok (some ⟨if type = rrHttps then .HTTPS else .SVCB, owner,
      serviceTarget owner target, u16 message position⟩, ech) := by
  have hne : type ≠ rrA ∧ type ≠ rrAaaa ∧ type ≠ rrCname ∧ type ≠ rrPtr ∧ type ≠ rrSrv ∧ type ≠ rrTxt := by
    rcases htype with rfl | rfl <;> decide
  obtain ⟨hA, hAaaa, hCname, hPtr, hSrv, hTxt⟩ := hne
  unfold readAnswer
  dsimp only
  rw [if_neg hA, if_neg hAaaa, if_neg hCname, if_neg hPtr, if_neg hSrv, if_neg hTxt, if_pos htype, if_neg (by omega),
    readU16_eq (by omega), ok_bind, hname, ok_bind, hech, ok_bind]
  cases target <;> rfl

theorem readAnswer_service_short {type : ℕ} (htype : type = rrSvcb ∨ type = rrHttps) (hlen : dataLength < 2) :
    readAnswer sys message owner type position dataLength = .ok (none, false) := by
  unfold readAnswer
  dsimp only
  rcases htype with rfl | rfl
  · exact if_pos hlen
  · exact if_pos hlen

/-- Any other data is passed over. -/
theorem readAnswer_other {type : ℕ} (h : type ∉ [rrA, rrCname, rrPtr, rrTxt, rrAaaa, rrSrv, rrSvcb, rrHttps]) :
    readAnswer sys message owner type position dataLength = .ok (none, false) := by
  simp only [List.mem_cons, List.not_mem_nil, or_false, not_or] at h
  obtain ⟨hA, hCname, hPtr, hTxt, hAaaa, hSrv, hservice⟩ := h
  unfold readAnswer
  dsimp only
  rw [if_neg hA, if_neg hAaaa, if_neg hCname, if_neg hPtr, if_neg hSrv, if_neg hTxt, if_neg (not_or.mpr hservice)]
  rfl

end Types

theorem readAnswer_safe (sys : Platform) (owner : String) (type : ℕ) {position dataLength : ℕ}
    (h : position + dataLength ≤ message.length) :
    Safe (readAnswer sys message owner type position dataLength) fun _ => True := by
  refine .ite (fun _ => ?_) fun _ => .ite (fun _ => ?_) fun _ => .ite (fun _ => ?_) fun _ =>
    .ite (fun _ => ?_) fun _ => .ite (fun _ => ?_) fun _ => .ite (fun _ => ?_) fun _ =>
    .ite (fun _ => ?_) fun _ => .ok trivial
  · exact .ite (fun hd => (safe_window (by omega)).bind fun _ _ => .ok trivial) fun _ => .ok trivial
  · exact .ite (fun hd => (safe_window (by omega)).bind fun _ _ => .ok trivial) fun _ => .ok trivial
  · refine (readName_safe position).bind fun target _ => ?_
    cases target <;> exact .ok trivial
  · refine (readName_safe position).bind fun target _ => ?_
    cases target <;> exact .ok trivial
  · refine .guard trivial fun hd => (safe_readU16 (by omega)).bind fun priority _ => ?_
    refine (safe_readU16 (by omega)).bind fun port _ => (readName_safe (position + 6)).bind fun target _ => ?_
    cases target <;> exact .ok trivial
  · exact (txtLoop_safe h (Nat.zero_le _) (by omega) (by omega)).bind fun text _ => .ok trivial
  · refine .guard trivial fun hd => (safe_readU16 (by omega)).bind fun priority _ => ?_
    refine (readName_safe (position + 2)).bind fun target _ => ?_
    exact (svcbAdvertisesEch_safe h (by omega)).bind fun ech _ => .ok trivial

/-! ### Messages -/

theorem questionLoop_safe : ∀ {n position : ℕ}, position ≤ message.length →
    Safe (questionLoop message n position) fun r => ∀ e ∈ r, e.2 ≤ message.length := by
  intro n
  induction n with
  | zero =>
    intro position hp
    refine .ok ?_
    rintro e ⟨⟩
    exact hp
  | succ n ih =>
    intro position hp
    refine (readName_safe position).bind fun name hname => ?_
    cases name with
    | none => exact .ok (by simp)
    | some e =>
      have he := hname e rfl
      refine (safe_sub he).bind fun room hroom => .guard (by simp) fun h4 => ?_
      refine (ih (by omega)).bind fun rest hrest => ?_
      cases rest with
      | none => exact .ok (by simp)
      | some r =>
        refine .ok ?_
        rintro e' ⟨⟩
        exact hrest r rfl

theorem answerLoop_safe (sys : Platform) : ∀ {n position : ℕ} (response : DNSResponse),
    Safe (answerLoop sys message n position response) fun _ => True := by
  intro n
  induction n with
  | zero => exact fun _ => .ok trivial
  | succ n ih =>
    intro position response
    refine (readName_safe position).bind fun owner howner => ?_
    cases owner with
    | none => exact .ok trivial
    | some e =>
      have he := howner e rfl
      refine (safe_sub he).bind fun room hroom => .guard trivial fun h10 => ?_
      refine (safe_readU16 (by omega)).bind fun type _ => (safe_readU16 (by omega)).bind fun cls _ => ?_
      refine (safe_readU16 (by omega)).bind fun dataLength _ => (safe_sub (by omega)).bind fun left hleft => ?_
      refine .guard trivial fun hd => ?_
      extract_lets next
      have hnext : ∀ answer, Safe (next answer) fun _ => True := fun answer => ih _
      refine .ite (fun _ => ?_) fun _ => hnext (none, false)
      exact (readAnswer_safe sys _ _ (by omega)).bind fun answer _ => hnext answer

theorem parseMessage_safe (sys : Platform) (message : Bytes) : Safe (parseMessage sys message) fun _ => True := by
  refine .guard trivial fun h12 => (safe_readU16 (by omega)).bind fun flags _ => .guard trivial fun _ => ?_
  refine (safe_readU16 (by omega)).bind fun questions _ => (safe_readU16 (by omega)).bind fun answers _ => ?_
  refine (questionLoop_safe (by omega)).bind fun names _ => ?_
  cases names with
  | none => exact .ok trivial
  | some e => exact answerLoop_safe sys _

end Message

theorem parseResponse_safe (sys : Platform) (rawData : PacketData) (parsed : ParsedPacket) :
    Safe (parseResponse sys rawData parsed) fun _ => True := by
  refine .guard trivial fun _ => .guard trivial fun _ => .guard trivial fun ho => ?_
  refine (safe_sub (by omega)).bind fun room hroom => (safe_window (by omega)).bind fun message _ => ?_
  exact parseMessage_safe sys message

end DNSParser
end NetProbe
