/-
# DNS messages as they are written

The layout of a DNS response: names as labels, possibly ended by a pointer to
an earlier name, questions, and answer records with their data. `DNSParser`
reads back whatever is laid out so: `parseMessage` gives the first question's
name and the class-IN records of the types it knows, in order.

Key definitions: `Spells`, `RData`, `Message`, `Encodes`, `Message.response`.
Key theorems: `readName_spells`, `readAnswer_lays`, `answerLoop_records`,
`parseMessage_encodes`.
-/
import NetProbe.DnsSafety
import NetProbe.Wire

namespace NetProbe
namespace DNSParser

open Checked Bytes Wire

/-! ### Names -/

/-- A name is written at `pos`, up to `stop`: labels, then the root or a
pointer to a name before `start`, where this one starts. -/
inductive Spells (message : Bytes) : (start pos : ℕ) → List Bytes → (stop : ℕ) → Prop
  | root {start pos : ℕ} : At message pos [0] → Spells message start pos [] (pos + 1)
  | label {start pos stop : ℕ} {l : Bytes} {labels : List Bytes} : 1 ≤ l.length → l.length ≤ 63 →
      At message pos (vec8 l) → Spells message start (pos + (vec8 l).length) labels stop →
      Spells message start pos (l :: labels) stop
  | pointer {start pos target stop : ℕ} {labels : List Bytes} : target < 0x4000 → target < start →
      At message pos (be16 (0xC000 + target)) → Spells message target target labels stop →
      Spells message start pos labels (pos + 2)

/-- The text of a name. -/
def dotted (labels : List Bytes) : String := ".".intercalate (labels.map ofBytes)

/-- `name` and the labels after it, as `readName` joins them. -/
def extendName (name : String) : List Bytes → String
  | [] => name
  | l :: labels => extendName ((if name ≠ "" then name ++ "." else name) ++ ofBytes l) labels

theorem ofBytes_ne_empty {l : Bytes} (h : 1 ≤ l.length) : ofBytes l ≠ "" := fun he => by
  rw [ofBytes_eq_empty] at he
  simp [he] at h

theorem append_ne_empty {a b : String} (h : a ≠ "" ∨ b ≠ "") : a ++ b ≠ "" := fun he => by
  have hlen := congrArg String.length he
  rw [String.length_append, String.length_empty] at hlen
  rcases h with h | h
  · exact h (String.length_eq_zero_iff.mp (by omega))
  · exact h (String.length_eq_zero_iff.mp (by omega))

theorem extendName_eq {name : String} (hn : name ≠ "") (labels : List Bytes) :
    extendName name labels = ".".intercalate (name :: labels.map ofBytes) := by
  induction labels generalizing name with
  | nil => rw [extendName, List.map_nil, String.intercalate_singleton]
  | cons l labels ih =>
    rw [extendName, if_pos hn, ih (append_ne_empty (.inl (append_ne_empty (.inl hn)))),
      String.intercalate_cons_append, List.map_cons, String.intercalate_cons_cons]

theorem extendName_eq_dotted {labels : List Bytes} (hl : ∀ l ∈ labels, 1 ≤ l.length) :
    extendName "" labels = dotted labels := by
  cases labels with
  | nil => rw [extendName, dotted, List.map_nil, String.intercalate_nil]
  | cons l labels =>
    rw [extendName, if_neg (by simp), String.empty_append, extendName_eq (ofBytes_ne_empty (hl l (by simp))),
      dotted, List.map_cons]

theorem dotted_eq_empty {labels : List Bytes} (hl : ∀ l ∈ labels, 1 ≤ l.length) :
    dotted labels = "" ↔ labels = [] := by
  cases labels with
  | nil => simp [dotted]
  | cons l labels =>
    have hne := ofBytes_ne_empty (hl l (by simp))
    have : dotted (l :: labels) ≠ "" := by
      cases labels with
      | nil => rwa [dotted, List.map_cons, List.map_nil, String.intercalate_singleton]
      | cons l' labels =>
        rw [dotted, List.map_cons, List.map_cons, String.intercalate_cons_cons]
        exact append_ne_empty (.inl (append_ne_empty (.inl hne)))
    simp [this]

section Names

variable {message : Bytes}

theorem Spells.labels_pos {start pos stop : ℕ} {labels : List Bytes}
    (h : Spells message start pos labels stop) : ∀ l ∈ labels, 1 ≤ l.length := by
  induction h with
  | root => simp
  | label h1 _ _ _ ih => exact List.forall_mem_cons.mpr ⟨h1, ih⟩
  | pointer _ _ _ _ ih => exact ih

theorem Spells.stop_le {start pos stop : ℕ} {labels : List Bytes}
    (h : Spells message start pos labels stop) : pos < stop ∧ stop ≤ message.length := by
  induction h with
  | root h => exact ⟨by omega, h.le⟩
  | label _ _ _ _ ih => exact ⟨by omega, ih.2⟩
  | pointer _ _ h _ _ => exact ⟨by omega, h.le⟩

theorem pointer_bits : ∀ high < 64, (0xC0 + high) &&& 0xC0 = 0xC0 ∧ (0xC0 + high) &&& 0x3F = high := by
  decide

theorem label_bits : ∀ n < 64, n &&& 0xC0 = 0 := by decide

/-- The loop of `readName` reads a name as it is written. Each pointer leads
before the last one, so `start` bounds the pointers still to come. -/
theorem readNameLoop_spells {start pos stop : ℕ} {labels : List Bytes}
    (h : Spells message start pos labels stop) :
    ∀ {fuel pointerCount : ℕ} {name : String} {followed : Bool} {position : ℕ},
      start + pointerCount ≤ message.length →
      start * (message.length + 1) + (message.length - pos) < fuel →
      readNameLoop message fuel name pos pointerCount followed position =
        .ok (some (extendName name labels, if followed then position else stop)) := by
  induction h with
  | @root start pos h =>
    intro fuel pointerCount name followed position _ hfuel
    obtain ⟨fuel, rfl⟩ : ∃ f, fuel = f + 1 := ⟨fuel - 1, by omega⟩
    have hle := h.le
    rw [List.length_singleton] at hle
    rw [readNameLoop, if_pos (by omega), h.readU8, ok_bind, if_pos (by decide)]
    rfl
  | @label start pos stop l labels h1 h63 h hrest ih =>
    intro fuel pointerCount name followed position hstart hfuel
    obtain ⟨fuel, rfl⟩ : ∃ f, fuel = f + 1 := ⟨fuel - 1, by omega⟩
    have hle := h.le
    have hlen := length_vec8 l
    have hbyte : (UInt8.ofNat l.length).toNat = l.length := by rw [toNat_ofNat]; omega
    have hbits := label_bits l.length (by omega)
    rw [readNameLoop, if_pos (by omega), h.readU8, ok_bind, hbyte, if_neg (by omega),
      if_neg (by rw [hbits]; decide), if_neg (by rw [hbits]; omega), (at_cons.mp h).2.window, ok_bind]
    have hpos : pos + 1 + l.length = pos + (vec8 l).length := by omega
    rw [hpos, ih hstart (by omega)]
    rfl
  | @pointer start pos target stop labels ht hlt h hrest ih =>
    intro fuel pointerCount name followed position hstart hfuel
    obtain ⟨fuel, rfl⟩ : ∃ f, fuel = f + 1 := ⟨fuel - 1, by omega⟩
    have hle := h.le
    rw [length_be16] at hle
    have hbits := pointer_bits (target / 256) (by omega)
    have h0 : readU8 message pos = .ok (0xC0 + target / 256) := by
      rw [At.readU8 h, toNat_ofNat]
      congr 1
      omega
    have h1 : readU8 message (pos + 1) = .ok (target % 256) := by
      rw [At.readU8 (at_cons.mp h).2, toNat_ofNat]
      congr 1
      omega
    have hpointer : (target / 256) <<< 8 ||| target % 256 = target := by
      rw [shiftLeft_or (n := 8) (show target % 256 < 2 ^ 8 from Nat.mod_lt _ (by norm_num))]
      omega
    have hspan := hrest.stop_le
    have hmul : (target + 1) * (message.length + 1) ≤ start * (message.length + 1) :=
      Nat.mul_le_mul_right _ hlt
    rw [Nat.succ_mul] at hmul
    rw [readNameLoop, if_pos (by omega), h0, ok_bind, if_neg (by omega), if_pos hbits.1,
      if_neg (by omega), h1, ok_bind, hbits.2, hpointer]
    dsimp only
    rw [if_neg (by omega), ih (by omega) (by omega)]
    cases followed <;> rfl

/-- `readName` reads a name as it is written. -/
theorem readName_spells {pos stop : ℕ} {labels : List Bytes} (h : Spells message pos pos labels stop) :
    readName message pos = .ok (some (dotted labels, stop)) := by
  have hspan := h.stop_le
  have hmul : (pos + 1) * (message.length + 1) ≤ (message.length + 1) * (message.length + 1) :=
    Nat.mul_le_mul_right _ (by omega)
  rw [Nat.succ_mul] at hmul
  rw [readName, readNameLoop_spells h (by omega) (by omega), extendName_eq_dotted h.labels_pos]
  rfl

end Names

/-! ### Record data -/

/-- The data of a record; only 4 and 16 bytes are addresses. -/
inductive RData
  | a (address : Bytes)
  | aaaa (address : Bytes)
  | cname (target : List Bytes)
  | ptr (target : List Bytes)
  | srv (priority weight port : ℕ) (target : List Bytes)
  | txt (strings : List Bytes)
  | svcb (priority : ℕ) (target : List Bytes) (params : List (ℕ × Bytes))
  | https (priority : ℕ) (target : List Bytes) (params : List (ℕ × Bytes))
  | other (type : ℕ) (data : Bytes)

/-- A SVCB parameter: a key and a value. -/
def paramBytes (param : ℕ × Bytes) : Bytes := be16 param.1 ++ vec16 param.2

/-- The types the parser knows. -/
def knownTypes : List ℕ := [rrA, rrCname, rrPtr, rrTxt, rrAaaa, rrSrv, rrSvcb, rrHttps]

namespace RData

/-- The type code of a record. -/
def type : RData → ℕ
  | a _ => 1
  | aaaa _ => 28
  | cname _ => 5
  | ptr _ => 12
  | srv .. => 33
  | txt _ => 16
  | svcb .. => 64
  | https .. => 65
  | other type _ => type

/-- The data is written from `pos` to `stop`. -/
def Lays (message : Bytes) (pos stop : ℕ) : RData → Prop
  | a address => At message pos address ∧ stop = pos + address.length
  | aaaa address => At message pos address ∧ stop = pos + address.length
  | cname target => Spells message pos pos target stop
  | ptr target => Spells message pos pos target stop
  | srv priority weight port target => priority < 65536 ∧ port < 65536 ∧
      At message pos (be16 priority ++ be16 weight ++ be16 port) ∧
      Spells message (pos + 6) (pos + 6) target stop
  | txt strings => (∀ s ∈ strings, s.length ≤ 255) ∧ At message pos (strings.flatMap vec8) ∧
      stop = pos + (strings.flatMap vec8).length
  | svcb priority target params => SvcLays priority target params
  | https priority target params => SvcLays priority target params
  | other type data => type < 65536 ∧ type ∉ knownTypes ∧ At message pos data ∧ stop = pos + data.length
where
  /-- The data of a SVCB or HTTPS record. -/
  SvcLays (priority : ℕ) (target : List Bytes) (params : List (ℕ × Bytes)) : Prop :=
    priority < 65536 ∧ (∀ p ∈ params, p.1 < 65536 ∧ p.2.length < 65536) ∧ At message pos (be16 priority) ∧
    ∃ p, Spells message (pos + 2) (pos + 2) target p ∧ At message p (params.flatMap paramBytes) ∧
      stop = p + (params.flatMap paramBytes).length

/-- The strings of a TXT record joined by spaces, without the empty ones it
starts with, cut to 255 bytes. -/
def joined (strings : List Bytes) : Bytes :=
  ([0x20].intercalate (strings.dropWhile fun s => s = [])).take kMaxTxtBytes

/-- The answer a class-IN record stands for. -/
def answer (sys : Platform) (owner : String) : RData → Option DNSRecord
  | a address => if address.length = 4 then some ⟨.A, owner, sys.inetNtop4 address, 0⟩ else none
  | aaaa address => if address.length = 16 then some ⟨.AAAA, owner, sys.inetNtop6 address, 0⟩ else none
  | cname target => some ⟨.CNAME, owner, dotted target, 0⟩
  | ptr target => if target ≠ [] then some ⟨.PTR, owner, dotted target, 0⟩ else none
  | srv priority _ port target =>
    if target ≠ [] then some ⟨.SRV, owner, dotted target ++ ":" ++ toString port, priority⟩ else none
  | txt strings => if joined strings ≠ [] then some ⟨.TXT, owner, ofBytes (joined strings), 0⟩ else none
  | svcb priority target _ => some ⟨.SVCB, owner, if target ≠ [] then dotted target else owner, priority⟩
  | https priority target _ => some ⟨.HTTPS, owner, if target ≠ [] then dotted target else owner, priority⟩
  | other _ _ => none

/-- A SVCB or HTTPS record with a non-empty ECH parameter. -/
def advertisesEch : RData → Bool
  | svcb _ _ params => params.any fun p => p.1 = svcParamEch ∧ p.2 ≠ []
  | https _ _ params => params.any fun p => p.1 = svcParamEch ∧ p.2 ≠ []
  | _ => false

end RData

section Loops

variable {message : Bytes} {recordEnd : ℕ}

theorem svcParamLoop_params : ∀ {params : List (ℕ × Bytes)} {fuel position : ℕ},
    (∀ p ∈ params, p.1 < 65536 ∧ p.2.length < 65536) →
    At message position (params.flatMap paramBytes) →
    recordEnd = position + (params.flatMap paramBytes).length → recordEnd < position + fuel →
    svcParamLoop message recordEnd fuel position =
      .ok (params.any fun p => p.1 = svcParamEch ∧ p.2 ≠ [])
  | [], 0, position, _, _, hend, hfuel => by simp at hend; omega
  | [], fuel + 1, position, _, _, hend, _ => by
    have : ¬ position + 4 ≤ recordEnd := by simp at hend; omega
    rw [svcParamLoop, if_neg this]
    rfl
  | (key, value) :: params, 0, position, _, _, hend, hfuel => by omega
  | (key, value) :: params, fuel + 1, position, hsize, hat, hend, hfuel => by
    obtain ⟨hkey, hvalue⟩ := hsize (key, value) (by simp)
    simp only [List.flatMap_cons, List.length_append, paramBytes, length_be16, length_vec16] at hend
    simp only [List.flatMap_cons, paramBytes, vec16, at_append, length_be16, List.length_append] at hat
    obtain ⟨⟨hkeyAt, hlenAt, -⟩, hrest⟩ := hat
    have hpos : position + (2 + (2 + value.length)) = position + 4 + value.length := by omega
    have hnext : svcParamLoop message recordEnd fuel (position + 4 + value.length) = _ :=
      svcParamLoop_params (fun p hp => hsize p (List.mem_cons_of_mem _ hp)) (hpos ▸ hrest) (by omega) (by omega)
    rw [svcParamLoop, if_pos (by omega), hkeyAt.readU16 hkey, ok_bind, hlenAt.readU16 hvalue, ok_bind]
    dsimp only
    rw [sub_eq (by omega), ok_bind, if_neg (by omega)]
    by_cases hech : key = svcParamEch ∧ value.length > 0
    · have hne : value ≠ [] := fun he => by simp [he] at hech
      rw [if_pos hech]
      simp [hech.1, hne]
    · have hnone : ¬ (key = svcParamEch ∧ value ≠ []) := fun h =>
        hech ⟨h.1, List.length_pos_of_ne_nil h.2⟩
      rw [if_neg hech, hnext, List.any_cons, decide_eq_false hnone, Bool.false_or]

/-- One more string after the text so far. -/
def joinString (text chunk : Bytes) : Bytes := (if text ≠ [] then text ++ [0x20] else text) ++ chunk

theorem take_joinString (text chunk : Bytes) {n : ℕ} (hn : 0 < n) :
    (joinString (text.take n) chunk).take n = (joinString text chunk).take n := by
  have hnil : text.take n = [] ↔ text = [] := by
    rw [List.take_eq_nil_iff]
    exact or_iff_right (by omega)
  unfold joinString
  by_cases h : text = []
  · simp [h]
  · rw [if_pos (mt hnil.mp h), if_pos h, List.append_assoc, List.append_assoc]
    rcases Nat.lt_or_ge n text.length with hlt | hge
    · rw [List.take_append_of_le_length (by simp; omega), List.take_append_of_le_length (by omega),
        List.take_take, Nat.min_self]
    · rw [List.take_of_length_le hge]

theorem take_foldl_joinString (chunks : List Bytes) (text : Bytes) {n : ℕ} (hn : 0 < n) :
    (chunks.foldl joinString (text.take n)).take n = (chunks.foldl joinString text).take n := by
  induction chunks generalizing text with
  | nil => rw [List.foldl_nil, List.foldl_nil, List.take_take, Nat.min_self]
  | cons c chunks ih =>
    rw [List.foldl_cons, List.foldl_cons, ← ih (joinString (text.take n) c), take_joinString _ _ hn, ih]

/-- A text of full length stays as it is. -/
theorem take_foldl_of_length (chunks : List Bytes) (text : Bytes) :
    (chunks.foldl joinString text).take text.length = text := by
  have hgrows : ∀ (chunks : List Bytes) (t : Bytes), t <+: chunks.foldl joinString t := by
    intro chunks
    induction chunks with
    | nil => exact fun t => List.prefix_refl t
    | cons c chunks ih =>
      intro t
      refine List.IsPrefix.trans ?_ (ih (joinString t c))
      unfold joinString
      split
      · rw [List.append_assoc]
        exact List.prefix_append ..
      · exact List.prefix_append ..
  exact (List.prefix_iff_eq_take.mp (hgrows chunks text)).symm

theorem foldl_joinString {text : Bytes} (ht : text ≠ []) (chunks : List Bytes) :
    chunks.foldl joinString text = [0x20].intercalate (text :: chunks) := by
  induction chunks generalizing text with
  | nil => simp [List.intercalate]
  | cons c chunks ih =>
    have hne : text ++ [0x20] ++ c ≠ [] := by simp
    rw [List.foldl_cons, joinString, if_pos ht, ih hne]
    cases chunks <;> simp [List.intercalate]

/-- Joining string by string is joining what is left after the empty strings in front. -/
theorem foldl_joinString_nil (chunks : List Bytes) :
    chunks.foldl joinString [] = [0x20].intercalate (chunks.dropWhile fun s => s = []) := by
  induction chunks with
  | nil => simp [List.intercalate]
  | cons c chunks ih =>
    have hjoin : joinString [] c = c := by simp [joinString]
    rw [List.foldl_cons, hjoin]
    by_cases hc : c = []
    · rw [hc, ih, List.dropWhile_cons_of_pos (by simp)]
    · rw [foldl_joinString hc, List.dropWhile_cons_of_neg (by simpa using hc)]

theorem txtLoop_strings : ∀ {strings : List Bytes} {fuel cursor : ℕ} {text : Bytes},
    (∀ s ∈ strings, s.length ≤ 255) → At message cursor (strings.flatMap vec8) →
    recordEnd = cursor + (strings.flatMap vec8).length → recordEnd < cursor + fuel →
    text.length ≤ kMaxTxtBytes →
    txtLoop message recordEnd fuel cursor text = .ok ((strings.foldl joinString text).take kMaxTxtBytes)
  | strings, 0, cursor, text, _, _, hend, hfuel, _ => by omega
  | [], fuel + 1, cursor, text, _, _, hend, _, htext => by
    have : ¬ (cursor < recordEnd ∧ text.length < kMaxTxtBytes) := by simp at hend; omega
    rw [txtLoop, if_neg this, List.foldl_nil, List.take_of_length_le htext]
    rfl
  | s :: strings, fuel + 1, cursor, text, hsize, hat, hend, hfuel, htext => by
    have hk : kMaxTxtBytes = 255 := rfl
    by_cases hfull : text.length = kMaxTxtBytes
    · rw [txtLoop, if_neg (by omega), ← hfull, take_foldl_of_length]
      rfl
    have hs := hsize s (List.mem_cons_self ..)
    simp only [List.flatMap_cons, List.length_append, length_vec8] at hend
    rw [List.flatMap_cons, at_append, length_vec8] at hat
    obtain ⟨hs8, hrest⟩ := hat
    have hbyte : (UInt8.ofNat s.length).toNat = s.length := by rw [toNat_ofNat]; omega
    have hspace : (if text ≠ [] then text ++ [0x20] else text).length ≤ kMaxTxtBytes := by
      split
      · simp; omega
      · exact htext
    have hchunk : ∀ n ≤ s.length, window message (cursor + 1) n = .ok (s.take n) := fun n hn => by
      have hat : At message (cursor + 1) (s.take n) :=
        (at_cons.mp hs8).2.trans (j := 0) (by simpa using at_take_drop (b := s) (i := 0) (by omega))
      have hw := hat.window
      rwa [List.length_take_of_le hn] at hw
    rw [txtLoop, if_pos (by omega), hs8.readU8, ok_bind, hbyte]
    dsimp only
    rw [sub_eq (by omega), ok_bind, if_neg (by omega), sub_eq hspace, ok_bind,
      hchunk _ (Nat.min_le_left ..), ok_bind]
    -- What is appended is the string as far as it fits.
    have happend : (if text ≠ [] then text ++ [0x20] else text) ++
        s.take (min s.length (kMaxTxtBytes - (if text ≠ [] then text ++ [0x20] else text).length)) =
        (joinString text s).take kMaxTxtBytes := by
      rw [joinString, List.take_append, List.take_of_length_le hspace, Nat.min_comm, ← List.take_take,
        List.take_length]
    have hpos : cursor + (1 + s.length) = cursor + 1 + s.length := by omega
    rw [happend, txtLoop_strings (fun s' hs' => hsize s' (List.mem_cons_of_mem _ hs')) (hpos ▸ hrest)
      (by omega) (by omega) (by simp), List.foldl_cons, take_foldl_joinString _ _ (by decide)]

end Loops

/-! ### Records -/

section Answers

variable {sys : Platform} {message : Bytes} {owner : String} {pos len : ℕ}

theorem spells_target {start stop : ℕ} {target : List Bytes} (h : Spells message start pos target stop) :
    dotted target ≠ "" ↔ target ≠ [] := not_congr (dotted_eq_empty h.labels_pos)

/-- A SVCB or HTTPS record. -/
theorem readAnswer_svcb {type priority : ℕ} {target : List Bytes} {params : List (ℕ × Bytes)}
    (htype : type = rrSvcb ∨ type = rrHttps)
    (h : RData.Lays.SvcLays message pos (pos + len) priority target params) :
    readAnswer sys message owner type pos len =
      .ok (some ⟨if type = rrHttps then .HTTPS else .SVCB, owner,
        if target ≠ [] then dotted target else owner, priority⟩,
        params.any fun p => p.1 = svcParamEch ∧ p.2 ≠ []) := by
  obtain ⟨hpriority, hsize, hat, p, hspells, hparams, hend⟩ := h
  have hspan := hspells.stop_le
  have hle := hparams.le
  have hname := readName_spells hspells
  have hech : svcbAdvertisesEch message pos (pos + len) =
      .ok (params.any fun p => p.1 = svcParamEch ∧ p.2 ≠ []) := by
    rw [svcbAdvertisesEch, sub_eq (by omega), ok_bind, if_neg (by omega), hname, ok_bind]
    exact svcParamLoop_params hsize hparams hend (by omega)
  rw [readAnswer_service htype (by omega) (by omega) hname hech, serviceTarget, hat.u16 hpriority]
  simp only [spells_target hspells]

/-- `readAnswer` on data as it is written gives the answer the record stands for. -/
theorem readAnswer_lays {data : RData} (h : data.Lays message pos (pos + len)) :
    readAnswer sys message owner data.type pos len = .ok (data.answer sys owner, data.advertisesEch) := by
  cases data with
  | a address =>
    obtain ⟨hat, hlen⟩ := h
    obtain rfl : len = address.length := by omega
    show readAnswer sys message owner rrA pos _ = _
    rw [readAnswer_a hat.le, RData.answer]
    split_ifs with h4
    · rw [← h4, hat.slice]
      rfl
    · rfl
  | aaaa address =>
    obtain ⟨hat, hlen⟩ := h
    obtain rfl : len = address.length := by omega
    show readAnswer sys message owner rrAaaa pos _ = _
    rw [readAnswer_aaaa hat.le, RData.answer]
    split_ifs with h16
    · rw [← h16, hat.slice]
      rfl
    · rfl
  | cname target =>
    show readAnswer sys message owner rrCname pos _ = _
    rw [readAnswer_cname (readName_spells h), Option.bind_some, if_pos le_rfl]
    rfl
  | ptr target =>
    show readAnswer sys message owner rrPtr pos _ = _
    rw [readAnswer_ptr (readName_spells h), Option.bind_some]
    simp only [le_refl, true_and, spells_target h]
    rfl
  | srv priority weight port target =>
    obtain ⟨hpriority, hport, hat, hspells⟩ := h
    have hspan := hspells.stop_le
    simp only [at_append, length_be16, List.length_append] at hat
    obtain ⟨⟨hat0, -⟩, hat4⟩ := hat
    show readAnswer sys message owner rrSrv pos _ = _
    rw [readAnswer_srv hspan.2 (readName_spells hspells), if_neg (by omega), Option.bind_some, hat0.u16 hpriority,
      hat4.u16 hport]
    simp only [le_refl, true_and, spells_target hspells]
    rfl
  | txt strings =>
    obtain ⟨hsize, hat, hend⟩ := h
    have htext : txtLoop message (pos + len) (pos + len + 1) pos [] = .ok (RData.joined strings) := by
      rw [txtLoop_strings hsize hat hend (by omega) (by simp), foldl_joinString_nil]
      rfl
    show readAnswer sys message owner rrTxt pos _ = _
    rw [readAnswer_txt htext]
    rfl
  | svcb priority target params => exact readAnswer_svcb (.inl rfl) h
  | https priority target params => exact readAnswer_svcb (.inr rfl) h
  | other type data => exact readAnswer_other h.2.1

end Answers

/-! ### Messages -/

/-- A question: a name, and the type and class asked for. -/
structure Question where
  name : List Bytes
  type : ℕ
  cls : ℕ

/-- An answer record. -/
structure Record where
  owner : List Bytes
  cls : ℕ
  ttl : ℕ
  data : RData

/-- A response: its header fields, questions and answers. -/
structure Message where
  id : ℕ
  flags : ℕ
  questions : List Question
  answers : List Record
  authorityCount : ℕ
  additionalCount : ℕ

/-- The items are written one after the other, from `pos` to `stop`. -/
def Laid {α : Type} (lays : α → ℕ → ℕ → Prop) : List α → ℕ → ℕ → Prop
  | [], pos, stop => pos = stop
  | x :: xs, pos, stop => ∃ mid, lays x pos mid ∧ Laid lays xs mid stop

def Question.Lays (message : Bytes) (q : Question) (pos stop : ℕ) : Prop :=
  ∃ p, Spells message pos pos q.name p ∧ At message p (be16 q.type ++ be16 q.cls) ∧ stop = p + 4

def Record.Lays (message : Bytes) (r : Record) (pos stop : ℕ) : Prop :=
  ∃ p len, Spells message pos pos r.owner p ∧ r.cls < 65536 ∧ len < 65536 ∧
    At message p (be16 r.data.type ++ be16 r.cls ++ be32 r.ttl ++ be16 len) ∧
    r.data.Lays message (p + 10) stop ∧ stop = p + 10 + len

/-- Class IN, with or without the cache-flush bit. -/
def Record.internet (r : Record) : Bool := r.cls = 0x0001 ∨ r.cls = 0x8001

/-- `message` is a response with the contents `m`: correct counts and data
lengths, and anything after the answers. -/
structure Encodes (message : Bytes) (m : Message) : Prop where
  response : m.flags &&& 0x8000 ≠ 0
  flags_lt : m.flags < 65536
  questions_lt : m.questions.length < 65536
  answers_lt : m.answers.length < 65536
  header : At message 0 (be16 m.id ++ be16 m.flags ++ be16 m.questions.length ++ be16 m.answers.length ++
    be16 m.authorityCount ++ be16 m.additionalCount)
  body : ∃ mid stop, Laid (Question.Lays message) m.questions 12 mid ∧
    Laid (Record.Lays message) m.answers mid stop

/-- The answers a record contributes. -/
def Record.contribution (sys : Platform) (r : Record) : List DNSRecord :=
  if r.internet then (r.data.answer sys (dotted r.owner)).toList else []

/-- What the parser is to report of a message. -/
def Message.decoded (sys : Platform) (m : Message) : DNSResponse where
  queryName := (m.questions.map fun q => dotted q.name).headD ""
  answers := m.answers.flatMap (Record.contribution sys)
  encryptedClientHelloAdvertised := m.answers.any fun r => r.internet && r.data.advertisesEch

theorem RData.Lays.stop_le {data : RData} {message : Bytes} {pos stop : ℕ}
    (h : data.Lays message pos stop) : stop ≤ message.length := by
  cases data with
  | a address => exact h.2 ▸ h.1.le
  | aaaa address => exact h.2 ▸ h.1.le
  | cname target => exact (Spells.stop_le h).2
  | ptr target => exact (Spells.stop_le h).2
  | srv priority weight port target => exact h.2.2.2.stop_le.2
  | txt strings => exact h.2.2 ▸ h.2.1.le
  | svcb priority target params =>
    obtain ⟨-, -, -, p, -, hparams, rfl⟩ := h
    exact hparams.le
  | https priority target params =>
    obtain ⟨-, -, -, p, -, hparams, rfl⟩ := h
    exact hparams.le
  | other type data => exact h.2.2.2 ▸ h.2.2.1.le

theorem RData.Lays.type_lt {data : RData} {message : Bytes} {pos stop : ℕ}
    (h : data.Lays message pos stop) : data.type < 65536 := by
  cases data with
  | other type data => exact h.1
  | _ => simp [RData.type]

section Messages

variable {sys : Platform} {message : Bytes}

theorem questionLoop_questions : ∀ {questions : List Question} {pos stop : ℕ},
    Laid (Question.Lays message) questions pos stop →
    questionLoop message questions.length pos = .ok (some (questions.map fun q => dotted q.name, stop))
  | [], pos, stop, h => by
    rw [show pos = stop from h]
    rfl
  | q :: questions, pos, stop, ⟨mid, ⟨p, hname, hat, hmid⟩, hrest⟩ => by
    have hle := hat.le
    simp only [List.length_append, length_be16] at hle
    rw [List.length_cons, questionLoop, readName_spells hname, ok_bind]
    dsimp only
    rw [sub_eq (by omega), ok_bind, if_neg (by omega), ← hmid, questionLoop_questions hrest, ok_bind]
    rfl

/-- Class IN is read off the low 15 bits. -/
theorem internet_iff {r : Record} (h : r.cls < 65536) :
    r.cls &&& 0x7FFF = dnsClassInternet ↔ r.internet := by
  rw [show 0x7FFF = 2 ^ 15 - 1 from rfl, Nat.and_two_pow_sub_one_eq_mod, Record.internet, dnsClassInternet,
    decide_eq_true_eq]
  omega

/-- One record of the answer loop. -/
theorem answerLoop_record {r : Record} {n pos stop : ℕ} (h : r.Lays message pos stop)
    (response : DNSResponse) :
    answerLoop sys message (n + 1) pos response =
      answerLoop sys message n stop { response with
        answers := response.answers ++ r.contribution sys
        encryptedClientHelloAdvertised :=
          response.encryptedClientHelloAdvertised || r.internet && r.data.advertisesEch } := by
  obtain ⟨p, len, hname, hcls, hlen, hat, hdata, rfl⟩ := h
  have hdle := hdata.stop_le
  have htype := hdata.type_lt
  simp only [at_append, length_be16, length_be32, List.length_append] at hat
  obtain ⟨⟨⟨htypeAt, hclsAt⟩, -⟩, hlenAt⟩ := hat
  rw [answerLoop, readName_spells hname, ok_bind]
  dsimp only
  rw [sub_eq (by omega), ok_bind, if_neg (by omega), htypeAt.readU16 htype, ok_bind, hclsAt.readU16 hcls,
    ok_bind, show p + 8 = p + (2 + 2 + 4) from rfl, hlenAt.readU16 hlen, ok_bind, sub_eq (by omega), ok_bind,
    if_neg (by omega)]
  by_cases hin : r.internet
  · rw [if_pos ((internet_iff hcls).mpr hin), readAnswer_lays hdata, ok_bind, Record.contribution,
      if_pos hin, hin, Bool.true_and]
  · rw [if_neg (mt (internet_iff hcls).mp hin), Record.contribution, if_neg hin,
      Bool.eq_false_of_not_eq_true hin, Bool.false_and]
    rfl

/-- The answer loop over a list of records. -/
theorem answerLoop_records : ∀ {records : List Record} {pos stop : ℕ} (response : DNSResponse),
    Laid (Record.Lays message) records pos stop →
    answerLoop sys message records.length pos response = .ok (some { response with
      answers := response.answers ++ records.flatMap (Record.contribution sys)
      encryptedClientHelloAdvertised := response.encryptedClientHelloAdvertised ||
        records.any fun r => r.internet && r.data.advertisesEch })
  | [], pos, stop, response, _ => by simp [answerLoop]
  | r :: records, pos, stop, response, ⟨mid, hr, hrest⟩ => by
    rw [List.length_cons, answerLoop_record hr, answerLoop_records _ hrest]
    simp [Bool.or_assoc]

/-- `parseMessage` undoes the encoding of a response. -/
theorem parseMessage_encodes {m : Message} (h : Encodes message m) :
    parseMessage sys message = .ok (some (m.decoded sys)) := by
  obtain ⟨hresponse, hflags, hq, ha, hat, mid, stop, hquestions, hanswers⟩ := h
  have hle := hat.le
  simp only [at_append, length_be16, List.length_append] at hat hle
  obtain ⟨⟨⟨⟨⟨-, hflagsAt⟩, hqAt⟩, haAt⟩, -⟩, -⟩ := hat
  rw [parseMessage, if_neg (by omega), show 2 = 0 + 2 from rfl, hflagsAt.readU16 hflags, ok_bind,
    if_neg hresponse, show 4 = 0 + (2 + 2) from rfl, hqAt.readU16 hq, ok_bind,
    show 6 = 0 + (2 + 2 + 2) from rfl, haAt.readU16 ha, ok_bind, questionLoop_questions hquestions, ok_bind]
  exact (answerLoop_records _ hanswers).trans (by simp [Message.decoded])

end Messages

/-- A response for the name a.b: an address, flushing the cache, and an HTTPS
record with an ECH parameter, both owned by a pointer to the question's name. -/
def responseForAB : Bytes := [
  0x12, 0x34, 0x81, 0x80, 0x00, 0x01, 0x00, 0x02, 0x00, 0x00, 0x00, 0x00,
  0x01, 0x61, 0x01, 0x62, 0x00, 0x00, 0x01, 0x00, 0x01,
  0xc0, 0x0c, 0x00, 0x01, 0x80, 0x01, 0x00, 0x00, 0x00, 0x3c, 0x00, 0x04, 0x0a, 0x00, 0x00, 0x01,
  0xc0, 0x0c, 0x00, 0x41, 0x00, 0x01, 0x00, 0x00, 0x00, 0x3c, 0x00, 0x08,
  0x00, 0x01, 0x00, 0x00, 0x05, 0x00, 0x01, 0xff]

/-- What `responseForAB` encodes. -/
def contentsForAB : Message where
  id := 0x1234
  flags := 0x8180
  questions := [⟨[[0x61], [0x62]], 1, 1⟩]
  answers := [⟨[[0x61], [0x62]], 0x8001, 60, .a [10, 0, 0, 1]⟩,
    ⟨[[0x61], [0x62]], 1, 60, .https 1 [] [(5, [0xff])]⟩]
  authorityCount := 0
  additionalCount := 0

/-- A platform that prints the address 10.0.0.1. -/
def onePrinter : Platform where
  inetNtop4 address := if address = [10, 0, 0, 1] then "10.0.0.1" else ""
  inetNtop6 _ := ""
  mbedtls := ⟨fun _ _ => none, fun _ _ _ => none, fun _ _ => none, fun _ _ _ _ _ => none⟩

theorem parseMessage_encodes_ab :
    parseMessage onePrinter responseForAB = .ok (some
      ⟨"a.b", [⟨.A, "a.b", "10.0.0.1", 0⟩, ⟨.HTTPS, "a.b", "a.b", 1⟩], true⟩) := by
  have hname : Spells responseForAB 12 12 [[0x61], [0x62]] 17 :=
    .label (by decide) (by decide) (by decide)
      (.label (by decide) (by decide) (by decide) (.root (by decide)))
  have hpointer : ∀ pos, 12 < pos → At responseForAB pos (be16 (0xC000 + 12)) →
      Spells responseForAB pos pos [[0x61], [0x62]] (pos + 2) :=
    fun pos hpos hat => .pointer (by decide) hpos hat hname
  have h : parseMessage onePrinter responseForAB = .ok (some (contentsForAB.decoded onePrinter)) :=
    parseMessage_encodes ⟨by decide, by decide, by decide, by decide, by decide, 21, 57,
      ⟨21, ⟨17, hname, by decide, rfl⟩, rfl⟩,
      ⟨37, ⟨23, 4, hpointer 21 (by decide) (by decide), by decide, by decide, by decide,
          ⟨by decide, by decide⟩, rfl⟩,
        57, ⟨39, 8, hpointer 37 (by decide) (by decide), by decide, by decide, by decide,
          ⟨by decide, by decide, by decide, 52, .root (by decide), by decide, by decide⟩, rfl⟩, rfl⟩⟩
  rw [h]
  decide

end DNSParser
end NetProbe
