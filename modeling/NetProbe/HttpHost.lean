/-
# The Host of an HTTP request

`parseHTTP` scans the first 2048 bytes of a payload. The lines of the scanned
part that end in CRLF there are all it depends on, so a shorter payload has
fewer of them and no others, and a name it gives is the one the whole payload
gives (`parseHTTP_host`).

Key definitions: `Bytes.completeLines`, `isRequest`, `isHostLine`, `hostValue`, `hostOf`.
Key theorems: `Bytes.prefix_completeLines`, `parseHTTP_host`, `hostname_never_invented`.
-/
import NetProbe.ParserSafety

namespace Bytes

/-! ### Lines ended by CRLF -/

/-- The bytes before the first CRLF and those after it. -/
def splitLine : Bytes → Option (Bytes × Bytes)
  | b :: c :: rest =>
    if b = 0x0D ∧ c = 0x0A then some ([], rest) else (splitLine (c :: rest)).map fun x => (b :: x.1, x.2)
  | _ => none

/-- The lines that a CRLF ends; `current` is what there is of the first. -/
def linesFrom (current : Bytes) : Bytes → List Bytes
  | b :: c :: rest =>
    if b = 0x0D ∧ c = 0x0A then current :: linesFrom [] rest else linesFrom (current ++ [b]) (c :: rest)
  | _ => []

def completeLines (b : Bytes) : List Bytes := linesFrom [] b

theorem splitLine_eq_some {b line rest : Bytes} (h : splitLine b = some (line, rest)) :
    b = line ++ 0x0D :: 0x0A :: rest := by
  induction b using splitLine.induct generalizing line with
  | case1 b c tail hcrlf =>
    rw [splitLine, if_pos hcrlf] at h
    obtain ⟨rfl, rfl⟩ := hcrlf
    obtain ⟨rfl, rfl⟩ := Prod.mk.inj (Option.some.inj h)
    rfl
  | case2 b c tail hcrlf ih =>
    rw [splitLine, if_neg hcrlf] at h
    obtain ⟨⟨line', rest'⟩, hsplit, hx⟩ := Option.map_eq_some_iff.mp h
    obtain ⟨rfl, rfl⟩ := Prod.mk.inj hx
    rw [ih hsplit]
    rfl
  | case3 b hshort =>
    rw [splitLine] at h
    · cases h
    · exact hshort

theorem splitLine_short {b : Bytes} (h : b.length ≤ 1) : splitLine b = none := by
  rw [splitLine]
  rintro x y rest rfl
  simp at h

theorem linesFrom_eq (current b : Bytes) : linesFrom current b =
    match splitLine b with
    | some x => (current ++ x.1) :: completeLines x.2
    | none => [] := by
  induction b using splitLine.induct generalizing current with
  | case1 b c tail hcrlf =>
    rw [linesFrom, splitLine, if_pos hcrlf, if_pos hcrlf]
    simp [completeLines]
  | case2 b c tail hcrlf ih =>
    rw [linesFrom, splitLine, if_neg hcrlf, if_neg hcrlf, ih]
    cases splitLine (c :: tail) with
    | none => rfl
    | some x => simp
  | case3 b hshort =>
    rw [linesFrom, splitLine]
    · exact hshort
    · exact hshort

theorem completeLines_of_none {b : Bytes} (h : splitLine b = none) : completeLines b = [] := by
  rw [completeLines, linesFrom_eq, h]

theorem completeLines_of_some {b line rest : Bytes} (h : splitLine b = some (line, rest)) :
    completeLines b = line :: completeLines rest := by
  rw [completeLines, linesFrom_eq, h]
  rfl

/-- More bytes add lines at the end only. -/
theorem linesFrom_append (post current b : Bytes) : linesFrom current b <+: linesFrom current (b ++ post) := by
  induction current, b using linesFrom.induct with
  | case1 current b c tail hcrlf ih =>
    rw [linesFrom, if_pos hcrlf, List.cons_append, List.cons_append, linesFrom, if_pos hcrlf]
    exact List.cons_prefix_cons.mpr ⟨rfl, ih⟩
  | case2 current b c tail hcrlf ih =>
    rw [linesFrom, if_neg hcrlf, List.cons_append, List.cons_append, linesFrom, if_neg hcrlf]
    exact ih
  | case3 current b hshort =>
    rw [linesFrom]
    · exact List.nil_prefix
    · exact hshort

theorem prefix_completeLines {b b' : Bytes} (h : b <+: b') : completeLines b <+: completeLines b' := by
  obtain ⟨post, rfl⟩ := h
  exact linesFrom_append post [] b

end Bytes

namespace NetProbe
namespace ProtocolParser

open Checked Bytes

/-! ### The Host line -/

/-- The first bytes that `parseHTTP` scans. -/
def scanned (payload : Bytes) : Bytes := payload.take 2048

/-- The line starts with `method` and a space. -/
def startsRequest (line : Bytes) (method : String) : Bool :=
  ofBytes (line.take method.length) = method ∧ (line)[method.length]? = some 0x20

def isRequest (line : Bytes) : Bool := httpMethods.any (startsRequest line)

/-- The line is longer than `host:` and starts with it, in any letter case. -/
def isHostLine (line : Bytes) : Bool :=
  line.length > 5 ∧ (line.take 5).map (fun b => tolower b.toNat) = [0x68, 0x6F, 0x73, 0x74, 0x3A]

/-- The text after the colon, without leading spaces. -/
def hostValue (line : Bytes) : Bytes := (line.drop 5).dropWhile fun b => b = 0x20

/-- What the first Host line before the first empty line says, if anything. -/
def hostIn (headers : List Bytes) : Option Bytes :=
  (((headers.takeWhile (· ≠ [])).find? isHostLine).map hostValue).filter (· ≠ [])

/-- The Host of a request whose lines, complete ones only, these are. -/
def hostOf : List Bytes → Option Bytes
  | request :: headers => if isRequest request then hostIn headers else none
  | [] => none

theorem hostIn_cons {line : Bytes} {headers : List Bytes} : hostIn (line :: headers) =
    if line = [] then none
    else if isHostLine line then if hostValue line = [] then none else some (hostValue line)
    else hostIn headers := by
  unfold hostIn
  by_cases hnil : line = []
  · simp [hnil]
  · rw [List.takeWhile_cons_of_pos (by simpa using hnil), List.find?_cons, if_neg hnil]
    cases isHostLine line with
    | false => rfl
    | true =>
      rw [if_pos rfl, Option.map_some, Option.filter_some]
      by_cases hvalue : hostValue line = [] <;> simp [hvalue]

/-- A Host found stays when more lines come. -/
theorem hostIn_append {headers : List Bytes} {host : Bytes} (more : List Bytes) (h : hostIn headers = some host) :
    hostIn (headers ++ more) = some host := by
  induction headers with
  | nil => simp [hostIn] at h
  | cons line headers ih =>
    rw [hostIn_cons] at h
    rw [List.cons_append, hostIn_cons]
    split_ifs at h ⊢ with hnil hhost
    · exact h
    · exact ih h

theorem hostOf_prefix {lines lines' : List Bytes} {host : Bytes} (hp : lines <+: lines')
    (h : hostOf lines = some host) : hostOf lines' = some host := by
  obtain ⟨more, rfl⟩ := hp
  cases lines with
  | nil => cases h
  | cons request headers =>
    rw [hostOf] at h
    rw [List.cons_append, hostOf]
    split_ifs at h ⊢ with hrequest
    exact hostIn_append more h

theorem hostOf_eq_some {lines : List Bytes} {host : Bytes} : hostOf lines = some host ↔
    ∃ request headers line, lines = request :: headers ∧ isRequest request = true ∧
      (headers.takeWhile (· ≠ [])).find? isHostLine = some line ∧ hostValue line ≠ [] ∧ host = hostValue line := by
  constructor
  · intro h
    cases lines with
    | nil => cases h
    | cons request headers =>
      rw [hostOf] at h
      split_ifs at h with hrequest
      obtain ⟨hmap, hne⟩ := Option.filter_eq_some_iff.mp h
      obtain ⟨line, hline, rfl⟩ := Option.map_eq_some_iff.mp hmap
      exact ⟨request, headers, line, rfl, hrequest, hline, by simpa using hne, rfl⟩
  · rintro ⟨request, headers, line, rfl, hrequest, hline, hne, rfl⟩
    rw [hostOf, if_pos hrequest, hostIn, hline]
    exact Option.filter_eq_some_iff.mpr ⟨rfl, by simpa using hne⟩

/-! ### What the scan reads -/

section Scan

variable {payload : Bytes} {scanLen : ℕ}

/-- The line that starts at `i`. -/
theorem lineEnd_eq (hs : scanLen ≤ payload.length) : ∀ {fuel i : ℕ}, i ≤ scanLen → scanLen < i + fuel →
    lineEnd payload scanLen fuel i =
      .ok (match splitLine ((payload.take scanLen).drop i) with
        | some x => i + x.1.length
        | none => scanLen) := by
  intro fuel
  induction fuel with
  | zero => intro i h h'; omega
  | succ fuel ih =>
    intro i h h'
    have hlen : ((payload.take scanLen).drop i).length = scanLen - i := by
      rw [List.length_drop, List.length_take, min_eq_left hs]
    unfold lineEnd
    by_cases hi : i + 1 < scanLen
    · have hdrop : ∀ j, j < scanLen → (payload.take scanLen).drop j =
          (payload.getD j 0) :: (payload.take scanLen).drop (j + 1) := by
        intro j hj
        rw [List.drop_eq_getElem_cons (by rw [List.length_take]; omega), List.getElem_take,
          List.getD_eq_getElem?_getD, List.getElem?_eq_getElem (by omega), Option.getD_some]
      rw [if_pos hi, readU8_eq (by omega), ok_bind, readU8_eq (by omega), ok_bind, hdrop i (by omega),
        hdrop (i + 1) hi, splitLine]
      have hcrlf : u8 payload i = 0x0D ∧ u8 payload (i + 1) = 0x0A ↔
          payload.getD i 0 = 0x0D ∧ payload.getD (i + 1) 0 = 0x0A := by
        simp only [u8, ← UInt8.toNat_inj]
        rfl
      by_cases hc : payload.getD i 0 = 0x0D ∧ payload.getD (i + 1) 0 = 0x0A
      · rw [if_pos (hcrlf.mpr hc), if_pos hc]
        rfl
      · rw [if_neg (mt hcrlf.mp hc), if_neg hc, ih (by omega) (by omega), hdrop (i + 1) hi]
        cases splitLine (payload.getD (i + 1) 0 :: (payload.take scanLen).drop (i + 1 + 1)) with
        | none => rfl
        | some x => simp only [Option.map_some, List.length_cons, Except.ok.injEq]; omega
    · rw [if_neg hi, splitLine_short (by omega)]
      rfl

theorem lineEnd_none (hs : scanLen ≤ payload.length) (h : splitLine (payload.take scanLen) = none) :
    lineEnd payload scanLen (scanLen + 1) 0 = .ok scanLen := by
  rw [lineEnd_eq hs (Nat.zero_le _) (by omega), List.drop_zero, h]

theorem lineEnd_some (hs : scanLen ≤ payload.length) {line rest : Bytes}
    (h : splitLine (payload.take scanLen) = some (line, rest)) :
    lineEnd payload scanLen (scanLen + 1) 0 = .ok line.length := by
  rw [lineEnd_eq hs (Nat.zero_le _) (by omega), List.drop_zero, h]
  exact congrArg Except.ok (Nat.zero_add _)

/-- A complete line lies in the scanned part, and the next one starts after its CRLF. -/
theorem line_bounds (hs : scanLen ≤ payload.length) {pos : ℕ} {line rest : Bytes}
    (h : splitLine ((payload.take scanLen).drop pos) = some (line, rest)) :
    pos + line.length + 2 ≤ scanLen ∧ slice payload pos line.length = line ∧
      rest = (payload.take scanLen).drop (pos + line.length + 2) := by
  have hsplit := splitLine_eq_some h
  have hlen := congrArg List.length hsplit
  simp only [List.length_drop, List.length_take, List.length_append, List.length_cons] at hlen
  refine ⟨by omega, ?_, ?_⟩
  · calc slice payload pos line.length = ((payload.take scanLen).drop pos).take line.length := by
          rw [slice, List.drop_take, List.take_take, min_eq_left (by omega)]
      _ = line := by rw [hsplit, List.take_left]
  · calc rest = (line ++ 0x0D :: 0x0A :: rest).drop (line.length + 2) := by
          rw [← List.drop_drop, List.drop_left]; rfl
      _ = (payload.take scanLen).drop (pos + line.length + 2) := by
          rw [← hsplit, List.drop_drop, Nat.add_assoc]

/-- The spaces skipped are those in front of the value. -/
theorem skipSpaces_slice {stop : ℕ} (hs : stop ≤ payload.length) : ∀ {fuel pos : ℕ}, pos ≤ stop → stop < pos + fuel →
    Safe (skipSpaces payload stop fuel pos) fun start => pos ≤ start ∧ start ≤ stop ∧
      slice payload start (stop - start) = (slice payload pos (stop - pos)).dropWhile fun b => b = 0x20 := by
  intro fuel
  induction fuel with
  | zero => intro pos h h'; omega
  | succ fuel ih =>
    intro pos h h'
    refine .ite (fun hp => ?_) fun hp => .ok ⟨le_rfl, h, ?_⟩
    · have hcons : slice payload pos (stop - pos) =
          (payload.getD pos 0) :: slice payload (pos + 1) (stop - (pos + 1)) := by
        rw [slice, slice, List.drop_eq_getElem_cons (by omega), List.getD_eq_getElem?_getD,
          List.getElem?_eq_getElem (by omega), Option.getD_some, show stop - pos = stop - (pos + 1) + 1 by omega,
          List.take_succ_cons]
      have hspace : u8 payload pos = 0x20 ↔ payload.getD pos 0 = 0x20 := by
        rw [u8, ← UInt8.toNat_inj]
        rfl
      refine (safe_readU8 (by omega)).bind fun b hb => .ite (fun hb' => ?_) fun hb' => .ok ⟨le_rfl, h, ?_⟩
      · refine (ih (by omega) (by omega)).mono fun start hstart => ⟨by omega, hstart.2.1, ?_⟩
        rw [hstart.2.2, hcons, List.dropWhile_cons_of_pos (by simpa using hspace.mp (hb.1 ▸ hb'))]
      · rw [hcons, List.dropWhile_cons_of_neg (by simpa using mt hspace.mpr (hb.1 ▸ hb'))]
    · rw [show stop - pos = 0 by omega]
      rfl

variable {line rest : Bytes} {pos : ℕ} {out : ParsedPacket}

theorem isHostHeader_eq (hline : slice payload pos line.length = line) (hle : pos + line.length ≤ payload.length)
    (h5 : line.length > 5) : isHostHeader payload pos = .ok (isHostLine line) := by
  have hbyte : ∀ j < 5, u8 payload (pos + j) = u8 line j := fun j hj => by
    rw [← hline, u8_slice (by omega)]
  have h0 := hbyte 0 (by decide)
  rw [Nat.add_zero] at h0
  have htake : (line.take 5).map (fun b => tolower b.toNat) =
      [tolower (u8 line 0), tolower (u8 line 1), tolower (u8 line 2), tolower (u8 line 3), tolower (u8 line 4)] := by
    match line, h5 with
    | b0 :: b1 :: b2 :: b3 :: b4 :: rest, _ => rfl
  unfold isHostHeader
  rw [readU8_eq (by omega), readU8_eq (by omega), readU8_eq (by omega), readU8_eq (by omega), readU8_eq (by omega)]
  simp only [ok_bind, pure_eq, h0, hbyte 1, hbyte 2, hbyte 3, hbyte 4, Nat.reduceLT]
  simp only [isHostLine, htake, h5, true_and, List.cons.injEq, and_true]

theorem readHost_hostname (hline : slice payload pos line.length = line) (hle : pos + line.length ≤ payload.length)
    (h5 : line.length > 5) : Safe (readHost payload pos (pos + line.length) out) fun r =>
      r.hostname = ((if hostValue line = [] then none else some (hostValue line)).map ofBytes).getD out.hostname := by
  refine (skipSpaces_slice hle (by omega) (by omega)).bind fun start hstart => ?_
  have hvalue : slice payload start (pos + line.length - start) = hostValue line := by
    rw [hstart.2.2, hostValue]
    congr 1
    calc slice payload (pos + 5) (pos + line.length - (pos + 5)) = (slice payload pos line.length).drop 5 := by
          rw [drop_slice, show pos + line.length - (pos + 5) = line.length - 5 by omega]
      _ = line.drop 5 := by rw [hline]
  have hlen : (hostValue line).length = pos + line.length - start := by
    rw [← hvalue, length_slice _ (by omega)]
  refine .ite (fun hlt => ?_) fun hlt => .ok ?_
  · refine (safe_sub (by omega)).bind fun n hn => (safe_window (by omega)).bind fun name hname => .ok ?_
    have hne : hostValue line ≠ [] := List.ne_nil_of_length_pos (by omega)
    rw [if_neg hne, hname.1, hn, hvalue]
    rfl
  · have hnil : hostValue line = [] := List.eq_nil_of_length_eq_zero (by omega)
    rw [if_pos hnil]
    rfl

/-- The walk over the header lines. -/
theorem headerLoop_hostname (hs : scanLen ≤ payload.length) : ∀ {fuel pos : ℕ}, 0 < fuel → scanLen < pos + fuel →
    Safe (headerLoop payload scanLen fuel pos out) fun r =>
      r.hostname = ((hostIn (completeLines ((payload.take scanLen).drop pos))).map ofBytes).getD out.hostname := by
  intro fuel
  induction fuel with
  | zero => intro pos hf; omega
  | succ fuel ih =>
    intro pos _ hf
    refine .ite (fun hp => ?_) fun hp => .ok ?_
    · rw [lineEnd_eq hs (by omega) (by omega), ok_bind]
      cases hsplit : splitLine ((payload.take scanLen).drop pos) with
      | none =>
        rw [completeLines_of_none hsplit]
        exact .ite (fun _ => .ok rfl) fun _ => .guard rfl fun hne => absurd rfl hne
      | some x =>
        obtain ⟨line, rest⟩ := x
        obtain ⟨hbound, hline, hrest⟩ := line_bounds hs hsplit
        dsimp only
        rw [completeLines_of_some hsplit, hostIn_cons]
        by_cases hnil : line = []
        · rw [if_pos (by simp [hnil]), if_pos hnil]
          exact .ok rfl
        · have hpos := List.length_pos_of_ne_nil hnil
          rw [if_neg (by omega), if_neg (by omega), if_neg hnil, sub_eq (by omega), ok_bind,
            show pos + line.length - pos = line.length by omega]
          have hnext := @ih (pos + line.length + 2) (by omega) (by omega)
          rw [← hrest] at hnext
          refine .ite (fun h5 => ?_) fun h5 => ?_
          · rw [isHostHeader_eq hline (by omega) h5, ok_bind]
            by_cases hhost : isHostLine line = true
            · rw [if_pos hhost, if_pos hhost]
              exact readHost_hostname hline (by omega) h5
            · rw [if_neg hhost, if_neg hhost]
              exact hnext
          · have hhost : ¬ isHostLine line = true := by simp [isHostLine, h5]
            rw [if_neg hhost]
            exact hnext
    · rw [List.drop_eq_nil_of_le (by rw [List.length_take]; omega)]
      rfl

/-! ### The request line -/

theorem toList_ofBytes (b : Bytes) : (ofBytes b).toList = b.map fun x => Char.ofNat x.toNat := by
  rw [ofBytes, String.toList_ofList]

/-- A method and a space at the start of the scanned part are in its first line:
neither holds a CR. -/
theorem startsRequest_iff (hs : scanLen ≤ payload.length)
    (hsplit : splitLine (payload.take scanLen) = some (line, rest))
    {method : String} (hcr : '\r' ∉ method.toList) : startsRequest line method = true ↔
      scanLen > method.length + 1 ∧ ofBytes (slice payload 0 method.length) = method ∧
        u8 payload method.length = 0x20 := by
  obtain ⟨hbound, hline, -⟩ := @line_bounds payload scanLen hs 0 line rest hsplit
  rw [Nat.zero_add] at hbound
  have hpre : ∀ n ≤ line.length, slice payload 0 n = line.take n := fun n hn => by
    rw [slice_zero, ← hline, slice_zero, List.take_take, min_eq_left hn]
  have hbyte : ∀ n < line.length, (line)[n]? = some 0x20 ↔ u8 payload n = 0x20 := fun n hn => by
    rw [← Nat.zero_add n, ← u8_slice hn, hline, Nat.zero_add, u8, List.getD_eq_getElem?_getD,
      List.getElem?_eq_getElem hn, Option.some_inj, Option.getD_some, ← UInt8.toNat_inj]
    rfl
  simp only [startsRequest, decide_eq_true_eq]
  constructor
  · rintro ⟨hmethod, hspace⟩
    have hlt : method.length < line.length := (List.getElem?_eq_some_iff.mp hspace).1
    exact ⟨by omega, by rw [hpre _ hlt.le, hmethod], (hbyte _ hlt).mp hspace⟩
  · rintro ⟨-, hmethod, hspace⟩
    have hend : u8 payload line.length = 0x0D := by
      rw [← @u8_take payload scanLen line.length (by omega), splitLine_eq_some hsplit, u8,
        List.getD_eq_getElem?_getD, List.getElem?_append_right le_rfl, Nat.sub_self]
      rfl
    have hlt : method.length < line.length := by
      by_contra hge
      rcases Nat.eq_or_lt_of_le (not_lt.mp hge) with heq | hgt
      · rw [← heq, hend] at hspace
        exact absurd hspace (by decide)
      · refine hcr ?_
        rw [← hmethod, toList_ofBytes]
        have hmem : payload.getD line.length 0 ∈ slice payload 0 method.length := by
          rw [slice_zero, List.getD_eq_getElem?_getD, List.getElem?_eq_getElem (by omega), Option.getD_some]
          exact List.mem_take_iff_getElem.mpr ⟨line.length, by omega, rfl⟩
        have hchar : Char.ofNat (u8 payload line.length) = '\r' := by rw [hend]
        exact hchar ▸ List.mem_map_of_mem hmem
    exact ⟨by rw [← hpre _ hlt.le, hmethod], (hbyte _ hlt).mpr hspace⟩

theorem startsWith_eq {text : String} (h : text.length ≤ payload.length) :
    startsWith payload text = .ok (decide (ofBytes (slice payload 0 text.length) = text)) := by
  rw [startsWith, window_eq (by omega), ok_bind, pure_eq]

theorem isHttpMethod_eq (hs : scanLen ≤ payload.length)
    (hsplit : splitLine (payload.take scanLen) = some (line, rest)) :
    ∀ {methods : List String}, (∀ method ∈ methods, '\r' ∉ method.toList) →
      isHttpMethod payload scanLen methods = .ok (methods.any (startsRequest line))
  | [], _ => rfl
  | method :: methods, hcr => by
    have hiff := startsRequest_iff hs hsplit (hcr method List.mem_cons_self)
    have ih := isHttpMethod_eq hs hsplit fun m hm => hcr m (List.mem_cons_of_mem _ hm)
    unfold isHttpMethod
    rw [List.any_cons]
    by_cases hlen : scanLen > method.length + 1
    · rw [if_pos hlen, startsWith_eq (by omega), ok_bind, readU8_eq (by omega), ok_bind]
      by_cases hstart : startsRequest line method = true
      · obtain ⟨-, hmethod, hspace⟩ := hiff.mp hstart
        rw [if_pos ⟨by simpa using hmethod, hspace⟩, hstart, Bool.true_or]
        rfl
      · have hnot : ¬ (decide (ofBytes (slice payload 0 method.length) = method) = true ∧
            u8 payload method.length = 0x20) := fun h => hstart (hiff.mpr ⟨hlen, by simpa using h.1, h.2⟩)
        rw [if_neg hnot, ih, Bool.not_eq_true _ |>.mp hstart, Bool.false_or]
    · have hstart : ¬ startsRequest line method = true := fun h => hlen (hiff.mp h).1
      rw [if_neg hlen, ih, Bool.not_eq_true _ |>.mp hstart, Bool.false_or]

theorem httpMethods_chars : ∀ method ∈ httpMethods,
    '\r' ∉ method.toList ∧ 2 ≤ method.length ∧ method.toList.take 2 ≠ ['H', 'T'] := by decide +kernel

/-- A status line is no request line. -/
theorem response_not_request (hs : scanLen ≤ payload.length)
    (hresponse : ofBytes (slice payload 0 7) = "HTTP/1.")
    (hsplit : splitLine (payload.take scanLen) = some (line, rest)) : isRequest line = false := by
  have htwo : ∀ {n : ℕ} {text : String}, 2 ≤ n → ofBytes (slice payload 0 n) = text →
      text.toList.take 2 = (payload.take 2).map fun x => Char.ofNat x.toNat := by
    rintro n _ hn rfl
    rw [toList_ofBytes, ← List.map_take, slice_zero, List.take_take, min_eq_left hn]
  refine Bool.eq_false_iff.mpr fun hrequest => ?_
  obtain ⟨method, hmem, hstart⟩ := List.any_eq_true.mp hrequest
  obtain ⟨hcr, hlen, hne⟩ := httpMethods_chars method hmem
  obtain ⟨-, hmethod, -⟩ := (startsRequest_iff hs hsplit hcr).mp hstart
  exact hne ((htwo hlen hmethod).trans (htwo (by decide) hresponse).symm)

end Scan

/-! ### parseHTTP -/

theorem scanned_eq (payload : Bytes) : payload.take (min payload.length 2048) = scanned payload := by
  rw [← List.take_take, List.take_of_length_le (List.length_take_le' ..)]
  rfl

theorem hostOf_completeLines_eq_none {b : Bytes}
    (h : ∀ line rest, splitLine b = some (line, rest) → isRequest line = false) : hostOf (completeLines b) = none := by
  cases hsplit : splitLine b with
  | none =>
    rw [completeLines_of_none hsplit]
    rfl
  | some x =>
    rw [completeLines_of_some hsplit, hostOf, h x.1 x.2 hsplit]
    rfl

/-- The request line and the headers after it. -/
theorem request_hostname {payload : Bytes} {scanLen : ℕ} (hs : scanLen ≤ payload.length) (out : ParsedPacket)
    (service : String) :
    Safe (do
      if ¬ (← isHttpMethod payload scanLen httpMethods) then return out
      let requestLineEnd ← lineEnd payload scanLen (scanLen + 1) 0
      let info := ofBytes (← window payload 0 (min requestLineEnd 120))
      headerLoop payload scanLen (scanLen + 1) (requestLineEnd + 2) { out with info, service }) fun r =>
        r.hostname = ((hostOf (completeLines (payload.take scanLen))).map ofBytes).getD out.hostname := by
  cases hsplit : splitLine (payload.take scanLen) with
  | none =>
    rw [completeLines_of_none hsplit]
    refine (isHttpMethod_safe hs httpMethods).bind fun isMethod _ => .guard rfl fun _ => ?_
    rw [lineEnd_none hs hsplit, ok_bind]
    refine (safe_window (by omega)).bind fun info _ => ?_
    unfold headerLoop
    rw [if_neg (by omega)]
    exact .ok rfl
  | some x =>
    obtain ⟨line, tail⟩ := x
    have hmethods : isHttpMethod payload scanLen httpMethods = .ok (isRequest line) :=
      isHttpMethod_eq hs hsplit fun m hm => (httpMethods_chars m hm).1
    obtain ⟨hbound, -, htail⟩ := @line_bounds payload scanLen hs 0 line tail hsplit
    rw [Nat.zero_add] at hbound htail
    rw [completeLines_of_some hsplit, hostOf, hmethods, ok_bind]
    refine .ite (fun hno => ?_) fun hyes => ?_
    · rw [if_neg hno]
      exact .ok rfl
    · rw [if_pos (not_not.mp hyes), lineEnd_some hs hsplit, ok_bind]
      refine (safe_window (by omega)).bind fun info _ => ?_
      rw [htail]
      exact headerLoop_hostname hs (Nat.succ_pos _) (by omega)

/-- **The hostname `parseHTTP` leaves** is the Host of the complete lines of
the scanned part, the packet's own without one. -/
theorem parseHTTP_host (payload : Bytes) (out : ParsedPacket) : Safe (parseHTTP payload out) fun r =>
    r.hostname = ((hostOf (completeLines (scanned payload))).map ofBytes).getD out.hostname := by
  have hs : min payload.length 2048 ≤ payload.length := min_le_left _ _
  have hscanned := scanned_eq payload
  unfold parseHTTP
  extract_lets scanLen service rest
  change payload.take scanLen = scanned payload at hscanned
  rw [← hscanned]
  have hrest : ∀ isResponse, (isResponse = true → hostOf (completeLines (payload.take scanLen)) = none) →
      Safe (rest isResponse) fun r =>
        r.hostname = ((hostOf (completeLines (payload.take scanLen))).map ofBytes).getD out.hostname := by
    intro isResponse hresponse
    refine .ite (fun h => ?_) fun _ => request_hostname hs out service
    rw [hresponse h]
    refine (lineEnd_safe hs (Nat.zero_le _) (by omega)).bind fun stop hstop => ?_
    exact (safe_window (by omega)).bind fun info _ => .ok rfl
  refine .ite (fun h => ?_) fun _ => hrest false fun h => by cases h
  have hlength : "HTTP/1.".length ≤ payload.length := le_trans (by decide) (h.trans hs)
  rw [startsWith_eq hlength, ok_bind]
  refine hrest _ fun hresponse => hostOf_completeLines_eq_none fun line rest hsplit => ?_
  exact response_not_request hs (of_decide_eq_true hresponse) hsplit

/-! ### Nothing invented -/

/-- `parseHTTP` sets the hostname to `h`, whatever it was. -/
def SetsHostname (payload : Bytes) (h : String) : Prop :=
  ∀ out, Safe (parseHTTP payload out) fun r => r.hostname = h

theorem setsHostname_iff {payload : Bytes} {h : String} :
    SetsHostname payload h ↔ ∃ host, hostOf (completeLines (scanned payload)) = some host ∧ ofBytes host = h := by
  constructor
  · intro hsets
    -- a packet with another hostname than `h`
    have hout := hsets { hostname := h ++ "." }
    obtain ⟨r, hr, hname⟩ := hout
    obtain ⟨r', hr', hhost⟩ := parseHTTP_host payload { hostname := h ++ "." }
    obtain rfl := Except.ok.inj (hr.symm.trans hr')
    cases hlines : hostOf (completeLines (scanned payload)) with
    | some host =>
      rw [hlines, hname] at hhost
      exact ⟨host, rfl, hhost.symm⟩
    | none =>
      rw [hlines, hname] at hhost
      have hlength := congrArg String.length hhost
      simp at hlength
  · rintro ⟨host, hlines, rfl⟩ out
    have hsafe := parseHTTP_host payload out
    rwa [hlines] at hsafe

/-- **HTTP Host extraction never invents a name.** A cut payload names nothing
that the whole one does not; the name is the value of the first Host line, and
without one the hostname stays as it was. -/
theorem hostname_never_invented :
    (∀ payload cut h, cut <+: payload → SetsHostname cut h → SetsHostname payload h) ∧
    (∀ payload h, SetsHostname payload h ↔ ∃ request headers line,
      completeLines (payload.take 2048) = request :: headers ∧ isRequest request = true ∧
      (headers.takeWhile (· ≠ [])).find? isHostLine = some line ∧ hostValue line ≠ [] ∧
      h = ofBytes (hostValue line)) ∧
    (∀ payload out, Safe (parseHTTP payload out) fun r =>
      r.hostname = out.hostname ∨ SetsHostname payload r.hostname) := by
  refine ⟨fun payload cut h hcut hsets => ?_, fun payload h => ?_, fun payload out => ?_⟩
  · obtain ⟨host, hlines, hname⟩ := setsHostname_iff.mp hsets
    have hpre : scanned cut <+: scanned payload := by
      obtain ⟨post, rfl⟩ := hcut
      rw [scanned, scanned, List.take_append]
      exact List.prefix_append _ _
    exact setsHostname_iff.mpr ⟨host, hostOf_prefix (prefix_completeLines hpre) hlines, hname⟩
  · rw [setsHostname_iff]
    constructor
    · rintro ⟨host, hlines, rfl⟩
      obtain ⟨request, headers, line, hsplit, hrequest, hline, hvalue, rfl⟩ := hostOf_eq_some.mp hlines
      exact ⟨request, headers, line, hsplit, hrequest, hline, hvalue, rfl⟩
    · rintro ⟨request, headers, line, hsplit, hrequest, hline, hvalue, rfl⟩
      exact ⟨_, hostOf_eq_some.mpr ⟨request, headers, line, hsplit, hrequest, hline, hvalue, rfl⟩, rfl⟩
  · refine (parseHTTP_host payload out).mono fun r hr => ?_
    cases hlines : hostOf (completeLines (scanned payload)) with
    | none => exact .inl (by rw [hr, hlines]; rfl)
    | some host => exact .inr (setsHostname_iff.mpr ⟨host, hlines, by rw [hr, hlines]; rfl⟩)

end ProtocolParser
end NetProbe
