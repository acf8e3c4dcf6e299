/-
# The records of a DNS response

`parseMessage` accepts a message exactly when its questions and its answer
records stand one after the other from offset 12 on, as many as the header
counts, each ending inside the message. It reports the first question's name
and the answers of the records. Each record type gives its answer in a way of
its own (`Answers`).

Key definitions: `Entry`, `Entry.Spans`, `Entry.Answers`, `Sections`, `reported`.
Key theorems: `Entry.outcome_iff`, `questionLoop_eq_some`, `answerLoop_eq_some`,
`parseMessage_eq_some`, `parseMessage_sound`.
-/
import NetProbe.DnsNames

namespace NetProbe
namespace DNSParser

open Checked Bytes Wire

theorem nameAt_le {message : Bytes} {position next : ℕ} {name : String}
    (h : nameAt message position = some (name, next)) : position < next ∧ next ≤ message.length := by
  obtain ⟨visited, labels, hleads, -⟩ := nameAt_eq_some.mp h
  exact hleads.next_le

/-- A record of the answer section: where it starts, the name of its owner and
where its fixed fields start. -/
structure Entry where
  start : ℕ
  owner : String
  header : ℕ

namespace Entry

section Fields

variable (message : Bytes) (e : Entry)

def type : ℕ := u16 message e.header

/-- Class IN, whatever the cache-flush bit. -/
def Internet : Prop := u16 message (e.header + 2) &&& 0x7FFF = dnsClassInternet

instance : Decidable (e.Internet message) := inferInstanceAs (Decidable (_ = _))

def dataStart : ℕ := e.header + 10

def dataLength : ℕ := u16 message (e.header + 8)

def dataEnd : ℕ := e.dataStart + e.dataLength message

/-- The record stands from `start` to `stop`. -/
def Spans (start stop : ℕ) : Prop :=
  e.start = start ∧ nameAt message start = some (e.owner, e.header) ∧
    e.dataEnd message ≤ message.length ∧ stop = e.dataEnd message

/-- A SVCB or HTTPS record. -/
def Service : Prop := e.type message = rrSvcb ∨ e.type message = rrHttps

/-- The kind of answer such a record gives. -/
def svcKind : DNSRecordType := if e.type message = rrHttps then .HTTPS else .SVCB

/-- What the answer loop makes of the record: its answer and whether it
advertises ECH. -/
def outcome (sys : Platform) : Option DNSRecord × Bool :=
  if e.Internet message then
    (readAnswer sys message e.owner (e.type message) e.dataStart (e.dataLength message)).toOption.getD (none, false)
  else (none, false)

/-- The answers a record of class IN can give, type by type. -/
inductive Answers (sys : Platform) : DNSRecord → Prop
  | a : e.type message = rrA → e.dataLength message = 4 →
      Answers sys ⟨.A, e.owner, sys.inetNtop4 (slice message e.dataStart 4), 0⟩
  | aaaa : e.type message = rrAaaa → e.dataLength message = 16 →
      Answers sys ⟨.AAAA, e.owner, sys.inetNtop6 (slice message e.dataStart 16), 0⟩
  | cname {name : String} {next : ℕ} : e.type message = rrCname →
      nameAt message e.dataStart = some (name, next) → next ≤ e.dataEnd message →
      Answers sys ⟨.CNAME, e.owner, name, 0⟩
  | ptr {name : String} {next : ℕ} : e.type message = rrPtr →
      nameAt message e.dataStart = some (name, next) → next ≤ e.dataEnd message → name ≠ "" →
      Answers sys ⟨.PTR, e.owner, name, 0⟩
  | srv {name : String} {next : ℕ} : e.type message = rrSrv → 7 ≤ e.dataLength message →
      nameAt message (e.dataStart + 6) = some (name, next) → next ≤ e.dataEnd message → name ≠ "" →
      Answers sys ⟨.SRV, e.owner, name ++ ":" ++ toString (u16 message (e.dataStart + 4)),
        u16 message e.dataStart⟩
  | txt {text : Bytes} : e.type message = rrTxt →
      txtLoop message (e.dataEnd message) (e.dataEnd message + 1) e.dataStart [] = .ok text → text ≠ [] →
      Answers sys ⟨.TXT, e.owner, ofBytes text, 0⟩
  | svcTarget {name : String} {next : ℕ} : e.Service message → 2 ≤ e.dataLength message →
      nameAt message (e.dataStart + 2) = some (name, next) → name ≠ "" →
      Answers sys ⟨e.svcKind message, e.owner, name, u16 message e.dataStart⟩
  | svcOwner : e.Service message → 2 ≤ e.dataLength message →
      (∀ name next, nameAt message (e.dataStart + 2) = some (name, next) → name = "") →
      Answers sys ⟨e.svcKind message, e.owner, e.owner, u16 message e.dataStart⟩

end Fields

section Answer

variable {sys : Platform} {message : Bytes} {e : Entry}

/-- Whatever `readAnswer` reports is an answer of the record's type. -/
theorem answers_of_readAnswer (hend : e.dataEnd message ≤ message.length) {record : DNSRecord} {ech : Bool}
    (h : readAnswer sys message e.owner (e.type message) e.dataStart (e.dataLength message) =
      .ok (some record, ech)) : e.Answers message sys record := by
  have hlen : e.dataStart + e.dataLength message ≤ message.length := hend
  have hinj : ∀ {answer : Option DNSRecord} {b : Bool}, (.ok (answer, b) : Checked (Option DNSRecord × Bool)) =
      .ok (some record, ech) → answer = some record := fun h => (Prod.mk.inj (Except.ok.inj h)).1
  by_cases hknown : e.type message ∈ [rrA, rrCname, rrPtr, rrTxt, rrAaaa, rrSrv, rrSvcb, rrHttps]
  · simp only [List.mem_cons, List.not_mem_nil, or_false] at hknown
    rcases hknown with hA | hCname | hPtr | hTxt | hAaaa | hSrv | hservice
    · rw [hA, readAnswer_a hlen] at h
      obtain ⟨hd, hr⟩ := Option.ite_none_right_eq_some.mp (hinj h)
      exact Option.some.inj hr ▸ .a hA hd
    · rw [hCname, readAnswer_cname (readName_eq _)] at h
      obtain ⟨t, hname, ht⟩ := Option.bind_eq_some_iff.mp (hinj h)
      obtain ⟨hle, hr⟩ := Option.ite_none_right_eq_some.mp ht
      exact Option.some.inj hr ▸ .cname hCname hname hle
    · rw [hPtr, readAnswer_ptr (readName_eq _)] at h
      obtain ⟨t, hname, ht⟩ := Option.bind_eq_some_iff.mp (hinj h)
      obtain ⟨⟨hle, hne⟩, hr⟩ := Option.ite_none_right_eq_some.mp ht
      exact Option.some.inj hr ▸ .ptr hPtr hname hle hne
    · have hsafe : Safe (txtLoop message (e.dataStart + e.dataLength message) (e.dataStart + e.dataLength message + 1)
          e.dataStart []) _ := txtLoop_safe hlen (Nat.zero_le _) (Nat.succ_pos _) (by omega)
      obtain ⟨text, htext, -⟩ := hsafe
      rw [hTxt, readAnswer_txt htext] at h
      obtain ⟨hne, hr⟩ := Option.ite_none_right_eq_some.mp (hinj h)
      exact Option.some.inj hr ▸ .txt hTxt htext hne
    · rw [hAaaa, readAnswer_aaaa hlen] at h
      obtain ⟨hd, hr⟩ := Option.ite_none_right_eq_some.mp (hinj h)
      exact Option.some.inj hr ▸ .aaaa hAaaa hd
    · rw [hSrv, readAnswer_srv hlen (readName_eq _)] at h
      obtain ⟨hd, h⟩ := Option.ite_none_left_eq_some.mp (hinj h)
      obtain ⟨t, hname, ht⟩ := Option.bind_eq_some_iff.mp h
      obtain ⟨⟨hle, hne⟩, hr⟩ := Option.ite_none_right_eq_some.mp ht
      exact Option.some.inj hr ▸ .srv hSrv (not_lt.mp hd) hname hle hne
    · by_cases hd : e.dataLength message < 2
      · rw [readAnswer_service_short hservice hd] at h
        cases hinj h
      obtain ⟨b, hech, -⟩ := svcbAdvertisesEch_safe hlen (Nat.le_add_right e.dataStart (e.dataLength message))
      rw [readAnswer_service hservice hlen (not_lt.mp hd) (readName_eq _) hech] at h
      obtain rfl := Option.some.inj (hinj h)
      cases hname : nameAt message (e.dataStart + 2) with
      | none => exact .svcOwner hservice (not_lt.mp hd) (by simp [hname])
      | some t =>
        rw [serviceTarget]
        by_cases hne : t.1 ≠ ""
        · rw [if_pos hne]
          exact .svcTarget hservice (not_lt.mp hd) hname hne
        · rw [if_neg hne]
          refine .svcOwner hservice (not_lt.mp hd) fun name next hr => ?_
          obtain rfl := Option.some.inj (hname.symm.trans hr)
          exact not_not.mp hne
  · rw [readAnswer_other hknown] at h
    cases hinj h

/-- `readAnswer` reports each of these answers. -/
theorem readAnswer_of_answers (hend : e.dataEnd message ≤ message.length) {record : DNSRecord}
    (h : e.Answers message sys record) :
    ∃ ech, readAnswer sys message e.owner (e.type message) e.dataStart (e.dataLength message) =
      .ok (some record, ech) := by
  have hlen : e.dataStart + e.dataLength message ≤ message.length := hend
  obtain ⟨ech, hech, -⟩ := svcbAdvertisesEch_safe hlen (Nat.le_add_right e.dataStart (e.dataLength message))
  cases h with
  | a htype hd => exact ⟨false, by rw [htype, readAnswer_a hlen, if_pos hd]⟩
  | aaaa htype hd => exact ⟨false, by rw [htype, readAnswer_aaaa hlen, if_pos hd]⟩
  | @cname name next htype hname hle =>
    have hle : next ≤ e.dataStart + e.dataLength message := hle
    exact ⟨false, by rw [htype, readAnswer_cname (readName_eq _), hname, Option.bind_some, if_pos hle]⟩
  | @ptr name next htype hname hle hne =>
    have hle : next ≤ e.dataStart + e.dataLength message := hle
    exact ⟨false, by rw [htype, readAnswer_ptr (readName_eq _), hname, Option.bind_some, if_pos ⟨hle, hne⟩]⟩
  | @srv name next htype hd hname hle hne =>
    have hle : next ≤ e.dataStart + e.dataLength message := hle
    exact ⟨false, by rw [htype, readAnswer_srv hlen (readName_eq _), if_neg (not_lt.mpr hd), hname, Option.bind_some,
      if_pos ⟨hle, hne⟩]⟩
  | txt htype htext hne => exact ⟨false, by rw [htype, readAnswer_txt htext, if_pos hne]⟩
  | svcTarget htype hd hname hne =>
    exact ⟨ech, by rw [readAnswer_service htype hlen hd (readName_eq _) hech, hname, serviceTarget, if_pos hne]; rfl⟩
  | svcOwner htype hd hempty =>
    refine ⟨ech, ?_⟩
    rw [readAnswer_service htype hlen hd (readName_eq _) hech]
    cases hname : nameAt message (e.dataStart + 2) with
    | none => rfl
    | some t =>
      rw [serviceTarget, if_neg (not_not.mpr (hempty t.1 t.2 hname))]
      rfl

theorem outcome_of_internet (hend : e.dataEnd message ≤ message.length) (hin : e.Internet message) :
    readAnswer sys message e.owner (e.type message) e.dataStart (e.dataLength message) =
      .ok (e.outcome message sys) := by
  obtain ⟨r, hr, -⟩ := readAnswer_safe sys e.owner (e.type message) hend
  have hr' : readAnswer sys message e.owner (e.type message) e.dataStart (e.dataLength message) = .ok r := hr
  rw [outcome, if_pos hin, hr']
  rfl

/-- The answer of a record, type by type. -/
theorem outcome_iff (hend : e.dataEnd message ≤ message.length) {record : DNSRecord} :
    (e.outcome message sys).1 = some record ↔ e.Internet message ∧ e.Answers message sys record := by
  by_cases hin : e.Internet message
  · have hread : readAnswer sys message e.owner (e.type message) e.dataStart (e.dataLength message) =
        .ok (e.outcome message sys) := outcome_of_internet hend hin
    constructor
    · intro h
      have hpair : e.outcome message sys = (some record, (e.outcome message sys).2) := Prod.ext h rfl
      exact ⟨hin, answers_of_readAnswer hend (hread.trans (congrArg Except.ok hpair))⟩
    · rintro ⟨-, h⟩
      obtain ⟨ech, hech⟩ := readAnswer_of_answers hend h
      rw [← Except.ok.inj (hech.symm.trans hread)]
  · rw [outcome, if_neg hin]
    simp [hin]

end Answer
end Entry

/-! ### Sections -/

/-- A question stands from `start` to `stop`: a name, a type and a class. -/
def QuestionSpans (message : Bytes) (name : String) (start stop : ℕ) : Prop :=
  ∃ p, nameAt message start = some (name, p) ∧ p + 4 ≤ message.length ∧ stop = p + 4

/-- The message is a response whose header counts the questions and the records
that stand one after the other from offset 12 on. -/
structure Sections (message : Bytes) (questions : List String) (records : List Entry) : Prop where
  size : 12 ≤ message.length
  response : u16 message 2 &&& 0x8000 ≠ 0
  questionCount : questions.length = u16 message 4
  answerCount : records.length = u16 message 6
  laid : ∃ mid stop, Laid (QuestionSpans message) questions 12 mid ∧
    Laid (Entry.Spans message) records mid stop

/-- What the parser reports of the sections of a message. -/
def reported (sys : Platform) (message : Bytes) (questions : List String) (records : List Entry) :
    DNSResponse where
  queryName := questions.headD ""
  answers := records.flatMap fun e => (e.outcome message sys).1.toList
  encryptedClientHelloAdvertised := records.any fun e => (e.outcome message sys).2

section Loops

variable {sys : Platform} {message : Bytes}

theorem questionLoop_eq_some : ∀ {n position stop : ℕ} {questions : List String},
    questionLoop message n position = .ok (some (questions, stop)) ↔
      questions.length = n ∧ Laid (QuestionSpans message) questions position stop
  | 0, position, stop, questions => by
    constructor
    · intro h
      obtain ⟨rfl, rfl⟩ := Prod.mk.inj (Option.some.inj (Except.ok.inj h))
      exact ⟨rfl, rfl⟩
    · rintro ⟨h0, h⟩
      obtain rfl := List.length_eq_zero_iff.mp h0
      rw [show position = stop from h]
      rfl
  | n + 1, position, stop, questions => by
    rw [questionLoop, readName_eq, ok_bind]
    constructor
    · intro h
      cases hname : nameAt message position with
      | none => simp [hname] at h
      | some r =>
        have hle := (nameAt_le hname).2
        rw [hname] at h
        dsimp only at h
        rw [sub_eq hle, ok_bind] at h
        split at h
        · cases h
        obtain ⟨rest, hrest, h⟩ := bind_eq_ok.mp h
        cases rest with
        | none => cases h
        | some q =>
          obtain ⟨rfl, rfl⟩ := Prod.mk.inj (Option.some.inj (Except.ok.inj h))
          obtain ⟨hn, hlaid⟩ := questionLoop_eq_some.mp hrest
          exact ⟨congrArg (· + 1) hn, r.2 + 4, ⟨r.2, hname, by omega, rfl⟩, hlaid⟩
    · rintro ⟨hn, h⟩
      cases questions with
      | nil => cases hn
      | cons name questions =>
        obtain ⟨mid, ⟨p, hname, hp, rfl⟩, hrest⟩ := h
        have hloop := questionLoop_eq_some.mpr ⟨Nat.succ.inj hn, hrest⟩
        rw [hname]
        dsimp only
        rw [sub_eq (by omega), ok_bind, if_neg (by omega), hloop]
        rfl

/-- One record of the answer loop. -/
theorem answerLoop_entry {e : Entry} {n position stop : ℕ} (h : e.Spans message position stop)
    (response : DNSResponse) :
    answerLoop sys message (n + 1) position response =
      answerLoop sys message n stop { response with
        answers := response.answers ++ (e.outcome message sys).1.toList
        encryptedClientHelloAdvertised :=
          response.encryptedClientHelloAdvertised || (e.outcome message sys).2 } := by
  obtain ⟨rfl, hname, hend, rfl⟩ := h
  have hle := (nameAt_le hname).2
  have hlen : e.header + 10 + u16 message (e.header + 8) ≤ message.length := hend
  rw [answerLoop, readName_eq, ok_bind, hname]
  dsimp only
  rw [sub_eq hle, ok_bind, if_neg (by omega), readU16_eq (by omega), ok_bind, readU16_eq (by omega), ok_bind,
    readU16_eq (by omega), ok_bind, sub_eq (by omega), ok_bind, if_neg (by omega)]
  by_cases hin : e.Internet message
  · have hread : readAnswer sys message e.owner (u16 message e.header) (e.header + 10)
        (u16 message (e.header + 8)) = .ok (e.outcome message sys) := Entry.outcome_of_internet hend hin
    rw [if_pos (show u16 message (e.header + 2) &&& 0x7FFF = dnsClassInternet from hin), hread]
    rfl
  · rw [if_neg (show ¬ u16 message (e.header + 2) &&& 0x7FFF = dnsClassInternet from hin), Entry.outcome,
      if_neg hin]
    rfl

/-- A pass of the answer loop that does not fail has a record before it. -/
theorem exists_entry {n position : ℕ} {response result : DNSResponse}
    (h : answerLoop sys message (n + 1) position response = .ok (some result)) :
    ∃ e : Entry, e.Spans message position (e.dataEnd message) := by
  rw [answerLoop, readName_eq, ok_bind] at h
  cases hname : nameAt message position with
  | none => simp [hname] at h
  | some r =>
    have hle := (nameAt_le hname).2
    rw [hname] at h
    dsimp only at h
    rw [sub_eq hle, ok_bind] at h
    split at h
    · cases h
    rw [readU16_eq (by omega), ok_bind, readU16_eq (by omega), ok_bind, readU16_eq (by omega), ok_bind,
      sub_eq (by omega), ok_bind] at h
    split at h
    · cases h
    refine ⟨⟨position, r.1, r.2⟩, rfl, hname, ?_, rfl⟩
    show r.2 + 10 + u16 message (r.2 + 8) ≤ message.length
    omega

theorem answerLoop_eq_some : ∀ {n position : ℕ} {response result : DNSResponse},
    answerLoop sys message n position response = .ok (some result) ↔
      ∃ records stop, records.length = n ∧ Laid (Entry.Spans message) records position stop ∧
        result = { response with
          answers := response.answers ++ (reported sys message [] records).answers
          encryptedClientHelloAdvertised := response.encryptedClientHelloAdvertised ||
            (reported sys message [] records).encryptedClientHelloAdvertised }
  | 0, position, response, result => by
    constructor
    · intro h
      obtain rfl := Option.some.inj (Except.ok.inj h)
      exact ⟨[], position, rfl, rfl, by simp [reported]⟩
    · rintro ⟨records, stop, h0, -, rfl⟩
      obtain rfl := List.length_eq_zero_iff.mp h0
      simp [answerLoop, reported]
  | n + 1, position, response, result => by
    constructor
    · intro h
      obtain ⟨e, he⟩ := exists_entry h
      rw [answerLoop_entry he] at h
      obtain ⟨records, stop, hn, hlaid, rfl⟩ := answerLoop_eq_some.mp h
      refine ⟨e :: records, stop, congrArg (· + 1) hn, ⟨_, he, hlaid⟩, ?_⟩
      simp [reported, Bool.or_assoc]
    · rintro ⟨records, stop, hn, h, rfl⟩
      cases records with
      | nil => cases hn
      | cons e records =>
        obtain ⟨mid, he, hrest⟩ := h
        rw [answerLoop_entry he]
        refine answerLoop_eq_some.mpr ⟨records, stop, Nat.succ.inj hn, hrest, ?_⟩
        simp [reported, Bool.or_assoc]

/-- The messages `parseMessage` accepts, and what it reports of them. -/
theorem parseMessage_eq_some {response : DNSResponse} :
    parseMessage sys message = .ok (some response) ↔
      ∃ questions records, Sections message questions records ∧
        response = reported sys message questions records := by
  constructor
  · intro h
    rw [parseMessage] at h
    split at h
    · cases h
    rw [readU16_eq (by omega), ok_bind] at h
    split at h
    · cases h
    rename_i hsize hflags
    rw [readU16_eq (by omega), ok_bind, readU16_eq (by omega), ok_bind] at h
    obtain ⟨names, hnames, h⟩ := bind_eq_ok.mp h
    cases names with
    | none => cases h
    | some r =>
      obtain ⟨hq, hlaid⟩ := questionLoop_eq_some.mp hnames
      obtain ⟨records, stop, ha, hrecords, rfl⟩ := answerLoop_eq_some.mp h
      exact ⟨r.1, records, ⟨by omega, hflags, hq, ha, r.2, stop, hlaid, hrecords⟩, by simp [reported]⟩
  · rintro ⟨questions, records, h, rfl⟩
    have hsize := h.size
    obtain ⟨mid, stop, hq, ha⟩ := h.laid
    rw [parseMessage, if_neg (by omega), readU16_eq (by omega), ok_bind, if_neg h.response,
      readU16_eq (by omega), ok_bind, readU16_eq (by omega), ok_bind,
      questionLoop_eq_some.mpr ⟨h.questionCount, hq⟩, ok_bind]
    exact answerLoop_eq_some.mpr ⟨records, stop, h.answerCount, ha, by simp [reported]⟩

/-! ### What is read -/

theorem Laid.imp {α : Type} {lays lays' : α → ℕ → ℕ → Prop} (hi : ∀ x p q, lays x p q → lays' x p q) :
    ∀ {xs : List α} {start stop : ℕ}, Laid lays xs start stop → Laid lays' xs start stop
  | [], _, _, h => h
  | _ :: _, _, _, ⟨mid, hx, hxs⟩ => ⟨mid, hi _ _ _ hx, hxs.imp hi⟩

/-- Items that end inside the message end inside it together. -/
theorem Laid.stop_le {α : Type} {lays : α → ℕ → ℕ → Prop} {size : ℕ} (hl : ∀ x p q, lays x p q → q ≤ size) :
    ∀ {xs : List α} {start stop : ℕ}, start ≤ size → Laid lays xs start stop → stop ≤ size
  | [], _, _, hs, h => (show _ = _ from h) ▸ hs
  | _ :: _, _, _, _, ⟨_, hx, hxs⟩ => hxs.stop_le hl (hl _ _ _ hx)

theorem QuestionSpans.lt {name : String} {start stop : ℕ} (h : QuestionSpans message name start stop) :
    start < stop ∧ stop ≤ message.length := by
  obtain ⟨p, hname, hp, rfl⟩ := h
  have hlt := (nameAt_le hname).1
  exact ⟨by omega, hp⟩

theorem Entry.Spans.lt {e : Entry} {start stop : ℕ} (h : e.Spans message start stop) :
    start < stop ∧ stop ≤ message.length := by
  obtain ⟨-, hname, hend, rfl⟩ := h
  have hlt := (nameAt_le hname).1
  refine ⟨?_, hend⟩
  show start < e.header + 10 + _
  omega

theorem Laid.of_mem {α : Type} {lays : α → ℕ → ℕ → Prop} {x : α} : ∀ {xs : List α} {start stop : ℕ},
    Laid lays xs start stop → x ∈ xs → ∃ p q, lays x p q
  | [], _, _, _, hx => by simp at hx
  | _ :: _, _, _, ⟨_, hy, hxs⟩, hx => by
    rcases List.mem_cons.mp hx with rfl | hx
    · exact ⟨_, _, hy⟩
    · exact hxs.of_mem hx

theorem Sections.spans {questions : List String} {records : List Entry}
    (h : Sections message questions records) {e : Entry} (he : e ∈ records) :
    nameAt message e.start = some (e.owner, e.header) ∧ e.dataEnd message ≤ message.length := by
  obtain ⟨mid, stop, -, ha⟩ := h.laid
  obtain ⟨p, q, rfl, hname, hend, -⟩ := ha.of_mem he
  exact ⟨hname, hend⟩

/-- Every answer reported is the answer of a record. -/
theorem mem_reported {questions : List String} {records : List Entry} {a : DNSRecord} :
    a ∈ (reported sys message questions records).answers ↔
      ∃ e ∈ records, (e.outcome message sys).1 = some a := by
  simp [reported, Option.mem_toList]

theorem length_reported (questions : List String) (records : List Entry) :
    (reported sys message questions records).answers.length ≤ records.length := by
  rw [reported]
  dsimp only
  induction records with
  | nil => simp
  | cons e records ih =>
    rw [List.flatMap_cons, List.length_append, List.length_cons, Option.length_toList]
    split <;> omega

theorem Entry.Answers.txt_length {e : Entry} {a : DNSRecord} (hend : e.dataEnd message ≤ message.length)
    (h : e.Answers message sys a) (ht : a.type = .TXT) : a.value.length ≤ kMaxTxtBytes := by
  cases h with
  | txt _ htext _ =>
    have hsafe : Safe (txtLoop message (e.dataEnd message) (e.dataEnd message + 1) e.dataStart []) _ :=
      txtLoop_safe hend (Nat.zero_le _) (Nat.succ_pos _) (by omega)
    obtain ⟨r, hr, hlen⟩ := hsafe
    rw [length_ofBytes]
    exact Except.ok.inj (hr.symm.trans htext) ▸ hlen
  | svcTarget | svcOwner =>
    unfold Entry.svcKind at ht
    split at ht <;> cases ht
  | _ => cases ht

/-- **Message parsing is safe.** `parseMessage` ends, reads inside the message
and subtracts nothing that wraps. A response it returns comes from questions
and records that stand one after the other inside the message. It has no more
answers than the header counts, and each text fits 255 bytes. -/
theorem parseMessage_sound (sys : Platform) (message : Bytes) :
    Safe (parseMessage sys message) fun r => ∀ response ∈ r, ∃ questions records mid stop,
      questions.length = u16 message 4 ∧ records.length = u16 message 6 ∧
      Laid (fun q p p' => QuestionSpans message q p p' ∧ p < p' ∧ p' ≤ message.length) questions 12 mid ∧
      Laid (fun e p p' => Entry.Spans message e p p' ∧ p < p' ∧ p' ≤ message.length) records mid stop ∧
      stop ≤ message.length ∧
      response = reported sys message questions records ∧
      response.answers.length ≤ u16 message 6 ∧
      ∀ a ∈ response.answers, a.type = .TXT → a.value.length ≤ kMaxTxtBytes := by
  refine ((parseMessage_safe sys message).and fun r hr response hresponse => ?_).mono fun r h => h.2
  obtain rfl : r = some response := hresponse
  obtain ⟨questions, records, h, rfl⟩ := parseMessage_eq_some.mp hr
  obtain ⟨mid, stop, hq, ha⟩ := h.laid
  have hmid : mid ≤ message.length := hq.stop_le (fun _ _ _ hx => hx.lt.2) h.size
  refine ⟨questions, records, mid, stop, h.questionCount, h.answerCount,
    hq.imp fun _ _ _ hx => ⟨hx, hx.lt⟩, ha.imp fun _ _ _ hx => ⟨hx, hx.lt⟩,
    ha.stop_le (fun _ _ _ hx => hx.lt.2) hmid, rfl, ?_, fun a hmem ht => ?_⟩
  · exact h.answerCount ▸ length_reported questions records
  · obtain ⟨e, he, houtcome⟩ := mem_reported.mp hmem
    have hend := (h.spans he).2
    exact ((Entry.outcome_iff hend).mp houtcome).2.txt_length hend ht

end Loops

end DNSParser
end NetProbe
