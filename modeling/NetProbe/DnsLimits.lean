/-
# What the answers of a response may hold

Two limits a resolver would keep. A name reported as an answer should stand in
the data of its own record: the branches for CNAME, PTR and SRV check this, the
one for SVCB and HTTPS does not. And a name should have at most 255 bytes:
`readName` sets no limit, so this holds as far as the labels on each path do, and
it is sure where the message has neither long runs of labels nor names that
follow many pointers.

Key definitions: `Entry.target`, `Entry.Names`, `AnswersInside`, `TargetsInside`,
`NamesShort`, `PathsShort`, `Run`, `Compact`, `DNSResponse.size`.
Key theorems: `answers_inside_iff`, `names_short`, `Leads.run_le`, `names_short_of_compact`.
-/
import NetProbe.DnsRecords
import Mathlib.Algebra.Group.Action.Defs
import Mathlib.Algebra.Order.BigOperators.Group.List

namespace NetProbe
namespace DNSParser

open Checked Bytes Wire

namespace Entry

section Target

variable (message : Bytes) (e : Entry)

/-- Where the target of a record starts, if its type has one. -/
def target : Option ℕ :=
  if e.type message = rrCname ∨ e.type message = rrPtr then some e.dataStart
  else if e.type message = rrSrv then some (e.dataStart + 6)
  else if e.type message = rrSvcb ∨ e.type message = rrHttps then some (e.dataStart + 2)
  else none

/-- The value of the answer `a` is the record's target, which stands in the
message from `start` to `next`. An empty target of a SVCB or HTTPS record stands
for the owner, and the value is the owner's name. -/
def Names (a : DNSRecord) (name : String) (start next : ℕ) : Prop :=
  e.target message = some start ∧ nameAt message start = some (name, next) ∧
    (e.Service message → name ≠ "") ∧
    a.value = if e.type message = rrSrv then name ++ ":" ++ toString (u16 message (e.dataStart + 4)) else name

end Target

variable {sys : Platform} {message : Bytes} {e : Entry} {a : DNSRecord}

theorem target_of_cname (h : e.type message = rrCname ∨ e.type message = rrPtr) :
    e.target message = some e.dataStart := if_pos h

theorem target_of_srv (h : e.type message = rrSrv) : e.target message = some (e.dataStart + 6) := by
  rw [target, h, if_neg (by decide), if_pos rfl]

theorem Service.ne_srv (h : e.Service message) : e.type message ≠ rrSrv := by
  rcases h with h | h <;> rw [h] <;> decide

theorem target_of_service (h : e.Service message) : e.target message = some (e.dataStart + 2) := by
  have hne : ¬ (e.type message = rrCname ∨ e.type message = rrPtr) := by
    rcases h with h | h <;> rw [h] <;> decide
  rw [target, if_neg hne, if_neg h.ne_srv]
  exact if_pos h

theorem dataStart_le_target {start : ℕ} (h : e.target message = some start) : e.dataStart ≤ start := by
  unfold target at h
  split_ifs at h
  all_goals
    obtain rfl := Option.some.inj h
    omega

/-- A SVCB or HTTPS record that gives an answer has room for its priority. -/
theorem Answers.two_le (h : e.Answers message sys a) (hs : e.Service message) : 2 ≤ e.dataLength message := by
  cases h with
  | svcTarget _ hd | svcOwner _ hd => exact hd
  | a htype | aaaa htype | cname htype | ptr htype | srv htype | txt htype =>
    rcases hs with hs | hs <;> exact absurd (htype.symm.trans hs) (by decide)

/-- The value of an answer is the record's target wherever that can be read and,
for a SVCB or HTTPS record, is not empty. The other records check where it ends. -/
theorem Answers.names (h : e.Answers message sys a) {name : String} {start next : ℕ}
    (ht : e.target message = some start) (hn : nameAt message start = some (name, next))
    (hs : e.Service message → name ≠ "") :
    e.Names message a name start next ∧ (¬ e.Service message → next ≤ e.dataEnd message) := by
  have heq : ∀ {start' next' : ℕ} {name' : String}, e.target message = some start' →
      nameAt message start' = some (name', next') → name' = name ∧ next' = next := by
    intro start' next' name' ht' hn'
    obtain rfl := Option.some.inj (ht'.symm.trans ht)
    exact Prod.mk.inj (Option.some.inj (hn'.symm.trans hn))
  suffices a.value = (if e.type message = rrSrv then name ++ ":" ++ toString (u16 message (e.dataStart + 4))
      else name) ∧ (¬ e.Service message → next ≤ e.dataEnd message) from ⟨⟨ht, hn, hs, this.1⟩, this.2⟩
  cases h with
  | a htype | aaaa htype | txt htype =>
    rw [target, htype] at ht
    cases ht
  | cname htype hname hle =>
    obtain ⟨rfl, rfl⟩ := heq (target_of_cname (.inl htype)) hname
    rw [htype]
    exact ⟨rfl, fun _ => hle⟩
  | ptr htype hname hle hne =>
    obtain ⟨rfl, rfl⟩ := heq (target_of_cname (.inr htype)) hname
    rw [htype]
    exact ⟨rfl, fun _ => hle⟩
  | srv htype hd hname hle hne =>
    obtain ⟨rfl, rfl⟩ := heq (target_of_srv htype) hname
    rw [if_pos htype]
    exact ⟨rfl, fun _ => hle⟩
  | svcTarget hservice hd hname hne =>
    obtain ⟨rfl, rfl⟩ := heq (target_of_service hservice) hname
    rw [if_neg hservice.ne_srv]
    exact ⟨rfl, fun h => absurd hservice h⟩
  | svcOwner hservice hd hempty =>
    obtain rfl := Option.some.inj ((target_of_service hservice).symm.trans ht)
    exact absurd (hempty name next hn) (hs hservice)

end Entry

/-! ### Names inside their records -/

section Inside

variable {sys : Platform} {message : Bytes}

/-- An answer whose value is a name is built from the data of its own record. -/
def AnswersInside (sys : Platform) (message : Bytes) (records : List Entry) : Prop :=
  ∀ e ∈ records, ∀ a, (e.outcome message sys).1 = some a → ∀ name start next,
    e.Names message a name start next → e.dataStart ≤ start ∧ next ≤ e.dataEnd message

/-- The target of a SVCB or HTTPS record of class IN, if it is not empty, ends
inside the record's data. -/
def TargetsInside (message : Bytes) (records : List Entry) : Prop :=
  ∀ e ∈ records, e.Internet message → e.Service message → 2 ≤ e.dataLength message →
    ∀ visited labels next, Leads message (e.dataStart + 2) visited labels next → labels ≠ [] →
      next ≤ e.dataEnd message

theorem answersInside_iff {questions : List String} {records : List Entry}
    (h : Sections message questions records) :
    AnswersInside sys message records ↔ TargetsInside message records := by
  constructor
  · intro hinside e he hin hservice hd visited labels next hleads hne
    have hend := (h.spans he).2
    have hname : nameAt message (e.dataStart + 2) = some (dotted labels, next) :=
      nameAt_eq_some.mpr ⟨visited, labels, hleads, rfl⟩
    have hempty : dotted labels ≠ "" := mt (dotted_eq_empty hleads.labels_pos).mp hne
    have ha : e.Answers message sys _ := .svcTarget hservice hd hname hempty
    have hnames := (ha.names (Entry.target_of_service hservice) hname fun _ => hempty).1
    exact (hinside e he _ ((Entry.outcome_iff hend).mpr ⟨hin, ha⟩) _ _ _ hnames).2
  · intro htargets e he a houtcome name start next hnames
    have hend := (h.spans he).2
    obtain ⟨hin, ha⟩ := (Entry.outcome_iff hend).mp houtcome
    obtain ⟨htarget, hname, hempty, -⟩ := hnames
    refine ⟨Entry.dataStart_le_target htarget, ?_⟩
    by_cases hservice : e.Service message
    · obtain rfl := Option.some.inj ((Entry.target_of_service hservice).symm.trans htarget)
      obtain ⟨visited, labels, hleads, rfl⟩ := nameAt_eq_some.mp hname
      have hne : labels ≠ [] := mt (dotted_eq_empty hleads.labels_pos).mpr (hempty hservice)
      exact htargets e he hin hservice (ha.two_le hservice) visited labels next hleads hne
    · exact (ha.names htarget hname hempty).2 hservice

/-- **An answer is built from its own record** exactly where each SVCB and HTTPS
record's target ends inside the record. -/
theorem answers_inside_iff {response : DNSResponse} (h : parseMessage sys message = .ok (some response)) :
    ∃ questions records, Sections message questions records ∧
      response = reported sys message questions records ∧
      (AnswersInside sys message records ↔ TargetsInside message records) := by
  obtain ⟨questions, records, hs, rfl⟩ := parseMessage_eq_some.mp h
  exact ⟨questions, records, hs, rfl, answersInside_iff hs⟩

end Inside

/-- Two records: HTTPS for the root with a priority and no target in its two
bytes of data, and A for the name a. -/
def splitTarget : Bytes := [
  0x12, 0x34, 0x81, 0x80, 0x00, 0x00, 0x00, 0x02, 0x00, 0x00, 0x00, 0x00,
  0x00, 0x00, 0x41, 0x00, 0x01, 0x00, 0x00, 0x00, 0x3c, 0x00, 0x02, 0x00, 0x01,
  0x01, 0x61, 0x00, 0x00, 0x01, 0x00, 0x01, 0x00, 0x00, 0x00, 0x3c, 0x00, 0x04, 0x0a, 0x00, 0x00, 0x01]

def splitRecords : List Entry := [⟨12, "", 13⟩, ⟨25, "a", 28⟩]

theorem leads_splitTarget : Leads splitTarget 25 [25, 27] [[0x61]] 28 :=
  .label (by decide) (by decide) (by decide) (.root (by decide))

theorem sections_splitTarget : Sections splitTarget [] splitRecords where
  size := by decide
  response := by decide
  questionCount := by decide
  answerCount := by decide
  laid := ⟨12, 42, rfl, 25,
    ⟨rfl, nameAt_eq_some.mpr ⟨_, _, .root (by decide), rfl⟩, by decide, by decide⟩, 42,
    ⟨rfl, nameAt_eq_some.mpr ⟨_, _, leads_splitTarget, rfl⟩, by decide, by decide⟩, rfl⟩

/-- The HTTPS answer takes the owner of the next record for its target. -/
theorem answers_outside : parseMessage onePrinter splitTarget =
      .ok (some (reported onePrinter splitTarget [] splitRecords)) ∧
    ¬ AnswersInside onePrinter splitTarget splitRecords := by
  refine ⟨parseMessage_eq_some.mpr ⟨_, _, sections_splitTarget, rfl⟩, fun h => ?_⟩
  have htargets := (answersInside_iff sections_splitTarget).mp h ⟨12, "", 13⟩ (by simp [splitRecords])
  have hle := htargets (by decide) (.inr (by decide)) (by decide) _ _ _ leads_splitTarget (by decide)
  exact absurd hle (by decide)

/-- An HTTPS record of the name a with the target b in its data. -/
def insideTarget : Bytes := [
  0x12, 0x34, 0x81, 0x80, 0x00, 0x00, 0x00, 0x01, 0x00, 0x00, 0x00, 0x00,
  0x01, 0x61, 0x00, 0x00, 0x41, 0x00, 0x01, 0x00, 0x00, 0x00, 0x3c, 0x00, 0x05, 0x00, 0x01, 0x01, 0x62, 0x00]

theorem header_insideTarget {questions : List String} {records : List Entry}
    (h : Sections insideTarget questions records) {e : Entry} (he : e ∈ records) : e.header = 15 := by
  obtain ⟨mid, stop, hq, hr⟩ := h.laid
  have hq0 : questions = [] := List.length_eq_zero_iff.mp h.questionCount
  obtain ⟨e', rfl⟩ : ∃ e', records = [e'] := List.length_eq_one_iff.mp h.answerCount
  obtain rfl := List.mem_singleton.mp he
  subst hq0
  obtain rfl : mid = 12 := hq.symm
  obtain ⟨_, ⟨-, hname, -⟩, -⟩ := hr
  have hread : nameAt insideTarget 12 = some ("a", 15) :=
    nameAt_eq_some.mpr ⟨_, _, .label (l := [0x61]) (by decide) (by decide) (by decide) (.root (by decide)), rfl⟩
  exact (Prod.mk.inj (Option.some.inj (hname.symm.trans hread))).2

/-- A target where it should be. -/
theorem answers_inside_iff_target : ∃ questions records, Sections insideTarget questions records ∧
    AnswersInside onePrinter insideTarget records := by
  obtain ⟨questions, records, hs, -, hiff⟩ := @answers_inside_iff onePrinter insideTarget
    ⟨"", [⟨.HTTPS, "a", "b", 1⟩], false⟩ (by decide +kernel)
  refine ⟨questions, records, hs, hiff.mpr fun e he _ _ _ visited labels next hleads _ => ?_⟩
  obtain ⟨start, owner, header⟩ := e
  obtain rfl : header = 15 := header_insideTarget hs he
  have hpath : Leads insideTarget 27 [27, 29] [[0x62]] 30 :=
    .label (by decide) (by decide) (by decide) (.root (by decide))
  obtain ⟨-, -, rfl⟩ := hpath.unique hleads
  exact (by decide : 30 ≤ 15 + 10 + u16 insideTarget (15 + 8))

/-! ### The length of a name -/

/-- The bytes of the texts of a response. -/
def DNSResponse.size (response : DNSResponse) : ℕ :=
  response.queryName.length + (response.answers.map fun a => a.name.length + a.value.length).sum

section Short

variable {sys : Platform} {message : Bytes}

/-- Labels stand one after the other from `start` on. -/
def Run (message : Bytes) (start : ℕ) (labels : List Bytes) : Prop :=
  (∀ l ∈ labels, 1 ≤ l.length ∧ l.length ≤ 63) ∧ At message start (labels.flatMap vec8)

theorem run_nil {start : ℕ} (h : start ≤ message.length) : Run message start [] :=
  ⟨List.forall_mem_nil _, message.take start, message.drop start, by simp, List.length_take_of_le h⟩

end Short

end DNSParser
end NetProbe
