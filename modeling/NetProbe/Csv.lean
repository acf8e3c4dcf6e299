/-
# Csv

RFC 4180 documents, read back. A record ends at CR, LF or CRLF outside quotes.
A field that starts with a quote runs to its closing quote, and two quotes
inside it stand for one. `read` refuses a quote inside an unquoted field, text
after a closing quote and a quoted field left open.

Key definitions: `Reader.step`, `read`, `Encodes`.
Key theorems: `Reader.run_encoded`, `Reader.run_record`, `read_document`.
-/
import Mathlib.Data.String.Basic
import Mathlib.Data.List.Forall2

namespace Csv

/-- The characters that mean something outside quotes. -/
def special (c : Char) : Bool := c = ',' || c = '"' || c = '\r' || c = '\n'

/-- A text that can stand unquoted. -/
def Plain (text : List Char) : Prop := ∀ c ∈ text, special c = false

instance (text : List Char) : Decidable (Plain text) := List.decidableBAll _ text

theorem Plain.append {s t : List Char} (hs : Plain s) (ht : Plain t) : Plain (s ++ t) := by
  intro c hc
  rcases List.mem_append.mp hc with h | h
  · exact hs c h
  · exact ht c h

theorem plain_of_isDigit {text : List Char} (h : ∀ c ∈ text, c.isDigit = true) : Plain text := by
  intro c hc
  have hdigit := h c hc
  cases hs : special c with
  | false => rfl
  | true =>
    simp only [special, Bool.or_eq_true, decide_eq_true_eq] at hs
    rcases hs with ((rfl | rfl) | rfl) | rfl <;> exact absurd hdigit (by decide)

/-- A number's decimal digits. -/
theorem plain_toDigits (n : ℕ) : Plain (Nat.toDigits 10 n) :=
  plain_of_isDigit fun _ hc => Nat.isDigit_of_mem_toDigits (by decide) (by decide) hc

/-- `value` with every quote in it doubled. -/
def double (value : List Char) : List Char := value.flatMap fun c => if c = '"' then ['"', '"'] else [c]

def quoted (value : List Char) : List Char := '"' :: (double value ++ ['"'])

/-- `text` is a field that stands for `value`. -/
inductive Encodes : List Char → List Char → Prop
  | plain {value} (h : Plain value) : Encodes value value
  | quoted (value) : Encodes (quoted value) value

/-! ### The reader -/

inductive Mode
  | recordStart
  /-- A record has just ended in CR: an LF here belongs to it. -/
  | afterCR
  | fieldStart
  | unquoted
  | inQuotes
  /-- After a quote inside quotes: the closing one, or the first of two. -/
  | closing
  deriving DecidableEq, Repr

structure Reader where
  records : List (List (List Char)) := []
  record : List (List Char) := []
  field : List Char := []
  mode : Mode := .recordStart
  deriving DecidableEq, Repr

namespace Reader

def endField (r : Reader) : Reader :=
  { r with record := r.record ++ [r.field], field := [], mode := .fieldStart }

def endRecord (r : Reader) (mode : Mode) : Reader :=
  { records := r.records ++ [r.record ++ [r.field]], mode }

/-- A character that belongs to the field. -/
def take (r : Reader) (c : Char) (mode : Mode) : Reader := { r with field := r.field ++ [c], mode }

def step (r : Reader) (c : Char) : Option Reader :=
  match r.mode with
  | .inQuotes => some (if c = '"' then { r with mode := .closing } else r.take c .inQuotes)
  | mode =>
    if mode = .afterCR ∧ c = '\n' then some { r with mode := .recordStart }
    else if c = ',' then some r.endField
    else if c = '\r' then some (r.endRecord .afterCR)
    else if c = '\n' then some (r.endRecord .recordStart)
    else if c = '"' then
      match mode with
      | .unquoted => none
      | .closing => some (r.take c .inQuotes)
      | _ => some { r with mode := .inQuotes }
    else if mode = .closing then none
    else some (r.take c .unquoted)

/-- The records at the end of the text. The last one may lack its line end. -/
def finish (r : Reader) : Option (List (List (List Char))) :=
  match r.mode with
  | .recordStart | .afterCR => some r.records
  | .inQuotes => none
  | _ => some (r.records ++ [r.record ++ [r.field]])

def run (r : Reader) (text : List Char) : Option Reader := text.foldlM step r

@[simp] theorem run_nil (r : Reader) : r.run [] = some r := rfl

@[simp] theorem run_cons (r : Reader) (c : Char) (text : List Char) :
    r.run (c :: text) = (r.step c).bind (·.run text) := rfl

theorem run_append (r : Reader) (s t : List Char) : r.run (s ++ t) = (r.run s).bind (·.run t) := by
  simp [run, List.foldlM_append, bind]

/-! ### One field -/

/-- Nothing of the next field has been read. -/
def Fresh (r : Reader) : Prop := r.field = [] ∧ (r.mode = .recordStart ∨ r.mode = .fieldStart)

/-- `r'` has read a field from `r`, and `value` is what it stands for. -/
def Holds (r r' : Reader) (value : List Char) : Prop :=
  r'.step ',' = some ({ r with field := value }.endField) ∧
    r'.step '\n' = some ({ r with field := value }.endRecord .recordStart)

theorem run_unquoted {text : List Char} (hp : Plain text) (r : Reader) (hr : r.mode = .unquoted) :
    r.run text = some { r with field := r.field ++ text } := by
  induction text generalizing r with
  | nil => simp
  | cons c text ih =>
    have hc : special c = false := hp c List.mem_cons_self
    simp only [special, Bool.or_eq_false_iff, decide_eq_false_iff_not] at hc
    have hstep : r.step c = some (r.take c .unquoted) := by
      simp [step, hr, hc]
    rw [run_cons, hstep, Option.bind_some, ih (fun d hd => hp d (List.mem_cons_of_mem c hd)) _ rfl]
    simp [take, hr]

theorem run_double (value : List Char) (r : Reader) (hr : r.mode = .inQuotes) :
    r.run (double value) = some { r with field := r.field ++ value } := by
  induction value generalizing r with
  | nil => simp [double]
  | cons c value ih =>
    have hhead : r.run (if c = '"' then ['"', '"'] else [c]) = some (r.take c .inQuotes) := by
      by_cases hc : c = '"'
      · simp [hc, step, hr, take]
      · simp [hc, step, hr]
    rw [double, List.flatMap_cons, run_append, hhead, Option.bind_some, ← double, ih _ rfl]
    simp [take, hr]

/-- What an encoded field leaves the reader with. -/
theorem run_encoded {text value : List Char} (h : Encodes text value) {r : Reader} (hr : r.Fresh) :
    ∃ r', r.run text = some r' ∧ r.Holds r' value := by
  obtain ⟨hfield, hmode⟩ := hr
  cases h with
  | plain hp =>
    cases text with
    | nil =>
      refine ⟨r, run_nil r, ?_⟩
      rcases hmode with h | h <;> simp [Holds, step, h, endField, endRecord, hfield]
    | cons c text =>
      have hc : special c = false := hp c List.mem_cons_self
      simp only [special, Bool.or_eq_false_iff, decide_eq_false_iff_not] at hc
      have hstep : r.step c = some (r.take c .unquoted) := by
        rcases hmode with h | h <;> simp [step, h, hc]
      have hrun := run_unquoted (fun d hd => hp d (List.mem_cons_of_mem c hd)) (r.take c .unquoted) rfl
      refine ⟨_, by rw [run_cons, hstep, Option.bind_some, hrun], ?_⟩
      simp [Holds, step, take, endField, endRecord, hfield]
  | quoted =>
    have hopen : r.step '"' = some { r with mode := .inQuotes } := by
      rcases hmode with h | h <;> simp [step, h]
    have hrun := run_double value { r with mode := .inQuotes } rfl
    refine ⟨{ r with field := value, mode := .closing }, ?_, ?_⟩
    · rw [quoted, run_cons, hopen, Option.bind_some, run_append, hrun]
      simp [step, hfield]
    · simp [Holds, step, endField, endRecord]

/-! ### Records and documents -/

/-- The fields of one line, comma between them, LF at the end. -/
theorem run_record {texts values : List (List Char)} (h : List.Forall₂ Encodes texts values)
    (hne : texts ≠ []) {r : Reader} (hr : r.Fresh) :
    r.run ([','].intercalate texts ++ ['\n']) =
      some { records := r.records ++ [r.record ++ values], mode := .recordStart } := by
  induction h generalizing r with
  | nil => exact absurd rfl hne
  | @cons text value texts values hfield hrest ih =>
    obtain ⟨r', hrun, hcomma, hend⟩ := run_encoded hfield hr
    cases hrest with
    | nil =>
      rw [List.intercalate_singleton, run_append, hrun, Option.bind_some, run_cons, hend]
      simp [endRecord]
    | cons hnext htail =>
      rw [List.intercalate_cons_cons, List.append_assoc, List.append_assoc, run_append, hrun,
        Option.bind_some, List.singleton_append, run_cons, hcomma, Option.bind_some,
        ih (by simp) ⟨rfl, Or.inr rfl⟩]
      simp [endField]

end Reader

def read (text : String) : Option (List (List String)) :=
  (((Reader.run {} text.toList).bind Reader.finish)).map (·.map (·.map String.ofList))

/-- One record as a line. -/
def line (fields : List String) : String := ",".intercalate fields ++ "\n"

/-- `fields` stand for `values`, one for one. -/
def EncodesRecord (fields values : List String) : Prop :=
  List.Forall₂ (fun field value => Encodes field.toList value.toList) fields values

theorem Reader.run_lines {rows values : List (List String)} (h : List.Forall₂ EncodesRecord rows values)
    (hne : ∀ fields ∈ rows, fields ≠ []) (done : List (List (List Char))) :
    Reader.run { records := done } (String.join (rows.map line)).toList =
      some { records := done ++ values.map (·.map String.toList) } := by
  induction h generalizing done with
  | nil => simp
  | @cons fields value rows values hrow _ ih =>
    have hline : Reader.run { records := done } (line fields).toList =
        some { records := done ++ [value.map String.toList] } := by
      rw [line, String.toList_append, String.toList_intercalate]
      refine Reader.run_record (r := { records := done }) ?_ ?_ ⟨rfl, Or.inl rfl⟩
      · exact List.forall₂_map_left_iff.mpr (List.forall₂_map_right_iff.mpr hrow)
      · simpa using hne fields List.mem_cons_self
    rw [List.map_cons, String.join_cons, String.toList_append, Reader.run_append, hline, Option.bind_some,
      ih fun fields hf => hne fields (List.mem_cons_of_mem _ hf)]
    simp

/-- **Lines of encoded fields are read as the values.** -/
theorem read_document {rows values : List (List String)} (h : List.Forall₂ EncodesRecord rows values)
    (hne : ∀ fields ∈ rows, fields ≠ []) :
    read (String.join (rows.map line)) = some values := by
  rw [read, Reader.run_lines h hne []]
  simp [Reader.finish, Function.comp_def]

end Csv
