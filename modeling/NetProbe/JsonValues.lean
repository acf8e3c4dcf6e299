/-
# Json, the values

The documents of RFC 8259, read by a machine with a stack: one frame for each
array or object that is open, and a place that says what may come next. A number
ends at the first character that does not continue it, so what a text stands
for is said together with the character behind it (`Reads`), and the rules build
a document from its parts. A number stands for its exact value.

Key definitions: `Numeral`, `Machine`, `readValue`, `Reads`.
Key theorems: `reads_literal`, `reads_nat`, `reads_decimal`, `reads_array`, `reads_object`,
`readValue_of_reads`.
-/
import Mathlib.Data.Rat.Defs
import Mathlib.Algebra.Field.Rat
import Mathlib.Data.List.Basic
import Mathlib.Data.List.TakeWhile
import Mathlib.Tactic.Ring
import Mathlib.Tactic.FieldSimp
import NetProbe.Json

namespace Json

/-! ### Values -/

inductive Value
  | null
  | boolean (b : Bool)
  | number (n : ℚ)
  | string (text : List Char)
  | array (items : List Value)
  | object (members : List (List Char × Value))

/-! ### Numbers -/

/-- What of a number has been read last. -/
inductive Phase
  | minus
  | zero
  | whole
  | point
  | fraction
  | letter
  | exponentSign
  | exponent
  deriving DecidableEq, Repr

structure Numeral where
  negative : Bool := false
  mantissa : ℕ := 0
  /-- The digits after the point. -/
  scale : ℕ := 0
  exponentNegative : Bool := false
  exponent : ℕ := 0
  phase : Phase
  deriving DecidableEq, Repr

namespace Numeral

def digit (c : Char) : Option ℕ := if c.isDigit then some (c.toNat - '0'.toNat) else none

/-- The first digit of the whole part; a zero stands alone. -/
def lead (n : Numeral) (c : Char) : Option Numeral :=
  (digit c).map fun d => { n with mantissa := d, phase := if d = 0 then .zero else .whole }

def more (n : Numeral) (c : Char) : Option Numeral :=
  (digit c).map fun d => { n with mantissa := 10 * n.mantissa + d }

/-- The point or the letter that may follow the whole part. -/
def part (n : Numeral) (c : Char) : Option Numeral :=
  if c = '.' then some { n with phase := .point }
  else if c = 'e' ∨ c = 'E' then some { n with phase := .letter }
  else none

def power (n : Numeral) (c : Char) : Option Numeral :=
  (digit c).map fun d => { n with exponent := 10 * n.exponent + d, phase := .exponent }

def step (n : Numeral) (c : Char) : Option Numeral :=
  match n.phase with
  | .minus => n.lead c
  | .zero => n.part c
  | .whole => (n.more c).or (n.part c)
  | .point => (n.more c).map fun n => { n with scale := 1, phase := .fraction }
  | .fraction =>
    ((n.more c).map fun m => { m with scale := n.scale + 1 }).or
      (if c = 'e' ∨ c = 'E' then some { n with phase := .letter } else none)
  | .letter =>
    if c = '+' then some { n with phase := .exponentSign }
    else if c = '-' then some { n with exponentNegative := true, phase := .exponentSign }
    else n.power c
  | .exponentSign | .exponent => n.power c

def start (c : Char) : Option Numeral :=
  if c = '-' then some { negative := true, phase := .minus } else ({ phase := .minus } : Numeral).lead c

/-- A number may end here. -/
def complete (n : Numeral) : Bool :=
  n.phase = .zero || n.phase = .whole || n.phase = .fraction || n.phase = .exponent

def value (n : Numeral) : ℚ :=
  (if n.negative then -1 else 1) * (n.mantissa / 10 ^ n.scale) *
    (if n.exponentNegative then 1 / 10 ^ n.exponent else 10 ^ n.exponent)

def run (n : Numeral) (text : List Char) : Option Numeral := text.foldlM step n

@[simp] theorem run_nil (n : Numeral) : n.run [] = some n := rfl

@[simp] theorem run_cons (n : Numeral) (c : Char) (text : List Char) :
    n.run (c :: text) = (n.step c).bind (·.run text) := rfl

theorem run_append (n : Numeral) (s t : List Char) : n.run (s ++ t) = (n.run s).bind (·.run t) := by
  simp [run, List.foldlM_append, bind]

/-- The whole number `text` is the number `n`. -/
def Numerates (text : List Char) (n : Numeral) : Prop :=
  ∃ c rest first, text = c :: rest ∧ start c = some first ∧ first.run rest = some n ∧ n.complete = true

theorem digit_of_isDigit {c : Char} (h : c.isDigit) : digit c = some (c.toNat - '0'.toNat) := if_pos h

/-- Digits that continue the whole part. -/
theorem run_whole {n : Numeral} (hp : n.phase = .whole) : ∀ {digits : List Char}, (∀ c ∈ digits, c.isDigit) →
    n.run digits = some { n with mantissa := Nat.ofDigitChars 10 digits n.mantissa } := by
  intro digits
  induction digits generalizing n with
  | nil => intro _; simp
  | cons c digits ih =>
    intro hd
    have hc := digit_of_isDigit (hd c List.mem_cons_self)
    have hstep : n.step c = some { n with mantissa := 10 * n.mantissa + (c.toNat - '0'.toNat) } := by
      simp [step, hp, more, hc]
    have hrest := ih (n := { n with mantissa := 10 * n.mantissa + (c.toNat - '0'.toNat) }) hp
      fun d hd' => hd d (List.mem_cons_of_mem c hd')
    rw [run_cons, hstep, Option.bind_some, hrest, Nat.ofDigitChars_cons]

/-- Digits that continue the fraction. -/
theorem run_fraction {n : Numeral} (hp : n.phase = .fraction) : ∀ {digits : List Char}, (∀ c ∈ digits, c.isDigit) →
    n.run digits = some { n with
      mantissa := Nat.ofDigitChars 10 digits n.mantissa
      scale := n.scale + digits.length } := by
  intro digits
  induction digits generalizing n with
  | nil => intro _; simp
  | cons c digits ih =>
    intro hd
    have hc := digit_of_isDigit (hd c List.mem_cons_self)
    have hstep : n.step c = some { n with
        mantissa := 10 * n.mantissa + (c.toNat - '0'.toNat)
        scale := n.scale + 1 } := by
      simp [step, hp, more, hc]
    have hrest := ih (n := { n with
      mantissa := 10 * n.mantissa + (c.toNat - '0'.toNat)
      scale := n.scale + 1 }) hp fun d hd' => hd d (List.mem_cons_of_mem c hd')
    rw [run_cons, hstep, Option.bind_some, hrest, Nat.ofDigitChars_cons, List.length_cons, Nat.add_assoc,
      Nat.add_comm 1]

/-- The first digit of a positive number is not zero. -/
theorem head_toDigits {n : ℕ} (hn : 0 < n) : ∃ c rest, Nat.toDigits 10 n = c :: rest ∧ c.toNat - '0'.toNat ≠ 0 := by
  induction n using Nat.strong_induction_on with
  | _ n ih =>
    by_cases hlt : n < 10
    · refine ⟨n.digitChar, [], Nat.toDigits_of_lt_base hlt, ?_⟩
      rw [show '0'.toNat = 48 from rfl, Nat.toNat_digitChar_sub_48_of_lt_ten hlt]
      omega
    · obtain ⟨c, rest, hdigits, hc⟩ := ih (n / 10) (by omega) (by omega)
      refine ⟨c, rest ++ [(n % 10).digitChar], ?_, hc⟩
      rw [Nat.toDigits_of_base_le (by decide) (by omega), hdigits, List.cons_append]

/-- The whole part `k` behind the sign. -/
def wholePart (negative : Bool) (k : ℕ) : Numeral :=
  { negative, mantissa := k, phase := if k = 0 then .zero else .whole }

def sign (negative : Bool) : List Char := if negative then ['-'] else []

/-- The digits of a number read from their first one on. -/
theorem lead_digits (n : Numeral) (k : ℕ) : ∃ c rest, Nat.toDigits 10 k = c :: rest ∧ c ≠ '-' ∧
    (n.lead c).bind (·.run rest) = some { n with mantissa := k, phase := if k = 0 then .zero else .whole } := by
  have hall : ∀ c ∈ Nat.toDigits 10 k, c.isDigit := fun c hc => Nat.isDigit_of_mem_toDigits (by decide) (by decide) hc
  have hvalue := @Nat.ofDigitChars_ten_toDigits k
  have hminus : ∀ {c : Char}, c.isDigit → c ≠ '-' := by
    rintro c hc rfl
    exact absurd hc (by decide)
  rcases Nat.eq_zero_or_pos k with rfl | hk
  · exact ⟨'0', [], Nat.toDigits_zero 10, by decide, by simp [lead, digit]⟩
  · obtain ⟨c, rest, hdigits, hc⟩ := head_toDigits hk
    rw [hdigits] at hall hvalue
    rw [Nat.ofDigitChars_cons, Nat.mul_zero, Nat.zero_add] at hvalue
    have hd := hall c List.mem_cons_self
    refine ⟨c, rest, hdigits, hminus hd, ?_⟩
    have hlead : n.lead c = some { n with mantissa := c.toNat - '0'.toNat, phase := .whole } := by
      rw [lead, digit_of_isDigit hd, Option.map_some, if_neg hc]
    rw [hlead, Option.bind_some, run_whole rfl fun d hd' => hall d (List.mem_cons_of_mem c hd'), if_neg (by omega)]
    dsimp only
    rw [hvalue]

/-- The whole part of a number read from its sign on. -/
theorem run_wholePart (negative : Bool) (k : ℕ) : ∃ c rest first, sign negative ++ Nat.toDigits 10 k = c :: rest ∧
    start c = some first ∧ first.run rest = some (wholePart negative k) := by
  cases negative with
  | true =>
    obtain ⟨c, rest, hdigits, -, hrun⟩ := lead_digits { negative := true, phase := .minus } k
    refine ⟨'-', Nat.toDigits 10 k, { negative := true, phase := .minus }, rfl, rfl, ?_⟩
    rw [hdigits, run_cons]
    exact hrun
  | false =>
    obtain ⟨c, rest, hdigits, hminus, hrun⟩ := lead_digits { phase := .minus } k
    obtain ⟨first, hfirst, hrest⟩ := Option.bind_eq_some_iff.mp hrun
    exact ⟨c, rest, first, hdigits, (if_neg hminus).trans hfirst, hrest⟩

theorem numerates_wholePart (negative : Bool) (k : ℕ) :
    Numerates (sign negative ++ Nat.toDigits 10 k) (wholePart negative k) := by
  obtain ⟨c, rest, first, htext, hstart, hrun⟩ := run_wholePart negative k
  refine ⟨c, rest, first, htext, hstart, hrun, ?_⟩
  unfold wholePart complete
  split <;> rfl

/-- A number with digits behind the point. -/
theorem numerates_fraction (negative : Bool) (k : ℕ) {c : Char} {digits : List Char} (hc : c.isDigit)
    (hdigits : ∀ d ∈ digits, d.isDigit) : Numerates (sign negative ++ Nat.toDigits 10 k ++ '.' :: c :: digits)
      { negative, mantissa := Nat.ofDigitChars 10 (c :: digits) k, scale := (c :: digits).length
        phase := .fraction } := by
  obtain ⟨c₀, rest, first, htext, hstart, hrun⟩ := run_wholePart negative k
  refine ⟨c₀, rest ++ '.' :: c :: digits, first, by rw [htext, List.cons_append], hstart, ?_, rfl⟩
  have hpoint : (wholePart negative k).step '.' = some { wholePart negative k with phase := .point } := by
    have hdigit : digit '.' = none := rfl
    unfold wholePart
    by_cases hk : k = 0
    · rw [if_pos hk]
      rfl
    · rw [if_neg hk]
      simp [step, more, part, hdigit]
  have hfirst : ({ wholePart negative k with phase := .point } : Numeral).step c = some { wholePart negative k with
      mantissa := 10 * k + (c.toNat - '0'.toNat), scale := 1, phase := .fraction } := by
    simp [step, more, digit_of_isDigit hc, wholePart]
  rw [run_append, hrun, Option.bind_some, run_cons, hpoint, Option.bind_some, run_cons, hfirst, Option.bind_some,
    run_fraction rfl hdigits, Nat.ofDigitChars_cons, List.length_cons, Nat.add_comm 1]
  rfl

end Numeral

/-! ### The machine -/

/-- What is open around a value: the items before it, or the members before it and its name. -/
inductive Frame
  | array (items : List Value)
  | object (members : List (List Char × Value)) (name : List Char)

/-- What may come next. -/
inductive Place
  | value
  /-- After an opening bracket. -/
  | firstItem
  /-- After an opening brace. -/
  | firstName
  | name (members : List (List Char × Value))
  /-- In a string literal: a value, or the name after `members`. -/
  | literal (members : Option (List (List Char × Value))) (r : Reader)
  | colon (members : List (List Char × Value)) (name : List Char)
  | number (n : Numeral)
  /-- In `true`, `false` or `null`. -/
  | word (rest : List Char) (v : Value)
  | after (v : Value)

structure Machine where
  stack : List Frame := []
  place : Place := .value

namespace Machine

def isSpace (c : Char) : Bool := c = ' ' || c = '\t' || c = '\n' || c = '\r'

def Spaces (text : List Char) : Prop := ∀ c ∈ text, isSpace c = true

instance (text : List Char) : Decidable (Spaces text) := List.decidableBAll _ text

def opened : Reader := { mode := .plain }

/-- The first character of a value. -/
def enter (stack : List Frame) (c : Char) : Option Machine :=
  match c with
  | '"' => some ⟨stack, .literal none opened⟩
  | '{' => some ⟨stack, .firstName⟩
  | '[' => some ⟨stack, .firstItem⟩
  | 't' => some ⟨stack, .word ['r', 'u', 'e'] (.boolean true)⟩
  | 'f' => some ⟨stack, .word ['a', 'l', 's', 'e'] (.boolean false)⟩
  | 'n' => some ⟨stack, .word ['u', 'l', 'l'] .null⟩
  | _ => (Numeral.start c).map fun n => ⟨stack, .number n⟩

/-- A character behind the value `v`. -/
def finish (stack : List Frame) (v : Value) (c : Char) : Option Machine :=
  if isSpace c then some ⟨stack, .after v⟩
  else match stack, c with
    | .array items :: stack, ',' => some ⟨.array (items ++ [v]) :: stack, .value⟩
    | .array items :: stack, ']' => some ⟨stack, .after (.array (items ++ [v]))⟩
    | .object members name :: stack, ',' => some ⟨stack, .name (members ++ [(name, v)])⟩
    | .object members name :: stack, '}' => some ⟨stack, .after (.object (members ++ [(name, v)]))⟩
    | _, _ => none

def step (m : Machine) (c : Char) : Option Machine :=
  match m.place with
  | .value => if isSpace c then some m else enter m.stack c
  | .firstItem =>
    if isSpace c then some m
    else if c = ']' then some ⟨m.stack, .after (.array [])⟩
    else enter (.array [] :: m.stack) c
  | .firstName =>
    if isSpace c then some m
    else if c = '}' then some ⟨m.stack, .after (.object [])⟩
    else if c = '"' then some ⟨m.stack, .literal (some []) opened⟩
    else none
  | .name members =>
    if isSpace c then some m
    else if c = '"' then some ⟨m.stack, .literal (some members) opened⟩
    else none
  | .literal members r =>
    (r.step c).map fun r =>
      if r.mode = .closed then
        match members with
        | none => ⟨m.stack, .after (.string r.value)⟩
        | some members => ⟨m.stack, .colon members r.value⟩
      else ⟨m.stack, .literal members r⟩
  | .colon members name =>
    if isSpace c then some m
    else if c = ':' then some ⟨.object members name :: m.stack, .value⟩
    else none
  | .number n =>
    match n.step c with
    | some n => some ⟨m.stack, .number n⟩
    | none => if n.complete then finish m.stack (.number n.value) c else none
  | .word rest v =>
    match rest with
    | [] => none
    | d :: rest =>
      if c = d then some ⟨m.stack, if rest = [] then .after v else .word rest v⟩ else none
  | .after v => finish m.stack v c

def run (m : Machine) (text : List Char) : Option Machine := text.foldlM step m

@[simp] theorem run_nil (m : Machine) : m.run [] = some m := rfl

@[simp] theorem run_cons (m : Machine) (c : Char) (text : List Char) :
    m.run (c :: text) = (m.step c).bind (·.run text) := rfl

theorem run_append (m : Machine) (s t : List Char) : m.run (s ++ t) = (m.run s).bind (·.run t) := by
  simp [run, List.foldlM_append, bind]

theorem run_one (m : Machine) (c : Char) : m.run [c] = m.step c := by
  rw [run_cons]
  exact Option.bind_fun_some _

end Machine

/-- What the document `text` stands for. A line break ends a number. -/
def readValue (text : List Char) : Option Value :=
  (({} : Machine).run (text ++ ['\n'])).bind fun m =>
    match m.stack, m.place with
    | [], .after v => some v
    | _, _ => none

/-! ### What a text stands for -/

/-- The characters behind a value. -/
def Delimits (c : Char) : Prop := Machine.isSpace c = true ∨ c = ',' ∨ c = ']' ∨ c = '}'

/-- From `m` on, `text` is read as the value `v` inside `stack`. -/
def Machine.ReadsFrom (m : Machine) (text : List Char) (stack : List Frame) (v : Value) : Prop :=
  ∀ c, Delimits c → m.run (text ++ [c]) = finish stack v c

/-- `text` stands for the value `v`, wherever a value may stand. -/
def Reads (text : List Char) (v : Value) : Prop := ∀ stack, (Machine.mk stack .value).ReadsFrom text stack v

/-- `text` is the name and the value of a member. -/
def ReadsMember (text : List Char) (m : List Char × Value) : Prop :=
  ∃ spaces name rest, text = spaces ++ '"' :: (name ++ '"' :: ':' :: rest) ∧ Machine.Spaces spaces ∧
    Spells name m.1 ∧ Reads rest m.2

theorem delimits_space : Delimits '\n' := .inl rfl

theorem Delimits.comma : Delimits ',' := .inr (.inl rfl)

theorem Delimits.bracket : Delimits ']' := .inr (.inr (.inl rfl))

theorem Delimits.brace : Delimits '}' := .inr (.inr (.inr rfl))

namespace Machine

/-! ### Parts of a document -/

/-- Where the place takes spaces, they change nothing. -/
theorem run_spaces {m : Machine} (hm : ∀ c, isSpace c = true → m.step c = some m) {spaces : List Char}
    (h : Spaces spaces) : m.run spaces = some m := by
  induction spaces with
  | nil => rfl
  | cons c spaces ih =>
    rw [run_cons, hm c (h c List.mem_cons_self), Option.bind_some]
    exact ih fun d hd => h d (List.mem_cons_of_mem c hd)

theorem step_value_space {stack : List Frame} {c : Char} (hc : isSpace c = true) :
    (Machine.mk stack .value).step c = some ⟨stack, .value⟩ := if_pos hc

/-- A reader that goes on after `text` was not done before. -/
theorem run_literal {stack : List Frame} {members : Option (List (List Char × Value))} :
    ∀ {text : List Char} {r r' : Reader},
    r.run text = some r' → r'.mode ≠ .closed →
      (Machine.mk stack (.literal members r)).run text = some ⟨stack, .literal members r'⟩ := by
  intro text
  induction text with
  | nil =>
    intro r r' h _
    obtain rfl := Option.some.inj h
    rfl
  | cons c text ih =>
    intro r r' h hr'
    rw [Reader.run_cons] at h
    obtain ⟨s, hs, hrest⟩ := Option.bind_eq_some_iff.mp h
    have hopen : s.mode ≠ .closed := by
      intro hclosed
      cases text with
      | nil =>
        obtain rfl := Option.some.inj hrest
        exact hr' hclosed
      | cons d text =>
        have hstuck : s.step d = none := by
          unfold Reader.step
          rw [hclosed]
        rw [Reader.run_cons, hstuck] at hrest
        cases hrest
    have hstep : (Machine.mk stack (.literal members r)).step c = some ⟨stack, .literal members s⟩ := by
      show (r.step c).map _ = _
      rw [hs, Option.map_some, if_neg hopen]
    rw [run_cons, hstep, Option.bind_some]
    exact ih hrest hr'

/-- The rest of a literal, its closing quote included. -/
theorem run_closing {stack : List Frame} (members : Option (List (List Char × Value))) {text value : List Char}
    (h : Spells text value) : (Machine.mk stack (.literal members opened)).run (text ++ ['"']) =
      some (match members with
        | none => ⟨stack, .after (.string value)⟩
        | some members => ⟨stack, .colon members value⟩) := by
  have hrun : opened.run text = some ⟨value, .plain⟩ := h []
  rw [run_append, run_literal hrun (by simp), Option.bind_some, run_one]
  cases members <;> rfl

end Machine

section Rules

open Machine

variable {text : List Char} {v : Value}

theorem reads_literal {value : List Char} (h : Spells text value) : Reads ('"' :: (text ++ ['"'])) (.string value) := by
  intro stack c _
  have hopen : (Machine.mk stack .value).step '"' = some ⟨stack, .literal none opened⟩ := rfl
  rw [List.cons_append, run_cons, hopen, Option.bind_some, run_append, run_closing none h, Option.bind_some, run_one]
  rfl

theorem reads_true : Reads "true".toList (.boolean true) := fun stack c _ =>
  run_one ⟨stack, .after (.boolean true)⟩ c

theorem reads_false : Reads "false".toList (.boolean false) := fun stack c _ =>
  run_one ⟨stack, .after (.boolean false)⟩ c

/-- A character behind a number does not continue it. -/
theorem Delimits.ends {c : Char} (h : Delimits c) (n : Numeral) : n.step c = none := by
  have hdigit : Numeral.digit c = none ∧ c ≠ '.' ∧ c ≠ 'e' ∧ c ≠ 'E' ∧ c ≠ '+' ∧ c ≠ '-' := by
    rcases h with h | rfl | rfl | rfl
    · simp only [isSpace, Bool.or_eq_true, decide_eq_true_eq] at h
      rcases h with ((rfl | rfl) | rfl) | rfl <;> decide
    · decide
    · decide
    · decide
  obtain ⟨hd, hpoint, he, hE, hplus, hminus⟩ := hdigit
  unfold Numeral.step
  split <;> simp [Numeral.lead, Numeral.more, Numeral.part, Numeral.power, hd, hpoint, he, hE, hplus, hminus]

/-- A number does not start with a space. -/
theorem start_not_space {c : Char} {n : Numeral} (h : Numeral.start c = some n) : isSpace c = false ∧
    ∀ stack, enter stack c = some ⟨stack, .number n⟩ := by
  have hc : c = '-' ∨ c.isDigit := by
    unfold Numeral.start at h
    split at h
    · exact .inl ‹_›
    · obtain ⟨d, hd, -⟩ := Option.map_eq_some_iff.mp h
      unfold Numeral.digit at hd
      split at hd
      · exact .inr ‹_›
      · cases hd
  have hne : ∀ {d : Char}, d ≠ '-' → d.isDigit = false → c ≠ d := by
    rintro d hm hd rfl
    rcases hc with rfl | hc
    · exact hm rfl
    · rw [hd] at hc
      cases hc
  refine ⟨?_, fun stack => ?_⟩
  · simp [isSpace, hne (d := ' ') (by decide) (by decide), hne (d := '\t') (by decide) (by decide),
      hne (d := '\n') (by decide) (by decide), hne (d := '\r') (by decide) (by decide)]
  · unfold enter
    split
    · exact absurd rfl (hne (d := '"') (by decide) (by decide))
    · exact absurd rfl (hne (d := '{') (by decide) (by decide))
    · exact absurd rfl (hne (d := '[') (by decide) (by decide))
    · exact absurd rfl (hne (d := 't') (by decide) (by decide))
    · exact absurd rfl (hne (d := 'f') (by decide) (by decide))
    · exact absurd rfl (hne (d := 'n') (by decide) (by decide))
    · rw [h, Option.map_some]

theorem run_number {stack : List Frame} : ∀ {text : List Char} {n n' : Numeral}, n.run text = some n' →
    (Machine.mk stack (.number n)).run text = some ⟨stack, .number n'⟩ := by
  intro text
  induction text with
  | nil =>
    intro n n' h
    obtain rfl := Option.some.inj h
    rfl
  | cons c text ih =>
    intro n n' h
    obtain ⟨m, hm, hrest⟩ := Option.bind_eq_some_iff.mp h
    have hstep : (Machine.mk stack (.number n)).step c = some ⟨stack, .number m⟩ := by
      simp only [Machine.step, hm]
    rw [run_cons, hstep, Option.bind_some]
    exact ih hrest

theorem reads_number {n : Numeral} (h : Numeral.Numerates text n) : Reads text (.number n.value) := by
  intro stack c hc
  obtain ⟨d, rest, first, rfl, hstart, hrun, hcomplete⟩ := h
  obtain ⟨hspace, hopen⟩ := start_not_space hstart
  have hfirst : (Machine.mk stack .value).step d = some ⟨stack, .number first⟩ := by
    simp only [Machine.step, hspace]
    exact hopen stack
  rw [List.cons_append, run_cons, hfirst, Option.bind_some, run_append, run_number hrun, Option.bind_some, run_one]
  simp only [Machine.step, hc.ends n, hcomplete]
  rfl

/-- A natural number in decimal. -/
theorem reads_nat (n : ℕ) : Reads (Nat.toDigits 10 n) (.number n) := by
  have h := reads_number (Numeral.numerates_wholePart false n)
  simpa [Numeral.value, Numeral.wholePart, Numeral.sign] using h

theorem reads_int (z : ℤ) : Reads (toString z).toList (.number z) := by
  cases z with
  | ofNat n =>
    have htext : (toString (Int.ofNat n)).toList = Nat.toDigits 10 n := by
      show n.repr.toList = _
      rw [Nat.toList_repr]
    rw [htext]
    exact reads_nat n
  | negSucc n =>
    have htext : (toString (Int.negSucc n)).toList = Numeral.sign true ++ Nat.toDigits 10 (n + 1) := by
      show ("-" ++ (n + 1).repr).toList = _
      rw [String.toList_append, Nat.toList_repr]
      rfl
    rw [htext]
    have h := reads_number (Numeral.numerates_wholePart true (n + 1))
    have hvalue : (Numeral.wholePart true (n + 1)).value = ((Int.negSucc n : ℤ) : ℚ) := by
      rw [Int.cast_negSucc]
      simp [Numeral.value, Numeral.wholePart]
    rwa [hvalue] at h

/-- A number with digits behind the point, in units of the last. -/
theorem reads_decimal {k : ℕ} {digits : List Char} (hne : digits ≠ []) (hd : ∀ d ∈ digits, d.isDigit) :
    Reads (Nat.toDigits 10 k ++ '.' :: digits)
      (.number ((Nat.ofDigitChars 10 digits k : ℕ) / 10 ^ digits.length)) := by
  obtain ⟨c, rest, rfl⟩ := List.exists_cons_of_ne_nil hne
  have h := reads_number (Numeral.numerates_fraction false k (hd c List.mem_cons_self) fun d hd' =>
    hd d (List.mem_cons_of_mem c hd'))
  simpa [Numeral.value, Numeral.sign] using h

/-! ### Arrays and objects -/

theorem Reads.after_spaces {spaces : List Char} (hs : Spaces spaces) (h : Reads text v) :
    Reads (spaces ++ text) v := by
  intro stack c hc
  rw [List.append_assoc, run_append, run_spaces (fun _ => step_value_space) hs, Option.bind_some]
  exact h stack c hc

/-- Spaces behind a value. -/
theorem Machine.ReadsFrom.before_spaces {m : Machine} {stack : List Frame} (h : m.ReadsFrom text stack v)
    {spaces : List Char} (hs : Spaces spaces) : m.ReadsFrom (text ++ spaces) stack v := by
  intro c hc
  cases spaces with
  | nil =>
    rw [List.append_nil]
    exact h c hc
  | cons d spaces =>
    have hd := hs d List.mem_cons_self
    have hafter : ∀ e, isSpace e = true → (Machine.mk stack (.after v)).step e = some ⟨stack, .after v⟩ :=
      fun e he => if_pos he
    have hfirst : m.run (text ++ [d]) = some ⟨stack, .after v⟩ := (h d (.inl hd)).trans (if_pos hd)
    rw [List.append_assoc, List.cons_append, List.append_cons, run_append, hfirst, Option.bind_some, run_append,
      run_spaces hafter fun e he => hs e (List.mem_cons_of_mem d he), Option.bind_some, run_one]
    rfl

theorem Reads.before_spaces {spaces : List Char} (hs : Spaces spaces) (h : Reads text v) :
    Reads (text ++ spaces) v := fun stack => (h stack).before_spaces hs

/-- The first item of an array is read as the others are. -/
theorem Reads.firstItem (h : Reads text v) (stack : List Frame) :
    (Machine.mk stack .firstItem).ReadsFrom text (.array [] :: stack) v := by
  intro c hc
  have hspaces : ∀ d ∈ text.takeWhile isSpace, isSpace d = true := fun d hd => List.mem_takeWhile_imp hd
  have hskip : ∀ d, isSpace d = true → (Machine.mk stack .firstItem).step d = some ⟨stack, .firstItem⟩ :=
    fun d hd => if_pos hd
  have hread : (Machine.mk [] .value).run (text ++ ['\n']) = some ⟨[], .after v⟩ := h [] '\n' delimits_space
  rw [← h (.array [] :: stack) c hc]
  rw [← List.takeWhile_append_dropWhile (p := isSpace) (l := text), List.append_assoc] at hread ⊢
  rw [run_append, run_spaces (fun _ => step_value_space) hspaces, Option.bind_some] at hread
  rw [run_append, run_append, run_spaces (fun _ => step_value_space) hspaces, run_spaces hskip hspaces,
    Option.bind_some, Option.bind_some]
  cases hrest : text.dropWhile isSpace with
  | nil =>
    -- spaces alone are no value
    rw [hrest, List.nil_append, run_one, step_value_space (by decide)] at hread
    cases hread
  | cons d rest =>
    have hd : isSpace d = false := by
      have hhead := List.head_dropWhile_not isSpace (l := text) (by simp [hrest])
      simpa [hrest] using hhead
    have hbracket : d ≠ ']' := by
      rintro rfl
      rw [hrest, List.cons_append, run_cons] at hread
      cases hread
    have hsame : (Machine.mk stack .firstItem).step d = (Machine.mk (.array [] :: stack) .value).step d := by
      simp [Machine.step, hd, hbracket]
    rw [List.cons_append, run_cons, run_cons, hsame]

/-- The items of an array from one of them on. -/
theorem run_items {spaces : List Char} (hs : Spaces spaces) : ∀ {items : List (List Char × Value)}
    {x : List Char × Value} {done : List Value} {stack : List Frame}, (∀ y ∈ items, Reads y.1 y.2) →
      ∀ {m : Machine}, m.ReadsFrom x.1 (.array done :: stack) x.2 →
        m.run ([','].intercalate ((x :: items).map (·.1)) ++ spaces ++ [']']) =
          some ⟨stack, .after (.array (done ++ (x :: items).map (·.2)))⟩ := by
  intro items
  induction items with
  | nil =>
    intro x done stack _ m hm
    rw [List.map_singleton, List.intercalate_singleton, hm.before_spaces hs ']' .bracket]
    rfl
  | cons y items ih =>
    intro x done stack hall m hm
    have hrest := @ih y (done ++ [x.2]) stack (fun z hz => hall z (List.mem_cons_of_mem y hz)) _
      (hall y List.mem_cons_self _)
    rw [List.append_assoc done, List.singleton_append] at hrest
    rw [List.map_cons, List.map_cons, List.intercalate_cons_cons, List.append_assoc, List.append_assoc,
      List.append_assoc,
      ← List.append_assoc x.1, run_append, hm ',' .comma, ← List.append_assoc]
    exact hrest

theorem reads_array {items : List (List Char × Value)} {spaces : List Char} (hs : Spaces spaces)
    (h : ∀ x ∈ items, Reads x.1 x.2) :
    Reads ('[' :: ([','].intercalate (items.map (·.1)) ++ spaces ++ [']'])) (.array (items.map (·.2))) := by
  intro stack c _
  have hopen : (Machine.mk stack .value).step '[' = some ⟨stack, .firstItem⟩ := rfl
  have hskip : ∀ d, isSpace d = true → (Machine.mk stack .firstItem).step d = some ⟨stack, .firstItem⟩ :=
    fun d hd => if_pos hd
  rw [List.cons_append, run_cons, hopen, Option.bind_some, run_append]
  have hitems : (Machine.mk stack .firstItem).run ([','].intercalate (items.map (·.1)) ++ spaces ++ [']']) =
      some ⟨stack, .after (.array (items.map (·.2)))⟩ := by
    cases items with
    | nil =>
      rw [List.map_nil, List.intercalate_nil, List.nil_append, run_append, run_spaces hskip hs]
      rfl
    | cons x items =>
      exact run_items hs (fun y hy => h y (List.mem_cons_of_mem x hy)) ((h x List.mem_cons_self).firstItem stack)
  rw [hitems, Option.bind_some, run_one]
  rfl

/-- A member from where its name is awaited. -/
theorem ReadsMember.run {m : List Char × Value} (h : ReadsMember text m) {stack : List Frame} {place : Place}
    {done : List (List Char × Value)}
    (hspace : ∀ c, isSpace c = true → (Machine.mk stack place).step c = some ⟨stack, place⟩)
    (hquote : (Machine.mk stack place).step '"' = some ⟨stack, .literal (some done) opened⟩) :
    (Machine.mk stack place).ReadsFrom text (.object done m.1 :: stack) m.2 := by
  intro c hc
  obtain ⟨spaces, name, rest, rfl, hs, hname, hrest⟩ := h
  have hcolon : (Machine.mk stack (.colon done m.1)).step ':' = some ⟨.object done m.1 :: stack, .value⟩ := rfl
  rw [List.append_assoc, run_append, run_spaces hspace hs, Option.bind_some, List.cons_append, run_cons, hquote,
    Option.bind_some, List.append_assoc, List.cons_append, List.append_cons, run_append, run_closing (some done) hname,
    Option.bind_some, List.cons_append, run_cons, hcolon, Option.bind_some]
  exact hrest _ c hc

/-- The members of an object from one of them on. -/
theorem run_members {spaces : List Char} (hs : Spaces spaces) :
    ∀ {members : List (List Char × List Char × Value)} {x : List Char × List Char × Value}
      {done : List (List Char × Value)} {stack : List Frame}, (∀ y ∈ members, ReadsMember y.1 y.2) →
        ∀ {m : Machine}, m.ReadsFrom x.1 (.object done x.2.1 :: stack) x.2.2 →
          m.run ([','].intercalate ((x :: members).map (·.1)) ++ spaces ++ ['}']) =
            some ⟨stack, .after (.object (done ++ (x :: members).map (·.2)))⟩ := by
  intro members
  induction members with
  | nil =>
    intro x done stack _ m hm
    rw [List.map_singleton, List.intercalate_singleton, hm.before_spaces hs '}' .brace]
    rfl
  | cons y members ih =>
    intro x done stack hall m hm
    have hspace : ∀ c, isSpace c = true → (Machine.mk stack (.name (done ++ [x.2]))).step c =
      some ⟨stack, .name (done ++ [x.2])⟩ := fun c hc => if_pos hc
    have hy : (Machine.mk stack (.name (done ++ [x.2]))).ReadsFrom y.1 _ y.2.2 :=
      (hall y List.mem_cons_self).run hspace rfl
    have hrest := @ih y (done ++ [x.2]) stack (fun z hz => hall z (List.mem_cons_of_mem y hz)) _ hy
    rw [List.append_assoc done, List.singleton_append] at hrest
    rw [List.map_cons, List.map_cons, List.intercalate_cons_cons, List.append_assoc, List.append_assoc,
      List.append_assoc,
      ← List.append_assoc x.1, run_append, hm ',' .comma, ← List.append_assoc]
    exact hrest

theorem reads_object {members : List (List Char × List Char × Value)} {spaces : List Char}
    (hs : Spaces spaces) (h : ∀ x ∈ members, ReadsMember x.1 x.2) :
    Reads ('{' :: ([','].intercalate (members.map (·.1)) ++ spaces ++ ['}'])) (.object (members.map (·.2))) := by
  intro stack c _
  have hopen : (Machine.mk stack .value).step '{' = some ⟨stack, .firstName⟩ := rfl
  have hskip : ∀ d, isSpace d = true → (Machine.mk stack .firstName).step d = some ⟨stack, .firstName⟩ :=
    fun d hd => if_pos hd
  rw [List.cons_append, run_cons, hopen, Option.bind_some, run_append]
  have hmembers : (Machine.mk stack .firstName).run ([','].intercalate (members.map (·.1)) ++ spaces ++ ['}']) =
      some ⟨stack, .after (.object (members.map (·.2)))⟩ := by
    cases members with
    | nil =>
      rw [List.map_nil, List.intercalate_nil, List.nil_append, run_append, run_spaces hskip hs]
      rfl
    | cons x members =>
      have hx : (Machine.mk stack .firstName).ReadsFrom x.1 (.object [] x.2.1 :: stack) x.2.2 :=
        (h x List.mem_cons_self).run hskip rfl
      exact run_members hs (fun y hy => h y (List.mem_cons_of_mem x hy)) hx
  rw [hmembers, Option.bind_some, run_one]
  rfl

/-- A text that stands for a value is a document. -/
theorem readValue_of_reads (h : Reads text v) : readValue text = some v := by
  have hread : ({} : Machine).run (text ++ ['\n']) = some ⟨[], .after v⟩ := h [] '\n' delimits_space
  rw [readValue, hread]
  rfl

end Rules

end Json
