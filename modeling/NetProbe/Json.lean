/-
# Json

The string literals of RFC 8259, read back. `read` takes a whole literal: it
starts with a quote, ends with the first quote that is not escaped, and has no
control character and no escape but the nine. Two `\u` escapes that are the
halves of a surrogate pair stand for one character; a half alone is refused.

Key definitions: `Reader.step`, `read`, `Spells`.
Key theorems: `read_quoted`, `ge_of_read`.
-/
import Mathlib.Data.List.Basic

namespace Json

/-! ### The reader -/

inductive Mode
  | start
  | plain
  /-- After a backslash. -/
  | escape
  /-- In a `\u` escape with so many digits read; `high` is the half before it. -/
  | unit (high : Option ℕ) (digits value : ℕ)
  /-- After a high half. -/
  | half (high : ℕ)
  /-- After a high half and a backslash. -/
  | halfEscape (high : ℕ)
  | closed
  deriving DecidableEq, Repr

structure Reader where
  value : List Char := []
  mode : Mode := .start
  deriving DecidableEq, Repr

def hexDigit (c : Char) : Option ℕ :=
  if '0'.toNat ≤ c.toNat ∧ c.toNat ≤ '9'.toNat then some (c.toNat - '0'.toNat)
  else if 'a'.toNat ≤ c.toNat ∧ c.toNat ≤ 'f'.toNat then some (c.toNat - 'a'.toNat + 10)
  else if 'A'.toNat ≤ c.toNat ∧ c.toNat ≤ 'F'.toNat then some (c.toNat - 'A'.toNat + 10)
  else none

/-- What a backslash and `c` stand for. -/
def short (c : Char) : Option Char :=
  match c with
  | '"' => some '"'
  | '\\' => some '\\'
  | '/' => some '/'
  | 'b' => some '\x08'
  | 'f' => some '\x0C'
  | 'n' => some '\n'
  | 'r' => some '\r'
  | 't' => some '\t'
  | _ => none

namespace Reader

def take (r : Reader) (c : Char) : Reader := { value := r.value ++ [c], mode := .plain }

/-- A `\u` escape for `n` is complete. -/
def takeUnit (r : Reader) (high : Option ℕ) (n : ℕ) : Option Reader :=
  match high with
  | none =>
    if 0xD800 ≤ n ∧ n < 0xDC00 then some { r with mode := .half n }
    else if 0xDC00 ≤ n ∧ n < 0xE000 then none
    else some (r.take (Char.ofNat n))
  | some high =>
    if 0xDC00 ≤ n ∧ n < 0xE000 then
      some (r.take (Char.ofNat (0x10000 + (high - 0xD800) * 0x400 + (n - 0xDC00))))
    else none

def step (r : Reader) (c : Char) : Option Reader :=
  match r.mode with
  | .start => if c = '"' then some { r with mode := .plain } else none
  | .plain =>
    if c = '"' then some { r with mode := .closed }
    else if c = '\\' then some { r with mode := .escape }
    else if c.toNat < 0x20 then none
    else some (r.take c)
  | .escape => if c = 'u' then some { r with mode := .unit none 0 0 } else (short c).map r.take
  | .unit high digits value =>
    (hexDigit c).bind fun digit =>
      if digits = 3 then r.takeUnit high (value * 16 + digit)
      else some { r with mode := .unit high (digits + 1) (value * 16 + digit) }
  | .half high => if c = '\\' then some { r with mode := .halfEscape high } else none
  | .halfEscape high => if c = 'u' then some { r with mode := .unit (some high) 0 0 } else none
  | .closed => none

def run (r : Reader) (text : List Char) : Option Reader := text.foldlM step r

@[simp] theorem run_nil (r : Reader) : r.run [] = some r := rfl

@[simp] theorem run_cons (r : Reader) (c : Char) (text : List Char) :
    r.run (c :: text) = (r.step c).bind (·.run text) := rfl

theorem run_append (r : Reader) (s t : List Char) : r.run (s ++ t) = (r.run s).bind (·.run t) := by
  simp [run, List.foldlM_append, bind]

end Reader

/-- What the literal `text` stands for. -/
def read (text : List Char) : Option (List Char) :=
  (({} : Reader).run text).bind fun r => if r.mode = .closed then some r.value else none

/-! ### Control characters -/

theorem hexDigit_control {c : Char} (h : c.toNat < 0x20) : hexDigit c = none := by
  have h0 : '0'.toNat = 48 := rfl
  have ha : 'a'.toNat = 97 := rfl
  have hA : 'A'.toNat = 65 := rfl
  rw [hexDigit, if_neg (by omega), if_neg (by omega), if_neg (by omega)]

theorem short_control {c : Char} (h : c.toNat < 0x20) : short c = none := by
  unfold short
  split <;> first | rfl | exact absurd h (by decide)

theorem Reader.step_control (r : Reader) {c : Char} (h : c.toNat < 0x20) : r.step c = none := by
  have hne : ∀ {d : Char}, 0x20 ≤ d.toNat → c ≠ d := by
    rintro d hd rfl
    omega
  unfold step
  split
  · exact if_neg (hne (by decide))
  · rw [if_neg (hne (by decide)), if_neg (hne (by decide)), if_pos h]
  · rw [if_neg (hne (by decide)), short_control h, Option.map_none]
  · rw [hexDigit_control h, Option.bind_none]
  · exact if_neg (hne (by decide))
  · exact if_neg (hne (by decide))
  · rfl

theorem Reader.ge_of_run {text : List Char} {r r' : Reader} (h : r.run text = some r') :
    ∀ c ∈ text, 0x20 ≤ c.toNat := by
  induction text generalizing r with
  | nil => simp
  | cons c text ih =>
    rw [run_cons] at h
    obtain ⟨s, hs, h⟩ := Option.bind_eq_some_iff.mp h
    intro d hd
    rcases List.mem_cons.mp hd with rfl | hd
    · by_contra hc
      rw [step_control r (by omega)] at hs
      cases hs
    · exact ih h d hd

/-- A literal has no control character. -/
theorem ge_of_read {text value : List Char} (h : read text = some value) : ∀ c ∈ text, 0x20 ≤ c.toNat := by
  obtain ⟨r, hr, -⟩ := Option.bind_eq_some_iff.mp h
  exact Reader.ge_of_run hr

/-! ### What stands for what -/

/-- Between the quotes `text` stands for `value`. -/
def Spells (text value : List Char) : Prop :=
  ∀ before, (Reader.mk before .plain).run text = some ⟨before ++ value, .plain⟩

theorem Spells.nil : Spells [] [] := fun _ => by simp

theorem Spells.append {s t v w : List Char} (h : Spells s v) (h' : Spells t w) : Spells (s ++ t) (v ++ w) := by
  intro before
  rw [Reader.run_append, h before, Option.bind_some, h' _, List.append_assoc]

theorem spells_plain {c : Char} (hq : c ≠ '"') (hb : c ≠ '\\') (hc : 0x20 ≤ c.toNat) : Spells [c] [c] := by
  intro before
  simp [Reader.step, hq, hb, Reader.take, hc]

theorem spells_short {c d : Char} (h : short c = some d) : Spells ['\\', c] [d] := by
  intro before
  have hu : c ≠ 'u' := by
    rintro rfl
    cases h
  simp [Reader.step, h, hu, Reader.take]

/-- A `\u` escape below the surrogates. -/
theorem spells_unit {a b c d : Char} {j k m n : ℕ} (ha : hexDigit a = some j) (hb : hexDigit b = some k)
    (hc : hexDigit c = some m) (hd : hexDigit d = some n) (h : ((j * 16 + k) * 16 + m) * 16 + n < 0xD800) :
    Spells ['\\', 'u', a, b, c, d] [Char.ofNat (((j * 16 + k) * 16 + m) * 16 + n)] := by
  intro before
  have hunit : ∀ r : Reader, r.takeUnit none (((j * 16 + k) * 16 + m) * 16 + n) =
      some (r.take (Char.ofNat (((j * 16 + k) * 16 + m) * 16 + n))) := by
    intro r
    rw [Reader.takeUnit, if_neg (by omega), if_neg (by omega)]
  simp [Reader.step, ha, hb, hc, hd, hunit, Reader.take]

/-- A literal stands for what the text between its quotes stands for. -/
theorem read_quoted {text value : List Char} (h : Spells text value) : read ('"' :: (text ++ ['"'])) = some value := by
  have hopen : ({} : Reader).step '"' = some ⟨[], .plain⟩ := rfl
  have hclose : (Reader.mk ([] ++ value) .plain).step '"' = some ⟨[] ++ value, .closed⟩ := rfl
  rw [read, Reader.run_cons, hopen, Option.bind_some, Reader.run_append, h, Option.bind_some, Reader.run_cons, hclose]
  simp

end Json
