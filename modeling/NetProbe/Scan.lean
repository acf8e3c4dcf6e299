/-
# Scanning text

Reading a text as the C and C++ libraries do: its lines (`std::getline`), the
words between blanks (`operator>>`), the number at its start (`strtoul`, with a
64-bit result that an overflow leaves at its largest value). Lines, words and
numbers are read back as they were written, whatever blanks stand between words.

Key definitions: `lines`, `words`, `strtoul`, `Spaced`, `hexPad`.
Key theorems: `lines_flatMap`, `words_spaced`, `strtoul_hexPad`, `strtoul_toDigits`.
-/
import Mathlib.Data.Nat.Digits.Defs
import Mathlib.Data.List.Basic
import Mathlib.Data.List.TakeWhile

namespace Scan

/-! ### Lines -/

/-- What follows the last line end is a line if there is something. -/
def lines (text : List Char) : List (List Char) :=
  let parts := text.splitOn '\n'
  if parts.getLast? = some [] then parts.dropLast else parts

theorem splitOn_flatMap {ls : List (List Char)} (h : ∀ l ∈ ls, '\n' ∉ l) :
    (ls.flatMap (· ++ ['\n'])).splitOn '\n' = ls ++ [[]] := by
  induction ls with
  | nil => rfl
  | cons l ls ih =>
    obtain ⟨hl, hls⟩ := List.forall_mem_cons.mp h
    rw [List.flatMap_cons, List.append_assoc, List.singleton_append, List.splitOn_append_cons_self_of_not_mem hl,
      ih hls, List.cons_append]

/-- Lines that are ended are read back. -/
theorem lines_flatMap {ls : List (List Char)} (h : ∀ l ∈ ls, '\n' ∉ l) : lines (ls.flatMap (· ++ ['\n'])) = ls := by
  rw [lines, splitOn_flatMap h]
  simp

/-! ### Words -/

/-- `std::isspace` in the C locale. -/
def isSpace (c : Char) : Bool := c = ' ' || (9 ≤ c.toNat && c.toNat ≤ 13)

def words (text : List Char) : List (List Char) := (text.splitOnP isSpace).filter (· ≠ [])

def Word (w : List Char) : Prop := w ≠ [] ∧ ∀ c ∈ w, isSpace c = false

instance (w : List Char) : Decidable (Word w) :=
  decidable_of_iff (w ≠ [] ∧ w.all (fun c => !isSpace c) = true) (by simp [Word])

/-- The text is the words with blanks before, between and after them. -/
inductive Spaced : List (List Char) → List Char → Prop
  | blanks {blanks : List Char} (h : ∀ c ∈ blanks, isSpace c = true) : Spaced [] blanks
  | last {blanks w : List Char} (h : ∀ c ∈ blanks, isSpace c = true) (hw : Word w) : Spaced [w] (blanks ++ w)
  | word {blanks w text : List Char} {c : Char} {ws : List (List Char)} (h : ∀ c ∈ blanks, isSpace c = true)
      (hw : Word w) (hc : isSpace c = true) (hrest : Spaced ws text) : Spaced (w :: ws) (blanks ++ (w ++ c :: text))

theorem words_word {w : List Char} (hw : Word w) : words w = [w] := by
  rw [words, List.splitOnP_eq_singleton hw.2]
  simp [hw.1]

theorem words_cons {w text : List Char} {c : Char} (hw : Word w) (hc : isSpace c = true) :
    words (w ++ c :: text) = w :: words text := by
  rw [words, List.splitOnP_append_cons_of_forall_mem hw.2 c hc]
  simp [words, hw.1]

theorem words_blanks {blanks : List Char} (h : ∀ c ∈ blanks, isSpace c = true) (text : List Char) :
    words (blanks ++ text) = words text := by
  induction blanks with
  | nil => rfl
  | cons c blanks ih =>
    obtain ⟨hc, hblanks⟩ := List.forall_mem_cons.mp h
    have hsplit := List.splitOnP_append_cons_of_forall_mem (List.forall_mem_nil _) c hc (blanks ++ text)
    rw [List.nil_append] at hsplit
    rw [List.cons_append, words, hsplit, List.filter_cons_of_neg (by simp)]
    exact ih hblanks

/-- The words are read back, whatever blanks there are. -/
theorem words_spaced {ws : List (List Char)} {text : List Char} (h : Spaced ws text) : words text = ws := by
  induction h with
  | @blanks blanks h =>
    rw [← List.append_nil blanks, words_blanks h]
    rfl
  | last h hw => rw [words_blanks h, words_word hw]
  | word h hw hc _ ih => rw [words_blanks h, words_cons hw hc, ih]

/-- One blank between two words is enough. -/
theorem spaced_intercalate {ws : List (List Char)} (h : ∀ w ∈ ws, Word w) : Spaced ws ([' '].intercalate ws) := by
  match ws, h with
  | [], _ => exact .blanks (List.forall_mem_nil _)
  | [w], h => simpa using Spaced.last (List.forall_mem_nil _) (h w List.mem_cons_self)
  | w :: w' :: ws, h =>
    obtain ⟨hw, hrest⟩ := List.forall_mem_cons.mp h
    rw [List.intercalate_cons_cons]
    simpa using Spaced.word (List.forall_mem_nil _) hw (by decide : isSpace ' ' = true) (spaced_intercalate hrest)

/-! ### Numbers -/

/-- What the character counts as a digit, if it is one in the base. -/
def digitOf (base : ℕ) (c : Char) : Option ℕ :=
  let value := if c.isDigit then c.toNat - '0'.toNat
    else if c.isLower then c.toNat - 'a'.toNat + 10
    else if c.isUpper then c.toNat - 'A'.toNat + 10
    else base
  if value < base then some value else none

/-- The digits at the start of the text, as one number. -/
def magnitude (base : ℕ) : ℕ → List Char → ℕ
  | n, [] => n
  | n, c :: text => match digitOf base c with
    | some digit => magnitude base (base * n + digit) text
    | none => n

def kUlongMax : ℕ := 2 ^ 64 - 1

/-- A base of 16 may be announced, if a digit follows. -/
def dropAnnouncement (base : ℕ) (text : List Char) : List Char :=
  match text with
  | '0' :: x :: c :: rest => if base = 16 ∧ (x = 'x' ∨ x = 'X') ∧ (digitOf 16 c).isSome then c :: rest else text
  | _ => text

def strtoul (base : ℕ) (text : List Char) : ℕ :=
  let text := text.dropWhile isSpace
  let negative : Bool := text.head? = some '-'
  let text := if negative ∨ text.head? = some '+' then text.tail else text
  let n := magnitude base 0 (dropAnnouncement base text)
  if n > kUlongMax then kUlongMax else if negative then (2 ^ 64 - n) % 2 ^ 64 else n

section Numbers

variable {base : ℕ} {c : Char} {text : List Char}

/-- Neither a blank nor a sign nor the mark of a base is a digit. -/
theorem digitOf_none (hbase : base ≤ 16) (h : isSpace c = true ∨ c = '-' ∨ c = '+' ∨ c = 'x' ∨ c = 'X') :
    digitOf base c = none := by
  have hspace : ∀ n ∈ [32, 9, 10, 11, 12, 13], digitOf base (Char.ofNat n) = none := by
    simp only [List.forall_mem_cons]
    exact ⟨if_neg (lt_irrefl base), if_neg (lt_irrefl base), if_neg (lt_irrefl base), if_neg (lt_irrefl base),
      if_neg (lt_irrefl base), if_neg (lt_irrefl base), List.forall_mem_nil _⟩
  rcases h with h | rfl | rfl | rfl | rfl
  · have hcode : c.toNat ∈ [32, 9, 10, 11, 12, 13] := by
      rw [isSpace, Bool.or_eq_true, decide_eq_true_eq, Bool.and_eq_true, decide_eq_true_eq, decide_eq_true_eq] at h
      rcases h with rfl | h
      · decide
      · simp only [List.mem_cons, List.not_mem_nil, or_false]
        omega
    rw [← Char.ofNat_toNat c]
    exact hspace _ hcode
  · exact if_neg (lt_irrefl base)
  · exact if_neg (lt_irrefl base)
  · exact if_neg (not_lt.mpr (hbase.trans (by decide : 16 ≤ 33)))
  · exact if_neg (not_lt.mpr (hbase.trans (by decide : 16 ≤ 33)))

/-- Reading stops at the first character that is no digit. -/
theorem magnitude_append {digits tail : List Char} (hdigits : ∀ c ∈ digits, digitOf base c ≠ none)
    (hstop : ∀ c, tail.head? = some c → digitOf base c = none) (n : ℕ) :
    magnitude base n (digits ++ tail) = magnitude base n digits := by
  induction digits generalizing n with
  | nil =>
    cases tail with
    | nil => rfl
    | cons c tail =>
      have hc := hstop c rfl
      simp [magnitude, hc]
  | cons c digits ih =>
    obtain ⟨hc, hrest⟩ := List.forall_mem_cons.mp hdigits
    obtain ⟨digit, hdigit⟩ := Option.ne_none_iff_exists'.mp hc
    rw [List.cons_append, magnitude, magnitude, hdigit]
    exact ih hrest _

/-- A text that starts with digits is read up to the last of them. -/
theorem strtoul_digits {digits tail : List Char} (hbase : base ≤ 16) (hne : digits ≠ [])
    (hdigits : ∀ c ∈ digits, digitOf base c ≠ none) (hstop : ∀ c, tail.head? = some c → digitOf base c = none)
    (hmark : base = 16 → tail = []) (hfits : magnitude base 0 digits ≤ kUlongMax) :
    strtoul base (digits ++ tail) = magnitude base 0 digits := by
  have hother : ∀ c ∈ digits, isSpace c = false ∧ c ≠ '-' ∧ c ≠ '+' ∧ c ≠ 'x' ∧ c ≠ 'X' := by
    intro c hc
    have hnone := mt (digitOf_none hbase) (hdigits c hc)
    simpa [not_or] using hnone
  obtain ⟨first, rest, rfl⟩ := List.exists_cons_of_ne_nil hne
  have hfirst := hother first List.mem_cons_self
  have hannounced : dropAnnouncement base (first :: rest ++ tail) = first :: rest ++ tail := by
    unfold dropAnnouncement
    split
    · rename_i x c more htext
      refine if_neg fun h => ?_
      have hx : x ∈ first :: rest := by
        rw [hmark h.1, List.append_nil] at htext
        rw [htext]
        simp
      exact h.2.1.elim (hother x hx).2.2.2.1 (hother x hx).2.2.2.2
    · rfl
  rw [List.cons_append] at hannounced
  have hread : strtoul base (first :: (rest ++ tail)) =
      if magnitude base 0 (first :: (rest ++ tail)) > kUlongMax then kUlongMax
      else magnitude base 0 (first :: (rest ++ tail)) := by
    simp [strtoul, hfirst, hannounced]
  rw [List.cons_append, hread, ← List.cons_append, magnitude_append hdigits hstop, if_neg (not_lt.mpr hfits)]

end Numbers

/-- The last `k` digits in base 16, as `%0kX` writes a number that has no more. -/
def hexPad : ℕ → ℕ → List Char
  | 0, _ => []
  | k + 1, n => hexPad k (n / 16) ++ [(Nat.digitChar (n % 16)).toUpper]

theorem digitOf_digitChar : ∀ d < 16, digitOf 16 (Nat.digitChar d).toUpper = some d := by
  decide

theorem magnitude_hexPad (k n m : ℕ) (text : List Char) :
    magnitude 16 m (hexPad k n ++ text) = magnitude 16 (m * 16 ^ k + n % 16 ^ k) text := by
  induction k generalizing n text with
  | zero => simp [hexPad, Nat.mod_one]
  | succ k ih =>
    have hdigit := digitOf_digitChar (n % 16) (Nat.mod_lt _ (by decide))
    rw [hexPad, List.append_assoc, List.singleton_append, ih, magnitude, hdigit]
    dsimp only
    congr 1
    rw [Nat.pow_succ', Nat.mod_mul]
    ring

theorem mem_hexPad {k n : ℕ} {c : Char} (h : c ∈ hexPad k n) : digitOf 16 c ≠ none := by
  induction k generalizing n with
  | zero => cases h
  | succ k ih =>
    rcases List.mem_append.mp h with h | h
    · exact ih h
    · rw [List.mem_singleton.mp h, digitOf_digitChar _ (Nat.mod_lt _ (by decide))]
      exact Option.some_ne_none _

theorem length_hexPad (k n : ℕ) : (hexPad k n).length = k := by
  induction k generalizing n with
  | zero => rfl
  | succ k ih => rw [hexPad, List.length_append, ih, List.length_singleton]

/-- A number of at most 64 bits is read back from its hexadecimal digits. -/
theorem strtoul_hexPad {k n : ℕ} (hpos : 0 < k) (hk : k ≤ 16) (hn : n < 16 ^ k) : strtoul 16 (hexPad k n) = n := by
  have hvalue : magnitude 16 0 (hexPad k n) = n := by
    rw [← List.append_nil (hexPad k n), magnitude_hexPad, Nat.mod_eq_of_lt hn, Nat.zero_mul, Nat.zero_add, magnitude]
  have hmax : 16 ^ k ≤ 16 ^ 16 := Nat.pow_le_pow_right (by decide) hk
  have hne : hexPad k n ≠ [] := List.ne_nil_of_length_pos (by rwa [length_hexPad])
  have hread := @strtoul_digits 16 (hexPad k n) [] le_rfl hne (fun c hc => mem_hexPad hc) (fun _ hc => by cases hc)
    (fun _ => rfl)
    (by rw [hvalue, kUlongMax]; omega)
  rwa [List.append_nil, hvalue] at hread

theorem digitOf_isDigit {c : Char} (h : c.isDigit = true) : digitOf 10 c = some (c.toNat - '0'.toNat) := by
  have hle : c.toNat ≤ 57 := by
    simp only [Char.isDigit, Bool.and_eq_true, decide_eq_true_eq] at h
    exact UInt32.le_iff_toNat_le.mp h.2
  rw [digitOf, if_pos h]
  exact if_pos (by have : '0'.toNat = 48 := rfl; omega)

theorem magnitude_ofDigitChars {text : List Char} (h : ∀ c ∈ text, c.isDigit = true) (n : ℕ) :
    magnitude 10 n text = Nat.ofDigitChars 10 text n := by
  induction text generalizing n with
  | nil => simp [magnitude]
  | cons c text ih =>
    obtain ⟨hc, htext⟩ := List.forall_mem_cons.mp h
    rw [magnitude, digitOf_isDigit hc, Nat.ofDigitChars_cons]
    exact ih htext _

/-- A number of at most 64 bits is read back from its decimal digits. -/
theorem strtoul_toDigits {n : ℕ} (hn : n < 2 ^ 64) {tail : List Char}
    (hstop : ∀ c, tail.head? = some c → digitOf 10 c = none) :
    strtoul 10 (Nat.toDigits 10 n ++ tail) = n := by
  have hdigits : ∀ c ∈ Nat.toDigits 10 n, c.isDigit = true := fun c hc =>
    Nat.isDigit_of_mem_toDigits (by decide) (by decide) hc
  have hvalue : magnitude 10 0 (Nat.toDigits 10 n) = n := by
    rw [magnitude_ofDigitChars hdigits, Nat.ofDigitChars_toDigits (by decide) (by decide)]
  have hsome : ∀ c ∈ Nat.toDigits 10 n, digitOf 10 c ≠ none := by
    intro c hc
    rw [digitOf_isDigit (hdigits c hc)]
    exact Option.some_ne_none _
  rw [strtoul_digits (by decide) Nat.toDigits_ne_nil hsome hstop (fun h => absurd h (by decide))
    (by rw [hvalue, kUlongMax]; omega), hvalue]

end Scan
