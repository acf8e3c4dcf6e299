/-
# Service names and the order of the catalog

`identifyService` gives the label of the first needle of the catalog that occurs
in a name. A needle that is part of a later needle hides it. Of the needles with
another label that are part of a later one there are two, "x.com" in "xbox.com"
and "microsoft" in "teams.microsoft", and a name is labelled by its most specific
needles except where one of these hides the other (`identifyService_specific_iff`).

Key definitions: `Occurs`, `Specific`, `Hides`.
Key theorem: `identifyService_specific_iff`.
-/
import NetProbe.Catalog
import Mathlib.Data.List.Infix
import Mathlib.Data.List.TakeWhile
import Mathlib.Data.Nat.Bitwise

namespace NetProbe

/-! ### Sublists in a row -/

theorem contains_iff {needle hay : List Char} : contains needle hay = true ↔ needle <:+: hay := by
  simp only [contains, List.any_eq_true, List.mem_tails, List.isPrefixOf_iff_prefix]
  constructor
  · rintro ⟨rest, ⟨pre, rfl⟩, hneedle⟩
    exact hneedle.isInfix.trans (List.suffix_append pre rest).isInfix
  · rintro ⟨pre, post, rfl⟩
    refine ⟨needle ++ post, ⟨pre, (List.append_assoc ..).symm⟩, List.prefix_append ..⟩

/-- The characters of a list, as the set bits of a number. -/
def letters (cs : List Char) : ℕ := cs.foldr (fun c set => 2 ^ c.toNat ||| set) 0

theorem testBit_letters {cs : List Char} {i : ℕ} : (letters cs).testBit i = true ↔ ∃ c ∈ cs, c.toNat = i := by
  induction cs with
  | nil => simp [letters]
  | cons c cs ih =>
    have hcons : letters (c :: cs) = 2 ^ c.toNat ||| letters cs := rfl
    rw [hcons, Nat.testBit_or, Bool.or_eq_true, ih, Nat.testBit_two_pow, decide_eq_true_iff]
    simp

theorem infix_letters {cs ds : List Char} (h : cs <:+: ds) : letters cs &&& letters ds = letters cs := by
  refine Nat.eq_of_testBit_eq fun i => ?_
  rw [Nat.testBit_and, Bool.and_eq_left_iff_imp, testBit_letters, testBit_letters]
  rintro ⟨c, hc, hi⟩
  exact ⟨c, h.subset hc, hi⟩

/-! ### The first needle -/

/-- The needle occurs in the name, in any letter case. -/
def Occurs (needle hostname : String) : Prop := needle.toList <:+: (toLowerCopy hostname).toList

/-- The entries of the catalog before `pat`. -/
def before (pat : String × String) : List (String × String) := catalog.takeWhile (· ≠ pat)

section First

variable {hostname : String} {pre post : List (String × String)} {e pat : String × String}

/-- The label is that of the first needle that occurs, and there is one unless
no needle occurs. -/
theorem identifyService_cases (hostname : String) :
    (∃ pre e post, catalog = pre ++ e :: post ∧ identifyService hostname = e.2 ∧ Occurs e.1 hostname ∧
      ∀ a ∈ pre, ¬ Occurs a.1 hostname) ∨
    identifyService hostname = "" ∧ ∀ a ∈ catalog, ¬ Occurs a.1 hostname := by
  unfold identifyService
  dsimp only
  cases h : catalog.find? fun pat => contains pat.1.toList (toLowerCopy hostname).toList with
  | none =>
    refine .inr ⟨rfl, fun a ha hocc => ?_⟩
    exact List.find?_eq_none.mp h a ha (contains_iff.mpr hocc)
  | some e =>
    obtain ⟨he, pre, post, hsplit, hpre⟩ := List.find?_eq_some_iff_append.mp h
    refine .inl ⟨pre, e, post, hsplit, rfl, contains_iff.mp he, fun a ha hocc => ?_⟩
    have hnot := hpre a ha
    rw [contains_iff.mpr hocc] at hnot
    cases hnot

/-- An entry that does not come before the first match is the match or comes after it. -/
theorem mem_before_or_eq (hsplit : catalog = pre ++ e :: post) (hpat : pat ∉ pre) : e ∈ before pat ∨ e = pat := by
  by_cases he : e = pat
  · exact .inr he
  · have hpre : ∀ a ∈ pre, decide (a ≠ pat) = true := fun a ha => by
      simpa using fun h : a = pat => hpat (h ▸ ha)
    refine .inl ?_
    rw [before, hsplit, List.takeWhile_append_of_pos hpre, List.takeWhile_cons_of_pos (by simpa using he)]
    exact List.mem_append_right _ List.mem_cons_self

/-- What comes before an entry that the match does not come before, comes before the match. -/
theorem mem_of_mem_before (hsplit : catalog = pre ++ e :: post) (he : e ∉ before pat) {a : String × String}
    (ha : a ∈ before pat) : a ∈ pre := by
  have hprefix : before pat <+: pre ++ e :: post := hsplit ▸ List.takeWhile_prefix _
  rcases List.prefix_or_prefix_of_prefix hprefix (List.prefix_append pre (e :: post)) with h | h
  · exact h.subset ha
  · obtain ⟨rest, hrest⟩ := h
    cases rest with
    | nil =>
      rw [List.append_nil] at hrest
      rwa [hrest]
    | cons b rest =>
      rw [← hrest] at hprefix he
      have hb : b = e := by
        have := (List.prefix_append_right_inj pre).mp hprefix
        exact (List.cons_prefix_cons.mp this).1
      exact absurd (List.mem_append_right pre (hb ▸ List.mem_cons_self)) he

end First

/-! ### Needles in needles -/

def twitter : String × String := ("twitter", "X (Twitter)")

def xCom : String × String := ("x.com", "X (Twitter)")

def xboxCom : String × String := ("xbox.com", "Xbox Live")

def microsoft : String × String := ("microsoft", "Microsoft")

def teamsMicrosoft : String × String := ("teams.microsoft", "Microsoft Teams")

/-- Where a needle is part of another with another label, nothing up to the
longer one has the label of the shorter, but for two pairs. -/
theorem nested_needles : ∀ n ∈ catalog, ∀ m ∈ catalog,
    letters n.1.toList &&& letters m.1.toList = letters n.1.toList → contains n.1.toList m.1.toList = true →
      m.2 = n.2 ∨ (∀ e ∈ before m, e.2 ≠ n.2) ∨ n = xCom ∧ m = xboxCom ∨ n = microsoft ∧ m = teamsMicrosoft := by
  decide +kernel

/-! ### The most specific needle -/

/-- No needle with another label than the name's, and with a needle of that
label as a part, occurs in the name; a name without a label has no needle. -/
structure Specific (hostname : String) : Prop where
  specific : ∀ n ∈ catalog, identifyService hostname = n.2 →
    ∀ m ∈ catalog, Occurs m.1 hostname → n.1 ≠ m.1 → n.1.toList <:+: m.1.toList → m.2 = n.2
  complete : identifyService hostname = "" → ∀ m ∈ catalog, ¬ Occurs m.1 hostname

/-- `late` occurs in the name, and no needle before `early` does. -/
def Hides (early late : String × String) (hostname : String) : Prop :=
  Occurs late.1 hostname ∧ ∀ a ∈ before early, ¬ Occurs a.1 hostname

section Specific

variable {hostname : String} {pre post : List (String × String)} {early n m e : String × String}

/-- The match has the label of `n` although `m` occurs: then `early`, the first
entry with that label, hides `m`. -/
theorem hides_of_match (hsplit : catalog = pre ++ e :: post) (hpre : ∀ a ∈ pre, ¬ Occurs a.1 hostname)
    (hm : Occurs m.1 hostname) (hlabel : e.2 = early.2) (hfirst : ∀ a ∈ before early, a.2 ≠ early.2) :
    Hides early m hostname :=
  ⟨hm, fun a ha => hpre a (mem_of_mem_before hsplit (fun he => hfirst e he hlabel) ha)⟩

/-- Where `early` hides `m`, and up to `n`, a part of `m`, the entries from
`early` on have the label of `n`, this is the label of the name. -/
theorem Hides.identifyService_eq (h : Hides early m hostname) (hn : n ∈ catalog) (hinner : n.1.toList <:+: m.1.toList)
    (hbetween : ∀ a ∈ before n, a ∈ before early ∨ a.2 = n.2) : identifyService hostname = n.2 := by
  have hocc : Occurs n.1 hostname := hinner.trans h.1
  rcases identifyService_cases hostname with ⟨pre, e, post, hsplit, hlabel, he, hpre⟩ | ⟨-, hnone⟩
  · rw [hlabel]
    rcases mem_before_or_eq hsplit (fun hmem => hpre n hmem hocc) with hbefore | rfl
    · exact (hbetween e hbefore).resolve_left fun hearly => h.2 e hearly he
    · rfl
  · exact absurd hocc (hnone n hn)

theorem catalog_labels : ∀ a ∈ catalog, a.2 ≠ "" := by decide +kernel

theorem before_twitter : ∀ a ∈ before twitter, a.2 ≠ twitter.2 := by decide +kernel

theorem before_microsoft : ∀ a ∈ before microsoft, a.2 ≠ microsoft.2 := by decide +kernel

theorem before_xCom : ∀ a ∈ before xCom, a ∈ before twitter ∨ a.2 = xCom.2 := by decide +kernel

/-- **A service name goes to the most specific needles, except where "x.com"
hides "xbox.com" or "microsoft" hides "teams.microsoft".** -/
theorem identifyService_specific_iff (hostname : String) :
    Specific hostname ↔ ¬ Hides twitter xboxCom hostname ∧ ¬ Hides microsoft teamsMicrosoft hostname := by
  constructor
  · intro h
    refine ⟨fun hx => ?_, fun ht => ?_⟩
    · have hinner : xCom.1.toList <:+: xboxCom.1.toList := by decide
      have hlabel := hx.identifyService_eq (by decide +kernel) hinner before_xCom
      have hsame := h.specific xCom (by decide +kernel) hlabel xboxCom (by decide +kernel) hx.1 (by decide) hinner
      exact absurd hsame (by decide)
    · have hinner : microsoft.1.toList <:+: teamsMicrosoft.1.toList := by decide
      have hlabel := ht.identifyService_eq (by decide +kernel) hinner fun a ha => .inl ha
      have hsame := h.specific microsoft (by decide +kernel) hlabel teamsMicrosoft (by decide +kernel) ht.1
        (by decide) hinner
      exact absurd hsame (by decide)
  · rintro ⟨hx, ht⟩
    rcases identifyService_cases hostname with ⟨pre, e, post, hsplit, hlabel, he, hpre⟩ | ⟨hempty, hnone⟩
    · have hmem : e ∈ catalog := hsplit ▸ List.mem_append_right pre List.mem_cons_self
      refine ⟨fun n hn hen m hm hocc _ hinner => ?_, fun hempty => ?_⟩
      · rw [hlabel] at hen
        rcases nested_needles n hn m hm (infix_letters hinner) (contains_iff.mpr hinner) with
          hsame | hnone | ⟨rfl, rfl⟩ | ⟨rfl, rfl⟩
        · exact hsame
        · rcases mem_before_or_eq hsplit (fun hmem => hpre m hmem hocc) with hbefore | rfl
          · exact absurd hen (hnone e hbefore)
          · exact hen
        · have hhides : Hides twitter xboxCom hostname := hides_of_match hsplit hpre hocc hen before_twitter
          exact absurd hhides hx
        · have hhides : Hides microsoft teamsMicrosoft hostname := hides_of_match hsplit hpre hocc hen before_microsoft
          exact absurd hhides ht
      · exact absurd (hlabel.symm.trans hempty) (catalog_labels e hmem)
    · refine ⟨fun n hn hen => ?_, fun _ => hnone⟩
      exact absurd (hen.symm.trans hempty) (catalog_labels n hn)

end Specific

/-- Xbox's own site is taken for Twitter's. -/
theorem xbox_hidden : identifyService "www.xbox.com" = "X (Twitter)" ∧ ¬ Specific "www.xbox.com" := by
  have hlabel : identifyService "www.xbox.com" = "X (Twitter)" := by decide +kernel
  refine ⟨hlabel, fun h => ?_⟩
  have hocc : Occurs xboxCom.1 "www.xbox.com" := contains_iff.mp (by decide +kernel)
  have hsame := h.specific xCom (by decide +kernel) hlabel xboxCom (by decide +kernel) hocc (by decide) (by decide)
  exact absurd hsame (by decide)

end NetProbe
