/-
# Reverse-lookup names and addresses

The name that stands for an address in `in-addr.arpa` or `ip6.arpa`, and what
`reverseNameToAddress` makes of it. It gives back the text of every address. The
other way round, an IPv6 name is read to bytes and printed again, but the octets
of an IPv4 name are joined as they are written: where one has a leading zero,
the text is not one that `inet_ntop` prints.

Key definitions: `Address`, `reverseName`, `NoLeadingZero`.
Key theorems: `splitLabels_reverseName`, `reverseNameToAddress_of_eq`,
`address_of_reverseName`, `reverse_names_iff`.
-/
import NetProbe.DnsMessages
import Mathlib.Data.List.GetD
import Mathlib.Data.List.Induction

namespace NetProbe
namespace DNSParser

open Bytes

/-! ### Decimal digits -/

/-- The number that decimal digits stand for. -/
def digitsValue (cs : List Char) : ℕ := cs.foldl (fun n c => n * 10 + (c.toNat - 48)) 0

theorem digitChar_toNat {c : Char} (h : c.isDigit) : c.toNat - 48 < 10 ∧ Nat.digitChar (c.toNat - 48) = c := by
  have hrange : 48 ≤ c.toNat ∧ c.toNat ≤ 57 := by simpa [Char.isDigit, UInt32.le_iff_toNat_le] using h
  have hlt : c.toNat - 48 < 10 := by omega
  refine ⟨hlt, Char.toNat_inj.mp ?_⟩
  rw [Nat.toNat_digitChar_of_lt_ten hlt]
  omega

/-- Digits without a superfluous zero in front are how a number is written. -/
theorem toDigits_digitsValue {cs : List Char} (hne : cs ≠ []) (hd : ∀ c ∈ cs, c.isDigit)
    (hz : cs.head? = some '0' → cs.length = 1) : Nat.toDigits 10 (digitsValue cs) = cs := by
  induction cs using List.reverseRecOn with
  | nil => exact absurd rfl hne
  | append_singleton cs c ih =>
    obtain ⟨hlt, hchar⟩ := digitChar_toNat (hd c (by simp))
    have hvalue : digitsValue (cs ++ [c]) = 10 * digitsValue cs + (c.toNat - 48) := by
      rw [digitsValue, List.foldl_append, Nat.mul_comm]
      rfl
    by_cases hcs : cs = []
    · rw [hvalue, hcs, show digitsValue [] = 0 from rfl, Nat.mul_zero, Nat.zero_add,
        Nat.toDigits_of_lt_base hlt, hchar, List.nil_append]
    have hhead : cs.head? ≠ some '0' := by
      intro h0
      have hlen := hz (by rw [List.head?_append_of_ne_nil _ hcs, h0])
      rw [List.length_append, List.length_singleton] at hlen
      exact hcs (List.length_eq_zero_iff.mp (by omega))
    have hdigits := ih hcs (fun c hc => hd c (by simp [hc])) fun h0 => absurd h0 hhead
    have hpos : 0 < digitsValue cs := by
      refine Nat.pos_of_ne_zero fun h0 => hhead ?_
      rw [← hdigits, h0, Nat.toDigits_zero]
      rfl
    rw [hvalue, ← Nat.toDigits_append_toDigits (by decide) hpos hlt, hdigits,
      Nat.toDigits_of_lt_base hlt, hchar]

/-- A superfluous zero in front of a number. -/
def LeadingZero (octet : String) : Prop := octet.toList.head? = some '0' ∧ octet.length ≠ 1

instance (octet : String) : Decidable (LeadingZero octet) := inferInstanceAs (Decidable (_ ∧ _))

theorem isOctet_iff {octet : String} : isOctet octet = true ↔
    octet ≠ "" ∧ octet.length ≤ 3 ∧ (∀ c ∈ octet.toList, c.isDigit) ∧ digitsValue octet.toList ≤ 255 := by
  simp [isOctet, digitsValue, and_assoc]

theorem toString_of_isOctet {octet : String} (h : isOctet octet = true) (hz : ¬ LeadingZero octet) :
    toString (digitsValue octet.toList) = octet := by
  obtain ⟨hne, -, hd, -⟩ := isOctet_iff.mp h
  have hdigits : Nat.toDigits 10 (digitsValue octet.toList) = octet.toList := by
    refine toDigits_digitsValue (fun he => hne (String.toList_eq_nil_iff.mp he)) hd fun h0 => ?_
    rw [String.length_toList]
    exact not_not.mp fun h1 => hz ⟨h0, h1⟩
  rw [Nat.toString_eq_ofList_toDigits, hdigits, String.ofList_toList]

/-! ### Labels -/

theorem splitLabels_intercalate {labels : List String} (hne : labels ≠ []) (h : ∀ l ∈ labels, '.' ∉ l.toList) :
    splitLabels (".".intercalate labels) = labels := by
  have hdot : ".".toList = ['.'] := rfl
  rw [splitLabels, String.toList_intercalate, hdot, List.splitOn_intercalate '.' (by simpa using h) (by simpa),
    List.map_map]
  simp

theorem intercalate_splitLabels (name : String) : ".".intercalate (splitLabels name) = name := by
  have hdot : ".".toList = ['.'] := rfl
  rw [← String.toList_inj, String.toList_intercalate, hdot, splitLabels, List.map_map]
  simp

theorem mem_intercalate {α : Type} {c : α} {sep : List α} : ∀ {parts : List (List α)} {l : List α},
    l ∈ parts → c ∈ l → c ∈ sep.intercalate parts
  | [l'], l, hl, hc => by
    obtain rfl := List.mem_singleton.mp hl
    simpa using hc
  | l' :: l'' :: parts, l, hl, hc => by
    rw [List.intercalate_cons_cons]
    rcases List.mem_cons.mp hl with rfl | hl
    · simp [hc]
    · simp [mem_intercalate hl hc]

theorem mem_of_mem_splitLabels {name l : String} {c : Char} (hl : l ∈ splitLabels name) (hc : c ∈ l.toList) :
    c ∈ name.toList := by
  have hmem : c ∈ (".".toList).intercalate ((splitLabels name).map String.toList) :=
    mem_intercalate (List.mem_map_of_mem hl) hc
  rwa [← String.toList_intercalate, intercalate_splitLabels] at hmem

theorem toLower_append (a b : String) : toLower (a ++ b) = toLower a ++ toLower b := by
  simp [toLower, String.ofList_append]

theorem toLower_char {c : Char} (h : ¬ ('A' ≤ c ∧ c ≤ 'Z')) : c.toLower = c := dif_neg h

theorem toLower_toLower (c : Char) : c.toLower.toLower = c.toLower := by
  refine toLower_char fun h => ?_
  simp only [Char.le_def, UInt32.le_iff_toNat_le] at h
  unfold Char.toLower at h
  split at h
  · rename_i hc
    simp only [ge_iff_le, UInt32.le_iff_toNat_le] at hc
    simp [UInt32.toNat_add] at h hc
    omega
  · rename_i hc
    exact hc (by simpa [UInt32.le_iff_toNat_le] using h)

/-- The labels of a name in small letters are in small letters. -/
theorem lower_of_mem_splitLabels {name l : String} {c : Char} (hl : l ∈ splitLabels (toLower name))
    (hc : c ∈ l.toList) : c.toLower = c := by
  have hmem := mem_of_mem_splitLabels hl hc
  rw [toLower, String.toList_ofList] at hmem
  obtain ⟨c', -, rfl⟩ := List.mem_map.mp hmem
  exact toLower_toLower c'

theorem toLower_intercalate : ∀ {labels : List String}, (∀ l ∈ labels, ∀ c ∈ l.toList, c.toLower = c) →
    toLower (".".intercalate labels) = ".".intercalate labels
  | [], _ => rfl
  | [l], h => by
    rw [String.intercalate_singleton, toLower, List.map_congr_left (h l (by simp)), List.map_id',
      String.ofList_toList]
  | l :: l' :: labels, h => by
    obtain ⟨hl, hlabels⟩ := List.forall_mem_cons.mp h
    have hdot : toLower "." = "." := rfl
    have hlower : toLower l = l := by rw [toLower, List.map_congr_left hl, List.map_id', String.ofList_toList]
    rw [String.intercalate_cons_cons, toLower_append, toLower_append, toLower_intercalate hlabels, hlower, hdot]

/-! ### Addresses -/

inductive Address
  | v4 (bytes : Block 4)
  | v6 (bytes : Block 16)

/-- The two hex digits of a byte. -/
def nibbles (x : UInt8) : List ℕ := [x.toNat / 16, x.toNat % 16]

def nibbleText (n : ℕ) : String := String.singleton (Nat.digitChar n)

namespace Address

/-- What `inet_ntop` prints. -/
def text (sys : Platform) : Address → String
  | v4 b => sys.inetNtop4 b.1
  | v6 b => sys.inetNtop6 b.1

/-- The labels of the reverse-lookup name: octets or hex digits, the last one
first, and the zone. -/
def labels : Address → List String
  | v4 b => (b.1.map fun x => toString x.toNat).reverse ++ ["in-addr", "arpa"]
  | v6 b => ((b.1.flatMap nibbles).map nibbleText).reverse ++ ["ip6", "arpa"]

end Address

def reverseName (address : Address) : String := ".".intercalate address.labels

/-- A label without dots and in small letters. -/
def PlainLabel (label : String) : Prop := ∀ c ∈ label.toList, c ≠ '.' ∧ c.toLower = c

instance (label : String) : Decidable (PlainLabel label) := List.decidableBAll _ label.toList

theorem nibbleText_plain : ∀ n < 16, PlainLabel (nibbleText n) := by decide

theorem zone_plain : ∀ l ∈ ["in-addr", "ip6", "arpa"], PlainLabel l := by decide

theorem digit_plain {c : Char} (h : c.isDigit) : c ≠ '.' ∧ c.toLower = c := by
  have hrange : 48 ≤ c.toNat ∧ c.toNat ≤ 57 := by simpa [Char.isDigit, UInt32.le_iff_toNat_le] using h
  refine ⟨?_, toLower_char fun hA => ?_⟩
  · rintro rfl
    exact absurd h (by decide)
  · have hge : 65 ≤ c.toNat := by simpa [Char.le_def, UInt32.le_iff_toNat_le] using hA.1
    omega

theorem mem_flatMap_nibbles {b : Bytes} {n : ℕ} (h : n ∈ b.flatMap nibbles) : n < 16 := by
  obtain ⟨x, -, hx⟩ := List.mem_flatMap.mp h
  have hlt := x.toNat_lt
  simp only [nibbles, List.mem_cons, List.not_mem_nil, or_false] at hx
  omega

theorem Address.labels_plain (address : Address) : ∀ l ∈ address.labels, PlainLabel l := by
  intro l hl c hc
  cases address with
  | v4 b =>
    rcases List.mem_append.mp hl with hl | hl
    · obtain ⟨x, -, rfl⟩ := List.mem_map.mp (List.mem_reverse.mp hl)
      rw [Nat.toString_eq_repr, Nat.toList_repr] at hc
      exact digit_plain (Nat.isDigit_of_mem_toDigits (by decide) (by decide) hc)
    · exact zone_plain l (by simp at hl ⊢; tauto) c hc
  | v6 b =>
    rcases List.mem_append.mp hl with hl | hl
    · obtain ⟨n, hn, rfl⟩ := List.mem_map.mp (List.mem_reverse.mp hl)
      exact nibbleText_plain n (mem_flatMap_nibbles hn) c hc
    · exact zone_plain l (by simp at hl ⊢; tauto) c hc

theorem toLower_reverseName (address : Address) : toLower (reverseName address) = reverseName address :=
  toLower_intercalate fun l hl c hc => (address.labels_plain l hl c hc).2

theorem splitLabels_reverseName (address : Address) : splitLabels (reverseName address) = address.labels := by
  refine splitLabels_intercalate ?_ fun l hl hdot => (address.labels_plain l hl '.' hdot).1 rfl
  cases address <;> simp [Address.labels]

/-! ### Octets and nibbles -/

theorem reverseIpv4_append {pre : List String} (h : pre.length = 4) :
    reverseIpv4 (pre ++ ["in-addr", "arpa"]) =
      if pre.all isOctet then some (".".intercalate pre.reverse) else none := by
  have htake : (pre ++ ["in-addr", "arpa"]).take 4 = pre := by
    rw [← h]
    exact List.take_left
  have hlen : ¬ (pre ++ ["in-addr", "arpa"]).length ≠ 6 := by simp [h]
  rw [reverseIpv4, if_neg hlen]
  dsimp only
  rw [htake, List.all_reverse]

theorem isOctet_toString (x : UInt8) : isOctet (toString x.toNat) = true ∧ ¬ LeadingZero (toString x.toNat) := by
  have h : ∀ n < 256, isOctet (toString n) = true ∧ ¬ LeadingZero (toString n) := by decide +kernel
  exact h _ x.toNat_lt

theorem nibbleValue_nibbleText : ∀ n < 16, nibbleValue (nibbleText n) = some n := by decide

theorem nibbleText_of_nibbleValue {l : String} {n : ℕ} (hl : ∀ c ∈ l.toList, c.toLower = c)
    (h : nibbleValue l = some n) : n < 16 ∧ l = nibbleText n := by
  have htext : ∀ {c : Char}, l.toList = [c] → Nat.digitChar n = c → l = nibbleText n := by
    rintro c hc rfl
    rw [← String.toList_inj, hc, nibbleText, String.toList_singleton]
  have hletter : ∀ n < 16, 10 ≤ n → (Nat.digitChar n).toNat = n + 87 := by decide
  unfold nibbleValue at h
  split at h
  · rename_i c hc
    rw [hl c (by simp [hc])] at h
    dsimp only at h
    split at h
    · rename_i hd
      obtain ⟨hlt, hchar⟩ := digitChar_toNat hd
      obtain rfl := Option.some.inj h
      exact ⟨by omega, htext hc hchar⟩
    · split at h
      · rename_i hrange
        have hrange' : 97 ≤ c.toNat ∧ c.toNat ≤ 102 := by
          simpa [Char.le_def, UInt32.le_iff_toNat_le] using hrange
        obtain rfl := Option.some.inj h
        refine ⟨by omega, htext hc (Char.toNat_inj.mp ?_)⟩
        rw [hletter _ (by omega) (by omega)]
        omega
      · cases h
  · cases h

theorem mapM_nibbleValue : ∀ {ns : List ℕ}, (∀ n ∈ ns, n < 16) → (ns.map nibbleText).mapM nibbleValue = some ns
  | [], _ => rfl
  | n :: ns, h => by
    obtain ⟨hn, hns⟩ := List.forall_mem_cons.mp h
    rw [List.map_cons, List.mapM_cons, nibbleValue_nibbleText n hn, mapM_nibbleValue hns]
    rfl

theorem map_nibbleText : ∀ {ls : List String} {ns : List ℕ}, (∀ l ∈ ls, ∀ c ∈ l.toList, c.toLower = c) →
    ls.mapM nibbleValue = some ns → (∀ n ∈ ns, n < 16) ∧ ls = ns.map nibbleText
  | [], ns, _, h => by
    obtain rfl : [] = ns := Option.some.inj h
    simp
  | l :: ls, ns, hl, h => by
    obtain ⟨hl, hls⟩ := List.forall_mem_cons.mp hl
    rw [List.mapM_cons] at h
    obtain ⟨n, hn, h⟩ := Option.bind_eq_some_iff.mp h
    obtain ⟨ns', hns, h⟩ := Option.bind_eq_some_iff.mp h
    obtain rfl : n :: ns' = ns := Option.some.inj h
    obtain ⟨hlt, rfl⟩ := nibbleText_of_nibbleValue hl hn
    obtain ⟨hlts, rfl⟩ := map_nibbleText hls hns
    exact ⟨List.forall_mem_cons.mpr ⟨hlt, hlts⟩, rfl⟩

theorem pairNibbles_flatMap (b : Bytes) : pairNibbles (b.flatMap nibbles) = b := by
  induction b with
  | nil => rfl
  | cons x b ih =>
    have hx : UInt8.ofNat ((x.toNat / 16) <<< 4 ||| x.toNat % 16) = x := by
      have hmod : x.toNat % 16 < 2 ^ 4 := Nat.mod_lt _ (by decide)
      have hlt := x.toNat_lt
      rw [shiftLeft_or hmod]
      refine UInt8.toNat.inj ?_
      rw [UInt8.toNat_ofNat']
      omega
    rw [List.flatMap_cons, nibbles, List.cons_append, List.cons_append, List.nil_append, pairNibbles, hx, ih]

/-- An even number of nibbles is what their bytes consist of. -/
theorem flatMap_pairNibbles : ∀ {k : ℕ} {ns : List ℕ}, ns.length = 2 * k → (∀ n ∈ ns, n < 16) →
    (pairNibbles ns).length = k ∧ (pairNibbles ns).flatMap nibbles = ns
  | 0, ns, hlen, _ => by
    obtain rfl := List.length_eq_zero_iff.mp hlen
    exact ⟨rfl, rfl⟩
  | k + 1, [], hlen, _ => by simp at hlen
  | k + 1, [_], hlen, _ => by simp at hlen; omega
  | k + 1, hi :: lo :: ns, hlen, h => by
    obtain ⟨hhi, h⟩ := List.forall_mem_cons.mp h
    obtain ⟨hlo, h⟩ := List.forall_mem_cons.mp h
    rw [List.length_cons, List.length_cons] at hlen
    obtain ⟨hk, hns⟩ := flatMap_pairNibbles (k := k) (by omega) h
    have hbyte : (UInt8.ofNat (hi <<< 4 ||| lo)).toNat = hi * 16 + lo := by
      rw [shiftLeft_or (n := 4) hlo, UInt8.toNat_ofNat']
      omega
    rw [pairNibbles, List.flatMap_cons, hns, nibbles, hbyte, List.length_cons, hk]
    refine ⟨rfl, ?_⟩
    rw [show (hi * 16 + lo) / 16 = hi by omega, show (hi * 16 + lo) % 16 = lo by omega]
    rfl

theorem reverseIpv6_append {sys : Platform} {pre : List String} (h : pre.length = 32) :
    reverseIpv6 sys (pre ++ ["ip6", "arpa"]) = (pre.reverse.mapM nibbleValue).bind fun ns =>
      if sys.inetNtop6 (pairNibbles ns) = "" then none else some (sys.inetNtop6 (pairNibbles ns)) := by
  have htake : (pre ++ ["ip6", "arpa"]).take 32 = pre := by
    rw [← h]
    exact List.take_left
  have hlen : ¬ (pre ++ ["ip6", "arpa"]).length ≠ 34 := by simp [h]
  rw [reverseIpv6, if_neg hlen, htake]
  rfl

/-! ### Both ways -/

section Names

variable {sys : Platform} {name a : String} {pre : List String}

theorem reverseNameToAddress_in_addr (h : splitLabels (toLower name) = pre ++ ["in-addr", "arpa"])
    (hp : pre ≠ []) : reverseNameToAddress sys name = reverseIpv4 (pre ++ ["in-addr", "arpa"]) := by
  have hpos := List.length_pos_of_ne_nil hp
  rw [reverseNameToAddress, h]
  dsimp only
  rw [if_pos (by simp; omega)]
  simp

theorem reverseNameToAddress_ip6 (h : splitLabels (toLower name) = pre ++ ["ip6", "arpa"])
    (hp : pre ≠ []) : reverseNameToAddress sys name = reverseIpv6 sys (pre ++ ["ip6", "arpa"]) := by
  have hpos := List.length_pos_of_ne_nil hp
  rw [reverseNameToAddress, h]
  dsimp only
  rw [if_pos (by simp; omega)]
  simp

/-- A name with an address has labels for the address and one of the zones. -/
theorem zone_of_eq_some (h : reverseNameToAddress sys name = some a) :
    ∃ pre, (splitLabels (toLower name) = pre ++ ["in-addr", "arpa"] ∧ pre.length = 4) ∨
      (splitLabels (toLower name) = pre ++ ["ip6", "arpa"] ∧ pre.length = 32) := by
  have hsplit : ∀ {ls : List String} {n : ℕ} {x y : String}, ls.length = n + 2 → ls.getD (ls.length - 1) "" = y →
      ls.getD (ls.length - 2) "" = x → ls = ls.take n ++ [x, y] ∧ (ls.take n).length = n := by
    rintro ls n x y hlen rfl rfl
    have h1 : ls.length - 1 = n + 1 := by omega
    have h2 : ls.length - 2 = n := by omega
    refine ⟨?_, by simp [hlen]⟩
    rw [h1, h2]
    nth_rewrite 1 [← List.take_append_drop n ls]
    rw [List.drop_eq_getElem_cons (by omega), List.drop_eq_getElem_cons (by omega),
      List.drop_eq_nil_of_le (by omega), List.getD_eq_getElem _ _ (by omega), List.getD_eq_getElem _ _ (by omega)]
  unfold reverseNameToAddress at h
  generalize splitLabels (toLower name) = ls at h ⊢
  dsimp only at h
  split at h
  · split at h
    · rename_i hzone
      unfold reverseIpv4 at h
      split at h
      · cases h
      · exact ⟨ls.take 4, .inl (hsplit (not_not.mp ‹_›) hzone.1 hzone.2)⟩
    · split at h
      · rename_i hzone
        unfold reverseIpv6 at h
        split at h
        · cases h
        · exact ⟨ls.take 32, .inr (hsplit (not_not.mp ‹_›) hzone.1 hzone.2)⟩
      · cases h
  · cases h

/-- What `inet_ntop` is relied on to print: the four octets in decimal, joined by
dots, and some text for every IPv6 address. -/
structure PrintsCanonically (sys : Platform) : Prop where
  v4 : ∀ b : Block 4, sys.inetNtop4 b.1 = ".".intercalate (b.1.map fun x => toString x.toNat)
  v6 : ∀ b : Block 16, sys.inetNtop6 b.1 ≠ ""

/-- The reverse-lookup name of an address, in whatever case, gives its text. -/
theorem reverseNameToAddress_of_eq (hsys : PrintsCanonically sys) {address : Address}
    (h : toLower name = toLower (reverseName address)) :
    reverseNameToAddress sys name = some (address.text sys) := by
  have hlabels : splitLabels (toLower name) = address.labels := by
    rw [h, toLower_reverseName, splitLabels_reverseName]
  cases address with
  | v4 b =>
    have hlen : (b.1.map fun x => toString x.toNat).reverse.length = 4 := by simp [b.2]
    have hall : (b.1.map fun x => toString x.toNat).reverse.all isOctet = true := by
      rw [List.all_reverse, List.all_map, List.all_eq_true]
      exact fun x _ => (isOctet_toString x).1
    rw [reverseNameToAddress_in_addr hlabels (List.ne_nil_of_length_eq_add_one hlen), reverseIpv4_append hlen,
      if_pos hall, List.reverse_reverse, Address.text, hsys.v4]
  | v6 b =>
    have hflat : (b.1.flatMap nibbles).length = 32 := by simp [List.length_flatMap, nibbles, b.2]
    have hlen : ((b.1.flatMap nibbles).map nibbleText).reverse.length = 32 := by simp [hflat]
    rw [reverseNameToAddress_ip6 hlabels (List.ne_nil_of_length_eq_add_one hlen), reverseIpv6_append hlen,
      List.reverse_reverse, mapM_nibbleValue fun n hn => mem_flatMap_nibbles hn, Option.bind_some,
      pairNibbles_flatMap, if_neg (hsys.v6 b), Address.text]

/-- No valid name of an IPv4 address has an octet with a leading zero. -/
def NoLeadingZero (name : String) : Prop :=
  ∀ octets, splitLabels (toLower name) = octets ++ ["in-addr", "arpa"] → octets.length = 4 →
    (∀ o ∈ octets, isOctet o) → ∀ o ∈ octets, ¬ LeadingZero o

/-- A text that comes out without a leading zero is that of an address with this
name. -/
theorem address_of_reverseName (hsys : PrintsCanonically sys) (hz : NoLeadingZero name)
    (h : reverseNameToAddress sys name = some a) :
    ∃ address : Address, a = address.text sys ∧ toLower name = toLower (reverseName address) := by
  have hname : ∀ address : Address, splitLabels (toLower name) = address.labels →
      toLower name = toLower (reverseName address) := by
    intro address hlabels
    rw [toLower_reverseName, reverseName, ← hlabels, intercalate_splitLabels]
  obtain ⟨pre, ⟨hzone, hlen⟩ | ⟨hzone, hlen⟩⟩ := zone_of_eq_some h
  · rw [reverseNameToAddress_in_addr hzone (List.ne_nil_of_length_eq_add_one hlen), reverseIpv4_append hlen] at h
    split at h
    · rename_i hall
      have hoctet : ∀ o ∈ pre, isOctet o = true := List.all_eq_true.mp hall
      have hplain := hz pre hzone hlen hoctet
      have hpre : pre.map (fun o => toString (UInt8.ofNat (digitsValue o.toList)).toNat) = pre := by
        refine (List.map_congr_left fun o ho => ?_).trans (List.map_id' pre)
        have hvalue := (isOctet_iff.mp (hoctet o ho)).2.2.2
        rw [UInt8.toNat_ofNat', Nat.mod_eq_of_lt (by omega)]
        exact toString_of_isOctet (hoctet o ho) (hplain o ho)
      let b : Block 4 := ⟨(pre.map fun o => UInt8.ofNat (digitsValue o.toList)).reverse, by simp [hlen]⟩
      have hb : b.1.map (fun x => toString x.toNat) = pre.reverse := by
        rw [List.map_reverse, List.map_map]
        exact congrArg List.reverse hpre
      refine ⟨.v4 b, ?_, hname _ ?_⟩
      · rw [Address.text, hsys.v4, hb]
        exact (Option.some.inj h).symm
      · rw [hzone, Address.labels, hb, List.reverse_reverse]
    · cases h
  · rw [reverseNameToAddress_ip6 hzone (List.ne_nil_of_length_eq_add_one hlen), reverseIpv6_append hlen] at h
    obtain ⟨ns, hns, h⟩ := Option.bind_eq_some_iff.mp h
    split at h
    · cases h
    have hlower : ∀ l ∈ pre.reverse, ∀ c ∈ l.toList, c.toLower = c := by
      intro l hl c hc
      have hmem : l ∈ splitLabels (toLower name) := by
        rw [hzone]
        exact List.mem_append_left _ (List.mem_reverse.mp hl)
      exact lower_of_mem_splitLabels hmem hc
    obtain ⟨hlt, hpre⟩ := map_nibbleText hlower hns
    have hnslen : ns.length = 2 * 16 := by
      rw [← List.length_map (f := nibbleText), ← hpre, List.length_reverse, hlen]
    obtain ⟨hbytes, hflat⟩ := flatMap_pairNibbles hnslen hlt
    refine ⟨.v6 ⟨pairNibbles ns, hbytes⟩, (Option.some.inj h).symm, hname _ ?_⟩
    rw [hzone, Address.labels, hflat, ← hpre, List.reverse_reverse]

/-- The text of a name with a leading zero is not that of an address with this
name. -/
theorem noLeadingZero_of_address
    (h : ∀ a, reverseNameToAddress sys name = some a →
      ∃ address : Address, a = address.text sys ∧ toLower name = toLower (reverseName address)) :
    NoLeadingZero name := by
  intro octets hzone hlen hoctet o ho
  have hall : octets.all isOctet = true := List.all_eq_true.mpr hoctet
  have hsome : reverseNameToAddress sys name = some (".".intercalate octets.reverse) := by
    rw [reverseNameToAddress_in_addr hzone (List.ne_nil_of_length_eq_add_one hlen), reverseIpv4_append hlen,
      if_pos hall]
  obtain ⟨address, -, hname⟩ := h _ hsome
  have hlabels : octets ++ ["in-addr", "arpa"] = address.labels := by
    rw [← hzone, hname, toLower_reverseName, splitLabels_reverseName]
  cases address with
  | v4 b =>
    obtain ⟨hoctets, -⟩ := List.append_inj' hlabels rfl
    rw [hoctets, List.mem_reverse] at ho
    obtain ⟨x, -, rfl⟩ := List.mem_map.mp ho
    exact (isOctet_toString x).2
  | v6 b =>
    obtain ⟨-, hzones⟩ := List.append_inj' hlabels rfl
    simp at hzones

/-- **Names and addresses correspond.** Every address comes back from its name.
A text that comes out is the text of an address with this name exactly where no
octet has a leading zero. -/
theorem reverse_names_iff (hsys : PrintsCanonically sys) :
    (∀ (address : Address) (name : String), toLower name = toLower (reverseName address) →
      reverseNameToAddress sys name = some (address.text sys)) ∧
    ∀ name : String, (∀ a, reverseNameToAddress sys name = some a →
      ∃ address : Address, a = address.text sys ∧ toLower name = toLower (reverseName address)) ↔
        NoLeadingZero name :=
  ⟨fun _ _ h => reverseNameToAddress_of_eq hsys h,
    fun _ => ⟨noLeadingZero_of_address, fun hz _ h => address_of_reverseName hsys hz h⟩⟩

end Names

/-- A platform that prints addresses group by group. -/
def groupPrinter : Platform where
  inetNtop4 b := ".".intercalate (b.map fun x => toString x.toNat)
  inetNtop6 b := ":".intercalate ((List.range 8).map fun i => String.ofList (Nat.toDigits 16 (u16 b (2 * i))))
  mbedtls := onePrinter.mbedtls

theorem groupPrinter_prints : PrintsCanonically groupPrinter where
  v4 _ := rfl
  v6 b := by
    have hgroups : List.range 8 = 0 :: 1 :: [2, 3, 4, 5, 6, 7] := rfl
    rw [groupPrinter, hgroups]
    dsimp only
    rw [List.map_cons, List.map_cons, String.intercalate_cons_cons]
    exact append_ne_empty (.inl (append_ne_empty (.inr (by decide))))

/-- The octet 001 is copied into the address. -/
theorem octet_copied : reverseNameToAddress groupPrinter "1.1.1.001.in-addr.arpa" = some "001.1.1.1" ∧
    ¬ ∃ address : Address, "001.1.1.1" = address.text groupPrinter ∧
      toLower "1.1.1.001.in-addr.arpa" = toLower (reverseName address) := by
  have hsome : reverseNameToAddress groupPrinter "1.1.1.001.in-addr.arpa" = some "001.1.1.1" := by decide
  refine ⟨hsome, fun h => ?_⟩
  have hall : ∀ a, reverseNameToAddress groupPrinter "1.1.1.001.in-addr.arpa" = some a →
      ∃ address : Address, a = address.text groupPrinter ∧
        toLower "1.1.1.001.in-addr.arpa" = toLower (reverseName address) := by
    intro a ha
    rw [hsome] at ha
    exact Option.some.inj ha ▸ h
  exact noLeadingZero_of_address hall ["1", "1", "1", "001"] (by decide) rfl (by decide) "001" (by decide) (by decide)

theorem reverse_names_iff_group :
    reverseNameToAddress groupPrinter "1.1.168.192.IN-ADDR.ARPA" = some "192.168.1.1" :=
  ((reverse_names_iff groupPrinter_prints).1 (.v4 ⟨[192, 168, 1, 1], rfl⟩) _ (by decide)).trans (by decide)

end DNSParser
end NetProbe
