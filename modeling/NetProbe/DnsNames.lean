/-
# A DNS name is what its labels and pointers lead to

`readName` follows labels and compression pointers from an offset of the
message. The path is determined at each offset, so a path that ends at a zero
label meets no offset twice, and by the pigeonhole principle it has at most
`size` offsets: the limit on pointers cuts no such path short. A path that
comes back to an offset never ends, and the limit stops it.

Key definitions: `Leads`, `nameAt`.
Key theorems: `Leads.unique`, `Leads.nodup`, `Leads.length_le`,
`readNameLoop_leads`, `leads_of_readNameLoop`, `readName_eq_some`, `readName_exact`.
-/
import NetProbe.DnsMessages
import NetProbe.DnsSafety
import Mathlib.Data.List.Nodup
import Mathlib.Data.List.Perm.Subperm

namespace NetProbe
namespace DNSParser

open Checked Bytes Wire

/-- From `cursor`, labels and pointers lead to a zero label. `visited` are the
offsets on the way, `labels` the labels, and the message goes on at `next`. -/
inductive Leads (message : Bytes) : (cursor : ℕ) → (visited : List ℕ) → (labels : List Bytes) → (next : ℕ) → Prop
  | root {cursor : ℕ} : At message cursor [0] → Leads message cursor [cursor] [] (cursor + 1)
  | label {cursor next : ℕ} {visited : List ℕ} {l : Bytes} {labels : List Bytes} :
      1 ≤ l.length → l.length ≤ 63 → At message cursor (vec8 l) →
      Leads message (cursor + (vec8 l).length) visited labels next →
      Leads message cursor (cursor :: visited) (l :: labels) next
  | pointer {cursor target next : ℕ} {visited : List ℕ} {labels : List Bytes} :
      target < 0x4000 → target < message.length → At message cursor (be16 (0xC000 + target)) →
      Leads message target visited labels next →
      Leads message cursor (cursor :: visited) labels (cursor + 2)

namespace Leads

variable {message : Bytes} {cursor next : ℕ} {visited : List ℕ} {labels : List Bytes}

theorem labels_pos (h : Leads message cursor visited labels next) : ∀ l ∈ labels, 1 ≤ l.length := by
  induction h with
  | root => simp
  | label h1 _ _ _ ih => exact List.forall_mem_cons.mpr ⟨h1, ih⟩
  | pointer _ _ _ _ ih => exact ih

theorem next_le (h : Leads message cursor visited labels next) : cursor < next ∧ next ≤ message.length := by
  induction h with
  | root h => exact ⟨by omega, h.le⟩
  | label _ _ _ _ ih => exact ⟨by omega, ih.2⟩
  | pointer _ _ h _ _ => exact ⟨by omega, h.le⟩

theorem visited_lt (h : Leads message cursor visited labels next) : ∀ o ∈ visited, o < message.length := by
  induction h with
  | root h =>
    have hle := h.le
    simp only [List.length_singleton] at hle
    simp only [List.mem_singleton, forall_eq]
    omega
  | label _ _ h _ ih =>
    have hle := h.le
    rw [length_vec8] at hle
    exact List.forall_mem_cons.mpr ⟨by omega, ih⟩
  | pointer _ _ h _ ih =>
    have hle := h.le
    rw [length_be16] at hle
    exact List.forall_mem_cons.mpr ⟨by omega, ih⟩

/-- The byte at an offset tells a zero label, a label and a pointer apart. -/
theorem u8_label {l : Bytes} (h63 : l.length ≤ 63) (h : At message cursor (vec8 l)) :
    u8 message cursor = l.length := by
  have hbyte := h.u8
  rw [toNat_ofNat] at hbyte
  omega

theorem u8_pointer {target : ℕ} (ht : target < 0x4000) (h : At message cursor (be16 (0xC000 + target))) :
    u8 message cursor = 0xC0 + target / 256 := by
  have hbyte := At.u8 h
  rw [toNat_ofNat] at hbyte
  omega

/-- The path from an offset is determined. -/
theorem unique {visited' : List ℕ} {labels' : List Bytes} {next' : ℕ}
    (h : Leads message cursor visited labels next) (h' : Leads message cursor visited' labels' next') :
    visited = visited' ∧ labels = labels' ∧ next = next' := by
  induction h generalizing visited' labels' next' with
  | root h =>
    have hbyte := h.u8
    cases h' with
    | root => exact ⟨rfl, rfl, rfl⟩
    | label h1 h63 hl _ =>
      rw [u8_label h63 hl] at hbyte
      have h0 : (0 : UInt8).toNat = 0 := rfl
      omega
    | pointer ht _ hp _ =>
      rw [u8_pointer ht hp] at hbyte
      have h0 : (0 : UInt8).toNat = 0 := rfl
      omega
  | @label cursor next visited l labels h1 h63 hl _ ih =>
    have hbyte := u8_label h63 hl
    cases h' with
    | root h =>
      rw [h.u8] at hbyte
      have h0 : (0 : UInt8).toNat = 0 := rfl
      omega
    | @label _ _ _ l' _ h1' h63' hl' hrest =>
      have hlen : l.length = l'.length := hbyte.symm.trans (u8_label h63' hl')
      have hl8 : vec8 l = vec8 l' := by
        have := hl.slice
        rw [length_vec8, hlen, ← length_vec8, hl'.slice] at this
        exact this.symm
      obtain rfl : l = l' := (List.cons.inj hl8).2
      obtain ⟨rfl, rfl, rfl⟩ := ih hrest
      exact ⟨rfl, rfl, rfl⟩
    | pointer ht _ hp _ =>
      rw [u8_pointer ht hp] at hbyte
      omega
  | @pointer cursor target next visited labels ht hlt hp _ ih =>
    have hbyte := u8_pointer ht hp
    cases h' with
    | root h =>
      rw [h.u8] at hbyte
      have h0 : (0 : UInt8).toNat = 0 := rfl
      omega
    | label h1 h63 hl _ =>
      rw [u8_label h63 hl] at hbyte
      omega
    | pointer ht' _ hp' hrest =>
      have h16 := (hp.u16 (by omega)).symm.trans (hp'.u16 (by omega))
      obtain rfl := Nat.add_left_cancel h16
      obtain ⟨rfl, rfl, -⟩ := ih hrest
      exact ⟨rfl, rfl, rfl⟩

/-- A path goes on from each offset it meets. -/
theorem of_mem (h : Leads message cursor visited labels next) {o : ℕ} (ho : o ∈ visited) :
    ∃ visited' labels' next', Leads message o visited' labels' next' ∧ visited'.length ≤ visited.length := by
  induction h with
  | root h =>
    obtain rfl := List.mem_singleton.mp ho
    exact ⟨_, _, _, .root h, le_refl _⟩
  | label h1 h63 hl hrest ih =>
    rcases List.mem_cons.mp ho with rfl | ho
    · exact ⟨_, _, _, .label h1 h63 hl hrest, le_refl _⟩
    · obtain ⟨v, l, n, h, hle⟩ := ih ho
      exact ⟨v, l, n, h, hle.trans (Nat.le_succ _)⟩
  | pointer ht hlt hp hrest ih =>
    rcases List.mem_cons.mp ho with rfl | ho
    · exact ⟨_, _, _, .pointer ht hlt hp hrest, le_refl _⟩
    · obtain ⟨v, l, n, h, hle⟩ := ih ho
      exact ⟨v, l, n, h, hle.trans (Nat.le_succ _)⟩

/-- A path does not come back to its start: from there it would be as long as
before. -/
theorem start_notMem (h : Leads message cursor (cursor :: visited) labels next)
    {start next' : ℕ} {labels' : List Bytes} (hrest : Leads message start visited labels' next') :
    cursor ∉ visited := by
  intro hmem
  obtain ⟨v, l, n, hc, hle⟩ := hrest.of_mem hmem
  rw [← (h.unique hc).1, List.length_cons] at hle
  omega

/-- **A path that ends meets no offset twice.** -/
theorem nodup (h : Leads message cursor visited labels next) : visited.Nodup := by
  induction h with
  | root => exact List.nodup_singleton _
  | label h1 h63 hl hrest ih => exact List.nodup_cons.mpr ⟨start_notMem (.label h1 h63 hl hrest) hrest, ih⟩
  | pointer ht hlt hp hrest ih => exact List.nodup_cons.mpr ⟨start_notMem (.pointer ht hlt hp hrest) hrest, ih⟩

/-- So it has at most as many offsets as the message has bytes. -/
theorem length_le (h : Leads message cursor visited labels next) : visited.length ≤ message.length := by
  have hsub : visited ⊆ List.range message.length := fun o ho => List.mem_range.mpr (h.visited_lt o ho)
  have hle := (List.subperm_of_subset h.nodup hsub).length_le
  rwa [List.length_range] at hle

end Leads

section Loop

variable {message : Bytes}

/-- The loop of `readName` follows a path to its end. Each offset still to
come pays for one pass and, if it is a pointer, for its count. -/
theorem readNameLoop_leads {cursor next : ℕ} {visited : List ℕ} {labels : List Bytes}
    (h : Leads message cursor visited labels next) :
    ∀ {fuel pointerCount position : ℕ} {name : String} {followed : Bool},
      pointerCount + visited.length ≤ message.length → visited.length ≤ fuel →
      readNameLoop message fuel name cursor pointerCount followed position =
        .ok (some (extendName name labels, if followed then position else next)) := by
  induction h with
  | @root cursor h =>
    intro fuel pointerCount position name followed _ hfuel
    rw [List.length_singleton] at hfuel
    obtain ⟨fuel, rfl⟩ : ∃ f, fuel = f + 1 := ⟨fuel - 1, by omega⟩
    have hle := h.le
    rw [List.length_singleton] at hle
    rw [readNameLoop, if_pos (by omega), h.readU8, ok_bind, if_pos (by decide)]
    rfl
  | @label cursor next visited l labels h1 h63 hl hrest ih =>
    intro fuel pointerCount position name followed hcount hfuel
    rw [List.length_cons] at hcount hfuel
    obtain ⟨fuel, rfl⟩ : ∃ f, fuel = f + 1 := ⟨fuel - 1, by omega⟩
    have hle := hl.le
    have hlen := length_vec8 l
    have hbyte : (UInt8.ofNat l.length).toNat = l.length := by rw [toNat_ofNat]; omega
    have hbits := label_bits l.length (by omega)
    rw [readNameLoop, if_pos (by omega), hl.readU8, ok_bind, hbyte, if_neg (by omega),
      if_neg (by rw [hbits]; decide), if_neg (by rw [hbits]; omega), (at_cons.mp hl).2.window, ok_bind]
    have hpos : cursor + 1 + l.length = cursor + (vec8 l).length := by omega
    rw [hpos, ih (by omega) (by omega)]
    rfl
  | @pointer cursor target next visited labels ht hlt hp hrest ih =>
    intro fuel pointerCount position name followed hcount hfuel
    rw [List.length_cons] at hcount hfuel
    obtain ⟨fuel, rfl⟩ : ∃ f, fuel = f + 1 := ⟨fuel - 1, by omega⟩
    have hle := hp.le
    rw [length_be16] at hle
    have hbits := pointer_bits (target / 256) (by omega)
    have h0 : readU8 message cursor = .ok (0xC0 + target / 256) := by
      rw [readU8_eq (by omega), Leads.u8_pointer ht hp]
    have h1 : readU8 message (cursor + 1) = .ok (target % 256) := by
      rw [At.readU8 (at_cons.mp hp).2, toNat_ofNat]
      congr 1
      omega
    have hpointer : (target / 256) <<< 8 ||| target % 256 = target := by
      rw [shiftLeft_or (n := 8) (show target % 256 < 2 ^ 8 from Nat.mod_lt _ (by norm_num))]
      omega
    rw [readNameLoop, if_pos (by omega), h0, ok_bind, if_neg (by omega), if_pos hbits.1,
      if_neg (by omega), h1, ok_bind, hbits.2, hpointer]
    dsimp only
    rw [if_neg (by omega), ih (by omega) (by omega)]
    cases followed <;> rfl

theorem pointer_byte {n : ℕ} (h : n < 256) (hp : n &&& 0xC0 = 0xC0) : 0xC0 ≤ n ∧ n &&& 0x3F = n - 0xC0 := by
  have hle : n &&& 0xC0 ≤ n := Nat.and_le_left
  have hmod : n &&& 2 ^ 6 - 1 = n % 2 ^ 6 := Nat.and_two_pow_sub_one_eq_mod n 6
  simp only [Nat.reducePow, Nat.reduceSub] at hmod
  omega

theorem pointer_word {high : ℕ} (h : 0xC0 ≤ high) (low : ℕ) :
    high * 256 + low = 0xC000 + ((high - 0xC0) * 2 ^ 8 + low) := by
  omega

/-- Whatever the loop of `readName` returns, a path led there. -/
theorem leads_of_readNameLoop : ∀ {fuel cursor pointerCount position : ℕ} {name : String} {followed : Bool}
    {r : String × ℕ}, readNameLoop message fuel name cursor pointerCount followed position = .ok (some r) →
    ∃ visited labels next, Leads message cursor visited labels next ∧
      r = (extendName name labels, if followed then position else next)
  | 0, _, _, _, _, _, _, h => by simp [readNameLoop] at h
  | fuel + 1, cursor, pointerCount, position, name, followed, r, h => by
    by_cases hc : cursor < message.length
    · have hbyte := u8_lt message cursor
      have hat := at_u8 hc
      rw [readNameLoop, if_pos hc, readU8_eq hc, ok_bind] at h
      by_cases h0 : u8 message cursor = 0
      · rw [if_pos h0] at h
        rw [h0] at hat
        exact ⟨_, _, _, .root hat, (Option.some.inj (Except.ok.inj h)).symm⟩
      rw [if_neg h0] at h
      by_cases hp : u8 message cursor &&& 0xC0 = 0xC0
      · -- a pointer
        rw [if_pos hp] at h
        by_cases hg : cursor + 1 ≥ message.length ∨ pointerCount + 1 > message.length
        · rw [if_pos hg] at h
          cases h
        obtain ⟨hhigh, hlow⟩ := pointer_byte hbyte hp
        have hlt := u8_lt message (cursor + 1)
        rw [if_neg hg, readU8_eq (by omega), ok_bind, hlow,
          shiftLeft_or (n := 8) (show u8 message (cursor + 1) < 2 ^ 8 from hlt)] at h
        dsimp only at h
        generalize ht : (u8 message cursor - 0xC0) * 2 ^ 8 + u8 message (cursor + 1) = target at h
        by_cases hsize : target ≥ message.length
        · rw [if_pos hsize] at h
          cases h
        rw [if_neg hsize] at h
        have h16 : u16 message cursor = 0xC000 + target := by
          rw [← ht]
          exact pointer_word hhigh _
        have hat16 := at_u16 (b := message) (i := cursor) (by omega)
        rw [h16] at hat16
        obtain ⟨visited, labels, next, hrest, hr⟩ := leads_of_readNameLoop h
        refine ⟨_, _, _, .pointer (by omega) (by omega) hat16 hrest, hr.trans ?_⟩
        cases followed <;> rfl
      rw [if_neg hp] at h
      by_cases hl : u8 message cursor &&& 0xC0 ≠ 0 ∨ u8 message cursor > 63 ∨
          cursor + 1 + u8 message cursor > message.length
      · rw [if_pos hl] at h
        cases h
      · -- a label
        have hfit : cursor + 1 + u8 message cursor ≤ message.length := by omega
        rw [if_neg hl, window_eq hfit, ok_bind] at h
        have hlen : (slice message (cursor + 1) (u8 message cursor)).length = u8 message cursor :=
          length_slice _ hfit
        obtain ⟨visited, labels, next, hrest, hr⟩ := leads_of_readNameLoop h
        have hnext : cursor + (vec8 (slice message (cursor + 1) (u8 message cursor))).length =
            cursor + 1 + u8 message cursor := by
          rw [length_vec8, hlen, Nat.add_assoc]
        exact ⟨cursor :: visited, _ :: labels, next,
          .label (by omega) (by omega) (at_vec8 hc hfit) (hnext ▸ hrest), hr⟩
    · rw [readNameLoop, if_neg hc] at h
      cases h

theorem readName_eq_some {position next : ℕ} {name : String} :
    readName message position = .ok (some (name, next)) ↔
      ∃ visited labels, Leads message position visited labels next ∧ name = dotted labels := by
  constructor
  · intro h
    obtain ⟨visited, labels, next', hleads, heq⟩ := leads_of_readNameLoop h
    obtain ⟨rfl, rfl⟩ := Prod.mk.inj heq
    exact ⟨visited, labels, hleads, extendName_eq_dotted hleads.labels_pos⟩
  · rintro ⟨visited, labels, hleads, rfl⟩
    have hle := hleads.length_le
    have hmul : message.length + 1 ≤ (message.length + 1) * (message.length + 1) :=
      Nat.le_mul_of_pos_left _ (Nat.succ_pos _)
    have hloop : readName message position = .ok (some (extendName "" labels, next)) :=
      readNameLoop_leads hleads (by omega) (by omega)
    rwa [extendName_eq_dotted hleads.labels_pos] at hloop

/-- **Name decompression is exact.** `readName` ends, and it returns a value
exactly where labels and pointers lead to a zero label and meet no offset
twice: the labels on the way, and the offset after the first pointer or after
the zero label. -/
theorem readName_exact (message : Bytes) (position : ℕ) :
    Safe (readName message position) fun r => ∀ name next,
      (r = some (name, next) ↔ ∃ visited labels, Leads message position visited labels next ∧
        visited.Nodup ∧ name = dotted labels) ∧
      (r = some (name, next) → position < next ∧ next ≤ message.length) := by
  refine (readName_safe position).and (fun r hr => ?_) |>.mono fun r h => h.2
  intro name next
  have hiff : r = some (name, next) ↔ ∃ visited labels,
      Leads message position visited labels next ∧ name = dotted labels := by
    rw [← readName_eq_some, hr]
    exact ⟨fun h => congrArg Except.ok h, Except.ok.inj⟩
  refine ⟨hiff.trans ⟨?_, ?_⟩, fun h => ?_⟩
  · rintro ⟨visited, labels, hleads, hname⟩
    exact ⟨visited, labels, hleads, hleads.nodup, hname⟩
  · rintro ⟨visited, labels, hleads, -, hname⟩
    exact ⟨visited, labels, hleads, hname⟩
  · obtain ⟨visited, labels, hleads, -⟩ := hiff.mp h
    exact hleads.next_le

/-- The name at `position` and the position after it. -/
def nameAt (message : Bytes) (position : ℕ) : Option (String × ℕ) := (readName message position).toOption.join

theorem readName_eq (position : ℕ) : readName message position = .ok (nameAt message position) := by
  have hsafe : Safe (readName message position) _ := readName_safe position
  obtain ⟨r, hr, -⟩ := hsafe
  rw [nameAt, hr]
  rfl

theorem nameAt_eq_some {position next : ℕ} {name : String} :
    nameAt message position = some (name, next) ↔
      ∃ visited labels, Leads message position visited labels next ∧ name = dotted labels := by
  rw [← readName_eq_some, readName_eq]
  exact ⟨fun h => congrArg Except.ok h, Except.ok.inj⟩

end Loop

end DNSParser
end NetProbe
