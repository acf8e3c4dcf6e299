/-
# The ClientHello of a CRYPTO stream

What `QuicParser.sniFromClientHello` accepts, in terms of the bytes a client
writes: a handshake header, the fixed fields and vectors of a ClientHello, and
the first server_name extension that offers a host name. The walk never faults,
finds exactly the names so written, and looks at no byte past the length the
header declares.

Key definitions: `Offers`, `NamesHost`, `Hello`.
Key theorems: `sniFromBody_iff`, `sniFromClientHello_iff`,
`sniFromClientHello_take`.
-/
import NetProbe.QuicParser
import NetProbe.Wire

namespace NetProbe
namespace QuicParser

open Checked Bytes Wire

/-! ### The messages -/

/-- The data of a server_name extension whose first entry is the host `name`. -/
def Offers (data name : Bytes) : Prop :=
  ∃ more pad, data = vec16 (0 :: vec16 name ++ more) ++ pad ∧
    name.length < 65536 ∧ 3 + name.length + more.length < 65536

/-- A block of extensions whose first server_name offering a host offers `name`. -/
inductive NamesHost : Bytes → Bytes → Prop
  | here {data rest name : Bytes} : data.length < 65536 → Offers data name →
      NamesHost (be16 0 ++ vec16 data ++ rest) name
  | skip {type : ℕ} {data rest name : Bytes} : type < 65536 → data.length < 65536 →
      (type = 0 → ∀ other, ¬ Offers data other) → NamesHost rest name →
      NamesHost (be16 type ++ vec16 data ++ rest) name

/-- A ClientHello body that names the host `name`. -/
def Hello (body name : Bytes) : Prop :=
  ∃ head session suites compression extensions tail,
    body = head ++ vec8 session ++ vec16 suites ++ vec8 compression ++ vec16 extensions ++ tail ∧
    head.length = 34 ∧ session.length < 256 ∧ suites.length < 65536 ∧ compression.length < 256 ∧
    extensions.length < 65536 ∧ NamesHost extensions name

/-- A stream that starts with a complete ClientHello naming the host `name`. -/
def NamedHello (stream name : Bytes) : Prop :=
  ∃ body tail, stream = 1 :: be24 body.length ++ body ++ tail ∧ body.length < 2 ^ 24 ∧ Hello body name

/-! ### Extensions by position -/

theorem offers_iff {data name : Bytes} (hd : data.length < 65536) :
    Offers data name ↔ 5 ≤ data.length ∧ u16 data 0 + 2 ≤ data.length ∧ 3 ≤ u16 data 0 ∧
      u8 data 2 = 0 ∧ 3 + u16 data 3 ≤ u16 data 0 ∧ name = slice data 5 (u16 data 3) := by
  constructor
  · rintro ⟨more, pad, rfl, hn, hm⟩
    have hat := At.refl (vec16 (0 :: vec16 name ++ more) ++ pad)
    simp only [vec16, List.append_assoc, List.cons_append, at_append, length_be16, Nat.zero_add] at hat
    obtain ⟨hlist, h2⟩ := hat
    have e0 := hlist.u16 (by simp; omega)
    have e2 := h2.u8
    obtain ⟨-, h3⟩ := at_cons.mp h2
    obtain ⟨h3, h5⟩ := at_append.mp h3
    have e3 := h3.u16 hn
    have e5 := (at_append.mp h5).1.slice
    simp only [vec16, List.append_assoc, List.cons_append, length_be16, Nat.reduceAdd,
      List.length_append, List.length_cons] at e0 e2 e3 e5 ⊢
    rw [e0, e2, e3, e5]
    exact ⟨by omega, by omega, by omega, rfl, by omega, rfl⟩
  · rintro ⟨h5, hl, -, ht, hn, rfl⟩
    have h0 := at_u16 (b := data) (i := 0) (by omega)
    have h2 := at_u8 (b := data) (i := 2) (by omega)
    have h3 := at_vec16 (b := data) (i := 3) (by omega)
    rw [ht] at h2
    have hlen : (slice data 5 (u16 data 3)).length = u16 data 3 := length_slice _ (by omega)
    have hmore : (slice data (5 + u16 data 3) (u16 data 0 - 3 - u16 data 3)).length =
        u16 data 0 - 3 - u16 data 3 := length_slice _ (by omega)
    refine ⟨slice data (5 + u16 data 3) (u16 data 0 - 3 - u16 data 3), data.drop (u16 data 0 + 2),
      ?_, by omega, by omega⟩
    have hlist : At data 0 (vec16 (0 :: vec16 (slice data 5 (u16 data 3)) ++
        slice data (5 + u16 data 3) (u16 data 0 - 3 - u16 data 3))) := by
      have hl' : (0 :: vec16 (slice data 5 (u16 data 3)) ++
          slice data (5 + u16 data 3) (u16 data 0 - 3 - u16 data 3)).length = u16 data 0 := by
        simp only [List.cons_append, List.length_cons, List.length_append, length_vec16]; omega
      rw [vec16, hl', at_append, List.cons_append, at_cons, at_append]
      refine ⟨h0, h2, h3, ?_⟩
      have hp : 0 + (be16 (u16 data 0)).length + 1 + (vec16 (slice data 5 (u16 data 3))).length =
          5 + u16 data 3 := by
        simp only [length_be16, length_vec16]; omega
      rw [hp]
      exact at_take_drop (by omega)
    have hn' : (vec16 (0 :: vec16 (slice data 5 (u16 data 3)) ++
        slice data (5 + u16 data 3) (u16 data 0 - 3 - u16 data 3))).length = u16 data 0 + 2 := by
      simp only [List.cons_append, List.length_cons, List.length_append, length_vec16]; omega
    exact hn' ▸ hlist.eq_append

/-- The fields of an extension in front of a block. -/
theorem extension_fields {type : ℕ} {data rest : Bytes} (ht : type < 65536) (hd : data.length < 65536) :
    u16 (be16 type ++ vec16 data ++ rest) 0 = type ∧
    u16 (be16 type ++ vec16 data ++ rest) 2 = data.length ∧
    slice (be16 type ++ vec16 data ++ rest) 4 data.length = data ∧
    (be16 type ++ vec16 data ++ rest).drop (4 + data.length) = rest := by
  have hat := At.refl (be16 type ++ vec16 data ++ rest)
  simp only [vec16, List.append_assoc, at_append, length_be16, Nat.zero_add, Nat.reduceAdd] at hat
  obtain ⟨h0, h2, h4, -⟩ := hat
  simp only [vec16, List.append_assoc]
  refine ⟨h0.u16 ht, h2.u16 hd, h4.slice, ?_⟩
  rw [← List.append_assoc, ← List.append_assoc]
  exact List.drop_left' (by simp; omega)

/-- A block with room for the extension its first bytes announce starts with it. -/
theorem extension_split {exts : Bytes} (h : 4 + u16 exts 2 ≤ exts.length) :
    exts = be16 (u16 exts 0) ++ vec16 (slice exts 4 (u16 exts 2)) ++ exts.drop (4 + u16 exts 2) ∧
      (slice exts 4 (u16 exts 2)).length = u16 exts 2 := by
  have hlen : (slice exts 4 (u16 exts 2)).length = u16 exts 2 := length_slice _ h
  have hat : At exts 0 (be16 (u16 exts 0) ++ vec16 (slice exts 4 (u16 exts 2))) :=
    at_append.mpr ⟨at_u16 (by omega), at_vec16 (i := 2) (by omega)⟩
  have hexts := hat.eq_append
  rw [List.length_append, length_be16, length_vec16, hlen, ← Nat.add_assoc] at hexts
  exact ⟨hexts, hlen⟩

theorem namesHost_iff {exts name : Bytes} :
    NamesHost exts name ↔ 4 + u16 exts 2 ≤ exts.length ∧
      (u16 exts 0 = 0 ∧ Offers (slice exts 4 (u16 exts 2)) name ∨
        (u16 exts 0 = 0 → ∀ other, ¬ Offers (slice exts 4 (u16 exts 2)) other) ∧
          NamesHost (exts.drop (4 + u16 exts 2)) name) := by
  constructor
  · rintro (⟨hd, ho⟩ | ⟨ht, hd, hno, hr⟩)
    · obtain ⟨e0, e2, e4, -⟩ := extension_fields (by decide : 0 < 65536) hd
      rw [e0, e2, e4]
      exact ⟨by simp; omega, .inl ⟨rfl, ho⟩⟩
    · obtain ⟨e0, e2, e4, e5⟩ := extension_fields ht hd
      rw [e0, e2, e4, e5]
      exact ⟨by simp; omega, .inr ⟨hno, hr⟩⟩
  · rintro ⟨hle, h⟩
    obtain ⟨hexts, hlen⟩ := extension_split hle
    have hlt := u16_lt exts 2
    rw [hexts]
    rcases h with ⟨ht, ho⟩ | ⟨hno, hr⟩
    · rw [ht]
      exact .here (by omega) ho
    · exact .skip (u16_lt ..) (by omega) hno hr

/-! ### The walk finds the names so written -/

theorem serverName_iff {body : Bytes} {p n : ℕ} (hn : n < 65536) (hp : p + n ≤ body.length) :
    Safe (serverName body p n) fun r =>
      ∀ s, r = some s ↔ ∃ name, Offers (slice body p n) name ∧ s = ofBytes name := by
  have hlen : (slice body p n).length = n := length_slice _ hp
  have hoff := fun name : Bytes =>
    (offers_iff (by omega) : Offers (slice body p n) name ↔ _)
  simp only [hlen] at hoff
  have refuse : (∀ name, ¬ Offers (slice body p n) name) → ∀ s,
      (none : Option String) = some s ↔ ∃ name, Offers (slice body p n) name ∧ s = ofBytes name :=
    fun h s => ⟨fun e => by simp at e, fun ⟨name, ho, _⟩ => (h name ho).elim⟩
  unfold serverName
  refine Safe.ite (fun h => .ok (refuse fun name ho => ?_)) fun h5 => ?_
  · have := ((hoff name).mp ho).1
    omega
  have e0 : u16 (slice body p n) 0 = u16 body p := u16_slice (by omega)
  have e2 : u8 (slice body p n) 2 = u8 body (p + 2) := u8_slice (by omega)
  have e3 : u16 (slice body p n) 3 = u16 body (p + 3) := u16_slice (by omega)
  have e5 : ∀ m, 5 + m ≤ n → slice (slice body p n) 5 m = slice body (p + 5) m :=
    fun m hm => slice_slice hm
  simp only [e0, e2, e3] at hoff
  rw [readU16_eq (by omega), ok_bind]
  refine Safe.ite (fun h => .ok (refuse fun name ho => ?_)) fun hl => ?_
  · have := ((hoff name).mp ho).2.1
    omega
  refine Safe.ite (fun h => .ok (refuse fun name ho => ?_)) fun h3 => ?_
  · have := ((hoff name).mp ho).2.2.1
    omega
  rw [readU8_eq (by omega), ok_bind]
  refine Safe.ite (fun h => .ok (refuse fun name ho => ?_)) fun ht => ?_
  · exact h ((hoff name).mp ho).2.2.2.1
  rw [readU16_eq (by omega), ok_bind, show p + 2 + 1 = p + 3 from rfl]
  refine Safe.ite (fun h => .ok (refuse fun name ho => ?_)) fun hnl => ?_
  · have := ((hoff name).mp ho).2.2.2.2.1
    omega
  rw [show p + 2 + 3 = p + 5 from rfl, window_eq (by omega), ok_bind]
  refine Safe.ok fun s => ⟨fun e => ?_, fun ⟨name, ho, hs⟩ => ?_⟩
  · refine ⟨slice body (p + 5) (u16 body (p + 3)), (hoff _).mpr ?_, (Option.some.inj e).symm⟩
    exact ⟨by omega, by omega, by omega, by omega, by omega, (e5 _ (by omega)).symm⟩
  · obtain ⟨-, -, -, -, -, rfl⟩ := (hoff name).mp ho
    rw [hs, e5 _ (by omega)]

theorem sniExtensionLoop_iff {body : Bytes} {stop : ℕ} (hstop : stop ≤ body.length)
    (hb : body.length < 2 ^ 32) : ∀ {fuel p : ℕ}, p ≤ stop → stop ≤ p + fuel →
    Safe (sniExtensionLoop body stop fuel p) fun r =>
      ∀ s, r = some s ↔ ∃ name, NamesHost (slice body p (stop - p)) name ∧ s = ofBytes name := by
  intro fuel
  induction fuel with
  | zero =>
    intro p hp hf
    unfold sniExtensionLoop
    rw [if_neg (by omega)]
    refine Safe.ok fun s => ⟨fun e => by simp at e, fun ⟨name, hn, _⟩ => ?_⟩
    have := (namesHost_iff.mp hn).1
    rw [length_slice _ (by omega)] at this
    omega
  | succ fuel ih =>
    intro p hp hf
    have hlen : (slice body p (stop - p)).length = stop - p := length_slice _ (by omega)
    have hiff := fun name : Bytes =>
      (namesHost_iff : NamesHost (slice body p (stop - p)) name ↔ _)
    simp only [hlen] at hiff
    have refuse : (∀ name, ¬ NamesHost (slice body p (stop - p)) name) → ∀ s,
        (none : Option String) = some s ↔
          ∃ name, NamesHost (slice body p (stop - p)) name ∧ s = ofBytes name :=
      fun h s => ⟨fun e => by simp at e, fun ⟨name, ho, _⟩ => (h name ho).elim⟩
    have hlt := u16_lt body (p + 2)
    unfold sniExtensionLoop
    rw [add_eq (by omega), ok_bind]
    refine Safe.ite (fun h => .ok (refuse fun name ho => ?_)) fun h4 => ?_
    · have := ((hiff name).mp ho).1
      omega
    have e0 : u16 (slice body p (stop - p)) 0 = u16 body p := u16_slice (by omega)
    have e2 : u16 (slice body p (stop - p)) 2 = u16 body (p + 2) := u16_slice (by omega)
    simp only [e0, e2] at hiff
    rw [readU16_eq (by omega), ok_bind, readU16_eq (by omega), ok_bind]
    dsimp only
    rw [add_eq (by omega), ok_bind]
    refine Safe.ite (fun h => .ok (refuse fun name ho => ?_)) fun hl => ?_
    · have := ((hiff name).mp ho).1
      omega
    have e4 : slice (slice body p (stop - p)) 4 (u16 body (p + 2)) = slice body (p + 4) (u16 body (p + 2)) :=
      slice_slice (by omega)
    have edrop : (slice body p (stop - p)).drop (4 + u16 body (p + 2)) =
        slice body (p + 4 + u16 body (p + 2)) (stop - (p + 4 + u16 body (p + 2))) := by
      rw [drop_slice]
      congr 1 <;> omega
    simp only [e4, edrop] at hiff
    have next := ih (p := p + 4 + u16 body (p + 2)) (by omega) (by omega)
    have data := serverName_iff (p := p + 4) hlt (show p + 4 + u16 body (p + 2) ≤ body.length by omega)
    refine Safe.ite (fun ht => ?_) fun ht => ?_
    · refine Safe.bind data fun r hr => ?_
      cases r with
      | some s =>
        obtain ⟨name, ho, hs⟩ := (hr s).mp rfl
        refine Safe.ok fun s' => ⟨fun e => ?_, fun ⟨other, hn, hs'⟩ => ?_⟩
        · obtain rfl := Option.some.inj e
          exact ⟨name, (hiff name).mpr ⟨by omega, .inl ⟨ht, ho⟩⟩, hs⟩
        · rcases ((hiff other).mp hn).2 with ⟨-, ho'⟩ | ⟨hno, -⟩
          · rw [hs', (hr (ofBytes other)).mpr ⟨other, ho', rfl⟩]
          · exact (hno ht name ho).elim
      | none =>
        refine next.mono fun r' hr' s => (hr' s).trans (exists_congr fun name => ?_)
        refine and_congr_left fun _ => ⟨fun hn => ?_, fun hn => ?_⟩
        · refine (hiff name).mpr ⟨by omega, .inr ⟨fun _ other ho => ?_, hn⟩⟩
          simpa using (hr (ofBytes other)).mpr ⟨other, ho, rfl⟩
        · rcases ((hiff name).mp hn).2 with ⟨-, ho⟩ | ⟨-, hn'⟩
          · simpa using (hr (ofBytes name)).mpr ⟨name, ho, rfl⟩
          · exact hn'
    · refine next.mono fun r' hr' s => (hr' s).trans (exists_congr fun name => ?_)
      refine and_congr_left fun _ => ⟨fun hn => ?_, fun hn => ?_⟩
      · exact (hiff name).mpr ⟨by omega, .inr ⟨fun h0 => (ht h0).elim, hn⟩⟩
      · rcases ((hiff name).mp hn).2 with ⟨h0, -⟩ | ⟨-, hn'⟩
        · exact (ht h0).elim
        · exact hn'

/-! ### The body -/

/-- Where the cipher suites start. -/
def suitesAt (body : Bytes) : ℕ := 35 + u8 body 34

/-- Where the compression methods start. -/
def compressionAt (body : Bytes) : ℕ := suitesAt body + 2 + u16 body (suitesAt body)

/-- Where the extensions start, with their length. -/
def extensionsAt (body : Bytes) : ℕ := compressionAt body + 1 + u8 body (compressionAt body)

/-- The bounds checks of the walk come to one: the last vector ends in the body. -/
theorem sniFromBody_eq {body : Bytes} (hb : body.length < 2 ^ 32) :
    sniFromBody body =
      if extensionsAt body + 2 + u16 body (extensionsAt body) ≤ body.length then
        sniExtensionLoop body (extensionsAt body + 2 + u16 body (extensionsAt body))
          (u16 body (extensionsAt body)) (extensionsAt body + 2)
      else .ok none := by
  have l1 := u8_lt body 34
  have l2 := u16_lt body (suitesAt body)
  have l3 := u8_lt body (compressionAt body)
  have l4 := u16_lt body (extensionsAt body)
  have e1 : suitesAt body = 35 + u8 body 34 := rfl
  have e2 : compressionAt body = suitesAt body + 2 + u16 body (suitesAt body) := rfl
  have e3 : extensionsAt body = compressionAt body + 1 + u8 body (compressionAt body) := rfl
  unfold sniFromBody
  simp only [Nat.zero_add, Nat.reduceAdd, pure_eq]
  rw [add_eq (by omega), ok_bind]
  by_cases h1 : 34 > body.length
  · rw [if_pos h1, if_neg (by omega)]
  rw [if_neg h1, add_eq (by omega), ok_bind]
  by_cases h2 : 34 + 1 > body.length
  · rw [if_pos h2, if_neg (by omega)]
  rw [if_neg h2, readU8_eq (by omega), ok_bind, add_eq (by omega), ok_bind, ← e1]
  by_cases h3 : suitesAt body > body.length
  · rw [if_pos h3, if_neg (by omega)]
  rw [if_neg h3, add_eq (by omega), ok_bind]
  by_cases h4 : suitesAt body + 2 > body.length
  · rw [if_pos h4, if_neg (by omega)]
  rw [if_neg h4, readU16_eq (by omega), ok_bind, add_eq (by omega), ok_bind, ← e2]
  by_cases h5 : compressionAt body > body.length
  · rw [if_pos h5, if_neg (by omega)]
  rw [if_neg h5, add_eq (by omega), ok_bind]
  by_cases h6 : compressionAt body + 1 > body.length
  · rw [if_pos h6, if_neg (by omega)]
  rw [if_neg h6, readU8_eq (by omega), ok_bind, add_eq (by omega), ok_bind, ← e3]
  by_cases h7 : extensionsAt body > body.length
  · rw [if_pos h7, if_neg (by omega)]
  rw [if_neg h7, add_eq (by omega), ok_bind]
  by_cases h8 : extensionsAt body + 2 > body.length
  · rw [if_pos h8, if_neg (by omega)]
  rw [if_neg h8, readU16_eq (by omega), ok_bind, add_eq (by omega), ok_bind]
  by_cases h9 : extensionsAt body + 2 + u16 body (extensionsAt body) > body.length
  · rw [if_pos h9, if_neg (by omega)]
  rw [if_neg h9, if_pos (by omega)]

/-- A ClientHello body with the extensions `extensions`. -/
def HelloBody (body extensions : Bytes) : Prop :=
  ∃ head session suites compression tail,
    body = head ++ vec8 session ++ vec16 suites ++ vec8 compression ++ vec16 extensions ++ tail ∧
    head.length = 34 ∧ session.length < 256 ∧ suites.length < 65536 ∧ compression.length < 256 ∧
    extensions.length < 65536

/-- The vectors of a body, by position. -/
theorem helloBody_iff {body extensions : Bytes} :
    HelloBody body extensions ↔ extensionsAt body + 2 + u16 body (extensionsAt body) ≤ body.length ∧
      extensions = slice body (extensionsAt body + 2) (u16 body (extensionsAt body)) := by
  constructor
  · rintro ⟨head, session, suites, compression, tail, hb, h1, h2, h3, h4, h5⟩
    have hat : At body 0 (head ++ vec8 session ++ vec16 suites ++ vec8 compression ++
        vec16 extensions ++ tail) := hb ▸ At.refl _
    simp only [List.append_assoc, at_append, Nat.zero_add, length_vec8, length_vec16, h1] at hat
    obtain ⟨-, hsession, hsuites, hcompression, hextensions, htail⟩ := hat
    have e1 : suitesAt body = 34 + (1 + session.length) := by
      rw [suitesAt, hsession.u8, toNat_ofNat]; omega
    rw [← e1] at hsuites hcompression hextensions htail
    have e2 : compressionAt body = suitesAt body + (2 + suites.length) := by
      rw [compressionAt, (at_append.mp hsuites).1.u16 h3]; omega
    rw [← e2] at hcompression hextensions htail
    have e3 : extensionsAt body = compressionAt body + (1 + compression.length) := by
      rw [extensionsAt, hcompression.u8, toNat_ofNat]; omega
    rw [← e3] at hextensions htail
    have e4 : u16 body (extensionsAt body) = extensions.length := (at_append.mp hextensions).1.u16 h5
    have hle := htail.le
    rw [e4]
    refine ⟨by omega, ?_⟩
    have hs := (at_append.mp hextensions).2.slice
    rw [length_be16] at hs
    exact hs.symm
  · rintro ⟨hle, rfl⟩
    have l1 := u8_lt body 34
    have l2 := u16_lt body (suitesAt body)
    have l3 := u8_lt body (compressionAt body)
    have l4 := u16_lt body (extensionsAt body)
    have e1 : suitesAt body = 34 + 1 + u8 body 34 := rfl
    have e2 : compressionAt body = suitesAt body + 2 + u16 body (suitesAt body) := rfl
    have e3 : extensionsAt body = compressionAt body + 1 + u8 body (compressionAt body) := rfl
    have n0 : (slice body 0 34).length = 34 := length_slice _ (by omega)
    obtain ⟨session, hsession, n1⟩ := exists_vec8 (b := body) (i := 34) (by omega)
    obtain ⟨suites, hsuites, n2⟩ := exists_vec16 (b := body) (i := suitesAt body) (by omega)
    obtain ⟨compression, hcompression, n3⟩ :=
      exists_vec8 (b := body) (i := compressionAt body) (by omega)
    have hextensions := at_vec16 (b := body) (i := extensionsAt body) (by omega)
    have n4 : (slice body (extensionsAt body + 2) (u16 body (extensionsAt body))).length =
        u16 body (extensionsAt body) := length_slice _ (by omega)
    have p1 : 34 + (vec8 session).length = suitesAt body := by
      rw [length_vec8, n1]; omega
    have p2 : suitesAt body + (vec16 suites).length = compressionAt body := by
      rw [length_vec16, n2]; omega
    have p3 : compressionAt body + (vec8 compression).length = extensionsAt body := by
      rw [length_vec8, n3]; omega
    have hat : At body 0 (slice body 0 34 ++ vec8 session ++ vec16 suites ++ vec8 compression ++
        vec16 (slice body (extensionsAt body + 2) (u16 body (extensionsAt body)))) := by
      simp only [List.append_assoc, at_append, Nat.zero_add, n0, p1, p2, p3]
      exact ⟨at_take_drop (by omega), hsession, hsuites, hcompression, hextensions⟩
    exact ⟨_, _, _, _, _, hat.eq_append, n0, by omega, by omega, by omega, by omega⟩

theorem hello_iff_helloBody {body name : Bytes} :
    Hello body name ↔ ∃ extensions, HelloBody body extensions ∧ NamesHost extensions name := by
  constructor
  · rintro ⟨head, session, suites, compression, extensions, tail, hb, h1, h2, h3, h4, h5, hn⟩
    exact ⟨extensions, ⟨head, session, suites, compression, tail, hb, h1, h2, h3, h4, h5⟩, hn⟩
  · rintro ⟨extensions, ⟨head, session, suites, compression, tail, hb, h1, h2, h3, h4, h5⟩, hn⟩
    exact ⟨head, session, suites, compression, extensions, tail, hb, h1, h2, h3, h4, h5, hn⟩

theorem hello_iff {body name : Bytes} :
    Hello body name ↔ extensionsAt body + 2 + u16 body (extensionsAt body) ≤ body.length ∧
      NamesHost (slice body (extensionsAt body + 2) (u16 body (extensionsAt body))) name := by
  rw [hello_iff_helloBody]
  constructor
  · rintro ⟨extensions, hb, hn⟩
    obtain ⟨hle, rfl⟩ := helloBody_iff.mp hb
    exact ⟨hle, hn⟩
  · rintro ⟨hle, hn⟩
    exact ⟨_, helloBody_iff.mpr ⟨hle, rfl⟩, hn⟩

theorem sniFromBody_iff {body : Bytes} (hb : body.length < 2 ^ 32) :
    Safe (sniFromBody body) fun r =>
      ∀ s, r = some s ↔ ∃ name, Hello body name ∧ s = ofBytes name := by
  rw [sniFromBody_eq hb]
  refine Safe.ite (fun h => ?_) fun h => .ok fun s => ⟨fun e => by simp at e, fun ⟨name, hn, _⟩ => ?_⟩
  · refine (sniExtensionLoop_iff h hb (by omega) (by omega)).mono fun r hr s => (hr s).trans ?_
    refine exists_congr fun name => and_congr_left fun _ => ?_
    rw [hello_iff, Nat.add_sub_cancel_left]
    exact ⟨fun hn => ⟨h, hn⟩, And.right⟩
  · exact (h (hello_iff.mp hn).1).elim

/-! ### The message -/

/-- The body length a handshake header declares. -/
def declaredLength (stream : Bytes) : ℕ :=
  u8 stream 1 * 65536 + u8 stream 2 * 256 + u8 stream 3

theorem declaredLength_lt (stream : Bytes) : declaredLength stream < 2 ^ 24 := by
  have h1 := u8_lt stream 1
  have h2 := u8_lt stream 2
  have h3 := u8_lt stream 3
  unfold declaredLength; omega

theorem declaredLength_bits (stream : Bytes) :
    u8 stream 1 <<< 16 ||| u8 stream 2 <<< 8 ||| u8 stream 3 = declaredLength stream := by
  have h2 := u8_lt stream 2
  have h3 := u8_lt stream 3
  have e1 : u8 stream 1 <<< 16 ||| u8 stream 2 <<< 8 = (u8 stream 1 * 256 + u8 stream 2) <<< 8 := by
    rw [@shiftLeft_or _ _ 16 (by simp only [Nat.shiftLeft_eq]; omega)]
    simp only [Nat.shiftLeft_eq]; ring
  rw [e1, shiftLeft_or h3, declaredLength]
  omega

theorem sniFromClientHello_eq {stream : Bytes} (h4 : 4 ≤ stream.length) :
    sniFromClientHello stream =
      if u8 stream 0 = 1 ∧ 4 + declaredLength stream ≤ stream.length then
        sniFromBody (slice stream 4 (declaredLength stream))
      else .ok none := by
  have hlt := declaredLength_lt stream
  have hd := declaredLength_bits stream
  unfold sniFromClientHello
  rw [if_neg (by omega), readU8_eq (by omega), ok_bind]
  by_cases h0 : u8 stream 0 = 1
  · rw [if_neg (by omega), readU8_eq (by omega), ok_bind, readU8_eq (by omega), ok_bind,
      readU8_eq (by omega), ok_bind, hd]
    dsimp only
    rw [add_eq (by omega), ok_bind]
    by_cases hle : 4 + declaredLength stream ≤ stream.length
    · rw [if_neg (by omega), window_eq hle, ok_bind, if_pos ⟨h0, hle⟩]
    · rw [if_pos (by omega), if_neg fun h => hle h.2, pure_eq]
  · rw [if_pos h0, if_neg fun h => h0 h.1, pure_eq]

theorem sniFromClientHello_short {stream : Bytes} (h : stream.length < 4) :
    sniFromClientHello stream = .ok none := by
  unfold sniFromClientHello
  rw [if_pos h, pure_eq]

theorem namedHello_iff {stream name : Bytes} :
    NamedHello stream name ↔ 4 ≤ stream.length ∧ u8 stream 0 = 1 ∧
      4 + declaredLength stream ≤ stream.length ∧
      Hello (slice stream 4 (declaredLength stream)) name := by
  constructor
  · rintro ⟨body, tail, hs, hb, hh⟩
    have hat : At stream 0 (1 :: be24 body.length ++ body ++ tail) := hs ▸ At.refl _
    simp only [be24, be16, List.cons_append, List.nil_append, at_cons_cons] at hat
    obtain ⟨h0, h1, h2, h3⟩ := hat
    have hbody := at_append.mp (at_cons.mp h3).2
    have hle := hbody.1.le
    have e : declaredLength stream = body.length := by
      rw [declaredLength, h1.u8, h2.u8, h3.u8, toNat_ofNat, toNat_ofNat, toNat_ofNat]; omega
    rw [e]
    refine ⟨by omega, h0.u8, by omega, ?_⟩
    have hs' := hbody.1.slice
    simp only [Nat.zero_add, Nat.reduceAdd] at hs'
    rwa [hs']
  · rintro ⟨h4, h0, hle, hh⟩
    have hlen : (slice stream 4 (declaredLength stream)).length = declaredLength stream :=
      length_slice _ hle
    have hlt := declaredLength_lt stream
    have l1 := u8_lt stream 1
    have l2 := u8_lt stream 2
    have l3 := u8_lt stream 3
    have hd : declaredLength stream = u8 stream 1 * 65536 + u8 stream 2 * 256 + u8 stream 3 := rfl
    have hheader : At stream 0 (1 :: be24 (declaredLength stream) ++ slice stream 4 (declaredLength stream)) := by
      simp only [be24, be16, List.cons_append, List.nil_append, at_cons_cons]
      have a0 := at_u8 (b := stream) (i := 0) (by omega)
      have a1 := at_u8 (b := stream) (i := 1) (by omega)
      have a2 := at_u8 (b := stream) (i := 2) (by omega)
      have a3 := at_u8 (b := stream) (i := 3) (by omega)
      rw [h0] at a0
      have f1 : UInt8.ofNat (declaredLength stream / 65536) = UInt8.ofNat (u8 stream 1) :=
        UInt8.toNat.inj (by rw [toNat_ofNat, toNat_ofNat]; omega)
      have f2 : UInt8.ofNat (declaredLength stream / 256) = UInt8.ofNat (u8 stream 2) :=
        UInt8.toNat.inj (by rw [toNat_ofNat, toNat_ofNat]; omega)
      have f3 : UInt8.ofNat (declaredLength stream) = UInt8.ofNat (u8 stream 3) :=
        UInt8.toNat.inj (by rw [toNat_ofNat, toNat_ofNat]; omega)
      rw [f1, f2, f3]
      exact ⟨a0, a1, a2, at_cons.mpr ⟨a3, at_take_drop hle⟩⟩
    refine ⟨_, stream.drop (4 + declaredLength stream), ?_, by omega, hh⟩
    have hs := hheader.eq_append
    rw [List.length_append, List.length_cons, length_be24, hlen] at hs
    rw [hlen]
    exact hs

/-- `sniFromClientHello` finds exactly the host names of complete ClientHellos. -/
theorem sniFromClientHello_iff (stream : Bytes) :
    Safe (sniFromClientHello stream) fun r =>
      ∀ s, r = some s ↔ ∃ name, NamedHello stream name ∧ s = ofBytes name := by
  have hlt := declaredLength_lt stream
  have refuse : (∀ name, ¬ NamedHello stream name) → ∀ s,
      (none : Option String) = some s ↔ ∃ name, NamedHello stream name ∧ s = ofBytes name :=
    fun h s => ⟨fun e => by simp at e, fun ⟨name, ho, _⟩ => (h name ho).elim⟩
  rcases Nat.lt_or_ge stream.length 4 with h4 | h4
  · rw [sniFromClientHello_short h4]
    exact .ok (refuse fun name hn => by have := (namedHello_iff.mp hn).1; omega)
  · rw [sniFromClientHello_eq h4]
    refine Safe.ite (fun h => ?_) fun h => .ok (refuse fun name hn => ?_)
    · have hlen : (slice stream 4 (declaredLength stream)).length = declaredLength stream :=
        length_slice _ h.2
      refine (sniFromBody_iff (by omega)).mono fun r hr s => (hr s).trans ?_
      refine exists_congr fun name => and_congr_left fun _ => ?_
      rw [namedHello_iff]
      exact ⟨fun hh => ⟨h4, h.1, h.2, hh⟩, fun hh => hh.2.2.2⟩
    · obtain ⟨-, h0, hle, -⟩ := namedHello_iff.mp hn
      exact h ⟨h0, hle⟩

theorem declaredLength_take {stream : Bytes} {n : ℕ} (h4 : 4 ≤ n) :
    declaredLength (stream.take n) = declaredLength stream := by
  unfold declaredLength
  rw [u8_take (by omega), u8_take (by omega), u8_take (by omega)]

/-- A prefix that holds the whole message answers for the stream; a shorter one
answers nothing. -/
theorem sniFromClientHello_take {stream : Bytes} {n : ℕ} (h4 : 4 ≤ n) (hn : n ≤ stream.length) :
    sniFromClientHello (stream.take n) =
      if 4 + declaredLength stream ≤ n then sniFromClientHello stream else .ok none := by
  have hlen : (stream.take n).length = n := by simp; omega
  rw [sniFromClientHello_eq (by omega), declaredLength_take h4, u8_take (by omega), hlen,
    sniFromClientHello_eq (by omega)]
  split
  · rw [if_pos (by omega), if_pos ⟨by omega, by omega⟩, slice, slice, List.drop_take, List.take_take]
    congr 2
    omega
  · split
    · rw [if_neg (by omega)]
    · rfl

end QuicParser
end NetProbe
