/-
# Two readers of one ClientHello

`ProtocolParser.parseTlsClientHello` reads a ClientHello in a TLS record,
`QuicParser.sniFromClientHello` one from a CRYPTO stream. Both walk the same
vectors. They part in the first server_name extension: the TLS reader goes
through the whole list of names there and then stops, the QUIC reader looks at
the first entry only and otherwise goes on to later extensions.

Key definitions: `FirstServerName`, `FirstHost`, `ListsHost`, `Agree`,
`ClientHello`, `ClientHello.Lists`, `ClientHello.Recovered`.
Key theorems: `nameListLoop_iff`, `extensionLoop_iff`, `parseTlsClientHello_iff`,
`readers_agree_iff`, `clientHello_read_iff`.
-/
import NetProbe.ClientHello
import NetProbe.TlsRuns

namespace NetProbe
namespace ProtocolParser

open Checked Bytes Wire QuicParser

/-! ### What the TLS reader looks for -/

/-- The first server_name extension of a block has the data `data`, and the
extensions `rest` follow it. -/
inductive FirstServerName : (exts data rest : Bytes) → Prop
  | here {data rest : Bytes} : data.length < 65536 → FirstServerName (be16 0 ++ vec16 data ++ rest) data rest
  | skip {type : ℕ} {other exts data rest : Bytes} : type < 65536 → type ≠ 0 → other.length < 65536 →
      FirstServerName exts data rest → FirstServerName (be16 type ++ vec16 other ++ exts) data rest

/-- The first host_name entry of a list of names is `name`. -/
inductive FirstHost : (list name : Bytes) → Prop
  | here {name more : Bytes} : name.length < 65536 → FirstHost (0 :: vec16 name ++ more) name
  | skip {type : UInt8} {other list name : Bytes} : type ≠ 0 → other.length < 65536 →
      FirstHost list name → FirstHost (type :: vec16 other ++ list) name

/-- The data of a server_name extension lists the host `name` first. -/
def ListsHost (data name : Bytes) : Prop :=
  ∃ list pad, data = vec16 list ++ pad ∧ list.length < 65536 ∧ FirstHost list name

theorem firstServerName_iff {exts data rest : Bytes} :
    FirstServerName exts data rest ↔ 4 + u16 exts 2 ≤ exts.length ∧
      (u16 exts 0 = 0 ∧ data = slice exts 4 (u16 exts 2) ∧ rest = exts.drop (4 + u16 exts 2) ∨
        u16 exts 0 ≠ 0 ∧ FirstServerName (exts.drop (4 + u16 exts 2)) data rest) := by
  constructor
  · rintro (hd | ⟨ht, hne, hd, hr⟩)
    · obtain ⟨e0, e2, e4, e5⟩ := extension_fields (by decide : 0 < 65536) hd
      rw [e0, e2, e4, e5]
      exact ⟨by simp; omega, .inl ⟨rfl, rfl, rfl⟩⟩
    · obtain ⟨e0, e2, -, e5⟩ := extension_fields ht hd
      rw [e0, e2, e5]
      exact ⟨by simp; omega, .inr ⟨hne, hr⟩⟩
  · rintro ⟨hle, h⟩
    obtain ⟨hexts, hlen⟩ := extension_split hle
    have hlt := u16_lt exts 2
    rw [hexts]
    rcases h with ⟨ht, rfl, rfl⟩ | ⟨hne, hr⟩
    · rw [ht]
      exact .here (by omega)
    · exact .skip (u16_lt ..) hne (by omega) hr

theorem FirstServerName.unique {exts data rest data' rest' : Bytes} (h : FirstServerName exts data rest)
    (h' : FirstServerName exts data' rest') : data = data' ∧ rest = rest' := by
  induction h with
  | here hd =>
    obtain ⟨e0, e2, e4, e5⟩ := extension_fields (by decide : 0 < 65536) hd
    rcases (firstServerName_iff.mp h').2 with ⟨-, hdata, hrest⟩ | ⟨hne, -⟩
    · rw [hdata, hrest, e2, e4, e5]
      exact ⟨rfl, rfl⟩
    · exact absurd e0 hne
  | skip ht hne hd hr ih =>
    obtain ⟨e0, e2, e4, e5⟩ := extension_fields ht hd
    rcases (firstServerName_iff.mp h').2 with ⟨h0, -⟩ | ⟨-, hr'⟩
    · exact absurd (e0.symm.trans h0) hne
    · rw [e2, e5] at hr'
      exact ih hr'

/-- The fields of an entry in front of a list of names. -/
theorem entry_fields (type : UInt8) {name rest : Bytes} (hn : name.length < 65536) :
    u8 (type :: vec16 name ++ rest) 0 = type.toNat ∧ u16 (type :: vec16 name ++ rest) 1 = name.length ∧
    slice (type :: vec16 name ++ rest) 3 name.length = name ∧
    (type :: vec16 name ++ rest).drop (3 + name.length) = rest := by
  have hat := At.refl (type :: vec16 name ++ rest)
  simp only [vec16, List.append_assoc, List.cons_append] at hat
  obtain ⟨h0, h1⟩ := at_cons.mp hat
  obtain ⟨h1, h3⟩ := at_append.mp h1
  have e1 := h1.u16 hn
  have e3 := (at_append.mp h3).1.slice
  simp only [length_be16, Nat.zero_add, Nat.reduceAdd] at e1 e3
  simp only [vec16, List.append_assoc, List.cons_append]
  refine ⟨h0.u8, e1, e3, ?_⟩
  rw [← List.append_assoc, ← List.cons_append]
  exact List.drop_left' (by simp; omega)

theorem firstHost_iff {list name : Bytes} :
    FirstHost list name ↔ 3 + u16 list 1 ≤ list.length ∧
      (u8 list 0 = 0 ∧ name = slice list 3 (u16 list 1) ∨
        u8 list 0 ≠ 0 ∧ FirstHost (list.drop (3 + u16 list 1)) name) := by
  constructor
  · rintro (hn | ⟨ht, hn, hr⟩)
    · obtain ⟨e0, e1, e3, -⟩ := entry_fields 0 hn
      rw [e0, e1, e3]
      exact ⟨by simp; omega, .inl ⟨rfl, rfl⟩⟩
    · obtain ⟨e0, e1, -, e4⟩ := entry_fields _ hn
      rw [e0, e1, e4]
      exact ⟨by simp; omega, .inr ⟨fun h0 => ht (UInt8.toNat.inj h0), hr⟩⟩
  · rintro ⟨hle, h⟩
    have hlt := u16_lt list 1
    have hlen : (slice list 3 (u16 list 1)).length = u16 list 1 := length_slice _ hle
    have hat : At list 0 (UInt8.ofNat (u8 list 0) :: vec16 (slice list 3 (u16 list 1))) :=
      at_cons.mpr ⟨at_u8 (by omega), at_vec16 (i := 1) (by omega)⟩
    have hlist := hat.eq_append
    rw [List.length_cons, length_vec16, hlen, show 2 + u16 list 1 + 1 = 3 + u16 list 1 by omega] at hlist
    rw [hlist]
    rcases h with ⟨ht, rfl⟩ | ⟨hne, hr⟩
    · rw [ht]
      exact .here (by omega)
    · refine .skip (fun h0 => hne ?_) (by omega) hr
      have hbyte := congrArg UInt8.toNat h0
      rw [toNat_ofNat, Nat.mod_eq_of_lt (u8_lt ..)] at hbyte
      exact hbyte

theorem FirstHost.unique {list name name' : Bytes} (h : FirstHost list name) (h' : FirstHost list name') :
    name = name' := by
  induction h with
  | here hn =>
    obtain ⟨e0, e1, e3, -⟩ := entry_fields 0 hn
    rcases (firstHost_iff.mp h').2 with ⟨-, hname⟩ | ⟨hne, -⟩
    · rw [hname, e1, e3]
    · exact absurd e0 hne
  | skip ht hn hr ih =>
    obtain ⟨e0, e1, -, e4⟩ := entry_fields _ hn
    rcases (firstHost_iff.mp h').2 with ⟨h0, -⟩ | ⟨-, hr'⟩
    · exact absurd (UInt8.toNat.inj (e0.symm.trans h0)) ht
    · rw [e1, e4] at hr'
      exact ih hr'

theorem listsHost_iff {data name : Bytes} :
    ListsHost data name ↔ 2 + u16 data 0 ≤ data.length ∧ FirstHost (slice data 2 (u16 data 0)) name := by
  constructor
  · rintro ⟨list, pad, rfl, hl, hf⟩
    have hat := At.refl (vec16 list ++ pad)
    simp only [vec16, List.append_assoc, at_append, length_be16, Nat.zero_add] at hat
    obtain ⟨h0, h2, -⟩ := hat
    rw [vec16, List.append_assoc, h0.u16 hl, h2.slice]
    exact ⟨by simp, hf⟩
  · rintro ⟨hle, hf⟩
    have hlen : (slice data 2 (u16 data 0)).length = u16 data 0 := length_slice _ hle
    have hlt := u16_lt data 0
    have hat : At data 0 (vec16 (slice data 2 (u16 data 0))) := at_vec16 (i := 0) (by omega)
    exact ⟨_, _, hat.eq_append, by omega, hf⟩

theorem ListsHost.unique {data name name' : Bytes} (h : ListsHost data name) (h' : ListsHost data name') :
    name = name' :=
  (listsHost_iff.mp h).2.unique (listsHost_iff.mp h').2

/-- A list that starts with a host_name entry lists that host first. -/
theorem listsHost_of_offers {data name : Bytes} (h : Offers data name) : ListsHost data name := by
  obtain ⟨more, pad, rfl, hn, hm⟩ := h
  exact ⟨_, pad, rfl, by simp; omega, .here hn⟩

/-! ### The TLS reader finds it -/

/-- The result of a reader that looks for names `P` is one, if there is any. -/
def Finds (P : Bytes → Prop) (r : Option String) : Prop := ∀ s, r = some s ↔ ∃ name, P name ∧ s = ofBytes name

theorem ofBytes_injective {a b : Bytes} (h : ofBytes a = ofBytes b) : a = b := by
  have hchar : Function.Injective fun x : UInt8 => Char.ofNat x.toNat := by
    intro x y hxy
    have hx : (Char.ofNat x.toNat).toNat = (Char.ofNat y.toNat).toNat := congrArg Char.toNat hxy
    have hbyte : ∀ z : UInt8, (Char.ofNat z.toNat).toNat = z.toNat := fun z => by
      have hlt := z.toNat_lt
      rw [Char.ofNat, dif_pos (.inl (by omega))]
      rfl
    rw [hbyte, hbyte] at hx
    exact UInt8.toNat.inj hx
  exact List.map_injective_iff.mpr hchar (String.ofList_injective h)

section Finds

variable {P Q : Bytes → Prop} {r : Option String}

theorem finds_none (h : ∀ name, ¬ P name) : Finds P none :=
  fun _ => ⟨fun e => by simp at e, fun ⟨name, hp, _⟩ => (h name hp).elim⟩

theorem finds_some {name : Bytes} (h : P name) (hu : ∀ other, P other → name = other) :
    Finds P (some (ofBytes name)) := by
  intro s
  constructor
  · rintro ⟨⟩
    exact ⟨name, h, rfl⟩
  · rintro ⟨other, ho, rfl⟩
    rw [hu other ho]

theorem Finds.congr (h : Finds P r) (hpq : ∀ name, P name ↔ Q name) : Finds Q r :=
  fun s => (h s).trans (exists_congr fun name => and_congr_left fun _ => hpq name)

theorem Finds.eq_none (h : Finds P r) (hp : ∀ name, ¬ P name) : r = none := by
  cases r with
  | none => rfl
  | some s =>
    obtain ⟨name, hn, -⟩ := (h s).mp rfl
    exact (hp name hn).elim

theorem Finds.eq_some (h : Finds P r) {name : Bytes} (hp : P name) : r = some (ofBytes name) :=
  (h _).mpr ⟨name, hp, rfl⟩

/-- Two readers give the same result exactly where they look for the same names. -/
theorem Finds.eq_iff {r' : Option String} (h : Finds P r) (h' : Finds Q r') : r = r' ↔ ∀ name, P name ↔ Q name := by
  constructor
  · rintro rfl name
    constructor
    · intro hp
      obtain ⟨other, hq, he⟩ := (h' _).mp (h.eq_some hp)
      exact ofBytes_injective he ▸ hq
    · intro hq
      obtain ⟨other, hp, he⟩ := (h _).mp (h'.eq_some hq)
      exact ofBytes_injective he ▸ hp
  · intro hpq
    have hr : Finds Q r := h.congr hpq
    cases r' with
    | none => exact hr.eq_none fun name hq => by simpa using h'.eq_some hq
    | some s =>
      obtain ⟨name, hq, rfl⟩ := (h' s).mp rfl
      exact hr.eq_some hq

end Finds

theorem nameListLoop_iff {payload : Bytes} {stop : ℕ} (hstop : stop ≤ payload.length) :
    ∀ {fuel pos : ℕ}, pos ≤ stop → stop < pos + fuel →
      Safe (nameListLoop payload stop fuel pos) (Finds (FirstHost (slice payload pos (stop - pos)))) := by
  intro fuel
  induction fuel with
  | zero =>
    intro pos hp hf
    omega
  | succ fuel ih =>
    intro pos hp hf
    have hlen : (slice payload pos (stop - pos)).length = stop - pos := length_slice _ (by omega)
    have hiff := fun name : Bytes => (firstHost_iff : FirstHost (slice payload pos (stop - pos)) name ↔ _)
    simp only [hlen] at hiff
    rw [nameListLoop, sub_eq hp, ok_bind]
    refine .ite (fun h => .ok (finds_none fun name hn => ?_)) fun h3 => ?_
    · have := ((hiff name).mp hn).1
      omega
    have e0 : u8 (slice payload pos (stop - pos)) 0 = u8 payload pos := u8_slice (by omega)
    have e1 : u16 (slice payload pos (stop - pos)) 1 = u16 payload (pos + 1) := u16_slice (by omega)
    simp only [e0, e1] at hiff
    rw [readU8_eq (by omega), ok_bind, readU16_eq (by omega), ok_bind]
    dsimp only
    rw [sub_eq (by omega), ok_bind]
    refine .ite (fun h => .ok (finds_none fun name hn => ?_)) fun hl => ?_
    · have := ((hiff name).mp hn).1
      omega
    have e3 : slice (slice payload pos (stop - pos)) 3 (u16 payload (pos + 1)) =
        slice payload (pos + 3) (u16 payload (pos + 1)) := slice_slice (by omega)
    have edrop : (slice payload pos (stop - pos)).drop (3 + u16 payload (pos + 1)) =
        slice payload (pos + 3 + u16 payload (pos + 1)) (stop - (pos + 3 + u16 payload (pos + 1))) := by
      rw [drop_slice]
      congr 1 <;> omega
    simp only [e3, edrop] at hiff
    refine .ite (fun ht => ?_) fun ht => ?_
    · rw [window_eq (by omega), ok_bind]
      refine .ok (finds_some ((hiff _).mpr ⟨by omega, .inl ⟨ht, rfl⟩⟩) fun other ho => ?_)
      rcases ((hiff other).mp ho).2 with ⟨-, hname⟩ | ⟨hne, -⟩
      · exact hname.symm
      · exact absurd ht hne
    · refine (ih (by omega) (by omega)).mono fun r hr => hr.congr fun name => ?_
      rw [hiff]
      exact ⟨fun hn => ⟨by omega, .inr ⟨ht, hn⟩⟩, fun hn => (hn.2.resolve_left fun h0 => ht h0.1).2⟩

/-- The data of a server_name extension, from `pos` to `stop`: its list, and
nothing behind it. -/
theorem serverNameList_iff {payload : Bytes} {pos stop : ℕ} (hp : pos ≤ stop) (hstop : stop ≤ payload.length) :
    Safe (do
      if (← sub stop pos) < 2 then return none
      let nameListLength ← readU16 payload pos
      let pos := pos + 2
      if nameListLength > (← sub stop pos) then return none
      nameListLoop payload (pos + nameListLength) payload.length pos)
      (Finds (ListsHost (slice payload pos (stop - pos)))) := by
  have hlen : (slice payload pos (stop - pos)).length = stop - pos := length_slice _ (by omega)
  have hiff := fun name : Bytes => (listsHost_iff : ListsHost (slice payload pos (stop - pos)) name ↔ _)
  simp only [hlen] at hiff
  rw [sub_eq hp, ok_bind]
  refine .ite (fun h => .ok (finds_none fun name hn => ?_)) fun h2 => ?_
  · have := ((hiff name).mp hn).1
    omega
  have e0 : u16 (slice payload pos (stop - pos)) 0 = u16 payload pos := u16_slice (by omega)
  simp only [e0] at hiff
  rw [readU16_eq (by omega), ok_bind]
  dsimp only
  rw [sub_eq (by omega), ok_bind]
  refine .ite (fun h => .ok (finds_none fun name hn => ?_)) fun hl => ?_
  · have := ((hiff name).mp hn).1
    omega
  have e2 : slice (slice payload pos (stop - pos)) 2 (u16 payload pos) =
      slice payload (pos + 2) (pos + 2 + u16 payload pos - (pos + 2)) := by
    rw [slice_slice (by omega), Nat.add_sub_cancel_left]
  simp only [e2] at hiff
  refine (nameListLoop_iff (by omega) (by omega) (by omega)).mono fun r hr => hr.congr fun name => ?_
  rw [hiff]
  exact ⟨fun hn => ⟨by omega, hn⟩, fun hn => hn.2⟩

/-- The TLS reader finds `name` in a block of extensions. -/
def ServerNamed (exts name : Bytes) : Prop := ∃ data rest, FirstServerName exts data rest ∧ ListsHost data name

theorem ServerNamed.unique {exts name name' : Bytes} (h : ServerNamed exts name) (h' : ServerNamed exts name') :
    name = name' := by
  obtain ⟨data, rest, hf, hl⟩ := h
  obtain ⟨data', rest', hf', hl'⟩ := h'
  obtain ⟨rfl, -⟩ := hf.unique hf'
  exact hl.unique hl'

theorem serverNamed_iff {exts name : Bytes} :
    ServerNamed exts name ↔ 4 + u16 exts 2 ≤ exts.length ∧
      (u16 exts 0 = 0 ∧ ListsHost (slice exts 4 (u16 exts 2)) name ∨
        u16 exts 0 ≠ 0 ∧ ServerNamed (exts.drop (4 + u16 exts 2)) name) := by
  constructor
  · rintro ⟨data, rest, hf, hl⟩
    obtain ⟨hle, ⟨ht, rfl, -⟩ | ⟨ht, hr⟩⟩ := firstServerName_iff.mp hf
    · exact ⟨hle, .inl ⟨ht, hl⟩⟩
    · exact ⟨hle, .inr ⟨ht, data, rest, hr, hl⟩⟩
  · rintro ⟨hle, ⟨ht, hl⟩ | ⟨ht, data, rest, hf, hl⟩⟩
    · exact ⟨_, _, firstServerName_iff.mpr ⟨hle, .inl ⟨ht, rfl, rfl⟩⟩, hl⟩
    · exact ⟨data, rest, firstServerName_iff.mpr ⟨hle, .inr ⟨ht, hf⟩⟩, hl⟩

theorem extensionLoop_iff {payload : Bytes} {stop : ℕ} (hstop : stop ≤ payload.length) :
    ∀ {fuel pos : ℕ}, pos ≤ stop → stop < pos + fuel →
      Safe (extensionLoop payload stop fuel pos) (Finds (ServerNamed (slice payload pos (stop - pos)))) := by
  intro fuel
  induction fuel with
  | zero =>
    intro pos hp hf
    omega
  | succ fuel ih =>
    intro pos hp hf
    have hlen : (slice payload pos (stop - pos)).length = stop - pos := length_slice _ (by omega)
    have hiff := fun name : Bytes => (serverNamed_iff : ServerNamed (slice payload pos (stop - pos)) name ↔ _)
    simp only [hlen] at hiff
    rw [extensionLoop, sub_eq hp, ok_bind]
    refine .ite (fun h => .ok (finds_none fun name hn => ?_)) fun h4 => ?_
    · have := ((hiff name).mp hn).1
      omega
    have e0 : u16 (slice payload pos (stop - pos)) 0 = u16 payload pos := u16_slice (by omega)
    have e2 : u16 (slice payload pos (stop - pos)) 2 = u16 payload (pos + 2) := u16_slice (by omega)
    simp only [e0, e2] at hiff
    rw [readU16_eq (by omega), ok_bind, readU16_eq (by omega), ok_bind]
    dsimp only
    rw [sub_eq (by omega), ok_bind]
    refine .ite (fun h => .ok (finds_none fun name hn => ?_)) fun hl => ?_
    · have := ((hiff name).mp hn).1
      omega
    have e4 : slice (slice payload pos (stop - pos)) 4 (u16 payload (pos + 2)) =
        slice payload (pos + 4) (u16 payload (pos + 2)) := slice_slice (by omega)
    have edrop : (slice payload pos (stop - pos)).drop (4 + u16 payload (pos + 2)) =
        slice payload (pos + 4 + u16 payload (pos + 2)) (stop - (pos + 4 + u16 payload (pos + 2))) := by
      rw [drop_slice]
      congr 1 <;> omega
    simp only [e4, edrop] at hiff
    refine .ite (fun ht => ?_) fun ht => ?_
    · have hlist : Safe _ (Finds (ListsHost (slice payload (pos + 4) _))) :=
        @serverNameList_iff payload (pos + 4) (pos + 4 + u16 payload (pos + 2)) (by omega) (by omega)
      rw [Nat.add_sub_cancel_left] at hlist
      refine hlist.mono fun r hr => hr.congr fun name => ?_
      rw [hiff]
      exact ⟨fun hn => ⟨by omega, .inl ⟨ht, hn⟩⟩, fun hn => (hn.2.resolve_right fun h0 => h0.1 ht).2⟩
    · refine (ih (by omega) (by omega)).mono fun r hr => hr.congr fun name => ?_
      rw [hiff]
      exact ⟨fun hn => ⟨by omega, .inr ⟨ht, hn⟩⟩, fun hn => (hn.2.resolve_left fun h0 => ht h0.1).2⟩

/-! ### The record -/

/-- A handshake record of TLS 3.`minor`. -/
def handshakeRecord (minor : UInt8) (message : Bytes) : Bytes := 0x16 :: 0x03 :: minor :: vec16 message

section Record

variable {minor : UInt8} {message : Bytes}

theorem length_handshakeRecord : (handshakeRecord minor message).length = 5 + message.length := by
  simp [handshakeRecord]
  omega

theorem handshakeRecord_eq : handshakeRecord minor message =
    [0x16, 0x03, minor] ++ be16 message.length ++ message := rfl

theorem u16_handshakeRecord (hl : message.length < 65536) :
    u16 (handshakeRecord minor message) 3 = message.length := by
  have hat : At (handshakeRecord minor message) 3 (be16 message.length) := ⟨_, _, handshakeRecord_eq, rfl⟩
  exact hat.u16 hl

theorem u8_handshakeRecord (i : ℕ) : u8 (handshakeRecord minor message) (5 + i) = u8 message i := by
  have hdrop : (handshakeRecord minor message).drop 5 = message := rfl
  rw [← u8_drop, hdrop]

theorem slice_body (i n : ℕ) :
    slice (handshakeRecord minor message) (9 + i) n = slice (message.drop 4) i n := by
  have h : slice (handshakeRecord minor message) (5 + (4 + i)) n = slice message (4 + i) n :=
    slice_append_right ([0x16, 0x03, minor] ++ be16 message.length) message _ n
  rw [← Nat.add_assoc] at h
  rw [h, slice, slice, List.drop_drop]

theorem looksLikeTlsHandshake_record (hm : minor.toNat ≤ 4) :
    looksLikeTlsHandshake (handshakeRecord minor message) = .ok true := by
  have hlen : (handshakeRecord minor message).length = 5 + message.length := length_handshakeRecord
  have h0 : u8 (handshakeRecord minor message) 0 = 0x16 := rfl
  have h1 : u8 (handshakeRecord minor message) 1 = 0x03 := rfl
  have h2 : u8 (handshakeRecord minor message) 2 = minor.toNat := rfl
  rw [looksLikeTlsHandshake, if_neg (by omega), readU8_eq (by omega), ok_bind, readU8_eq (by omega), ok_bind,
    readU8_eq (by omega), ok_bind, h0, h1, h2]
  simp [hm]

/-- The checks of the TLS reader come to those of the QUIC reader: a ClientHello
whose last vector ends in its body. -/
theorem parseTlsClientHello_eq (hm : minor.toNat ≤ 4) (hl : message.length < 65536)
    (hd : 4 + declaredLength message = message.length) :
    parseTlsClientHello (handshakeRecord minor message) =
      if u8 message 0 = 1 ∧ extensionsAt (message.drop 4) + 2 + u16 (message.drop 4) (extensionsAt (message.drop 4))
          ≤ (message.drop 4).length then
        extensionLoop (handshakeRecord minor message)
          (9 + (extensionsAt (message.drop 4) + 2) + u16 (message.drop 4) (extensionsAt (message.drop 4)))
          (handshakeRecord minor message).length (9 + (extensionsAt (message.drop 4) + 2))
      else .ok none := by
  have hlooks : looksLikeTlsHandshake (handshakeRecord minor message) = .ok true := looksLikeTlsHandshake_record hm
  have hlen : (handshakeRecord minor message).length = 5 + message.length := length_handshakeRecord
  have hbody : (message.drop 4).length = declaredLength message := by
    rw [List.length_drop]
    omega
  have hrec : u16 (handshakeRecord minor message) 3 = message.length := u16_handshakeRecord hl
  have h5 : u8 (handshakeRecord minor message) 5 = u8 message 0 := u8_handshakeRecord 0
  have h6 : u8 (handshakeRecord minor message) 6 = u8 message 1 := u8_handshakeRecord 1
  have h7 : u8 (handshakeRecord minor message) 7 = u8 message 2 := u8_handshakeRecord 2
  have h8 : u8 (handshakeRecord minor message) 8 = u8 message 3 := u8_handshakeRecord 3
  have hb8 : ∀ p, u8 (handshakeRecord minor message) (9 + p) = u8 (message.drop 4) p := fun p => by
    have h : u8 (handshakeRecord minor message) (5 + (4 + p)) = u8 message (4 + p) := u8_handshakeRecord _
    rw [u8_drop, ← h, ← Nat.add_assoc]
  have hb16 : ∀ p, u16 (handshakeRecord minor message) (9 + p) = u16 (message.drop 4) p := fun p => by
    rw [u16, u16, hb8, Nat.add_assoc, hb8]
  have hdeclared : u8 message 1 <<< 16 ||| u8 message 2 <<< 8 ||| u8 message 3 = declaredLength message :=
    declaredLength_bits message
  have hrl : ∀ i, 5 + i < (handshakeRecord minor message).length → i < message.length := by omega
  generalize handshakeRecord minor message = r at *
  generalize hdl : declaredLength message = d at *
  generalize message.drop 4 = body at *
  have l1 := u8_lt body 34
  have l2 := u16_lt body (suitesAt body)
  have l3 := u8_lt body (compressionAt body)
  have l4 := u16_lt body (extensionsAt body)
  have e1 : suitesAt body = 35 + u8 body 34 := rfl
  have e2 : compressionAt body = suitesAt body + 2 + u16 body (suitesAt body) := rfl
  have e3 : extensionsAt body = compressionAt body + 1 + u8 body (compressionAt body) := rfl
  rw [parseTlsClientHello, hlooks, ok_bind, if_neg (by simp), readU16_eq (by omega), ok_bind, hrec,
    if_neg (by omega)]
  dsimp only
  rw [if_neg (by omega), readU8_eq (by omega), ok_bind, h5]
  by_cases h1 : u8 message 0 = 1
  · rw [if_neg (by omega), readU8_eq (by omega), ok_bind, readU8_eq (by omega), ok_bind, readU8_eq (by omega),
      ok_bind, h6, h7, h8, hdeclared]
    by_cases c1 : 34 > d
    · rw [if_neg (by omega), if_pos (by omega), if_neg (by omega)]
      rfl
    rw [if_neg (by omega), if_neg (by omega)]
    by_cases c2 : 35 > d
    · rw [if_pos (by omega), if_neg (by omega)]
      rfl
    have p0 : 5 + 4 + 34 = 9 + 34 := rfl
    have p1 : 9 + 34 + 1 + u8 body 34 = 9 + suitesAt body := by omega
    have p2 : 9 + suitesAt body + 2 + u16 body (suitesAt body) = 9 + compressionAt body := by omega
    have p3 : 9 + compressionAt body + 1 + u8 body (compressionAt body) = 9 + extensionsAt body := by omega
    have p4 : 9 + extensionsAt body + 2 = 9 + (extensionsAt body + 2) := Nat.add_assoc ..
    rw [if_neg (by omega), p0, readU8_eq (by omega), ok_bind, hb8, sub_eq (by omega), ok_bind]
    by_cases c3 : suitesAt body > d
    · rw [if_pos (by omega), if_neg (by omega)]
      rfl
    rw [if_neg (by omega), p1, sub_eq (by omega), ok_bind]
    by_cases c4 : suitesAt body + 2 > d
    · rw [if_pos (by omega), if_neg (by omega)]
      rfl
    rw [if_neg (by omega), readU16_eq (by omega), ok_bind, hb16, sub_eq (by omega), ok_bind]
    by_cases c5 : compressionAt body > d
    · rw [if_pos (by omega), if_neg (by omega)]
      rfl
    rw [if_neg (by omega), p2]
    by_cases c6 : compressionAt body + 1 > d
    · rw [if_pos (by omega), if_neg (by omega)]
      rfl
    rw [if_neg (by omega), readU8_eq (by omega), ok_bind, hb8, sub_eq (by omega), ok_bind]
    by_cases c7 : extensionsAt body > d
    · rw [if_pos (by omega), if_neg (by omega)]
      rfl
    rw [if_neg (by omega), p3, sub_eq (by omega), ok_bind]
    by_cases c8 : extensionsAt body + 2 > d
    · rw [if_pos (by omega), if_neg (by omega)]
      rfl
    rw [if_neg (by omega), readU16_eq (by omega), ok_bind, hb16, sub_eq (by omega), ok_bind, p4]
    by_cases c9 : extensionsAt body + 2 + u16 body (extensionsAt body) > d
    · rw [if_pos (by omega), if_neg (by omega)]
      rfl
    rw [if_neg (by omega), if_pos (by omega)]
  · rw [if_pos h1, if_neg (fun h => h1 h.1)]
    rfl

/-- Where the TLS reader finds a name in a message. -/
def NamedForTls (message name : Bytes) : Prop :=
  u8 message 0 = 1 ∧ ∃ extensions, HelloBody (message.drop 4) extensions ∧ ServerNamed extensions name

/-- Where the QUIC reader finds a name in a message. -/
def NamedForQuic (message name : Bytes) : Prop :=
  u8 message 0 = 1 ∧ ∃ extensions, HelloBody (message.drop 4) extensions ∧ NamesHost extensions name

theorem parseTlsClientHello_iff (hm : minor.toNat ≤ 4) (hl : message.length < 65536)
    (hd : 4 + declaredLength message = message.length) :
    Safe (parseTlsClientHello (handshakeRecord minor message)) (Finds (NamedForTls message)) := by
  have hlen : (handshakeRecord minor message).length = 5 + message.length := length_handshakeRecord
  have hbody : (message.drop 4).length + 4 = message.length := by
    rw [List.length_drop]
    omega
  rw [parseTlsClientHello_eq hm hl hd]
  refine .ite (fun h => ?_) fun h => .ok (finds_none ?_)
  · obtain ⟨h1, hle⟩ := h
    refine (extensionLoop_iff (by omega) (by omega) (by omega)).mono fun r hr => hr.congr fun name => ?_
    rw [Nat.add_sub_cancel_left, slice_body]
    constructor
    · exact fun hn => ⟨h1, _, helloBody_iff.mpr ⟨hle, rfl⟩, hn⟩
    · rintro ⟨-, extensions, hb, hn⟩
      obtain ⟨-, rfl⟩ := helloBody_iff.mp hb
      exact hn
  · rintro name ⟨h1, extensions, hb, -⟩
    exact h ⟨h1, (helloBody_iff.mp hb).1⟩

theorem sniFromClientHello_finds (hd : 4 + declaredLength message = message.length) :
    Safe (sniFromClientHello message) (Finds (NamedForQuic message)) := by
  have hslice : slice message 4 (declaredLength message) = message.drop 4 :=
    List.take_of_length_le (by rw [List.length_drop]; omega)
  refine (sniFromClientHello_iff message).mono fun r hr => Finds.congr hr fun name => ?_
  rw [namedHello_iff, hslice, hello_iff_helloBody]
  exact ⟨fun h => ⟨h.2.1, h.2.2.2⟩, fun h => ⟨by omega, h.1, by omega, h.2⟩⟩

/-! ### Where the readers agree -/

/-- The QUIC reader in terms of the first server_name extension. -/
theorem namesHost_iff_first {exts name : Bytes} :
    NamesHost exts name ↔ ∃ data rest, FirstServerName exts data rest ∧
      (Offers data name ∨ (∀ other, ¬ Offers data other) ∧ NamesHost rest name) := by
  constructor
  · intro h
    induction h with
    | here hd ho => exact ⟨_, _, .here hd, .inl ho⟩
    | @skip type data rest name ht hd hno hr ih =>
      by_cases h0 : type = 0
      · subst h0
        exact ⟨data, rest, .here hd, .inr ⟨hno rfl, hr⟩⟩
      · obtain ⟨data', rest', hf, h⟩ := ih
        exact ⟨data', rest', .skip ht h0 hd hf, h⟩
  · rintro ⟨data, rest, hf, h⟩
    induction hf with
    | here hd =>
      rcases h with ho | ⟨hno, hr⟩
      · exact .here hd ho
      · exact .skip (by decide) hd (fun _ => hno) hr
    | skip ht hne hd _ ih => exact .skip ht hd (fun h0 => absurd h0 hne) (ih h)

/-- The first server_name extension starts with a host_name entry, or the TLS
reader finds further down its list what the QUIC reader finds further on. -/
def Agree (message : Bytes) : Prop :=
  ∀ extensions, u8 message 0 = 1 → HelloBody (message.drop 4) extensions →
    ∀ data rest, FirstServerName extensions data rest →
      (∃ name, Offers data name) ∨ ∀ name, ListsHost data name ↔ NamesHost rest name

theorem named_iff_agree : (∀ name, NamedForTls message name ↔ NamedForQuic message name) ↔ Agree message := by
  constructor
  · intro h extensions h1 hb data rest hf
    by_cases ho : ∃ name, Offers data name
    · exact .inl ho
    refine .inr fun name => ?_
    have huniq : ∀ extensions', HelloBody (message.drop 4) extensions' → extensions' = extensions :=
      fun extensions' hb' => (helloBody_iff.mp hb').2.trans (helloBody_iff.mp hb).2.symm
    constructor
    · intro hl
      obtain ⟨-, extensions', hb', hn⟩ := (h name).mp ⟨h1, extensions, hb, data, rest, hf, hl⟩
      obtain rfl := huniq _ hb'
      obtain ⟨data', rest', hf', hn⟩ := namesHost_iff_first.mp hn
      obtain ⟨rfl, rfl⟩ := hf.unique hf'
      rcases hn with ho' | ⟨-, hr⟩
      · exact absurd ⟨name, ho'⟩ ho
      · exact hr
    · intro hr
      have hn : NamesHost extensions name :=
        namesHost_iff_first.mpr ⟨data, rest, hf, .inr ⟨fun other ho' => ho ⟨other, ho'⟩, hr⟩⟩
      obtain ⟨-, extensions', hb', data', rest', hf', hl⟩ := (h name).mpr ⟨h1, extensions, hb, hn⟩
      obtain rfl := huniq _ hb'
      obtain ⟨rfl, rfl⟩ := hf.unique hf'
      exact hl
  · intro h name
    refine and_congr_right fun h1 => exists_congr fun extensions => and_congr_right fun hb => ?_
    rw [namesHost_iff_first]
    refine exists₂_congr fun data rest => and_congr_right fun hf => ?_
    rcases h extensions h1 hb data rest hf with ⟨other, ho⟩ | hrest
    · constructor
      · intro hl
        obtain rfl := hl.unique (listsHost_of_offers ho)
        exact .inl ho
      · rintro (ho' | ⟨hno, -⟩)
        · exact listsHost_of_offers ho'
        · exact absurd ho (hno other)
    · constructor
      · intro hl
        by_cases ho : ∃ other, Offers data other
        · obtain ⟨other, ho⟩ := ho
          obtain rfl := hl.unique (listsHost_of_offers ho)
          exact .inl ho
        · exact .inr ⟨fun other ho' => ho ⟨other, ho'⟩, (hrest name).mp hl⟩
      · rintro (ho | ⟨-, hr⟩)
        · exact listsHost_of_offers ho
        · exact (hrest name).mpr hr

/-- **The two readers agree** exactly where the first server_name extension
starts with a host_name entry, or what follows that entry in the list is what the
later extensions offer. -/
theorem readers_agree_iff (hl : message.length ≤ 65535) (hd : 4 + declaredLength message = message.length) :
    ∃ tls quic, parseTlsClientHello (handshakeRecord 1 message) = .ok tls ∧
      sniFromClientHello message = .ok quic ∧ (tls = quic ↔ Agree message) := by
  have htls : Safe (parseTlsClientHello (handshakeRecord 1 message)) _ :=
    parseTlsClientHello_iff (by decide) (by omega) hd
  obtain ⟨tls, htls, hf⟩ := htls
  obtain ⟨quic, hquic, hf'⟩ := sniFromClientHello_finds hd
  refine ⟨tls, quic, htls, hquic, ?_⟩
  rw [← named_iff_agree]
  exact hf.eq_iff hf'

end Record

/-- A ClientHello whose server_name list holds an empty entry of another type
and then the host a. -/
def secondEntryHello : Bytes :=
  [0x01, 0x00, 0x00, 0x35] ++ List.replicate 34 0x00 ++ [0x00, 0x00, 0x00, 0x00, 0x00, 0x0d] ++
    [0x00, 0x00, 0x00, 0x09, 0x00, 0x07, 0x01, 0x00, 0x00, 0x00, 0x00, 0x01, 0x61]

theorem readers_differ :
    secondEntryHello.length ≤ 65535 ∧ 4 + declaredLength secondEntryHello = secondEntryHello.length ∧
      parseTlsClientHello (handshakeRecord 1 secondEntryHello) = .ok (some "a") ∧
      sniFromClientHello secondEntryHello = .ok none := by
  decide

/-- The same list with the host a in front. -/
def firstEntryHello : Bytes :=
  [0x01, 0x00, 0x00, 0x35] ++ List.replicate 34 0x00 ++ [0x00, 0x00, 0x00, 0x00, 0x00, 0x0d] ++
    [0x00, 0x00, 0x00, 0x09, 0x00, 0x07, 0x00, 0x00, 0x01, 0x61, 0x01, 0x00, 0x00]

theorem readers_agree_iff_first :
    ∃ tls quic, parseTlsClientHello (handshakeRecord 1 firstEntryHello) = .ok tls ∧
      sniFromClientHello firstEntryHello = .ok quic ∧ tls = quic := by
  obtain ⟨tls, quic, htls, hquic, hiff⟩ := @readers_agree_iff firstEntryHello (by decide) (by decide)
  refine ⟨tls, quic, htls, hquic, hiff.mpr fun extensions _ hb data rest hfirst => .inl ⟨[0x61], ?_⟩⟩
  obtain ⟨-, rfl⟩ := helloBody_iff.mp hb
  have hoffers : Offers [0x00, 0x07, 0x00, 0x00, 0x01, 0x61, 0x01, 0x00, 0x00] [0x61] :=
    ⟨[0x01, 0x00, 0x00], [], by decide, by decide, by decide⟩
  have hhere : FirstServerName [0x00, 0x00, 0x00, 0x09, 0x00, 0x07, 0x00, 0x00, 0x01, 0x61, 0x01, 0x00, 0x00]
      [0x00, 0x07, 0x00, 0x00, 0x01, 0x61, 0x01, 0x00, 0x00] [] :=
    @FirstServerName.here [0x00, 0x07, 0x00, 0x00, 0x01, 0x61, 0x01, 0x00, 0x00] [] (by decide)
  obtain ⟨rfl, -⟩ := hhere.unique hfirst
  exact hoffers

/-! ### Well-formed ClientHellos -/

structure HelloExtension where
  type : ℕ
  data : Bytes
  type_lt : type < 65536
  data_lt : data.length < 65536

def HelloExtension.bytes (e : HelloExtension) : Bytes := be16 e.type ++ vec16 e.data

/-- An entry in the list of a server_name extension; a host_name has type 0. -/
structure NameEntry where
  type : UInt8
  name : Bytes

def NameEntry.bytes (x : NameEntry) : Bytes := x.type :: vec16 x.name

theorem NameEntry.length_bytes (x : NameEntry) : x.bytes.length = 3 + x.name.length := by
  rw [bytes, List.length_cons, length_vec16]
  omega

/-- The contents of a ClientHello whose vectors fit their length fields. -/
structure ClientHello where
  version : Block 2
  random : Block 32
  sessionId : Bytes
  cipherSuites : Bytes
  compressionMethods : Bytes
  extensions : List HelloExtension
  sessionId_lt : sessionId.length < 256
  cipherSuites_lt : cipherSuites.length < 65536
  compressionMethods_lt : compressionMethods.length < 256
  extensions_lt : (extensions.flatMap HelloExtension.bytes).length < 65536

namespace ClientHello

def body (hello : ClientHello) : Bytes :=
  hello.version.1 ++ hello.random.1 ++ vec8 hello.sessionId ++ vec16 hello.cipherSuites ++
    vec8 hello.compressionMethods ++ vec16 (hello.extensions.flatMap HelloExtension.bytes)

def message (hello : ClientHello) : Bytes := 1 :: be24 hello.body.length ++ hello.body

/-- The one server_name extension lists the host `name`, behind the entries
`earlier` and before `later`, none of which is a host. -/
def Lists (hello : ClientHello) (earlier : List NameEntry) (name : Bytes) (later : List NameEntry) : Prop :=
  ∃ before e after, hello.extensions = before ++ e :: after ∧ (∀ x ∈ before ++ after, x.type ≠ 0) ∧ e.type = 0 ∧
    (∀ x ∈ earlier ++ later, x.type ≠ 0) ∧
    e.data = vec16 ((earlier ++ ⟨0, name⟩ :: later).flatMap NameEntry.bytes)

def Nameless (hello : ClientHello) : Prop := ∀ e ∈ hello.extensions, e.type ≠ 0

variable {hello : ClientHello} {name : Bytes}

theorem helloBody (hello : ClientHello) : HelloBody hello.body (hello.extensions.flatMap HelloExtension.bytes) :=
  ⟨hello.version.1 ++ hello.random.1, hello.sessionId, hello.cipherSuites, hello.compressionMethods, [],
    by rw [List.append_nil]; rfl, by rw [List.length_append, hello.version.2, hello.random.2],
    hello.sessionId_lt, hello.cipherSuites_lt, hello.compressionMethods_lt, hello.extensions_lt⟩

theorem length_body_lt (hello : ClientHello) : hello.body.length < 2 ^ 24 := by
  have h1 := hello.sessionId_lt
  have h2 := hello.cipherSuites_lt
  have h3 := hello.compressionMethods_lt
  have h4 := hello.extensions_lt
  simp only [body, List.length_append, length_vec8, length_vec16, hello.version.2, hello.random.2]
  omega

theorem length_message (hello : ClientHello) : hello.message.length = 4 + hello.body.length := by
  simp only [message, List.length_append, List.length_cons, length_be24]

theorem declaredLength_message (hello : ClientHello) (tail : Bytes) :
    declaredLength (hello.message ++ tail) = hello.body.length := by
  have hlt := hello.length_body_lt
  have hat : At (hello.message ++ tail) 0 (1 :: be24 hello.body.length) :=
    ⟨[], hello.body ++ tail, by rw [message, List.nil_append, List.append_assoc], rfl⟩
  simp only [be24, be16, at_cons_cons] at hat
  obtain ⟨-, h1, h2, h3⟩ := hat
  rw [declaredLength, h1.u8, h2.u8, h3.u8, toNat_ofNat, toNat_ofNat, toNat_ofNat]
  omega

theorem firstServerName_extensions :
    ∀ {before : List HelloExtension} {e : HelloExtension} {after : List HelloExtension},
    (∀ x ∈ before, x.type ≠ 0) → e.type = 0 →
    FirstServerName ((before ++ e :: after).flatMap HelloExtension.bytes) e.data (after.flatMap HelloExtension.bytes)
  | [], e, after, _, he => by
    rw [List.nil_append, List.flatMap_cons, HelloExtension.bytes, he]
    exact .here e.data_lt
  | x :: before, e, after, hx, he => by
    obtain ⟨hne, hbefore⟩ := List.forall_mem_cons.mp hx
    rw [List.cons_append, List.flatMap_cons]
    exact .skip x.type_lt hne x.data_lt (firstServerName_extensions hbefore he)

theorem not_firstServerName : ∀ {extensions : List HelloExtension} {data rest : Bytes},
    (∀ x ∈ extensions, x.type ≠ 0) → ¬ FirstServerName (extensions.flatMap HelloExtension.bytes) data rest
  | [], _, _, _, h => by
    have hle := (firstServerName_iff.mp h).1
    simp at hle
  | x :: extensions, _, _, hx, h => by
    obtain ⟨hne, hrest⟩ := List.forall_mem_cons.mp hx
    rw [List.flatMap_cons, HelloExtension.bytes] at h
    have hfields := fun rest => @extension_fields x.type x.data rest x.type_lt x.data_lt
    obtain ⟨e0, e2, -, e5⟩ := hfields (extensions.flatMap HelloExtension.bytes)
    rcases (firstServerName_iff.mp h).2 with ⟨h0, -⟩ | ⟨-, hr⟩
    · exact hne (e0.symm.trans h0)
    · rw [e2, e5] at hr
      exact not_firstServerName hrest hr

/-- The host is the first in its list. -/
theorem firstHost_entries : ∀ {earlier later : List NameEntry} {name : Bytes}, (∀ x ∈ earlier, x.type ≠ 0) →
    ((earlier ++ ⟨0, name⟩ :: later).flatMap NameEntry.bytes).length < 65536 →
    FirstHost ((earlier ++ ⟨0, name⟩ :: later).flatMap NameEntry.bytes) name
  | [], later, name, _, hl => by
    rw [List.nil_append, List.flatMap_cons] at hl ⊢
    rw [List.length_append, NameEntry.length_bytes] at hl
    have hentry : 3 + name.length < 65536 := Nat.lt_of_le_of_lt (Nat.le_add_right ..) hl
    exact .here (by omega)
  | x :: earlier, later, name, hx, hl => by
    obtain ⟨hne, hearlier⟩ := List.forall_mem_cons.mp hx
    rw [List.cons_append, List.flatMap_cons] at hl ⊢
    rw [List.length_append, x.length_bytes] at hl
    exact .skip hne (by omega) (firstHost_entries hearlier (by omega))

/-- A list offers its first entry, if that is a host. -/
theorem offers_entries {entries : List NameEntry} {other : Bytes}
    (h : Offers (vec16 (entries.flatMap NameEntry.bytes)) other) : ∀ x ∈ entries.head?, x.type = 0 := by
  obtain ⟨more, pad, heq, -, hlen⟩ := h
  have hat : u8 (vec16 (entries.flatMap NameEntry.bytes)) 2 = 0 := by
    rw [heq]
    rfl
  intro x hx
  obtain ⟨rest, rfl⟩ := List.head?_eq_some_iff.mp hx
  exact UInt8.toNat.inj hat

/-- What the readers find of such a list. -/
theorem Lists.first {earlier later : List NameEntry} (h : hello.Lists earlier name later) :
    ∃ data rest, FirstServerName (hello.extensions.flatMap HelloExtension.bytes) data rest ∧
      ListsHost data name ∧ (earlier = [] → Offers data name) ∧
      (earlier ≠ [] → ∀ other, ¬ Offers data other ∧ ¬ NamesHost rest other) := by
  obtain ⟨before, e, after, hexts, hne, he, hentries, hdata⟩ := h
  have hlt := e.data_lt
  rw [hdata, length_vec16] at hlt
  refine ⟨e.data, after.flatMap HelloExtension.bytes, ?_, ?_, ?_, ?_⟩
  · rw [hexts]
    exact firstServerName_extensions (fun x hx => hne x (List.mem_append_left _ hx)) he
  · refine ⟨_, [], by rw [hdata, List.append_nil], by omega, firstHost_entries (fun x hx => ?_) (by omega)⟩
    exact hentries x (List.mem_append_left _ hx)
  · rintro rfl
    rw [List.nil_append, List.flatMap_cons] at hdata hlt
    rw [List.length_append, NameEntry.length_bytes] at hlt
    dsimp only at hlt
    exact ⟨later.flatMap NameEntry.bytes, [], by rw [hdata, List.append_nil]; rfl, by omega, by omega⟩
  · intro hearlier other
    obtain ⟨x, earlier, rfl⟩ := List.exists_cons_of_ne_nil hearlier
    refine ⟨fun hoffers => ?_, fun hnames => ?_⟩
    · rw [hdata] at hoffers
      exact hentries x (by simp) (offers_entries hoffers x rfl)
    · obtain ⟨data, rest, hfirst, -⟩ := namesHost_iff_first.mp hnames
      exact not_firstServerName (fun x hx => hne x (List.mem_append_right _ hx)) hfirst

/-- The QUIC reader on the message and whatever follows it. -/
theorem sniFromClientHello_message (hello : ClientHello) (tail : Bytes) :
    Safe (sniFromClientHello (hello.message ++ tail))
      (Finds (NamesHost (hello.extensions.flatMap HelloExtension.bytes))) := by
  have hlen := hello.length_message
  have hdeclared := hello.declaredLength_message tail
  have hslice : slice (hello.message ++ tail) 4 hello.body.length = hello.body := by
    rw [slice, message, List.append_assoc, List.cons_append]
    exact List.take_left
  refine (sniFromClientHello_iff _).mono fun r hr => Finds.congr hr fun name => ?_
  rw [namedHello_iff, hdeclared, hslice, hello_iff_helloBody, List.length_append]
  constructor
  · rintro ⟨-, -, -, extensions, hb, hn⟩
    rwa [(helloBody_iff.mp hello.helloBody).2, ← (helloBody_iff.mp hb).2]
  · exact fun hn => ⟨by omega, rfl, by omega, _, hello.helloBody, hn⟩

/-- The TLS reader on the record and whatever follows it. -/
theorem parseTlsClientHello_record (hello : ClientHello) (tail : Bytes) {minor : UInt8} (hm : minor.toNat ≤ 4)
    (hl : hello.message.length ≤ 65535) :
    Safe (parseTlsClientHello (handshakeRecord minor hello.message ++ tail))
      (Finds (ServerNamed (hello.extensions.flatMap HelloExtension.bytes))) := by
  have hlen := hello.length_message
  have hdeclared := hello.declaredLength_message []
  rw [List.append_nil] at hdeclared
  have hdrop : hello.message.drop 4 = hello.body := rfl
  rw [parseTlsClientHello_append tail (by rw [length_handshakeRecord, u16_handshakeRecord (by omega)])]
  refine (parseTlsClientHello_iff hm (by omega) (by omega)).mono fun r hr => hr.congr fun name => ?_
  rw [NamedForTls, hdrop]
  constructor
  · rintro ⟨-, extensions, hb, hn⟩
    rwa [(helloBody_iff.mp hello.helloBody).2, ← (helloBody_iff.mp hb).2]
  · exact fun hn => ⟨rfl, _, hello.helloBody, hn⟩

end ClientHello

theorem parseTlsClientHello_of_no_record {payload : Bytes} (h : payload.length < 5 ∨ u8 payload 0 ≠ 0x16) :
    parseTlsClientHello payload = .ok none := by
  have hlooks : looksLikeTlsHandshake payload = .ok false := by
    unfold looksLikeTlsHandshake
    by_cases h5 : payload.length < 5
    · rw [if_pos h5]
      rfl
    · rw [if_neg h5, readU8_eq (by omega), ok_bind, readU8_eq (by omega), ok_bind, readU8_eq (by omega), ok_bind]
      have hne := h.resolve_left h5
      simp [hne]
  rw [parseTlsClientHello, hlooks]
  rfl

/-- A record that is cut short holds nothing for the TLS reader. -/
theorem parseTlsClientHello_short {payload : Bytes} (h5 : 5 ≤ payload.length)
    (h : payload.length < 5 + u16 payload 3) : parseTlsClientHello payload = .ok none := by
  obtain ⟨looks, hlooks, -⟩ := looksLikeTlsHandshake_safe payload
  rw [parseTlsClientHello, hlooks, ok_bind]
  cases looks with
  | false => rfl
  | true =>
    rw [if_neg (by simp), readU16_eq (by omega), ok_bind, if_pos (by omega)]
    rfl

theorem sniFromClientHello_type {stream : Bytes} (h : stream.length < 4 ∨ u8 stream 0 ≠ 1) :
    sniFromClientHello stream = .ok none := by
  rcases Nat.lt_or_ge stream.length 4 with h4 | h4
  · exact sniFromClientHello_short h4
  · rw [sniFromClientHello_eq h4, if_neg fun hc => (h.resolve_left (by omega)) hc.1]

namespace ClientHello

/-- Neither reader finds a name in a message that is not complete. -/
theorem message_take (hello : ClientHello) {n : ℕ} (h : n < hello.message.length) :
    sniFromClientHello (hello.message.take n) = .ok none ∧ parseTlsClientHello (hello.message.take n) = .ok none := by
  have hdeclared := hello.declaredLength_message []
  have hlen := hello.length_message
  rw [List.append_nil] at hdeclared
  have htake : (hello.message.take n).length = n := List.length_take_of_le (by omega)
  constructor
  · rcases Nat.lt_or_ge n 4 with h4 | h4
    · exact sniFromClientHello_short (by omega)
    · rw [sniFromClientHello_take h4 (by omega), if_neg (by omega)]
  · refine parseTlsClientHello_of_no_record ?_
    rcases Nat.lt_or_ge n 5 with h5 | h5
    · exact .inl (by omega)
    · have h0 : u8 hello.message 0 = 1 := rfl
      rw [u8_take (by omega), h0]
      exact .inr (by decide)

/-- Nor in a record that is not. -/
theorem record_take (hello : ClientHello) {minor : UInt8} (hl : hello.message.length ≤ 65535) {n : ℕ}
    (h : n < (handshakeRecord minor hello.message).length) :
    sniFromClientHello ((handshakeRecord minor hello.message).take n) = .ok none ∧
      parseTlsClientHello ((handshakeRecord minor hello.message).take n) = .ok none := by
  have hlen : (handshakeRecord minor hello.message).length = 5 + hello.message.length := length_handshakeRecord
  have htake : ((handshakeRecord minor hello.message).take n).length = n := List.length_take_of_le (by omega)
  constructor
  · refine sniFromClientHello_type ?_
    rcases Nat.lt_or_ge n 4 with h4 | h4
    · exact .inl (by omega)
    · have h0 : u8 (handshakeRecord minor hello.message) 0 = 0x16 := rfl
      rw [u8_take (by omega), h0]
      exact .inr (by decide)
  · rcases Nat.lt_or_ge n 5 with h5 | h5
    · exact parseTlsClientHello_of_no_record (.inl (by omega))
    · have h3 : u16 ((handshakeRecord minor hello.message).take n) 3 = hello.message.length := by
        rw [u16, u8_take (by omega), u8_take (by omega)]
        exact u16_handshakeRecord (by omega)
      exact parseTlsClientHello_short (by omega) (by omega)

end ClientHello

namespace ClientHello

/-- What both readers are to make of a ClientHello, whatever follows it: the host
it lists, nothing without a server_name extension, and nothing of a proper prefix.
A record is for messages that fit in one. -/
structure Recovered (hello : ClientHello) : Prop where
  listed : ∀ earlier name later, hello.Lists earlier name later → ∀ tail,
    sniFromClientHello (hello.message ++ tail) = .ok (some (ofBytes name)) ∧
    (hello.message.length ≤ 65535 → ∀ minor : Fin 5,
      parseTlsClientHello (handshakeRecord (.ofNat minor) hello.message ++ tail) = .ok (some (ofBytes name)))
  nameless : hello.Nameless → ∀ tail,
    sniFromClientHello (hello.message ++ tail) = .ok none ∧
    (hello.message.length ≤ 65535 → ∀ minor : Fin 5,
      parseTlsClientHello (handshakeRecord (.ofNat minor) hello.message ++ tail) = .ok none)
  message_prefix : ∀ n < hello.message.length,
    sniFromClientHello (hello.message.take n) = .ok none ∧ parseTlsClientHello (hello.message.take n) = .ok none
  record_prefix : hello.message.length ≤ 65535 → ∀ minor : Fin 5,
    ∀ n < (handshakeRecord (.ofNat minor) hello.message).length,
      sniFromClientHello ((handshakeRecord (.ofNat minor) hello.message).take n) = .ok none ∧
      parseTlsClientHello ((handshakeRecord (.ofNat minor) hello.message).take n) = .ok none

/-- No entry stands before the host in its list. -/
def HostFirst (hello : ClientHello) : Prop :=
  ∀ earlier name later, hello.Lists earlier name later → earlier = []

theorem minor_le (minor : Fin 5) : (UInt8.ofNat minor).toNat ≤ 4 := by
  have hlt := minor.isLt
  rw [toNat_ofNat]
  omega

variable {hello : ClientHello} {name : Bytes} {earlier later : List NameEntry}

/-- The QUIC reader finds the host only where no entry stands before it. -/
theorem Lists.sniFromClientHello (h : hello.Lists earlier name later) (tail : Bytes) :
    QuicParser.sniFromClientHello (hello.message ++ tail) =
      .ok (if earlier = [] then some (ofBytes name) else none) := by
  obtain ⟨quic, hquic, hfinds⟩ := hello.sniFromClientHello_message tail
  obtain ⟨data, rest, hfirst, -, hoffers, hnone⟩ := h.first
  rw [hquic]
  split
  · rename_i hempty
    rw [hfinds.eq_some (namesHost_iff_first.mpr ⟨data, rest, hfirst, .inl (hoffers hempty)⟩)]
  · rename_i hne
    rw [hfinds.eq_none fun other hother => ?_]
    obtain ⟨data', rest', hfirst', hcase⟩ := namesHost_iff_first.mp hother
    obtain ⟨rfl, rfl⟩ := hfirst.unique hfirst'
    exact hcase.elim (hnone hne other).1 fun hlater => (hnone hne other).2 hlater.2

/-- The TLS reader finds it wherever it stands. -/
theorem Lists.parseTlsClientHello (h : hello.Lists earlier name later) (hl : hello.message.length ≤ 65535)
    (minor : Fin 5) (tail : Bytes) :
    ProtocolParser.parseTlsClientHello (handshakeRecord (.ofNat minor) hello.message ++ tail) =
      .ok (some (ofBytes name)) := by
  obtain ⟨data, rest, hfirst, hlists, -⟩ := h.first
  obtain ⟨tls, htls, hfinds⟩ := hello.parseTlsClientHello_record tail (minor_le minor) hl
  rw [htls, hfinds.eq_some ⟨data, rest, hfirst, hlists⟩]

theorem Nameless.read (h : hello.Nameless) (tail : Bytes) :
    QuicParser.sniFromClientHello (hello.message ++ tail) = .ok none ∧
    (hello.message.length ≤ 65535 → ∀ minor : Fin 5,
      ProtocolParser.parseTlsClientHello (handshakeRecord (.ofNat minor) hello.message ++ tail) = .ok none) := by
  refine ⟨?_, fun hl minor => ?_⟩
  · obtain ⟨quic, hquic, hfinds⟩ := hello.sniFromClientHello_message tail
    rw [hquic, hfinds.eq_none fun name hname => ?_]
    obtain ⟨data, rest, hfirst, -⟩ := namesHost_iff_first.mp hname
    exact not_firstServerName h hfirst
  · obtain ⟨tls, htls, hfinds⟩ := hello.parseTlsClientHello_record tail (minor_le minor) hl
    rw [htls, hfinds.eq_none fun name hname => ?_]
    obtain ⟨data, rest, hfirst, -⟩ := hname
    exact not_firstServerName h hfirst

end ClientHello

/-- **Both readers recover the name of a well-formed ClientHello**, from the
message and from a record of TLS 3.0 to 3.4, exactly when its host stands first
in the list of the server_name extension. -/
theorem clientHello_read_iff (hello : ClientHello) : hello.Recovered ↔ hello.HostFirst := by
  constructor
  · intro h earlier name later hlists
    by_contra hne
    have hread := (h.listed earlier name later hlists []).1
    rw [hlists.sniFromClientHello, if_neg hne] at hread
    cases hread
  · intro h
    refine ⟨fun earlier name later hlists tail => ⟨?_, fun hl minor => hlists.parseTlsClientHello hl minor tail⟩,
      fun hnone => hnone.read, fun n => hello.message_take, fun hl minor n => hello.record_take hl⟩
    rw [hlists.sniFromClientHello, if_pos (h earlier name later hlists)]

/-- A ClientHello for the host a, behind an empty entry of another type. -/
def helloForSecond : ClientHello where
  version := ⟨[0x03, 0x03], rfl⟩
  random := ⟨List.replicate 32 0x11, rfl⟩
  sessionId := []
  cipherSuites := [0x13, 0x01]
  compressionMethods := [0x00]
  extensions := [⟨0, vec16 (([⟨1, []⟩, ⟨0, [0x61]⟩] : List NameEntry).flatMap NameEntry.bytes), by decide, by decide⟩]
  sessionId_lt := by decide
  cipherSuites_lt := by decide
  compressionMethods_lt := by decide
  extensions_lt := by decide

/-- The QUIC reader gives up where the TLS reader goes on. -/
theorem clientHello_second_entry :
    helloForSecond.Lists [⟨1, []⟩] [0x61] [] ∧
      parseTlsClientHello (handshakeRecord 3 helloForSecond.message) = .ok (some "a") ∧
      sniFromClientHello helloForSecond.message = .ok none ∧ ¬ helloForSecond.Recovered := by
  have hlists : helloForSecond.Lists [⟨1, []⟩] [0x61] [] := ⟨[], _, [], rfl, by simp, rfl, by simp, rfl⟩
  refine ⟨hlists, by decide, by decide, fun h => ?_⟩
  have hread := (h.listed _ _ _ hlists []).1
  rw [hlists.sniFromClientHello] at hread
  cases hread

end ProtocolParser
end NetProbe
