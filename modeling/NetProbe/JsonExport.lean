/-
# JsonExport

The JSON export of the flows. Whatever the flows hold, the document is UTF-8 and
a reader gets the flows back from it: every number exactly, every text with the
bytes that start no valid sequence replaced (`writeJson_read_back`).

Key definitions: `jsonFields`, `writeJson`, `flowValue`, `documentValue`.
Key theorems: `formatFloat_nat`, `appendFields_members`, `writeJson_read_back`.
-/
import NetProbe.FlowExporter
import NetProbe.JsonStrings
import NetProbe.JsonValues

namespace NetProbe
namespace FlowExporter

open Bytes Checked

/-! ### The document -/

/-- The bytes of a text whose characters are bytes. -/
def toBytes (text : String) : Bytes := text.toList.map fun c => UInt8.ofNat c.toNat

/-- The value of a field: a string literal, or text as it is. -/
inductive Field
  | quoted (value : String)
  | plain (text : String)

def appendField (document : Bytes) (label : String) : Field → Checked Bytes
  | .quoted value => appendJsonString (document ++ toBytes label) (toBytes value)
  | .plain text => .ok (document ++ toBytes label ++ toBytes text)

/-- The fields of a flow, each behind its label. -/
def jsonFields (geo : Option (String → GeoIPInfo)) (flow : Flow) : List (String × Field) :=
  let info := lookupGeo geo flow.key.dstIP
  [("\n      \"src_ip\": ", .quoted flow.key.srcIP),
    (",\n      \"src_port\": ", .plain (toString flow.key.srcPort)),
    (",\n      \"dst_ip\": ", .quoted flow.key.dstIP),
    (",\n      \"dst_port\": ", .plain (toString flow.key.dstPort)),
    (",\n      \"protocol\": ", .quoted flow.key.protocol),
    (",\n      \"service\": ", .quoted flow.service),
    (",\n      \"hostname\": ", .quoted flow.hostname),
    (",\n      \"process\": ", .quoted flow.process),
    (",\n      \"country\": ", .quoted info.country),
    (",\n      \"asn\": ", .plain (toString info.asn.toNat)),
    (",\n      \"organization\": ", .quoted info.organization),
    (",\n      \"packets\": ", .plain (toString flow.packets.toNat)),
    (",\n      \"bytes_up\": ", .plain (toString flow.bytesUp.toNat)),
    (",\n      \"bytes_down\": ", .plain (toString flow.bytesDown.toNat)),
    (",\n      \"first_seen_us\": ", .plain (toString flow.firstSeen)),
    (",\n      \"last_seen_us\": ", .plain (toString flow.lastSeen)),
    (",\n      \"duration_sec\": ", .plain (toString (durationSecondsOf flow))),
    (",\n      \"rate_bytes_per_sec\": ", .plain (formatFloat (toDouble flow.rateBytesPerSecond.toNat) 1)),
    (",\n      \"initial_rtt_us\": ", .plain (toString flow.initialRttMicroseconds)),
    (",\n      \"retransmissions_up\": ", .plain (toString flow.retransmissionsUp.toNat)),
    (",\n      \"retransmissions_down\": ", .plain (toString flow.retransmissionsDown.toNat)),
    (",\n      \"out_of_order_up\": ", .plain (toString flow.outOfOrderUp.toNat)),
    (",\n      \"out_of_order_down\": ", .plain (toString flow.outOfOrderDown.toNat)),
    (",\n      \"encrypted_tunnel\": ", .plain (if flow.encryptedTunnel then "true" else "false"))]

def appendFields (document : Bytes) (fields : List (String × Field)) : Checked Bytes :=
  fields.foldlM (fun document field => appendField document field.1 field.2) document

/-- The loop over the flows; `first` until one has been written. -/
def appendFlows (geo : Option (String → GeoIPInfo)) : (first : Bool) → List Flow → Bytes → Checked Bytes
  | _, [], document => .ok document
  | first, flow :: flows, document => do
    let document := document ++ toBytes (if first then "\n    \x7b" else ",\n    \x7b")
    let document ← appendFields document (jsonFields geo flow)
    appendFlows geo false flows (document ++ toBytes "\n    \x7d")

/-- `version` is NETPROBE_VERSION, `now` the time of the export. -/
def writeJson (version : Bytes) (now : ℤ) (geo : Option (String → GeoIPInfo)) (flows : List Flow) : Checked Bytes := do
  let document ← appendJsonString (toBytes "\x7b\n  \"netprobe_version\": ") version
  let document := document ++ toBytes ",\n  \"generated_unix_us\": " ++ toBytes (toString now)
  let document := document ++ toBytes ",\n  \"flow_count\": " ++ toBytes (toString flows.length)
  let document := document ++ toBytes ",\n  \"flows\": ["
  let document ← appendFlows geo true flows document
  return document ++ toBytes (if flows.isEmpty then "]\n\x7d\n" else "\n  ]\n\x7d\n")

/-! ### What a reader should get -/

/-- Every byte string is text once what is not valid is replaced. -/
theorem exists_replaces (value : Bytes) : ∃ text, Utf8.Replaces value text := by
  obtain ⟨_, text, -, -, h⟩ := @jsonLoop_spells value (value.length + 1) 0 [] (Nat.zero_le _) (by omega)
  exact ⟨text, h⟩

/-- The text of a byte string, with what is not valid replaced. -/
noncomputable def shown (value : Bytes) : List Char := (exists_replaces value).choose

theorem replaces_shown (value : Bytes) : Utf8.Replaces value (shown value) := (exists_replaces value).choose_spec

noncomputable def stringValue (value : String) : Json.Value := .string (shown (toBytes value))

/-- The members of a flow's object. -/
noncomputable def flowMembers (geo : Option (String → GeoIPInfo)) (flow : Flow) : List (String × Json.Value) :=
  let info := lookupGeo geo flow.key.dstIP
  [("src_ip", stringValue flow.key.srcIP),
    ("src_port", .number flow.key.srcPort),
    ("dst_ip", stringValue flow.key.dstIP),
    ("dst_port", .number flow.key.dstPort),
    ("protocol", stringValue flow.key.protocol),
    ("service", stringValue flow.service),
    ("hostname", stringValue flow.hostname),
    ("process", stringValue flow.process),
    ("country", stringValue info.country),
    ("asn", .number info.asn.toNat),
    ("organization", stringValue info.organization),
    ("packets", .number flow.packets.toNat),
    ("bytes_up", .number flow.bytesUp.toNat),
    ("bytes_down", .number flow.bytesDown.toNat),
    ("first_seen_us", .number flow.firstSeen),
    ("last_seen_us", .number flow.lastSeen),
    ("duration_sec", .number (durationSecondsOf flow)),
    ("rate_bytes_per_sec", .number (toDouble flow.rateBytesPerSecond.toNat)),
    ("initial_rtt_us", .number flow.initialRttMicroseconds),
    ("retransmissions_up", .number flow.retransmissionsUp.toNat),
    ("retransmissions_down", .number flow.retransmissionsDown.toNat),
    ("out_of_order_up", .number flow.outOfOrderUp.toNat),
    ("out_of_order_down", .number flow.outOfOrderDown.toNat),
    ("encrypted_tunnel", .boolean flow.encryptedTunnel)]

def objectOf (members : List (String × Json.Value)) : Json.Value := .object (members.map fun m => (m.1.toList, m.2))

noncomputable def flowValue (geo : Option (String → GeoIPInfo)) (flow : Flow) : Json.Value :=
  objectOf (flowMembers geo flow)

noncomputable def documentValue (version : Bytes) (now : ℤ) (geo : Option (String → GeoIPInfo)) (flows : List Flow) :
    Json.Value :=
  objectOf [("netprobe_version", .string (shown version)), ("generated_unix_us", .number now),
    ("flow_count", .number flows.length), ("flows", .array (flows.map (flowValue geo)))]

/-! ### Numbers -/

theorem roundHalfEven_int (z : ℤ) : roundHalfEven (z : ℚ) = z := by
  simp [roundHalfEven]

theorem roundHalfEven_bounds (value : ℚ) : ⌊value⌋ ≤ roundHalfEven value ∧ roundHalfEven value ≤ ⌊value⌋ + 1 := by
  unfold roundHalfEven
  dsimp only
  split_ifs <;> omega

/-- A 64-bit count as a double is a whole number again. -/
theorem toDouble_nat {n : ℕ} (h : n < 2 ^ 64) : ∃ m : ℕ, toDouble n = m ∧ m < 10 ^ 20 := by
  rcases Nat.eq_zero_or_pos n with rfl | hn
  · exact ⟨0, by simp [toDouble], by decide⟩
  have hne : (n : ℚ) ≠ 0 := Nat.cast_ne_zero.mpr hn.ne'
  have hlog : Int.log 2 |(n : ℚ)| = (Nat.log 2 n : ℤ) := by rw [Nat.abs_cast, Int.log_natCast]
  have hlt : Nat.log 2 n < 64 := Nat.log_lt_of_lt_pow hn.ne' h
  rw [toDouble, if_neg hne, hlog]
  dsimp only
  by_cases hsmall : Nat.log 2 n ≤ 52
  · -- every whole number of at most 53 bits is a double
    have hulp : (2 : ℚ) ^ ((Nat.log 2 n : ℤ) - 52) = ((2 : ℚ) ^ (52 - Nat.log 2 n))⁻¹ := by
      rw [show ((Nat.log 2 n : ℤ) - 52) = -((52 - Nat.log 2 n : ℕ) : ℤ) by omega, zpow_neg, zpow_natCast]
    have hscaled : (n : ℚ) / ((2 : ℚ) ^ (52 - Nat.log 2 n))⁻¹ = ((n * 2 ^ (52 - Nat.log 2 n) : ℤ) : ℚ) := by
      rw [div_inv_eq_mul]
      push_cast
      rfl
    refine ⟨n, ?_, h.trans (by norm_num)⟩
    rw [hulp, hscaled, roundHalfEven_int]
    push_cast
    rw [mul_assoc, mul_inv_cancel₀ (by positivity), mul_one]
  · have hulp : (2 : ℚ) ^ ((Nat.log 2 n : ℤ) - 52) = ((2 ^ (Nat.log 2 n - 52) : ℕ) : ℚ) := by
      rw [show ((Nat.log 2 n : ℤ) - 52) = ((Nat.log 2 n - 52 : ℕ) : ℤ) by omega, zpow_natCast]
      push_cast
      rfl
    rw [hulp]
    have hp : 2 ^ (Nat.log 2 n - 52) ≤ 2 ^ 11 := Nat.pow_le_pow_right (by decide) (by omega)
    have hpos : 0 < 2 ^ (Nat.log 2 n - 52) := by positivity
    generalize 2 ^ (Nat.log 2 n - 52) = p at hp hpos
    obtain ⟨hlow, hhigh⟩ := roundHalfEven_bounds ((n : ℚ) / p)
    rw [Rat.floor_natCast_div_natCast] at hlow hhigh
    obtain ⟨r, hr⟩ := Int.eq_ofNat_of_zero_le ((Int.natCast_nonneg (n / p)).trans hlow)
    rw [hr] at hhigh ⊢
    refine ⟨r * p, by push_cast; rfl, ?_⟩
    have hle : r ≤ n / p + 1 := by exact_mod_cast hhigh
    calc r * p ≤ (n / p + 1) * p := Nat.mul_le_mul_right p hle
      _ = n / p * p + p := by rw [Nat.add_mul, Nat.one_mul]
      _ ≤ n + 2 ^ 11 := Nat.add_le_add (Nat.div_mul_le_self n p) hp
      _ < 10 ^ 20 := by omega

/-- A whole number with one digit behind the point. -/
theorem formatFloat_nat {m : ℕ} (h : m < 10 ^ 20) : (formatFloat m 1).toList = Nat.toDigits 10 m ++ ['.', '0'] := by
  have hscaled : (roundHalfEven (|(m : ℚ)| * 10 ^ 1)).toNat = m * 10 := by
    have hcast : |(m : ℚ)| * 10 ^ 1 = ((m * 10 : ℤ) : ℚ) := by
      rw [Nat.abs_cast]
      push_cast
      ring
    rw [hcast, roundHalfEven_int]
    omega
  have hlen : (Nat.toDigits 10 m).length ≤ 20 := (Nat.length_toDigits_le_iff (by decide) (by decide)).mpr h
  have hsign : ¬ (m : ℚ) < 0 := not_lt.mpr (Nat.cast_nonneg m)
  have hzero : (Nat.toDigits 10 0).leftpad 1 '0' = ['0'] := rfl
  rw [formatFloat, String.toList_ofList, hscaled, if_neg hsign, pow_one, Nat.mul_div_cancel m (by decide),
    Nat.mul_mod_left, hzero, List.nil_append]
  refine List.take_of_length_le ?_
  rw [List.length_append, List.length_cons, List.length_singleton]
  omega

/-! ### Fields -/

/-- The text is one of ASCII characters. -/
def Ascii (text : List Char) : Prop := ∀ c ∈ text, c.toNat < 0x80

instance (text : List Char) : Decidable (Ascii text) := List.decidableBAll _ text

/-- The field is written as a text that stands for the value. -/
def Stands (field : Field) (v : Json.Value) : Prop :=
  ∀ document label, Ascii label.toList → ∃ text, Json.Reads text v ∧
    appendField document label field = .ok (document ++ Utf8.encode (label.toList ++ text))

theorem toBytes_ascii {text : String} (h : Ascii text.toList) : toBytes text = Utf8.encode text.toList := by
  unfold toBytes
  generalize text.toList = chars at h
  induction chars with
  | nil => rfl
  | cons c chars ih =>
    rw [List.map_cons, Utf8.encode_cons, Utf8.encodeChar_ascii (h c List.mem_cons_self),
      ih fun d hd => h d (List.mem_cons_of_mem c hd)]
    rfl

/-- A string literal is appended as the literal of its text. -/
theorem appendJsonString_reads (document value : Bytes) : ∃ text, Json.Reads text (.string (shown value)) ∧
    appendJsonString document value = .ok (document ++ Utf8.encode text) := by
  obtain ⟨text, string, hloop, hspells, hreplaces⟩ := @jsonLoop_spells value (value.length + 1) 0
    (document ++ Utf8.encode ['"']) (Nat.zero_le _) (by omega)
  rw [List.drop_zero] at hreplaces
  obtain rfl := hreplaces.unique (replaces_shown value)
  refine ⟨'"' :: (text ++ ['"']), Json.reads_literal hspells, ?_⟩
  rw [appendJsonString, hloop, ok_bind, pure_eq]
  simp only [Utf8.encode_cons, Utf8.encode_append, Utf8.encode_nil, List.append_assoc, List.append_nil]

theorem stands_quoted (value : String) : Stands (.quoted value) (stringValue value) := by
  intro document label hlabel
  obtain ⟨text, hreads, happend⟩ := appendJsonString_reads (document ++ toBytes label) (toBytes value)
  refine ⟨text, hreads, happend.trans ?_⟩
  rw [toBytes_ascii hlabel, Utf8.encode_append, List.append_assoc]

theorem stands_plain {text : String} {v : Json.Value} (hascii : Ascii text.toList) (h : Json.Reads text.toList v) :
    Stands (.plain text) v := by
  intro document label hlabel
  refine ⟨text.toList, h, ?_⟩
  rw [appendField, toBytes_ascii hlabel, toBytes_ascii hascii, Utf8.encode_append, List.append_assoc]

theorem ascii_digits (n : ℕ) : Ascii (Nat.toDigits 10 n) := by
  intro c hc
  have hdigit := Nat.isDigit_of_mem_toDigits (by decide) (by decide) hc
  rw [Char.isDigit, Bool.and_eq_true, decide_eq_true_eq, decide_eq_true_eq] at hdigit
  have hle : c.toNat ≤ '9'.toNat := hdigit.2
  exact hle.trans_lt (by decide)

theorem toList_nat (n : ℕ) : (toString n).toList = Nat.toDigits 10 n := by rw [Nat.toString_eq_repr, Nat.toList_repr]

theorem stands_nat (n : ℕ) : Stands (.plain (toString n)) (.number n) := by
  refine stands_plain ?_ ?_
  · rw [toList_nat]
    exact ascii_digits n
  · rw [toList_nat]
    exact Json.reads_nat n

theorem ascii_int (z : ℤ) : Ascii (toString z).toList := by
  cases z with
  | ofNat n =>
    show Ascii n.repr.toList
    rw [Nat.toList_repr]
    exact ascii_digits n
  | negSucc n =>
    show Ascii ("-" ++ (n + 1).repr).toList
    rw [String.toList_append, Nat.toList_repr]
    intro c hc
    rcases List.mem_append.mp hc with hc | hc
    · have hminus : Ascii "-".toList := by decide
      exact hminus c hc
    · exact ascii_digits _ c hc

theorem stands_int (z : ℤ) : Stands (.plain (toString z)) (.number z) := stands_plain (ascii_int z) (Json.reads_int z)

theorem stands_rate (rate : UInt64) :
    Stands (.plain (formatFloat (toDouble rate.toNat) 1)) (.number (toDouble rate.toNat)) := by
  obtain ⟨m, hm, hlt⟩ := toDouble_nat rate.toNat_lt
  rw [hm]
  have htext := formatFloat_nat hlt
  refine stands_plain ?_ ?_
  · rw [htext]
    intro c hc
    rcases List.mem_append.mp hc with hc | hc
    · exact ascii_digits m c hc
    · have hpoint : Ascii ['.', '0'] := by decide
      exact hpoint c hc
  · rw [htext]
    have h := @Json.reads_decimal m ['0'] (by decide) (List.forall_mem_singleton.mpr rfl)
    have hvalue : ((Nat.ofDigitChars 10 ['0'] m : ℕ) : ℚ) / 10 ^ ['0'].length = m := by
      have hdigits : Nat.ofDigitChars 10 ['0'] m = 10 * m := rfl
      rw [hdigits, List.length_singleton, pow_one, Nat.cast_mul]
      exact mul_div_cancel_left₀ _ (by norm_num)
    rwa [hvalue] at h

theorem stands_boolean (b : Bool) : Stands (.plain (if b then "true" else "false")) (.boolean b) := by
  cases b with
  | true => exact stands_plain (by decide) Json.reads_true
  | false => exact stands_plain (by decide) Json.reads_false

/-! ### Members -/

/-- The members after the first one: each label starts with a comma. -/
def label (lead name : String) : String := lead ++ "\"" ++ name ++ "\": "

/-- A name that needs no escape. -/
def PlainName (name : String) : Prop := ∀ c ∈ name.toList, c.toNat < 0x80 ∧ 0x20 ≤ c.toNat ∧ c ≠ '"' ∧ c ≠ '\\'

instance (name : String) : Decidable (PlainName name) := List.decidableBAll _ name.toList

theorem spells_self {text : List Char} (h : ∀ c ∈ text, 0x20 ≤ c.toNat ∧ c ≠ '"' ∧ c ≠ '\\') :
    Json.Spells text text := by
  induction text with
  | nil => exact .nil
  | cons c text ih =>
    obtain ⟨hc, hq, hb⟩ := h c List.mem_cons_self
    exact (Json.spells_plain hq hb hc).append (ih fun d hd => h d (List.mem_cons_of_mem c hd))

theorem toList_label (lead name : String) :
    (label lead name).toList = lead.toList ++ '"' :: (name.toList ++ ['"', ':', ' ']) := by
  simp [label]

/-- A field behind its label is a member. -/
theorem stands_member {field : Field} {v : Json.Value} (h : Stands field v) {lead name : String}
    (hname : PlainName name)
    (hascii : Ascii lead.toList) {comma spaces : List Char} (hlead : lead.toList = comma ++ spaces)
    (hspaces : Json.Machine.Spaces spaces) (document : Bytes) :
    ∃ text, Json.ReadsMember text (name.toList, v) ∧
      appendField document (label lead name) field = .ok (document ++ Utf8.encode (comma ++ text)) := by
  have hlabel : Ascii (label lead name).toList := by
    rw [toList_label]
    intro c hc
    have hend : Ascii ['"', ':', ' '] := by decide
    simp only [List.mem_append, List.mem_cons] at hc
    rcases hc with hc | rfl | hc | hc
    · exact hascii c hc
    · decide
    · exact (hname c hc).1
    · exact hend c (by simpa using hc)
  obtain ⟨text, hreads, happend⟩ := h document (label lead name) hlabel
  have hspace : Json.Machine.Spaces [' '] := by decide
  refine ⟨spaces ++ '"' :: (name.toList ++ '"' :: ':' :: ([' '] ++ text)),
    ⟨spaces, name.toList, [' '] ++ text, rfl, hspaces,
    spells_self fun c hc => (hname c hc).2, hreads.after_spaces hspace⟩, ?_⟩
  rw [happend, toList_label, hlead]
  simp

/-- The field is the member behind its label. -/
structure Labels (lead : String) (field : String × Field) (m : String × Json.Value) : Prop where
  label : field.1 = label lead m.1
  name : PlainName m.1
  stands : Stands field.2 m.2

theorem Labels.of {lead text name : String} {field : Field} {v : Json.Value}
    (hlabel : text = FlowExporter.label lead name)
    (hname : PlainName name) (hstands : Stands field v) : Labels lead (text, field) (name, v) :=
  ⟨hlabel, hname, hstands⟩

/-- The fields of a flow are its members. -/
theorem jsonFields_members (geo : Option (String → GeoIPInfo)) (flow : Flow) : ∃ field fields m members,
    jsonFields geo flow = field :: fields ∧ flowMembers geo flow = m :: members ∧
      Labels "\n      " field m ∧ List.Forall₂ (Labels ",\n      ") fields members := by
  refine ⟨_, _, _, _, rfl, rfl, .of (by decide) (by decide) (stands_quoted _), ?_⟩
  have hnat : ∀ {text name : String}, text = label ",\n      " name → PlainName name → ∀ n : ℕ,
      Labels ",\n      " (text, .plain (toString n)) (name, .number n) := fun h hn n => .of h hn (stands_nat n)
  have hint : ∀ {text name : String}, text = label ",\n      " name → PlainName name → ∀ z : ℤ,
      Labels ",\n      " (text, .plain (toString z)) (name, .number z) := fun h hn z => .of h hn (stands_int z)
  have hquoted : ∀ {text name : String}, text = label ",\n      " name → PlainName name → ∀ value : String,
      Labels ",\n      " (text, .quoted value) (name, stringValue value) :=
        fun h hn value => .of h hn (stands_quoted value)
  exact .cons (hnat (by decide) (by decide) _) <| .cons (hquoted (by decide) (by decide) _) <|
    .cons (hnat (by decide) (by decide) _) <| .cons (hquoted (by decide) (by decide) _) <|
    .cons (hquoted (by decide) (by decide) _) <| .cons (hquoted (by decide) (by decide) _) <|
    .cons (hquoted (by decide) (by decide) _) <| .cons (hquoted (by decide) (by decide) _) <|
    .cons (hnat (by decide) (by decide) _) <| .cons (hquoted (by decide) (by decide) _) <|
    .cons (hnat (by decide) (by decide) _) <| .cons (hnat (by decide) (by decide) _) <|
    .cons (hnat (by decide) (by decide) _) <| .cons (hint (by decide) (by decide) _) <|
    .cons (hint (by decide) (by decide) _) <| .cons (hint (by decide) (by decide) _) <|
    .cons (.of (by decide) (by decide) (stands_rate _)) <| .cons (hint (by decide) (by decide) _) <|
    .cons (hnat (by decide) (by decide) _) <| .cons (hnat (by decide) (by decide) _) <|
    .cons (hnat (by decide) (by decide) _) <| .cons (hnat (by decide) (by decide) _) <|
    .cons (.of (by decide) (by decide) (stands_boolean _)) .nil

theorem intercalate_comma {x : List Char} : ∀ xs : List (List Char),
    [','].intercalate (x :: xs) = x ++ xs.flatMap fun y => ',' :: y := by
  intro xs
  induction xs generalizing x with
  | nil => simp
  | cons y xs ih => rw [List.intercalate_cons_cons, ih]; simp

/-- Members behind the first. -/
theorem appendFields_members {fields : List (String × Field)} {members : List (String × Json.Value)}
    (h : List.Forall₂ (Labels ",\n      ") fields members) :
    ∀ document, ∃ texts : List (List Char × List Char × Json.Value),
      texts.map (·.2) = members.map (fun m => (m.1.toList, m.2)) ∧ (∀ x ∈ texts, Json.ReadsMember x.1 x.2) ∧
        appendFields document fields = .ok (document ++ Utf8.encode ((texts.map (·.1)).flatMap fun y => ',' :: y)) := by
  induction h with
  | nil => exact fun document => ⟨[], rfl, by simp, by simp [appendFields]⟩
  | @cons field m fields members hfield _ ih =>
    intro document
    obtain ⟨text, hmember, happend⟩ := stands_member hfield.stands hfield.name (by decide : Ascii ",\n      ".toList)
      (by decide : _ = [','] ++ "\n      ".toList) (by decide) document
    obtain ⟨texts, hvalues, hmembers, hrest⟩ := ih (document ++ Utf8.encode ([','] ++ text))
    refine ⟨(text, m.1.toList, m.2) :: texts, ?_, ?_, ?_⟩
    · rw [List.map_cons, List.map_cons, hvalues]
    · exact List.forall_mem_cons.mpr ⟨hmember, hmembers⟩
    · rw [appendFields, List.foldlM_cons, hfield.label, happend, ok_bind]
      refine hrest.trans ?_
      rw [List.append_assoc, ← Utf8.encode_append]
      rfl

/-- A flow is written as its object. -/
theorem appendFields_object (geo : Option (String → GeoIPInfo)) (flow : Flow) (document : Bytes) : ∃ text,
    Json.Reads text (flowValue geo flow) ∧
      (do let document ← appendFields (document ++ Utf8.encode "\n    \x7b".toList) (jsonFields geo flow)
          return document ++ toBytes "\n    \x7d") = .ok (document ++ Utf8.encode text) := by
  obtain ⟨field, fields, m, members, hfields, hmembers, hfirst, hrest⟩ := jsonFields_members geo flow
  obtain ⟨text, hmember, happend⟩ := stands_member hfirst.stands hfirst.name (by decide : Ascii "\n      ".toList)
    (by decide : _ = [] ++ "\n      ".toList) (by decide) (document ++ Utf8.encode "\n    \x7b".toList)
  obtain ⟨texts, hvalues, hall, happends⟩ := appendFields_members hrest
    (document ++ Utf8.encode "\n    \x7b".toList ++ Utf8.encode ([] ++ text))
  have hspaces : Json.Machine.Spaces "\n    ".toList := by decide
  have hobject := @Json.reads_object ((text, m.1.toList, m.2) :: texts) "\n    ".toList hspaces
    (List.forall_mem_cons.mpr ⟨hmember, hall⟩)
  have hvalue : Json.Value.object (((text, m.1.toList, m.2) :: texts).map (·.2)) = flowValue geo flow := by
    rw [flowValue, objectOf, hmembers, List.map_cons, List.map_cons, hvalues]
  rw [hvalue] at hobject
  refine ⟨_, hobject.after_spaces hspaces, ?_⟩
  have hbrace : "\n    \x7b".toList = "\n    ".toList ++ ['{'] := by decide
  have hclose : "\n    \x7d".toList = "\n    ".toList ++ ['}'] := by decide
  rw [hfields, appendFields, List.foldlM_cons, hfirst.label, happend, ok_bind]
  refine (congrArg (· >>= _) happends).trans ?_
  rw [ok_bind, toBytes_ascii (by decide), List.map_cons, intercalate_comma, hbrace, hclose, pure_eq]
  simp only [Utf8.encode_append, Utf8.encode_cons, Utf8.encode_nil, List.append_assoc, List.nil_append]

/-! ### Documents -/

/-- The flows behind the first. -/
theorem appendFlows_rest (geo : Option (String → GeoIPInfo)) : ∀ (flows : List Flow) (document : Bytes),
    ∃ items : List (List Char × Json.Value), items.map (·.2) = flows.map (flowValue geo) ∧
      (∀ x ∈ items, Json.Reads x.1 x.2) ∧ appendFlows geo false flows document =
        .ok (document ++ Utf8.encode ((items.map (·.1)).flatMap fun y => ',' :: y)) := by
  intro flows
  induction flows with
  | nil => exact fun document => ⟨[], rfl, by simp, by simp [appendFlows]⟩
  | cons flow flows ih =>
    intro document
    obtain ⟨text, hreads, happend⟩ := appendFields_object geo flow (document ++ Utf8.encode [','])
    obtain ⟨items, hvalues, hall, hrest⟩ := ih (document ++ Utf8.encode [','] ++ Utf8.encode text)
    refine ⟨(text, flowValue geo flow) :: items, ?_, List.forall_mem_cons.mpr ⟨hreads, hall⟩, ?_⟩
    · rw [List.map_cons, List.map_cons, hvalues]
    · have hcomma : toBytes ",\n    \x7b" = Utf8.encode [','] ++ Utf8.encode "\n    \x7b".toList := by decide
      obtain ⟨fields, hfields, hclose⟩ := bind_eq_ok.mp happend
      rw [appendFlows, if_neg (by decide), hcomma, ← List.append_assoc]
      rw [hfields, ok_bind, Except.ok.inj hclose, hrest]
      simp only [List.map_cons, List.flatMap_cons, Utf8.encode_append, Utf8.encode_cons, Utf8.encode_nil,
        List.append_assoc, List.nil_append, List.cons_append]

/-- The flows between the brackets. -/
theorem appendFlows_items (geo : Option (String → GeoIPInfo)) (flows : List Flow) (document : Bytes) :
    ∃ items : List (List Char × Json.Value), items.map (·.2) = flows.map (flowValue geo) ∧
      (∀ x ∈ items, Json.Reads x.1 x.2) ∧ appendFlows geo true flows document =
        .ok (document ++ Utf8.encode ([','].intercalate (items.map (·.1)))) := by
  cases flows with
  | nil => exact ⟨[], rfl, by simp, by simp [appendFlows]⟩
  | cons flow flows =>
    obtain ⟨text, hreads, happend⟩ := appendFields_object geo flow document
    obtain ⟨items, hvalues, hall, hrest⟩ := appendFlows_rest geo flows (document ++ Utf8.encode text)
    refine ⟨(text, flowValue geo flow) :: items, ?_, List.forall_mem_cons.mpr ⟨hreads, hall⟩, ?_⟩
    · rw [List.map_cons, List.map_cons, hvalues]
    · obtain ⟨fields, hfields, hclose⟩ := bind_eq_ok.mp happend
      rw [appendFlows, if_pos rfl, toBytes_ascii (by decide)]
      rw [hfields, ok_bind, Except.ok.inj hclose, hrest, List.map_cons, intercalate_comma, Utf8.encode_append,
        List.append_assoc]

/-- A member of the document, on a line of its own. -/
def memberText (name : String) (text : List Char) : List Char :=
  "\n  ".toList ++ '"' :: (name.toList ++ '"' :: ':' :: ([' '] ++ text))

theorem reads_document {parts : List (String × List Char × Json.Value)}
    (h : ∀ p ∈ parts, PlainName p.1 ∧ Json.Reads p.2.1 p.2.2) :
    Json.Reads ('{' :: ([','].intercalate (parts.map fun p => memberText p.1 p.2.1) ++ ['\n'] ++ ['}']))
      (objectOf (parts.map fun p => (p.1, p.2.2))) := by
  have hmembers : ∀ m ∈ parts.map fun p => (memberText p.1 p.2.1, p.1.toList, p.2.2), Json.ReadsMember m.1 m.2 := by
    intro m hm
    obtain ⟨p, hp, rfl⟩ := List.mem_map.mp hm
    obtain ⟨hname, hreads⟩ := h p hp
    exact ⟨_, _, _, rfl, by decide, spells_self fun c hc => (hname c hc).2, hreads.after_spaces (by decide)⟩
  have hobject := @Json.reads_object _ ['\n'] (by decide) hmembers
  rw [List.map_map, List.map_map] at hobject
  rw [objectOf, List.map_map]
  exact hobject

theorem writeJson_reads (version : Bytes) (now : ℤ) (geo : Option (String → GeoIPInfo)) (flows : List Flow) :
    Safe (writeJson version now geo flows) fun document => ∃ text, document = Utf8.encode text ∧
      Json.Reads text (documentValue version now geo flows) := by
  obtain ⟨versionText, hversion, hv⟩ := appendJsonString_reads (toBytes "\x7b\n  \"netprobe_version\": ") version
  obtain ⟨items, hvalues, hall, hflows⟩ := appendFlows_items geo flows
    (toBytes "\x7b\n  \"netprobe_version\": " ++ Utf8.encode versionText ++ toBytes ",\n  \"generated_unix_us\": "
      ++ toBytes (toString now) ++ toBytes ",\n  \"flow_count\": " ++ toBytes (toString flows.length)
      ++ toBytes ",\n  \"flows\": [")
  have hcount : Json.Reads (toString flows.length).toList (.number flows.length) := by
    rw [toList_nat]
    exact Json.reads_nat _
  -- the closing bracket stands on a line of its own unless the list is empty
  obtain ⟨spaces, hspaces, hend⟩ : ∃ spaces : List Char, Json.Machine.Spaces spaces ∧
      toBytes (if flows.isEmpty then "]\n\x7d\n" else "\n  ]\n\x7d\n") =
        Utf8.encode (spaces ++ "]\n\x7d\n".toList) := by
    cases flows.isEmpty with
    | true => exact ⟨[], by decide, by decide⟩
    | false => exact ⟨"\n  ".toList, by decide, by decide⟩
  have harray := Json.reads_array hspaces hall
  rw [hvalues] at harray
  have hparts : ∀ p ∈ [("netprobe_version", versionText, Json.Value.string (shown version)),
      ("generated_unix_us", (toString now).toList, .number now),
      ("flow_count", (toString flows.length).toList, .number flows.length),
      ("flows", '[' :: ([','].intercalate (items.map (·.1)) ++ spaces ++ [']']), .array (flows.map (flowValue geo)))],
      PlainName p.1 ∧ Json.Reads p.2.1 p.2.2 := by
    exact List.forall_mem_cons.mpr ⟨⟨(by decide : PlainName "netprobe_version"), hversion⟩,
      List.forall_mem_cons.mpr ⟨⟨(by decide : PlainName "generated_unix_us"), Json.reads_int now⟩,
        List.forall_mem_cons.mpr ⟨⟨(by decide : PlainName "flow_count"), hcount⟩,
          List.forall_mem_singleton.mpr ⟨(by decide : PlainName "flows"), harray⟩⟩⟩⟩
  have hdocument := (reads_document hparts).before_spaces (by decide : Json.Machine.Spaces ['\n'])
  refine .of_eq ?_ ⟨_, rfl, hdocument⟩
  have hversionLabel : toBytes "\x7b\n  \"netprobe_version\": " =
      Utf8.encode ('{' :: memberText "netprobe_version" []) := by decide
  have hnowLabel : toBytes ",\n  \"generated_unix_us\": " = Utf8.encode (',' :: memberText "generated_unix_us" []) := by
    decide
  have hcountLabel : toBytes ",\n  \"flow_count\": " = Utf8.encode (',' :: memberText "flow_count" []) := by decide
  have hflowsLabel : toBytes ",\n  \"flows\": [" = Utf8.encode (',' :: memberText "flows" ['[']) := by decide
  rw [writeJson, hv, ok_bind]
  dsimp only
  rw [hflows, ok_bind, hend, pure_eq, hversionLabel, hnowLabel, hcountLabel, hflowsLabel,
    toBytes_ascii (ascii_int now), toBytes_ascii (by rw [toList_nat]; exact ascii_digits _)]
  simp [memberText, Utf8.encode_append]

/-- **The export can be read back.** Whatever the flows, the document is UTF-8
text that a JSON reader takes for the flows: their numbers exactly, their texts
with the bytes that start no valid sequence replaced. -/
theorem writeJson_read_back (version : Bytes) (now : ℤ) (geo : Option (String → GeoIPInfo)) (flows : List Flow) :
    Safe (writeJson version now geo flows) fun document => ∃ text, document = Utf8.encode text ∧
      Json.readValue text = some (documentValue version now geo flows) :=
  (writeJson_reads version now geo flows).mono fun _ h => h.imp fun _ h => ⟨h.1, Json.readValue_of_reads h.2⟩

end FlowExporter
end NetProbe
