/-
# FlowExporter

The CSV export of the flows. `csvEscape` quotes a value that holds a comma, a
quote or LF and doubles its quotes; it does not look for CR, so an RFC 4180
reader gets the flows back exactly when every value with a CR has one of the
three besides (`csv_read_back_iff`).

Key definitions: `writeCsv`, `fields`, `record`.
Key theorems: `csv_read_back_iff`.
-/
import Mathlib.Data.Int.Log
import Mathlib.Data.Rat.Floor
import NetProbe.Csv
import NetProbe.FlowAggregator
import NetProbe.GeoIPResolver

namespace NetProbe

namespace FlowExporter

/-! ### Numbers -/

def roundHalfEven (value : ℚ) : ℤ :=
  let below := ⌊value⌋
  if value - below < 1 / 2 then below
  else if 1 / 2 < value - below then below + 1
  else if below % 2 = 0 then below else below + 1

/-- The double nearest to `value`: 53 significant bits, ties to even. -/
def toDouble (value : ℚ) : ℚ :=
  if value = 0 then 0
  else
    let ulp : ℚ := 2 ^ (Int.log 2 |value| - 52)
    roundHalfEven (value / ulp) * ulp

/-- `%.*f` into a buffer of 32, in the C locale. `precision` is positive in every use. -/
def formatFloat (value : ℚ) (precision : ℕ) : String :=
  let scaled := (roundHalfEven (|value| * 10 ^ precision)).toNat
  let sign := if value < 0 then ['-'] else []
  let whole := Nat.toDigits 10 (scaled / 10 ^ precision)
  let fraction := (Nat.toDigits 10 (scaled % 10 ^ precision)).leftpad precision '0'
  String.ofList ((sign ++ whole ++ '.' :: fraction).take 31)

def rttMillisecondsOf (flow : Flow) : ℚ :=
  if flow.initialRttMicroseconds > 0 then toDouble (toDouble flow.initialRttMicroseconds / 1000) else 0

def durationSecondsOf (flow : Flow) : ℤ := max 0 ((flow.lastSeen - flow.firstSeen).tdiv 1000000)

/-! ### The export -/

/-- `find_first_of` finds one of `chars`. -/
def containsAny (value chars : String) : Bool := value.toList.any chars.toList.contains

def csvEscape (value : String) : String :=
  if !containsAny value ",\"\n" then value
  else "\"" ++ String.join (value.toList.map fun c => if c = '"' then "\"\"" else String.singleton c) ++ "\""

def lookupGeo (geo : Option (String → GeoIPInfo)) (ip : String) : GeoIPInfo :=
  match geo with
  | some lookup => lookup ip
  | none => {}

def host (flow : Flow) : String := if flow.hostname = "" then flow.key.dstIP else flow.hostname

/-- The fields of a flow's line as written. -/
def fields (geo : Option (String → GeoIPInfo)) (flow : Flow) : List String :=
  let info := lookupGeo geo flow.key.dstIP
  [csvEscape (host flow),
    flow.key.srcIP,
    toString flow.key.srcPort,
    flow.key.dstIP,
    toString flow.key.dstPort,
    flow.key.protocol,
    csvEscape flow.service,
    csvEscape flow.process,
    csvEscape info.country,
    csvEscape (organizationLabel info),
    toString flow.packets.toNat,
    toString flow.bytesUp.toNat,
    toString flow.bytesDown.toNat,
    formatFloat (toDouble flow.rateBytesPerSecond.toNat) 1,
    formatFloat (rttMillisecondsOf flow) 2,
    toString (durationSecondsOf flow),
    toString flow.retransmissionsUp.toNat,
    toString flow.retransmissionsDown.toNat,
    toString flow.outOfOrderUp.toNat,
    toString flow.outOfOrderDown.toNat]

def header : String :=
  "host,src_ip,src_port,dst_ip,dst_port,protocol,service,process,country,organization," ++
  "packets,bytes_up,bytes_down,rate_bytes_per_sec,initial_rtt_ms,duration_sec," ++
  "retransmissions_up,retransmissions_down,out_of_order_up,out_of_order_down\n"

def writeCsv (geo : Option (String → GeoIPInfo)) (flows : List Flow) : String :=
  header ++ String.join (flows.map fun flow => ",".intercalate (fields geo flow) ++ "\n")

/-! ### What a reader should get -/

def columns : List String :=
  ["host", "src_ip", "src_port", "dst_ip", "dst_port", "protocol", "service", "process", "country",
    "organization", "packets", "bytes_up", "bytes_down", "rate_bytes_per_sec", "initial_rtt_ms",
    "duration_sec", "retransmissions_up", "retransmissions_down", "out_of_order_up", "out_of_order_down"]

/-- The values a flow's line stands for. -/
def record (geo : Option (String → GeoIPInfo)) (flow : Flow) : List String :=
  let info := lookupGeo geo flow.key.dstIP
  [host flow,
    flow.key.srcIP,
    toString flow.key.srcPort,
    flow.key.dstIP,
    toString flow.key.dstPort,
    flow.key.protocol,
    flow.service,
    flow.process,
    info.country,
    organizationLabel info,
    toString flow.packets.toNat,
    toString flow.bytesUp.toNat,
    toString flow.bytesDown.toNat,
    formatFloat (toDouble flow.rateBytesPerSecond.toNat) 1,
    formatFloat (rttMillisecondsOf flow) 2,
    toString (durationSecondsOf flow),
    toString flow.retransmissionsUp.toNat,
    toString flow.retransmissionsDown.toNat,
    toString flow.outOfOrderUp.toNat,
    toString flow.outOfOrderDown.toNat]

/-- The texts of a flow that can be any bytes. -/
def freeTexts (geo : Option (String → GeoIPInfo)) (flow : Flow) : List String :=
  let info := lookupGeo geo flow.key.dstIP
  [flow.hostname, flow.service, flow.process, info.country, info.organization]

/-- The characters of an address in text form. -/
def IsAddress (ip : String) : Prop := ∀ c ∈ ip.toList, c ∈ "0123456789abcdef.:".toList

instance (ip : String) : Decidable (IsAddress ip) := List.decidableBAll _ ip.toList

/-- A key as `keyFor` makes it of a packet between two addresses. -/
def Keyed (key : FlowKey) : Prop :=
  ∃ packet, FlowAggregator.keyFor packet = some key ∧ IsAddress packet.srcIP ∧ IsAddress packet.dstIP

/-- A CR in `value` does not stand alone: one of the characters `csvEscape` looks for is there too. -/
def CrQuoted (value : String) : Prop := '\r' ∈ value.toList → containsAny value ",\"\n" = true

instance (value : String) : Decidable (CrQuoted value) := inferInstanceAs (Decidable (_ → _))

/-- A field as RFC 4180 has it. -/
def WellFormed (field : String) : Prop :=
  Csv.Plain field.toList ∨ ∃ value, field.toList = Csv.quoted value

/-! ### Texts that need no quotes -/

theorem plain_nat (n : ℕ) : Csv.Plain (toString n).toList := by
  rw [Nat.toString_eq_repr, Nat.toList_repr]
  exact Csv.plain_toDigits n

theorem plain_duration (flow : Flow) : Csv.Plain (toString (durationSecondsOf flow)).toList := by
  obtain ⟨n, hn⟩ := Int.eq_ofNat_of_zero_le (le_max_left 0 ((flow.lastSeen - flow.firstSeen).tdiv 1000000))
  rw [durationSecondsOf, hn]
  exact plain_nat n

theorem plain_formatFloat (value : ℚ) (precision : ℕ) : Csv.Plain (formatFloat value precision).toList := by
  have hsign : Csv.Plain (if value < 0 then ['-'] else []) := by
    split <;> decide
  have hfraction : ∀ n, Csv.Plain ('.' :: (Nat.toDigits 10 n).leftpad precision '0') := by
    intro n c hc
    rcases List.mem_cons.mp hc with rfl | hc
    · rfl
    rcases List.mem_append.mp hc with hc | hc
    · rw [List.eq_of_mem_replicate hc]
      rfl
    · exact Csv.plain_toDigits n c hc
  rw [formatFloat, String.toList_ofList]
  intro c hc
  exact (hsign.append (Csv.plain_toDigits _)).append (hfraction _) c (List.mem_of_mem_take hc)

theorem plain_address {ip : String} (h : IsAddress ip) : Csv.Plain ip.toList := by
  have hplain : Csv.Plain "0123456789abcdef.:".toList := by decide
  exact fun c hc => hplain c (h c hc)

theorem Keyed.plain {key : FlowKey} (h : Keyed key) :
    Csv.Plain key.srcIP.toList ∧ Csv.Plain key.dstIP.toList ∧ Csv.Plain key.protocol.toList := by
  obtain ⟨packet, hkey, hsrc, hdst⟩ := h
  have hs := plain_address hsrc
  have hd := plain_address hdst
  unfold FlowAggregator.keyFor at hkey
  split at hkey
  · cases hkey
  rename_i hflow
  have hprotocol : Csv.Plain packet.protocol.toList := by
    rcases (by tauto : packet.protocol = "TCP" ∨ packet.protocol = "UDP") with h | h <;> rw [h] <;> decide
  simp only at hkey
  split_ifs at hkey <;> cases hkey <;> first | exact ⟨hs, hd, hprotocol⟩ | exact ⟨hd, hs, hprotocol⟩

/-! ### Free texts -/

theorem containsAny_eq (value : String) : containsAny value ",\"\n" = true ↔
    ∃ c ∈ value.toList, c = ',' ∨ c = '"' ∨ c = '\n' := by
  simp [containsAny]

/-- Without a character it looks for, `csvEscape` leaves the value alone. -/
theorem csvEscape_of_not {value : String} (h : containsAny value ",\"\n" = false) : csvEscape value = value := by
  rw [csvEscape, h]
  rfl

theorem csvEscape_of {value : String} (h : containsAny value ",\"\n" = true) :
    (csvEscape value).toList = Csv.quoted value.toList := by
  have hdouble : (fun c => (if c = '"' then "\"\"" else String.singleton c).toList) =
      fun c => if c = '"' then ['"', '"'] else [c] := by
    funext c
    split <;> simp
  rw [csvEscape, h]
  simp only [Bool.not_true, Bool.false_eq_true, ↓reduceIte, String.toList_append, String.toList_join,
    List.flatMap_map, hdouble]
  simp [Csv.quoted, Csv.double]

/-- A value without a lone CR is escaped as RFC 4180 has it. -/
theorem encodes_csvEscape {value : String} (h : CrQuoted value) :
    Csv.Encodes (csvEscape value).toList value.toList := by
  cases hany : containsAny value ",\"\n" with
  | true =>
    rw [csvEscape_of hany]
    exact Csv.Encodes.quoted _
  | false =>
    rw [csvEscape_of_not hany]
    apply Csv.Encodes.plain
    intro c hc
    have hnone : ¬ ∃ c ∈ value.toList, c = ',' ∨ c = '"' ∨ c = '\n' := by simp [← containsAny_eq, hany]
    have hcr : c ≠ '\r' := by
      rintro rfl
      rw [h hc] at hany
      cases hany
    have hc' : ¬ (c = ',' ∨ c = '"' ∨ c = '\n') := fun hc' => hnone ⟨c, hc, hc'⟩
    simp only [not_or] at hc'
    simp [Csv.special, hc', hcr]

theorem crQuoted_of_wellFormed {value : String} (h : WellFormed (csvEscape value)) : CrQuoted value := by
  intro hcr
  cases hany : containsAny value ",\"\n" with
  | true => rfl
  | false =>
    rw [WellFormed, csvEscape_of_not hany] at h
    rcases h with hplain | ⟨inner, hquoted⟩
    · exact absurd (hplain _ hcr) (by decide)
    · have hquote : '"' ∈ value.toList := by simp [hquoted, Csv.quoted]
      rw [← hany, containsAny_eq]
      exact ⟨'"', hquote, Or.inr (Or.inl rfl)⟩

theorem wellFormed_of_encodes {field value : String} (h : Csv.Encodes field.toList value.toList) :
    WellFormed field := by
  generalize hf : field.toList = text at h
  rw [WellFormed, hf]
  cases h with
  | plain h => exact Or.inl h
  | quoted => exact Or.inr ⟨_, rfl⟩

theorem wellFormed_of_encodesRecord {row values : List String} (h : Csv.EncodesRecord row values) :
    ∀ field ∈ row, WellFormed field := by
  induction h with
  | nil => simp
  | cons hfield _ ih =>
    intro field hmem
    rcases List.mem_cons.mp hmem with rfl | hmem
    · exact wellFormed_of_encodes hfield
    · exact ih field hmem

/-- Texts with the same special characters have lone CRs alike. -/
theorem crQuoted_congr {a b : String} (h : ∀ c, Csv.special c = true → (c ∈ a.toList ↔ c ∈ b.toList)) :
    CrQuoted a ↔ CrQuoted b := by
  have hany : containsAny a ",\"\n" = true ↔ containsAny b ",\"\n" = true := by
    rw [containsAny_eq, containsAny_eq]
    refine exists_congr fun c => and_congr_left fun hc => h c ?_
    rcases hc with rfl | rfl | rfl <;> rfl
  rw [CrQuoted, CrQuoted, hany, h '\r' rfl]

theorem crQuoted_organizationLabel (info : GeoIPInfo) :
    CrQuoted (organizationLabel info) ↔ CrQuoted info.organization := by
  apply crQuoted_congr
  intro c hc
  have hfree : ∀ text : List Char, Csv.Plain text → c ∉ text := fun text hp hmem => by
    rw [hp c hmem] at hc
    cases hc
  unfold organizationLabel
  split
  next h =>
    have hdash := hfree "-".toList (by decide)
    simpa [h] using hdash
  split
  · rfl
  · have has := hfree "AS".toList (by decide)
    have hspace := hfree " ".toList (by decide)
    have hasn := hfree _ (plain_nat info.asn.toNat)
    simp only [String.toList_append, List.mem_append, has, hasn, hspace, false_or]

theorem crQuoted_host {flow : Flow} (h : Keyed flow.key) : CrQuoted (host flow) ↔ CrQuoted flow.hostname := by
  apply crQuoted_congr
  intro c hc
  unfold host
  split
  next hempty =>
    have hdst : c ∉ flow.key.dstIP.toList := fun hmem => by
      rw [h.plain.2.1 c hmem] at hc
      cases hc
    simp [hempty, hdst]
  · rfl

/-! ### The document -/

theorem header_eq : header = Csv.line columns := by decide +kernel

theorem encodes_columns : Csv.EncodesRecord columns columns := by
  have hplain : ∀ name ∈ columns, Csv.Plain name.toList := by decide +kernel
  exact List.forall₂_same.mpr fun name hname => Csv.Encodes.plain (hplain name hname)

theorem encodes_fields {geo : Option (String → GeoIPInfo)} {flow : Flow} (hkey : Keyed flow.key)
    (h : ∀ value ∈ freeTexts geo flow, CrQuoted value) :
    Csv.EncodesRecord (fields geo flow) (record geo flow) := by
  obtain ⟨hsrc, hdst, hprotocol⟩ := hkey.plain
  simp only [freeTexts, List.mem_cons, List.not_mem_nil, or_false, forall_eq_or_imp, forall_eq] at h
  obtain ⟨hhost, hservice, hprocess, hcountry, horganization⟩ := h
  have hhost' := encodes_csvEscape ((crQuoted_host hkey).mpr hhost)
  have hlabel := encodes_csvEscape ((crQuoted_organizationLabel _).mpr horganization)
  have hnat : ∀ n : ℕ, Csv.Encodes (toString n).toList (toString n).toList := fun n =>
    Csv.Encodes.plain (plain_nat n)
  have hfloat : ∀ value precision,
      Csv.Encodes (formatFloat value precision).toList (formatFloat value precision).toList :=
    fun value precision => Csv.Encodes.plain (plain_formatFloat value precision)
  simp only [Csv.EncodesRecord, fields, record, List.forall₂_cons, List.Forall₂.nil, and_true]
  exact ⟨hhost', Csv.Encodes.plain hsrc, hnat _, Csv.Encodes.plain hdst, hnat _, Csv.Encodes.plain hprotocol,
    encodes_csvEscape hservice, encodes_csvEscape hprocess, encodes_csvEscape hcountry, hlabel, hnat _, hnat _,
    hnat _, hfloat _ _, hfloat _ _, Csv.Encodes.plain (plain_duration flow), hnat _, hnat _, hnat _, hnat _⟩

/-- **The CSV export can be read back** exactly when no free text has a CR
without a comma, a quote or LF beside it. -/
theorem csv_read_back_iff (geo : Option (String → GeoIPInfo)) (flows : List Flow)
    (hkeys : ∀ flow ∈ flows, Keyed flow.key) :
    ((∀ flow ∈ flows, ∀ field ∈ fields geo flow, WellFormed field) ∧
      Csv.read (writeCsv geo flows) = some (columns :: flows.map (record geo))) ↔
    ∀ flow ∈ flows, ∀ value ∈ freeTexts geo flow, CrQuoted value := by
  constructor
  · rintro ⟨hfields, _⟩ flow hflow
    have hfield := hfields flow hflow
    simp only [fields, List.mem_cons, List.not_mem_nil, or_false, forall_eq_or_imp, forall_eq] at hfield
    obtain ⟨hhost, -, -, -, -, -, hservice, hprocess, hcountry, hlabel, -⟩ := hfield
    simp only [freeTexts, List.mem_cons, List.not_mem_nil, or_false, forall_eq_or_imp, forall_eq]
    exact ⟨(crQuoted_host (hkeys flow hflow)).mp (crQuoted_of_wellFormed hhost),
      crQuoted_of_wellFormed hservice, crQuoted_of_wellFormed hprocess, crQuoted_of_wellFormed hcountry,
      (crQuoted_organizationLabel _).mp (crQuoted_of_wellFormed hlabel)⟩
  · intro h
    have hrow : ∀ flow ∈ flows, Csv.EncodesRecord (fields geo flow) (record geo flow) := fun flow hflow =>
      encodes_fields (hkeys flow hflow) (h flow hflow)
    refine ⟨?_, ?_⟩
    · exact fun flow hflow => wellFormed_of_encodesRecord (hrow flow hflow)
    · have hdocument : List.Forall₂ Csv.EncodesRecord (columns :: flows.map (fields geo))
          (columns :: flows.map (record geo)) := by
        refine List.Forall₂.cons encodes_columns ?_
        rw [List.forall₂_map_left_iff, List.forall₂_map_right_iff]
        exact List.forall₂_same.mpr hrow
      rw [← Csv.read_document hdocument ?_]
      · rw [List.map_cons, String.join_cons, ← header_eq, List.map_map]
        rfl
      · intro row hmem
        rcases List.mem_cons.mp hmem with rfl | hmem
        · simp [columns]
        · obtain ⟨flow, -, rfl⟩ := List.mem_map.mp hmem
          simp [fields]

def webKey : FlowKey := ⟨"192.168.1.10", "93.184.216.34", 51000, 443, "TCP"⟩

theorem keyed_webKey : Keyed webKey :=
  ⟨{ srcIP := "192.168.1.10", dstIP := "93.184.216.34", srcPort := 51000, dstPort := 443, protocol := "TCP" },
    by decide +kernel, by decide, by decide⟩

/-- A host with a comma and a CR, a service with a quote: the line is read back. -/
theorem csv_read_back_iff_quoted :
    Csv.read (writeCsv none [{ key := webKey, hostname := "a,\rb", service := "\"x" }]) =
      some [columns, record none { key := webKey, hostname := "a,\rb", service := "\"x" }] :=
  ((csv_read_back_iff none [{ key := webKey, hostname := "a,\rb", service := "\"x" }]
    (List.forall_mem_singleton.mpr keyed_webKey)).mpr (List.forall_mem_singleton.mpr (by decide +kernel))).2

/-- After the header the reader is at the start of a record. -/
theorem run_header : Csv.Reader.run {} header.toList = some { records := [columns.map String.toList] } := by
  have hlines := Csv.Reader.run_lines (List.Forall₂.cons encodes_columns List.Forall₂.nil)
    (List.forall_mem_singleton.mpr (by simp [columns])) []
  rw [header_eq]
  simpa using hlines

/-- A lone CR in the host splits its flow's line in two. -/
theorem csv_splits_at_cr :
    Keyed webKey ∧
      Csv.read (writeCsv none [{ key := webKey, hostname := "a\rb" }]) =
        some [columns, ["a"], "b" :: (record none { key := webKey, hostname := "a\rb" }).tail] ∧
      Csv.read (writeCsv none [{ key := webKey, hostname := "a\rb" }]) ≠
        some [columns, record none { key := webKey, hostname := "a\rb" }] := by
  have hread : Csv.read (writeCsv none [{ key := webKey, hostname := "a\rb" }]) =
      some [columns, ["a"], "b" :: (record none { key := webKey, hostname := "a\rb" }).tail] := by
    rw [Csv.read, writeCsv, String.toList_append, Csv.Reader.run_append, run_header, Option.bind_some]
    decide +kernel
  refine ⟨keyed_webKey, hread, ?_⟩
  rw [hread]
  intro h
  have hlength := congrArg (fun records => records.map List.length) h
  simp at hlength

end FlowExporter
end NetProbe
