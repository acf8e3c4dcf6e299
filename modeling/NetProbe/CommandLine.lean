/-
# CommandLine

`netprobe-cli`: the arguments, and a run from the arguments to the exit code.
What is outside comes with the `World`: the adapters, the capture files, the live
captures (each a run of `runLive` that has ended), the signals, the clock and
the destinations. The options a command line can give are those that are well
formed, and each of them has a command line (`accepted_tfae`).

Key definitions: `Options`, `parseArguments`, `validate`, `World`, `run`.
Key theorem: `accepted_tfae`.
-/
import Mathlib.Tactic.TFAE
import NetProbe.JsonExport
import NetProbe.LiveCapture
import NetProbe.SessionExport
import NetProbe.SessionRuns

namespace NetProbe
namespace CommandLine

open Bytes Checked
open SessionExport (Contents linkTypeFromDlt nextPacket)
open AnalysisSession (Session Arrival feed feedAll flows)

/-! ### The options -/

inductive OutputFormat
  | Json
  | Csv
  deriving DecidableEq, Repr

structure Options where
  listDevices : Bool := false
  showHelp : Bool := false
  showVersion : Bool := false
  /-- The capture file to replay. -/
  readPath : String := ""
  /-- The adapter to capture from. -/
  device : String := ""
  bpfFilter : String := ""
  /-- `-` is stdout. -/
  outputPath : String := ""
  format : Option OutputFormat := none
  durationSeconds : Option ℤ := none
  packetLimit : Option UInt64 := none
  resolveProcesses : Bool := true
  deriving DecidableEq, Repr

/-- `std::from_chars` in base 10, into an integer type from `least` to `most`: the
value and what follows it. Only a signed type takes a minus sign. -/
def fromChars (least most : ℤ) (text : List Char) : Option (ℤ × List Char) :=
  let negative : Bool := least < 0 ∧ text.head? = some '-'
  let body := if negative then text.tail else text
  let digits := body.takeWhile Char.isDigit
  let magnitude : ℤ := Nat.ofDigitChars 10 digits 0
  let value := if negative then -magnitude else magnitude
  if digits = [] ∨ value < least ∨ most < value then none else some (value, body.dropWhile Char.isDigit)

/-- The whole text is an integer of the type. -/
def parseNonNegative (least most : ℤ) (text : String) : Option ℤ :=
  if text = "" then none
  else match fromChars least most text.toList with
    | some (value, []) => some value
    | _ => none

def endsWith (value ending : String) : Bool := ending.toList.isSuffixOf value.toList

/-- What an option does with the argument after it; nothing for any other text. -/
def setValue (argument : String) : Option (String → Options → Except String Options) :=
  if argument = "-r" ∨ argument = "--read" then some fun value options =>
    .ok { options with readPath := value }
  else if argument = "-i" ∨ argument = "--device" then some fun value options =>
    .ok { options with device := value }
  else if argument = "-f" ∨ argument = "--filter" then some fun value options =>
    .ok { options with bpfFilter := value }
  else if argument = "-o" ∨ argument = "--output" then some fun value options =>
    .ok { options with outputPath := value }
  else if argument = "--format" then some fun value options =>
    if value = "json" then .ok { options with format := some .Json }
    else if value = "csv" then .ok { options with format := some .Csv }
    else .error ("netprobe-cli: unknown format '" ++ value ++ "' (expected 'json' or 'csv')\n")
  else if argument = "--duration" then some fun value options =>
    match parseNonNegative (-2 ^ 31) (2 ^ 31 - 1) value with
    | some seconds =>
      if seconds ≤ 0 then .error "netprobe-cli: --duration expects a positive number of seconds\n"
      else .ok { options with durationSeconds := some seconds }
    | none => .error "netprobe-cli: --duration expects a positive number of seconds\n"
  else if argument = "--packet-count" then some fun value options =>
    match parseNonNegative 0 (2 ^ 64 - 1) value with
    | some count =>
      if count = 0 then .error "netprobe-cli: --packet-count expects a positive number\n"
      else .ok { options with packetLimit := some (UInt64.ofNat count.toNat) }
    | none => .error "netprobe-cli: --packet-count expects a positive number\n"
  else none

/-- The loop over the arguments after the program's name. An error is the text for stderr. -/
def parseArguments : List String → Options → Except String Options
  | [], options => .ok options
  | argument :: rest, options =>
    if argument = "-h" ∨ argument = "--help" then .ok { options with showHelp := true }
    else if argument = "-V" ∨ argument = "--version" then .ok { options with showVersion := true }
    else if argument = "--list-devices" then parseArguments rest { options with listDevices := true }
    else if argument = "--no-process" then parseArguments rest { options with resolveProcesses := false }
    else match setValue argument with
      | none => .error ("netprobe-cli: unrecognized option '" ++ argument ++ "'\n")
      | some set => match rest with
        | [] => .error ("netprobe-cli: " ++ argument ++ " requires a value\n")
        | value :: rest => set value options >>= parseArguments rest

def validate (options : Options) : Except String Unit :=
  let hasFile := options.readPath ≠ ""
  let hasDevice := options.device ≠ ""
  if options.listDevices then .ok ()
  else if ¬ hasFile ∧ ¬ hasDevice then .error
    ("netprobe-cli: nothing to do - pass --read <file> or --device <name>\n" ++ "Try 'netprobe-cli --help'.\n")
  else if hasFile ∧ hasDevice then .error "netprobe-cli: --read and --device are mutually exclusive\n"
  else if options.outputPath = "" then
    .error "netprobe-cli: no destination - pass --output <path> (or '-' for stdout)\n"
  else if hasFile ∧ (options.durationSeconds.isSome ∨ options.packetLimit.isSome) then
    .error "netprobe-cli: --duration and --packet-count apply to live capture only\n"
  else if hasFile ∧ options.bpfFilter ≠ "" then .error "netprobe-cli: --filter applies to live capture only\n"
  else .ok ()

def resolveFormat (options : Options) : OutputFormat :=
  match options.format with
  | some format => format
  | none => if endsWith options.outputPath ".csv" then .Csv else .Json

/-! ### The world -/

structure DeviceInfo where
  name : String
  description : String
  deriving DecidableEq, Repr

/-- The part of the options that `runLive` reads. -/
def liveOptions (options : Options) : LiveCapture.Options where
  durationSeconds := options.durationSeconds.map Int.toNat
  packetLimit := options.packetLimit
  bpfFilter := options.bpfFilter

/-- A run of `runLive` on a fresh engine and queue that has come to its end. That
it does is not proved: without a signal, a limit or a deadline it goes on. -/
structure LiveRun (options : LiveCapture.Options) where
  bpf : Bpf PacketData
  state : LiveCapture.Live PacketData
  reachable : LiveCapture.Reachable bpf options 50000 state
  ended : state.main = .done ∨ state.main = .failed

structure World where
  sys : Platform
  /-- NETPROBE_VERSION -/
  version : String
  /-- The adapters, or the library's text. -/
  devices : Except String (List DeviceInfo)
  /-- What a capture file holds, or the library's text. -/
  openOffline : String → Except String Contents
  /-- The library's texts for a damaged file, an adapter it cannot open and a filter it rejects. -/
  readError : String
  openError : String
  filterError : String
  /-- The signal comes before this read of a replay, if it comes. -/
  signal : Option ℕ
  /-- The live capture, once it has ended. -/
  live : (device : String) → (options : LiveCapture.Options) → LiveRun options
  /-- The process resolver, as it answers for each packet fed. -/
  lookupProcess : ℕ → ParsedPacket → String
  /-- The clock at `flows` and at the export. -/
  now : ℤ
  generated : ℤ
  /-- Whether a destination can be opened, and whether it takes a document. -/
  opens : String → Bool
  takes : String → Bytes → Bool

/-! ### The run -/

def kExitSuccess : ℤ := 0
def kExitUsage : ℤ := 1
def kExitRuntime : ℤ := 2

/-- What a run leaves; `written` is a document that its destination has taken. -/
structure Outcome where
  exitCode : ℤ
  out : String := ""
  err : String := ""
  written : Option (String × Bytes) := none

def usage (version : String) : String :=
  "NetProbe CLI " ++ version ++ " - headless packet capture and flow export\n" ++
  "\n" ++
  "Usage:\n" ++
  "  netprobe-cli --list-devices\n" ++
  "  netprobe-cli -r <capture.pcap> -o <flows.json>\n" ++
  "  netprobe-cli -i <device> [-f <bpf>] [--duration <sec>] -o <flows.json>\n" ++
  "\n" ++
  "Source (exactly one required):\n" ++
  "  -r, --read <file>       Replay an offline capture file\n" ++
  "  -i, --device <name>     Capture live from an adapter (needs privileges)\n" ++
  "\n" ++
  "Output:\n" ++
  "  -o, --output <path>     Destination file, or '-' for stdout\n" ++
  "      --format <json|csv> Override the format inferred from the extension\n" ++
  "\n" ++
  "Capture limits (live capture only):\n" ++
  "      --duration <sec>    Stop after this many seconds\n" ++
  "      --packet-count <n>  Stop after this many packets\n" ++
  "\n" ++
  "Other:\n" ++
  "      --no-process        Skip owning-process lookup\n" ++
  "      --list-devices      List capture adapters and exit\n" ++
  "  -h, --help              Show this help and exit\n" ++
  "  -V, --version           Show the version and exit\n" ++
  "\n" ++
  "Interrupting with Ctrl+C stops the capture and still writes the output.\n"

/-- `getAvailableDevices` writes the library's text and gives no device. -/
def listDevices (w : World) : Outcome :=
  let (devices, err) := match w.devices with
    | .ok devices => (devices, "")
    | .error text => ([], if text = "" then "" else "Unable to list capture devices: " ++ text ++ "\n")
  if devices.isEmpty then { exitCode := kExitRuntime, err := err ++
    "No capture devices found. On most systems live capture needs administrator or root privileges.\n" }
  else { exitCode := kExitSuccess, err, out := String.join <| devices.map fun device =>
    device.name ++ (if device.description = "" then "" else "  (" ++ device.description ++ ")") ++ "\n" }

/-- A session after its source, or why there is none. -/
structure Analysis where
  session : Session
  packetsAnalyzed : UInt64
  err : String := ""

/-- The loop of `replayFile`: the signal is looked for before each read.
`ending` is how reading ends, at the end of the file or at an error. -/
def replay (sys : Platform) (ending : Except String Unit) :
    (signal : Option ℕ) → List PacketData → Session → UInt64 → Checked (Except String (Session × UInt64))
  | some 0, _, session, analyzed => .ok (.ok (session, analyzed))
  | _, [], session, analyzed => .ok (ending.map fun _ => (session, analyzed))
  | signal, packet :: packets, session, analyzed => do
    let (_, session) ← feed sys session packet fun _ => ""
    replay sys ending (signal.map (· - 1)) packets session (analyzed + 1)

def runOffline (w : World) (options : Options) : Checked (Except String Analysis) :=
  let unable (text : String) := "netprobe-cli: unable to read '" ++ options.readPath ++ "': " ++ text ++ "\n"
  match w.openOffline options.readPath with
  | .error text => .ok (.error (unable text))
  | .ok contents =>
    let link := linkTypeFromDlt contents.dlt
    if link = .Unsupported then
      .ok (.error (unable "the capture uses an unsupported link-layer type; packets cannot be decoded"))
    else do
      let ending := if contents.damaged then .error w.readError else .ok ()
      match ← replay w.sys ending w.signal (contents.records.map (nextPacket link)) {} 0 with
      | .error text => return .error (unable text)
      | .ok (session, packetsAnalyzed) => return .ok { session, packetsAnalyzed }

/-- Without process lookup the resolver is not asked. -/
def arrivals (w : World) (options : Options) (packets : List PacketData) : List Arrival :=
  packets.mapIdx fun n packet => ⟨packet, if options.resolveProcesses then w.lookupProcess n else fun _ => ""⟩

/-- `runLive`, which has fed the packets of its run to the session. When it
fails after `stopCapture`, it is the filter that was rejected. -/
def runLive (w : World) (options : Options) : Checked (Except String Analysis) := do
  let live := (w.live options.device (liveOptions options)).state
  match live.main with
  | .done =>
    let (_, session) ← feedAll w.sys {} (arrivals w options live.fed)
    let dropped := live.engine.queue.droppedPackets
    return .ok { session, packetsAnalyzed := live.packetsAnalyzed, err := "Capturing on " ++ options.device
      ++ (match options.durationSeconds with | some seconds => " for " ++ toString seconds ++ "s" | none => "")
      ++ (match options.packetLimit with | some limit => ", up to " ++ toString limit.toNat ++ " packets" | none => "")
      ++ ". Press Ctrl+C to stop early.\n"
      ++ (if dropped > 0 then "Warning: " ++ toString dropped.toNat ++ " packets were dropped because analysis "
        ++ "could not keep up with the capture; flow totals undercount by that much.\n" else "") }
  | _ =>
    if live.engine.stopRequested then return .error ("netprobe-cli: invalid capture filter '" ++ options.bpfFilter
      ++ "': " ++ w.filterError ++ "\n")
    else return .error ("Unable to open adapter " ++ options.device ++ ": " ++ w.openError ++ "\n"
      ++ "netprobe-cli: unable to open device '" ++ options.device
      ++ "'. Live capture usually requires administrator or root privileges.\n"
      ++ "Run --list-devices to see the available adapters.\n")

/-- The document of `writeCsv` or `writeJson`. -/
def exported (w : World) (format : OutputFormat) (flows : List Flow) : Checked Bytes :=
  match format with
  | .Csv => .ok (FlowExporter.toBytes (FlowExporter.writeCsv none flows))
  | .Json => FlowExporter.writeJson (FlowExporter.toBytes w.version) w.generated none flows

def writeOutput (w : World) (options : Options) (format : OutputFormat) (document : Bytes) : Except String Unit :=
  let unable (text : String) := "netprobe-cli: unable to write '" ++ options.outputPath ++ "': " ++ text ++ "\n"
  if options.outputPath = "-" then
    if w.takes "-" document then .ok () else .error "netprobe-cli: writing to stdout failed\n"
  else if ¬ w.opens options.outputPath then .error (unable "Unable to open the destination file for writing.")
  else if w.takes options.outputPath document then .ok ()
  else .error (unable (match format with
    | .Csv => "Writing the CSV file failed."
    | .Json => "Writing the JSON file failed."))

def captured (w : World) (options : Options) : Checked (Except String Analysis) :=
  if options.readPath = "" then runLive w options else runOffline w options

/-- The last line on stderr. -/
def summary (options : Options) (packetsAnalyzed : UInt64) (flows : List Flow) : String :=
  "Analyzed " ++ toString packetsAnalyzed.toNat ++ " packets into " ++ toString flows.length ++ " flows; wrote "
    ++ (if options.outputPath = "-" then "stdout" else options.outputPath) ++ " as "
    ++ (match resolveFormat options with | .Csv => "CSV" | .Json => "JSON") ++ ".\n"

/-- The rest of `run`, from the source to the document. -/
def capture (w : World) (options : Options) : Checked Outcome := do
  match ← captured w options with
  | .error err => return { exitCode := kExitRuntime, err }
  | .ok analysis =>
    let flows := flows analysis.session w.now
    let format := resolveFormat options
    let document ← exported w format flows
    match writeOutput w options format document with
    | .error err => return { exitCode := kExitRuntime, err := analysis.err ++ err }
    | .ok () => return {
        exitCode := kExitSuccess
        err := analysis.err ++ summary options analysis.packetsAnalyzed flows
        written := some (options.outputPath, document) }

def run (w : World) (arguments : List String) : Checked Outcome :=
  match parseArguments arguments {} with
  | .error text => .ok { exitCode := kExitUsage, err := text ++ "Try 'netprobe-cli --help'.\n" }
  | .ok options =>
    if options.showHelp then .ok { exitCode := kExitSuccess, out := usage w.version }
    else if options.showVersion then .ok { exitCode := kExitSuccess, out := "netprobe-cli " ++ w.version ++ "\n" }
    else match validate options with
      | .error err => .ok { exitCode := kExitUsage, err }
      | .ok () => if options.listDevices then .ok (listDevices w) else capture w options

/-! ### Options and arguments -/

/-- The options a command line can ask for. -/
structure Options.WellFormed (o : Options) : Prop where
  shows : ¬ (o.showHelp = true ∧ o.showVersion = true)
  duration : ∀ seconds, o.durationSeconds = some seconds → 0 < seconds ∧ seconds ≤ 2 ^ 31 - 1
  limit : o.packetLimit ≠ some 0

/-- An option that has a value, if it has one. -/
def valued (argument : String) : Option String → List String
  | some value => [argument, value]
  | none => []

def formatName : OutputFormat → String
  | .Json => "json"
  | .Csv => "csv"

/-- A command line for `o`. What is shown comes last, the loop stops there. -/
def Options.arguments (o : Options) : List String :=
  (if o.listDevices then ["--list-devices"] else []) ++
  (if o.resolveProcesses then [] else ["--no-process"]) ++
  valued "--read" (some o.readPath) ++ valued "--device" (some o.device) ++ valued "--filter" (some o.bpfFilter) ++
  valued "--output" (some o.outputPath) ++ valued "--format" (o.format.map formatName) ++
  valued "--duration" (o.durationSeconds.map toString) ++
  valued "--packet-count" (o.packetLimit.map fun limit => toString limit.toNat) ++
  (if o.showHelp then ["--help"] else []) ++
  (if o.showVersion then ["--version"] else [])

section Numbers

variable {least most value : ℤ} {text : String}

theorem fromChars_range {chars rest : List Char} (h : fromChars least most chars = some (value, rest)) :
    least ≤ value ∧ value ≤ most := by
  obtain ⟨hrange, h⟩ := Option.ite_none_left_eq_some.mp h
  simp only [not_or, not_lt] at hrange
  rw [← (Prod.mk.inj (Option.some.inj h)).1]
  exact hrange.2

theorem parseNonNegative_range (h : parseNonNegative least most text = some value) :
    least ≤ value ∧ value ≤ most := by
  unfold parseNonNegative at h
  split at h
  · cases h
  split at h
  · rename_i hchars
    exact Option.some.inj h ▸ fromChars_range hchars
  · cases h

/-- A number that fits is read back from its digits. -/
theorem parseNonNegative_nat {n : ℕ} (hleast : least ≤ 0) (hmost : (n : ℤ) ≤ most) :
    parseNonNegative least most (toString n) = some (n : ℤ) := by
  have hlist := FlowExporter.toList_nat n
  have hdigits : ∀ c ∈ Nat.toDigits 10 n, c.isDigit = true := fun c hc =>
    Nat.isDigit_of_mem_toDigits (by decide) (by decide) hc
  have hne : Nat.toDigits 10 n ≠ [] := Nat.toDigits_ne_nil
  have hhead : (Nat.toDigits 10 n).head? ≠ some '-' := by
    intro h
    exact absurd (hdigits '-' (List.mem_of_mem_head? h)) (by decide)
  have htext : toString n ≠ "" := by
    intro h
    rw [h] at hlist
    exact hne hlist.symm
  have htake : (Nat.toDigits 10 n).takeWhile Char.isDigit = Nat.toDigits 10 n := List.takeWhile_eq_self_iff.mpr hdigits
  have hdrop : (Nat.toDigits 10 n).dropWhile Char.isDigit = [] := List.dropWhile_eq_nil_iff.mpr hdigits
  have hchars : fromChars least most (Nat.toDigits 10 n) = some ((n : ℤ), []) := by
    simp only [fromChars, hhead, and_false, decide_false, Bool.false_eq_true, ↓reduceIte, htake, hdrop, hne, false_or,
      Nat.ofDigitChars_toDigits (by decide : 1 < 10) (by decide : 10 ≤ 10)]
    exact if_neg (by omega)
  rw [parseNonNegative, if_neg htext, hlist, hchars]

end Numbers

theorem Options.wellFormed_default : ({} : Options).WellFormed where
  shows h := absurd h.1 (by decide)
  duration _ h := by cases h
  limit h := by cases h

section Parsing

variable {o o' : Options} {argument : String} {set : String → Options → Except String Options}

/-- An option leaves well-formed options well formed, and shows nothing. -/
theorem setValue_wellFormed {value : String} (hset : setValue argument = some set) (hvalue : set value o = .ok o')
    (h : o.WellFormed) :
    o'.WellFormed ∧ o'.showHelp = o.showHelp ∧ o'.showVersion = o.showVersion := by
  unfold setValue at hset
  split_ifs at hset
  all_goals
    obtain rfl := Option.some.inj hset
    dsimp only at hvalue
  -- a path, a device or a filter is taken as it is
  iterate 4
    obtain rfl := Except.ok.inj hvalue
    exact ⟨⟨h.shows, h.duration, h.limit⟩, rfl, rfl⟩
  · split_ifs at hvalue
    all_goals
      obtain rfl := Except.ok.inj hvalue
      exact ⟨⟨h.shows, h.duration, h.limit⟩, rfl, rfl⟩
  · split at hvalue
    · rename_i seconds hparse
      split_ifs at hvalue with hpositive
      obtain rfl := Except.ok.inj hvalue
      refine ⟨⟨h.shows, fun s hs => ?_, h.limit⟩, rfl, rfl⟩
      obtain rfl := Option.some.inj hs
      exact ⟨by omega, (parseNonNegative_range hparse).2⟩
    · cases hvalue
  · split at hvalue
    · rename_i count hparse
      split_ifs at hvalue with hzero
      obtain rfl := Except.ok.inj hvalue
      refine ⟨⟨h.shows, h.duration, fun hlimit => ?_⟩, rfl, rfl⟩
      have hrange := parseNonNegative_range hparse
      have hcount : count.toNat % 2 ^ 64 = 0 := by
        have := congrArg UInt64.toNat (Option.some.inj hlimit)
        rwa [UInt64.toNat_ofNat'] at this
      omega
    · cases hvalue

theorem parseArguments_wellFormed : ∀ {args : List String} {o o' : Options}, o.WellFormed → o.showHelp = false →
    o.showVersion = false → parseArguments args o = .ok o' → o'.WellFormed
  | [], o, o', h, _, _, hparse => Except.ok.inj hparse ▸ h
  | argument :: rest, o, o', h, hhelp, hversion, hparse => by
    unfold parseArguments at hparse
    split_ifs at hparse
    · obtain rfl := Except.ok.inj hparse
      exact ⟨fun hs => by simp [hversion] at hs, h.duration, h.limit⟩
    · obtain rfl := Except.ok.inj hparse
      exact ⟨fun hs => by simp [hhelp] at hs, h.duration, h.limit⟩
    · exact parseArguments_wellFormed (o := { o with listDevices := true }) ⟨h.shows, h.duration, h.limit⟩
        hhelp hversion hparse
    · exact parseArguments_wellFormed (o := { o with resolveProcesses := false }) ⟨h.shows, h.duration, h.limit⟩
        hhelp hversion hparse
    · split at hparse
      · cases hparse
      · rename_i set hset
        cases rest with
        | nil => cases hparse
        | cons value rest =>
        cases hvalue : set value o with
        | error text => simp [hvalue, bind, Except.bind] at hparse
        | ok o₁ =>
          obtain ⟨hwell, hh, hv⟩ := setValue_wellFormed hset hvalue h
          simp only [hvalue] at hparse
          exact parseArguments_wellFormed hwell (hh.trans hhelp) (hv.trans hversion) hparse

/-- An option with its value, if it is there. -/
theorem parseArguments_valued (o' : Options) {text : Option String} (rest : List String)
    (hset : setValue argument = some set)
    (hplain : argument ∉ ["-h", "--help", "-V", "--version", "--list-devices", "--no-process"])
    (hsome : ∀ value, text = some value → set value o = .ok o') (hnone : text = none → o = o') :
    parseArguments (valued argument text ++ rest) o = parseArguments rest o' := by
  cases text with
  | none => rw [hnone rfl]; rfl
  | some value =>
    simp only [List.mem_cons, List.not_mem_nil, or_false, not_or] at hplain
    obtain ⟨hh, hhelp, hv, hversion, hdevices, hprocess⟩ := hplain
    show parseArguments (argument :: value :: rest) o = _
    rw [parseArguments, if_neg (not_or.mpr ⟨hh, hhelp⟩), if_neg (not_or.mpr ⟨hv, hversion⟩), if_neg hdevices,
      if_neg hprocess]
    simp only [hset, hsome value rfl, bind, Except.bind]

end Parsing

/-- The options come back from their command line. -/
theorem parseArguments_arguments {o : Options} (h : o.WellFormed) : parseArguments o.arguments {} = .ok o := by
  obtain ⟨listDevices, showHelp, showVersion, readPath, device, bpfFilter, outputPath, format, durationSeconds,
    packetLimit, resolveProcesses⟩ := o
  have hdevices : ∀ rest, parseArguments ((if listDevices then ["--list-devices"] else []) ++ rest) {} =
      parseArguments rest { listDevices } := fun rest => by cases listDevices <;> rfl
  have hprocess : ∀ rest,
      parseArguments ((if resolveProcesses then [] else ["--no-process"]) ++ rest) { listDevices } =
        parseArguments rest { listDevices, resolveProcesses } := fun rest => by cases resolveProcesses <;> rfl
  have hvalue : ∀ {argument set value} {o o' : Options} (rest : List String), setValue argument = some set →
      argument ∉ ["-h", "--help", "-V", "--version", "--list-devices", "--no-process"] → set value o = .ok o' →
      parseArguments (valued argument (some value) ++ rest) o = parseArguments rest o' := fun rest hset hplain hvalue =>
    parseArguments_valued _ rest hset hplain (fun _ hv => Option.some.inj hv ▸ hvalue) nofun
  simp only [Options.arguments, List.append_assoc]
  rw [hdevices, hprocess, hvalue _ rfl (by decide) rfl, hvalue _ rfl (by decide) rfl, hvalue _ rfl (by decide) rfl,
    hvalue _ rfl (by decide) rfl]
  have hformat : ∀ text, format.map formatName = some text → ∃ f, format = some f ∧ text = formatName f := by
    intro text htext
    obtain ⟨f, hf, rfl⟩ := Option.map_eq_some_iff.mp htext
    exact ⟨f, hf, rfl⟩
  rw [parseArguments_valued
    { listDevices := listDevices, readPath, device, bpfFilter, outputPath, format, resolveProcesses } _ rfl (by decide)
    ?_ ?_]
  rw [parseArguments_valued
    { listDevices := listDevices, readPath, device, bpfFilter, outputPath, format, durationSeconds, resolveProcesses } _
    rfl (by decide) ?_ ?_]
  rw [parseArguments_valued
    { listDevices := listDevices, readPath, device, bpfFilter, outputPath, format, durationSeconds, packetLimit,
      resolveProcesses } _ rfl (by decide) ?_ ?_]
  · have hshows := h.shows
    cases showHelp <;> cases showVersion
    · rfl
    · rfl
    · rfl
    · exact absurd ⟨rfl, rfl⟩ hshows
  · intro text htext
    obtain ⟨limit, rfl, rfl⟩ := Option.map_eq_some_iff.mp htext
    have hne : limit.toNat ≠ 0 := fun hn => h.limit (congrArg some (UInt64.toNat_inj.mp hn))
    have hlt := limit.toNat_lt
    rw [parseNonNegative_nat (by decide) (by omega)]
    dsimp only
    rw [if_neg (Int.natCast_ne_zero.mpr hne), Int.toNat_natCast, UInt64.ofNat_toNat]
  · intro hnone
    rw [Option.map_eq_none_iff.mp hnone]
  · intro text htext
    obtain ⟨seconds, rfl, rfl⟩ := Option.map_eq_some_iff.mp htext
    obtain ⟨hpositive, hmost⟩ := h.duration seconds rfl
    obtain ⟨n, rfl⟩ := Int.eq_ofNat_of_zero_le hpositive.le
    rw [show toString (n : ℤ) = toString n from rfl, parseNonNegative_nat (by decide) hmost]
    exact if_neg (not_le.mpr hpositive)
  · intro hnone
    rw [Option.map_eq_none_iff.mp hnone]
  · intro text htext
    obtain ⟨f, rfl, rfl⟩ := Option.map_eq_some_iff.mp htext
    cases f <;> rfl
  · intro hnone
    rw [Option.map_eq_none_iff.mp hnone]

/-- **The options a command line can give** are the well-formed ones, and each
is what its own command line gives. -/
theorem accepted_tfae (o : Options) :
    [∃ args, parseArguments args {} = .ok o, o.WellFormed, parseArguments o.arguments {} = .ok o].TFAE := by
  tfae_have 1 → 2 := fun ⟨_, h⟩ => parseArguments_wellFormed Options.wellFormed_default rfl rfl h
  tfae_have 2 → 3 := parseArguments_arguments
  tfae_have 3 → 1 := fun h => ⟨_, h⟩
  tfae_finish

end CommandLine
end NetProbe
