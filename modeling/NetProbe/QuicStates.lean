/-
# The states of the QuicTracker

Runs of `feed` and `clear`, over whatever the parser gives for each payload. In
every state reached, a connection is what the fragments fed since it was made
write, the later over the earlier, and there are at most as many connections as
the limit allows; and an Initial spares the other connections, and ends its own
when a fragment passes the stream limit (`reachable_connections`).

Key definitions: `Parsed`, `Event`, `step`, `accepted`, `Connection.Holds`.
Key theorems: `feed_eq_feedParsed`, `reachable_connections`.
-/
import NetProbe.QuicRuns
import NetProbe.QuicSafety

namespace NetProbe
namespace QuicTracker

open Checked Bytes Overlay QuicParser Lifetime

def clear (_ : Tracker) : Tracker := ∅

/-- A parse result, whatever its fragments say: `parseInitial` bounds their
offsets and lengths, so that no end passes 2^64 (`parseInitial_addressable`). -/
structure Parsed where
  initial : InitialPacket
  addressable : Addressable initial.crypto

/-- `feed`, from the parse result on. -/
def feedParsed (t : Tracker) (parsed : Option Parsed) (timestamp : ℤ) : Checked (Option String × Tracker) :=
  match parsed with
  | some p => feedInitial t p.initial timestamp
  | none => .ok (none, t)

/-- A call of the tracker, with what the parser gave. -/
inductive Event
  | feed (parsed : Option Parsed) (timestamp : ℤ)
  | clear

def step (t : Tracker) : Event → Checked Tracker
  | .feed parsed timestamp => Prod.snd <$> feedParsed t parsed timestamp
  | .clear => .ok (clear t)

/-- `feed` on a payload is `feedParsed` on what the parser gives for it. -/
theorem feed_eq_feedParsed (m : Mbedtls) {payload : Bytes} (hl : payload.length < 2 ^ 63) :
    ∃ parsed : Option Parsed, parseInitial m payload = .ok (parsed.map (·.initial)) ∧
      ∀ t timestamp, feed (parseInitial m) t payload timestamp = feedParsed t parsed timestamp := by
  obtain ⟨r, hr, -⟩ := parseInitial_safe hl m
  cases r with
  | none =>
    refine ⟨none, hr, fun t timestamp => ?_⟩
    rw [feed, hr]
    rfl
  | some initial =>
    refine ⟨some ⟨initial, parseInitial_addressable hr⟩, hr, fun t timestamp => ?_⟩
    rw [feed, hr]
    rfl

/-! ### The fragments of a connection -/

/-- The fragments an event brings connection `d`. -/
def Event.fragments (d : Bytes) : Event → List CryptoFragment
  | .feed (some p) _ => if p.initial.destinationConnectionId = d then p.initial.crypto else []
  | _ => []

/-- The fragments of connection `d` over its life. -/
def accepted (d : Bytes) (life : List Event) : List CryptoFragment := life.flatMap (Event.fragments d)

/-- The fragment has a byte for position `i` of the stream. -/
def Covering (f : CryptoFragment) (i : ℕ) : Prop := f.offset ≤ i ∧ i < f.offset + f.data.length

/-- Of the fragments `fs`, in order, `f` is the last with a byte for position `i`. -/
def LastCovering (fs : List CryptoFragment) (i : ℕ) (f : CryptoFragment) : Prop :=
  ∃ before after, fs = before ++ f :: after ∧ Covering f i ∧ ∀ g ∈ after, ¬ Covering g i

/-- The connection holds what the fragments `fs` write. -/
structure Connection.Holds (c : Connection) (fs : List CryptoFragment) : Prop where
  sizes : c.stream.length = c.present.length
  bounded : c.stream.length ≤ kMaxStreamBytes
  within : ∀ f ∈ fs, f.offset + f.data.length ≤ kMaxStreamBytes
  present : ∀ i, c.present[i]? = some true ↔ ∃ f ∈ fs, Covering f i
  stream : ∀ i, c.present[i]? = some true →
    ∃ f, LastCovering fs i f ∧ c.stream[i]? = f.data[i - f.offset]?

section Holds

variable {fs : List CryptoFragment} {i : ℕ}

theorem covering_iff {f : CryptoFragment} : Covering f i ↔ (f.patch.at? i).isSome :=
  (@Patch.at?_isSome _ f.patch i).symm

theorem value?_patches : (value? (patches fs) i).isSome ↔ ∃ f ∈ fs, Covering f i := by
  rw [value?_isSome, patches]
  simp only [List.mem_map, exists_exists_and_eq_and]
  rfl

/-- The last patch is that of the last fragment. -/
theorem exists_lastCovering {p : Patch UInt8} (h : LastAt (patches fs) i p) :
    ∃ f, LastCovering fs i f ∧ p.at? i = f.data[i - f.offset]? := by
  obtain ⟨before, after, hfs, hat, hafter⟩ := h
  obtain ⟨before', rest, rfl, rfl, hrest⟩ := List.map_eq_append_iff.mp hfs
  obtain ⟨f, after', rfl, rfl, rfl⟩ := List.map_eq_cons_iff.mp hrest
  have hcovers := covering_iff.mpr hat
  refine ⟨f, ⟨before', after', rfl, hcovers, fun g hg hcov => ?_⟩, if_pos hcovers.1⟩
  have hnone := hafter g.patch (List.mem_map_of_mem hg)
  rw [covering_iff, hnone] at hcov
  cases hcov

theorem received_holds (hw : WithinLimit fs) (seen : ℤ) : (received fs seen).Holds fs := by
  have hmarked : ∀ i, (received fs seen).present[i]? = some true ↔ (value? (patches fs) i).isSome :=
    fun _ => getElem?_marks
  refine ⟨received_aligned fs seen, ?_, hw, fun i => (hmarked i).trans value?_patches, fun i hi => ?_⟩
  · show (assembled fs).length ≤ kMaxStreamBytes
    rw [length_assembled]
    refine reach_le fun p hp => ?_
    obtain ⟨f, hf, rfl⟩ := List.mem_map.mp hp
    exact hw f hf
  · have hsome := (hmarked i).mp hi
    obtain ⟨p, hlast, hvalue⟩ := exists_lastAt hsome
    obtain ⟨f, hf, hdata⟩ := exists_lastCovering hlast
    exact ⟨f, hf, ((getElem?_writeAll_of_isSome 0 hsome).trans hvalue).trans hdata⟩

end Holds

/-! ### Runs -/

section Run

variable {t : Tracker} {d : Bytes} {c : Connection} {events life : List Event}

/-- What holds of the connections between two calls. -/
structure Sound (t : Tracker) : Prop where
  aligned : Aligned t
  size : t.size ≤ kMaxTrackedConnections

theorem sound_empty : Sound ∅ := ⟨aligned_empty, Nat.zero_le _⟩

theorem feedParsed_sound (h : Sound t) (parsed : Option Parsed) (timestamp : ℤ) :
    Safe (feedParsed t parsed timestamp) fun r => Sound r.2 := by
  cases parsed with
  | none => exact .ok h
  | some p =>
    exact (feedInitial_fed h.aligned p.addressable timestamp).mono fun r hr => ⟨hr.aligned, hr.size h.size⟩

theorem step_sound (t : Tracker) (e : Event) (h : Sound t) : Safe (step t e) Sound := by
  cases e with
  | feed parsed timestamp => exact (feedParsed_sound h parsed timestamp).map fun r hr => hr
  | clear => exact .ok sound_empty

/-- What an event leaves of connection `d`: what was held, with its fragments written. -/
theorem step_leaves {e : Event} {t' : Tracker} (ht : Aligned t) (hstep : step t e = .ok t')
    (hc : t'.lookup d = some c) :
    t.lookup d = some c ∧ e.fragments d = [] ∨
      WithinLimit (e.fragments d) ∧ ∃ seen,
        c = (e.fragments d).foldl Connection.write { (t.lookup d).getD {} with lastSeen := seen } := by
  cases e with
  | clear =>
    obtain rfl := Except.ok.inj hstep
    rw [clear, AList.lookup_empty] at hc
    cases hc
  | feed parsed timestamp =>
    cases parsed with
    | none =>
      obtain rfl := Except.ok.inj hstep
      exact .inl ⟨hc, rfl⟩
    | some p =>
      obtain ⟨r, hr, hfed⟩ := feedInitial_fed ht p.addressable timestamp
      rw [step, feedParsed, hr, map_ok] at hstep
      obtain rfl := Except.ok.inj hstep
      by_cases hd : p.initial.destinationConnectionId = d
      · subst hd
        have hown : Event.fragments p.initial.destinationConnectionId (.feed (some p) timestamp) = p.initial.crypto :=
          if_pos rfl
        rw [hown]
        rcases hfed.own c hc with ⟨hnil, hsame⟩ | ⟨hw, hwritten⟩
        · exact .inl ⟨hsame, hnil⟩
        · exact .inr ⟨hw, timestamp, hwritten⟩
      · have hother : Event.fragments d (.feed (some p) timestamp) = [] := if_neg hd
        rcases hfed.spares d (Ne.symm hd) with hsame | ⟨hgone, -⟩
        · exact .inl ⟨hsame.symm.trans hc, hother⟩
        · rw [hgone] at hc
          cases hc

/-- The connection is what the fragments of its life make it. -/
def Written (d : Bytes) (life : List Event) (c : Connection) : Prop :=
  WithinLimit (accepted d life) ∧ ∃ seen, c = received (accepted d life) seen

theorem accepted_concat (life : List Event) (e : Event) :
    accepted d (life ++ [e]) = accepted d life ++ e.fragments d := by
  rw [accepted, List.flatMap_append, List.flatMap_singleton]
  rfl

/-- The fragments of one more event. -/
theorem write_received {fs gs : List CryptoFragment} {seen now : ℤ} :
    gs.foldl Connection.write { received fs seen with lastSeen := now } = received (fs ++ gs) now :=
  foldl_write_received fs gs now

theorem lives_written (h : Lives step d events life c) : Written d life c := by
  refine h.rule ?_ ?_
  · intro events t e t' c hrun hnone hstep hc
    have ht := (safe_run sound_empty step_sound events).elim hrun
    have haccepted : accepted d [e] = e.fragments d := List.flatMap_singleton ..
    rcases step_leaves ht.aligned hstep hc with ⟨hsame, -⟩ | ⟨hw, seen, rfl⟩
    · rw [hnone] at hsame
      cases hsame
    · rw [Written, haccepted, hnone]
      exact ⟨hw, seen, @write_received [] (e.fragments d) 0 seen⟩
  · intro events t life c e t' c' hrun hl hwritten hstep hc
    have ht := (safe_run sound_empty step_sound events).elim hrun
    obtain ⟨hw, seen, rfl⟩ := hwritten
    rw [Written, accepted_concat]
    rcases step_leaves ht.aligned hstep hc with ⟨hsame, hnil⟩ | ⟨hw', seen', rfl⟩
    · obtain rfl := Option.some.inj (hl.symm.trans hsame)
      rw [hnil, List.append_nil]
      exact ⟨hw, seen, rfl⟩
    · rw [hl]
      refine ⟨fun f hf => ?_, seen', write_received⟩
      rcases List.mem_append.mp hf with hf | hf
      · exact hw f hf
      · exact hw' f hf

end Run

/-- **Whatever is fed and cleared**, a tracked connection holds exactly the bytes
that the fragments accepted since it was made write, and not too many are
tracked; what is fed leaves every other connection alone, but for idle ones that
a full table gives up, and a fragment that passes the stream limit leaves
nothing of its own. -/
theorem reachable_connections (events : List Event) :
    Safe (run step events) fun t =>
      t.size ≤ kMaxTrackedConnections ∧
      (∀ d c, t.lookup d = some c → ∃ life, Lives step d events life c ∧ c.Holds (accepted d life)) ∧
      ∀ parsed now, Safe (feedParsed t parsed now) fun r =>
        (∀ d, (∀ p, parsed = some p → d ≠ p.initial.destinationConnectionId) →
          Spared (t.size ≥ kMaxTrackedConnections)
            (fun c => now - c.lastSeen > kConnectionTimeoutMicroseconds) t r.2 d) ∧
        ∀ p, parsed = some p → (∃ f ∈ p.initial.crypto, f.offset + f.data.length > kMaxStreamBytes) →
          r.1 = none ∧ r.2.lookup p.initial.destinationConnectionId = none := by
  obtain ⟨t, hrun, hsound⟩ := safe_run sound_empty step_sound events
  refine ⟨t, hrun, hsound.size, fun d c hc => ?_, fun parsed now => ?_⟩
  · obtain ⟨life, hlife, -⟩ := existsUnique_lives hrun hc
    obtain ⟨hw, seen, rfl⟩ := lives_written hlife
    exact ⟨life, hlife, received_holds hw seen⟩
  · cases parsed with
    | none => exact .ok ⟨fun _ _ => .refl, fun p hp => by cases hp⟩
    | some p =>
      refine (feedInitial_fed hsound.aligned p.addressable now).mono fun r hr => ⟨fun d hd => ?_, ?_⟩
      · exact hr.spares d (hd p rfl)
      · rintro p' hp' ⟨f, hf, hover⟩
        obtain rfl := Option.some.inj hp'
        exact hr.refused fun hw => absurd (hw f hf) (not_le.mpr hover)

end QuicTracker
end NetProbe
