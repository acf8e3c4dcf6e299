/-
# FlowsView

The order of the flow table. `compareFlows` compares by the sort column, then by
host, and turns the sign for a descending sort; the sentinel that stands for an
unknown RTT is turned with it (`sortFlowsCache_lawful_iff`).

Key definitions: `GuiLayer`, `compareFlows`, `SortFlowsCache`.
Key theorem: `sortFlowsCache_lawful_iff`.
-/
import NetProbe.Comparators
import NetProbe.FlowExporter
import Mathlib.Data.Prod.Lex
import Mathlib.Data.String.Basic

namespace NetProbe

/-- What `sortFlowsCache` reads of it. -/
structure GuiLayer where
  flowGeoCache : Table String GeoIPInfo := ∅
  flowSortColumn : ℤ := 7
  flowSortAscending : Bool := false

namespace GuiLayer

open FlowExporter (host toDouble)
open Sorting

def INT64_MAX : ℤ := 2 ^ 63 - 1

def retransmissionsOf (flow : Flow) : UInt64 := flow.retransmissionsUp + flow.retransmissionsDown

/-- Retransmissions as a share of the flow's packets. -/
def retransmissionRateOf (flow : Flow) : ℚ :=
  if flow.packets = 0 then 0
  else toDouble (toDouble (100 * toDouble (retransmissionsOf flow).toNat) / toDouble flow.packets.toNat)

def geoFor (gui : GuiLayer) (ip : String) : GeoIPInfo :=
  match gui.flowGeoCache.lookup ip with
  | some info => info
  | none => {}

def countryOf (gui : GuiLayer) (flow : Flow) : String :=
  let country := (geoFor gui flow.key.dstIP).country
  if country = "" then "-" else country

/-- The RTT as it is compared: an unknown one is 0. -/
def rttOf (flow : Flow) : ℤ := if flow.initialRttMicroseconds = 0 then INT64_MAX else flow.initialRttMicroseconds

/-- `comparison` before the tie-break, which only its sign matters of. -/
def columnComparison (gui : GuiLayer) (left right : Flow) : Ordering :=
  match gui.flowSortColumn with
  | 0 => threeWay (host left) (host right)
  | 1 => threeWay (countryOf gui left) (countryOf gui right)
  | 2 => threeWay (organizationLabel (geoFor gui left.key.dstIP)) (organizationLabel (geoFor gui right.key.dstIP))
  | 3 => threeWay left.service right.service
  | 4 => threeWay (toLex (left.key.protocol, left.key.dstPort)) (toLex (right.key.protocol, right.key.dstPort))
  | 5 => threeWay left.packets.toNat right.packets.toNat
  | 6 => threeWay (left.bytesUp + left.bytesDown).toNat (right.bytesUp + right.bytesDown).toNat
  | 7 => threeWay (toDouble left.rateBytesPerSecond.toNat) (toDouble right.rateBytesPerSecond.toNat)
  | 8 => threeWay (rttOf left) (rttOf right)
  | 9 => threeWay (retransmissionRateOf left) (retransmissionRateOf right)
  | 10 => threeWay (left.lastSeen - left.firstSeen) (right.lastSeen - right.firstSeen)
  | 11 => threeWay left.process right.process
  | _ => .eq

def compareFlows (gui : GuiLayer) (left right : Flow) : Bool :=
  let comparison := columnComparison gui left right
  let comparison := if comparison = .eq then threeWay (host left) (host right) else comparison
  if gui.flowSortAscending then comparison = .lt else comparison = .gt

/-- `sorted` is what `sortFlowsCache` may leave of `flows`. -/
def SortFlowsCache (gui : GuiLayer) (flows sorted : List Flow) : Prop := Sorts (compareFlows gui) flows sorted

/-! ### The comparator -/

variable (gui : GuiLayer)

instance : Std.TransCmp (columnComparison gui) := by
  unfold columnComparison
  split
  all_goals first
    | exact transCmp_on threeWay _
    | exact transCmp_eq

/-- The column, then the host. -/
def rowComparison : Flow → Flow → Ordering :=
  compareLex (columnComparison gui) fun left right => threeWay (host left) (host right)

instance : Std.TransCmp (rowComparison gui) := by
  have := transCmp_on threeWay host
  unfold rowComparison
  infer_instance

theorem compareFlows_eq (left right : Flow) : compareFlows gui left right =
    if gui.flowSortAscending then decide (rowComparison gui left right = .lt)
    else decide (rowComparison gui left right = .gt) := by
  have hthen : ∀ c d : Ordering, (if c = .eq then d else c) = c.then d := by decide
  simp only [compareFlows, hthen]
  rfl

theorem compareFlows_isStrictWeakOrder :
    IsStrictWeakOrder Flow fun left right => compareFlows gui left right = true := by
  simp only [compareFlows_eq]
  cases gui.flowSortAscending with
  | true => simpa using isStrictWeakOrder_lt (rowComparison gui)
  | false => simpa using isStrictWeakOrder_gt (rowComparison gui)

/-! ### Unknown RTTs -/

variable {gui} {flows : List Flow}

/-- The flows whose RTT is known come first. -/
def MeasuredFirst (flows : List Flow) : Prop :=
  flows.Pairwise fun a b => b.initialRttMicroseconds ≠ 0 → a.initialRttMicroseconds ≠ 0

/-- The measured flow is less than the unmeasured one: always in an ascending
sort and never in a descending one, but for an RTT that is the sentinel itself. -/
def RttAhead (gui : GuiLayer) (measured unknown : Flow) : Prop :=
  if gui.flowSortAscending then
    measured.initialRttMicroseconds < INT64_MAX ∨
      (measured.initialRttMicroseconds = INT64_MAX ∧ host measured < host unknown)
  else
    INT64_MAX < measured.initialRttMicroseconds ∨
      (measured.initialRttMicroseconds = INT64_MAX ∧ host unknown < host measured)

theorem compareFlows_rtt (hcolumn : gui.flowSortColumn = 8) {m u : Flow} (hm : m.initialRttMicroseconds ≠ 0)
    (hu : u.initialRttMicroseconds = 0) : compareFlows gui m u = true ↔ RttAhead gui m u := by
  have hrow : rowComparison gui m u =
      (threeWay m.initialRttMicroseconds INT64_MAX).then (threeWay (host m) (host u)) := by
    rw [rowComparison, compareLex, columnComparison, hcolumn]
    show (threeWay (rttOf m) (rttOf u)).then _ = _
    rw [rttOf, if_neg hm, rttOf, if_pos hu]
  rw [compareFlows_eq, hrow, RttAhead]
  split
  · rw [decide_eq_true_eq, Ordering.then_eq_lt, threeWay_eq_lt, threeWay_eq_eq, threeWay_eq_lt]
  · rw [decide_eq_true_eq, Ordering.then_eq_gt, threeWay_eq_gt, threeWay_eq_eq, threeWay_eq_gt]

/-- The sort is defined and loses no flow, whatever the column and the
direction. The RTT column keeps unknown RTTs last exactly when every measured
flow compares less than every unmeasured one. -/
theorem sortFlowsCache_lawful_iff (gui : GuiLayer) (flows : List Flow) :
    (IsStrictWeakOrder Flow (fun left right => compareFlows gui left right = true) ∧
      ∀ sorted, SortFlowsCache gui flows sorted →
        sorted.Perm flows ∧ (gui.flowSortColumn = 8 → MeasuredFirst sorted)) ↔
    (gui.flowSortColumn = 8 → ∀ measured ∈ flows, ∀ unknown ∈ flows,
      measured.initialRttMicroseconds ≠ 0 → unknown.initialRttMicroseconds = 0 →
        RttAhead gui measured unknown) := by
  have hless := compareFlows_isStrictWeakOrder gui
  have hfirst := @forall_sorts_iff _ _ flows hless fun flow => flow.initialRttMicroseconds ≠ 0
  simp only [ne_eq, not_not] at hfirst
  constructor
  · rintro ⟨-, hsorted⟩ hcolumn m hmem u humem hm hu
    rw [← compareFlows_rtt hcolumn hm hu]
    exact hfirst.mp (fun sorted h => (hsorted sorted h).2 hcolumn) m hmem u humem hm hu
  · intro hahead
    refine ⟨hless, fun sorted h => ⟨(h hless).1, fun hcolumn => hfirst.mpr ?_ sorted h⟩⟩
    intro m hmem u humem hm hu
    exact (compareFlows_rtt hcolumn hm hu).mpr (hahead hcolumn m hmem u humem hm hu)

/-- The RTT column, descending: the flow whose RTT is not known comes first. -/
theorem sortFlowsCache_unknown_first :
    ¬ ∀ sorted, SortFlowsCache { flowSortColumn := 8 }
        [{ key := ⟨"10.0.0.2", "10.0.0.3", 50000, 443, "TCP"⟩, initialRttMicroseconds := 1000 },
          { key := ⟨"10.0.0.2", "10.0.0.4", 50001, 443, "TCP"⟩ }] sorted →
        MeasuredFirst sorted := by
  intro h
  refine absurd (h [{ key := ⟨"10.0.0.2", "10.0.0.4", 50001, 443, "TCP"⟩ },
    { key := ⟨"10.0.0.2", "10.0.0.3", 50000, 443, "TCP"⟩, initialRttMicroseconds := 1000 }] fun _ => ⟨.swap .., ?_⟩) ?_
  · exact List.pairwise_pair.mpr (by decide +kernel)
  · rw [MeasuredFirst, List.pairwise_pair]
    decide

end GuiLayer
end NetProbe
