import CoalescingQueue.Proofs.Abandonment
import CoalescingQueue.Proofs.Points

/-!
# Metrics and counters

A queue counts what it does twice: in counters that anybody who holds it can look at, and in the
metrics. Both are tied to its history here, and so to each other. An offer is counted when it is
made and measured when it enters, so the calls that wait make the difference. Nothing is said of
how long a run took, only of how many were measured.
-/
namespace CoalescingQueue

namespace Fact

open Series (recorded)

/-- What a fact contributes to the series of an instrument, if it happened at a queue of this
name. -/
def contributed (name : String) (i : Instrument) (l : Labels) (f : Fact) : List Series :=
  Sample.contributed (f.measurement?.toList.map (⟨name, ·⟩)) i l

/-- How many requests entered. -/
def entering : Fact → Nat
  | .admitted _ => 1
  | _ => 0

/-- How many requests were superseded when the work function was called. -/
def superseding : Fact → Nat
  | .dispatched b => b.superseded
  | _ => 0

/-- How many runs of this outcome were counted. -/
def concluding (isSuccess : Bool) : Fact → Nat
  | .concluded b _ => if b = isSuccess then 1 else 0
  | _ => 0

/-- The duration of a run that was counted. -/
@[simp] def duration? : Fact → Option Float
  | .concluded _ elapsed => some elapsed.toFloat
  | _ => none

section contributed

variable (name : String) (i : Instrument) (l : Labels) (f : Fact)

theorem contributed_admitted (r : Request) : (admitted r).contributed name i l =
    if .enqueued = i ∧ ⟨name, none⟩ = l then recorded 1 else [] :=
  Sample.contributed_enqueued name i l

/-- A batch of one request has no part in any series. -/
theorem contributed_dispatched (b : Batch) : (dispatched b).contributed name i l =
    if .superseded = i ∧ ⟨name, none⟩ = l then recorded b.superseded else [] :=
  Sample.contributed_superseded name i l b.superseded

theorem contributed_concluded (isSuccess : Bool) (elapsed : Nat) :
    (concluded isSuccess elapsed).contributed name i l =
      (if .executions = i ∧ ⟨name, some (Sample.resultLabel isSuccess)⟩ = l then recorded 1
        else []) ++
      if .duration = i ∧ ⟨name, none⟩ = l then
        [.histogram 1 elapsed.toFloat elapsed.toFloat elapsed.toFloat] else [] :=
  Sample.contributed_execution name i l isSuccess elapsed.toFloat

end contributed

section

variable (name : String) (f : Fact)

theorem contributed_enqueued :
    f.contributed name .enqueued ⟨name, none⟩ = recorded f.entering := by
  cases f with
  | admitted r => simp [contributed_admitted, entering]
  | dispatched b => simp [contributed_dispatched, entering, recorded]
  | concluded isSuccess elapsed => simp [contributed_concluded, entering, recorded]
  | _ => rfl

theorem contributed_superseded :
    f.contributed name .superseded ⟨name, none⟩ = recorded f.superseding := by
  cases f with
  | admitted r => simp [contributed_admitted, superseding, recorded]
  | dispatched b => simp [contributed_dispatched, superseding]
  | concluded isSuccess elapsed => simp [contributed_concluded, superseding, recorded]
  | _ => rfl

theorem contributed_executions (isSuccess : Bool) :
    f.contributed name .executions ⟨name, some (Sample.resultLabel isSuccess)⟩ =
      recorded (f.concluding isSuccess) := by
  cases f with
  | admitted r => simp [contributed_admitted, concluding, recorded]
  | dispatched b => simp [contributed_dispatched, concluding, recorded]
  | concluded b elapsed =>
    by_cases hb : b = isSuccess <;>
      simp [contributed_concluded, concluding, Sample.resultLabel_inj, recorded, hb]
  | _ => rfl

theorem contributed_duration :
    f.contributed name .duration ⟨name, none⟩ =
      f.duration?.toList.map fun ms => .histogram 1 ms ms ms := by
  cases f with
  | admitted r => simp [contributed_admitted]
  | dispatched b => simp [contributed_dispatched]
  | concluded b elapsed => simp [contributed_concluded]
  | _ => rfl

theorem contributed_eq_nil {i : Instrument} {l : Labels} (h : l ∉ i.labels name) :
    f.contributed name i l = [] := by
  cases f with
  | admitted r =>
    rw [contributed_admitted, if_neg]
    rintro ⟨rfl, rfl⟩
    exact h (List.mem_singleton_self _)
  | dispatched b =>
    rw [contributed_dispatched, if_neg]
    rintro ⟨rfl, rfl⟩
    exact h (List.mem_singleton_self _)
  | concluded isSuccess elapsed =>
    rw [contributed_concluded, if_neg, if_neg, List.append_nil]
    · rintro ⟨rfl, rfl⟩
      exact h (List.mem_singleton_self _)
    · rintro ⟨rfl, rfl⟩
      cases isSuccess <;> simp [Instrument.labels, Sample.resultLabel] at h
  | _ => rfl

end

end Fact

namespace History

variable (h : History)

/-- How much the facts come to. -/
def total (amount : Fact → Nat) : Nat := (h.map amount).sum

@[simp] theorem total_cons (amount : Fact → Nat) (f : Fact) :
    total (f :: h) amount = amount f + h.total amount := by
  simp [total]

theorem total_entering : h.total Fact.entering = h.arrivals.length := by
  induction h with
  | nil => rfl
  | cons f h ih => cases f <;> simp [Fact.entering, ih, Nat.add_comm]

theorem total_superseding :
    h.total Fact.superseding = (h.dispatched.flatMap Batch.older).length := by
  induction h with
  | nil => rfl
  | cons f h ih => cases f <;> simp [Fact.superseding, Batch.superseded, ih]

theorem total_concluding (isSuccess : Bool) :
    h.total (Fact.concluding isSuccess) = h.outcomes.count isSuccess := by
  induction h with
  | nil => rfl
  | cons f h ih => cases f <;> simp [Fact.concluding, List.count_cons, ih, Nat.add_comm]

theorem length_durations : (h.gather Fact.duration?).length = h.outcomes.length := by
  induction h with
  | nil => rfl
  | cons f h ih => cases f <;> simp [ih]

end History

namespace Queue

variable {script : WorkScript} {q : Queue}

/-- The metrics show this series under these labels. -/
def Exports (q : Queue) (i : Instrument) (l : Labels) (s : Series) : Prop :=
  ∃ points, (i, points) ∈ measured q.samples ∧ (l, s) ∈ points

theorem contributed_samples (q : Queue) (i : Instrument) (l : Labels) :
    Sample.contributed q.samples i l =
      q.flow.journal.flatMap (Fact.contributed q.config.name i l) := by
  show Sample.contributed ((q.flow.journal.filterMap _).map _) i l = _
  induction q.flow.journal with
  | nil => rfl
  | cons f rest ih =>
    rw [List.flatMap_cons, ← ih]
    cases hf : f.measurement? with
    | none => rw [List.filterMap_cons_none hf, Fact.contributed, hf]; rfl
    | some m =>
      rw [List.filterMap_cons_some hf, Fact.contributed, hf]
      simp [Sample.contributed]

theorem exports_iff {i : Instrument} {l : Labels} {s : Series} : q.Exports i l s ↔
    Series.merged (q.flow.journal.flatMap (Fact.contributed q.config.name i l)) = some s := by
  rw [← contributed_samples]
  exact shows_iff

/-- A total is shown unless it is zero. -/
theorem exports_counter_iff {i : Instrument} {l : Labels} {amount : Fact → Nat}
    (h : ∀ f : Fact, f.contributed q.config.name i l = Series.recorded (amount f)) {s : Series} :
    q.Exports i l s ↔
      s = .counter (q.flow.journal.total amount) ∧ 0 < q.flow.journal.total amount := by
  have hrecorded : q.flow.journal.flatMap (Fact.contributed q.config.name i l) =
      (q.flow.journal.map amount).flatMap Series.recorded := by
    rw [List.flatMap_map]
    exact List.flatMap_congr fun f _ => h f
  rw [exports_iff, hrecorded]
  exact Series.merged_recorded

theorem Exports.mem_labels {i : Instrument} {l : Labels} {s : Series} (h : q.Exports i l s) :
    l ∈ i.labels q.config.name := by
  by_contra hl
  rw [exports_iff, List.flatMap_eq_nil_iff.mpr fun f _ => Fact.contributed_eq_nil _ f hl] at h
  contradiction

/-- Where callers stay, whatever was counted and neither entered nor was taken back still waits. -/
theorem Attended.enqueued_eq (h : Attended script q) :
    q.stats.enqueued = q.flow.journal.arrivals.length + q.mailbox.waiting.length := by
  have hcounted : q.stats.enqueued = q.flow.journal.arrivals.length +
      (q.mailbox.waiting.length + q.flow.journal.forsaken.length) :=
    Flow.counted_iff.mp h.reachable.flow.counted
  rwa [h.forsaken_eq] at hcounted

/-- The metrics of a queue say what its counters say, and nothing else. -/
structure Metered (q : Queue) : Prop where
  /-- Each instrument that is there has a point, and no two points of it have the same labels. -/
  measured : ((measured q.samples).map Prod.fst).Nodup ∧
    ∀ entry ∈ measured q.samples, entry.2 ≠ [] ∧ entry.2.labels.Nodup
  /-- The labels of every point name the queue, and the outcome where there is one. -/
  labels : ∀ i l s, q.Exports i l s → l ∈ i.labels q.config.name
  accepted_eq : q.stats.enqueued - q.mailbox.waiting.length = q.flow.journal.arrivals.length
  /-- Calls that wait are counted and not measured. -/
  enqueued : ∀ s, q.Exports .enqueued ⟨q.config.name, none⟩ s ↔
    s = .counter (q.stats.enqueued - q.mailbox.waiting.length) ∧
      0 < q.stats.enqueued - q.mailbox.waiting.length
  superseded : ∀ s, q.Exports .superseded ⟨q.config.name, none⟩ s ↔
    s = .counter q.stats.superseded ∧ 0 < q.stats.superseded
  succeeded : ∀ s, q.Exports .executions ⟨q.config.name, some "ok"⟩ s ↔
    s = .counter q.stats.succeeded ∧ 0 < q.stats.succeeded
  failed : ∀ s, q.Exports .executions ⟨q.config.name, some "error"⟩ s ↔
    s = .counter q.stats.failed ∧ 0 < q.stats.failed
  executed : ∀ s, q.Exports .duration ⟨q.config.name, none⟩ s →
    ∃ sum least most, s = .histogram q.stats.executed sum least most
  executed_iff : (∃ s, q.Exports .duration ⟨q.config.name, none⟩ s) ↔ 0 < q.stats.executed

theorem exports_duration_iff {s : Series} : q.Exports .duration ⟨q.config.name, none⟩ s ↔
    Series.merged ((q.flow.journal.gather Fact.duration?).map fun ms => .histogram 1 ms ms ms) =
      some s := by
  have hdurations : q.flow.journal.flatMap
      (Fact.contributed q.config.name .duration ⟨q.config.name, none⟩) =
        (q.flow.journal.gather Fact.duration?).map fun ms => .histogram 1 ms ms ms := by
    induction q.flow.journal with
    | nil => rfl
    | cons f rest ih =>
      rw [List.flatMap_cons, ih, Fact.contributed_duration, History.gather_cons, List.map_append]
  rw [exports_iff, hdurations]

theorem metered (h : Attended script q) : q.Metered := by
  have htally := h.reachable.flow.tally
  have henqueued := h.enqueued_eq
  have haccepted : q.stats.enqueued - q.mailbox.waiting.length =
      q.flow.journal.total Fact.entering := by
    rw [History.total_entering]
    omega
  have hsuperseded : q.stats.superseded = q.flow.journal.total Fact.superseding := by
    rw [History.total_superseding]
    exact htally.superseded_eq
  have hsucceeded : q.stats.succeeded = q.flow.journal.total (Fact.concluding true) := by
    rw [History.total_concluding]
    exact htally.succeeded_eq
  have hfailed : q.stats.failed = q.flow.journal.total (Fact.concluding false) := by
    rw [History.total_concluding]
    exact htally.failed_eq
  have hexecuted : q.stats.executed = (q.flow.journal.gather Fact.duration?).length := by
    rw [History.length_durations]
    exact htally.executed_eq
  refine ⟨nodup_measured _, fun i l s => Exports.mem_labels, by omega, fun s => ?_, fun s => ?_,
    fun s => ?_, fun s => ?_, fun s hs => ?_, ?_⟩
  · rw [haccepted]
    exact exports_counter_iff fun f => f.contributed_enqueued _
  · rw [hsuperseded]
    exact exports_counter_iff fun f => f.contributed_superseded _
  · rw [hsucceeded]
    exact exports_counter_iff fun f => f.contributed_executions _ true
  · rw [hfailed]
    exact exports_counter_iff fun f => f.contributed_executions _ false
  · rw [exports_duration_iff] at hs
    have hsome : q.flow.journal.gather Fact.duration? ≠ [] := by
      intro hnil
      rw [hnil] at hs
      contradiction
    obtain ⟨sum, least, most, hmerged⟩ := Series.merged_durations hsome
    rw [hmerged, Option.some.injEq] at hs
    exact ⟨sum, least, most, by rw [← hs, hexecuted]⟩
  · rw [hexecuted, List.length_pos_iff]
    constructor
    · rintro ⟨s, hs⟩ hnil
      rw [exports_duration_iff, hnil] at hs
      contradiction
    · intro hsome
      obtain ⟨sum, least, most, hmerged⟩ := Series.merged_durations hsome
      exact ⟨_, exports_duration_iff.mpr hmerged⟩

/-- The first run fails, and the third and all later ones take a while. -/
def faltering : WorkScript :=
  .ofList [.run { ending := .failure ["boom"] }, .run {}] (.run { duration := 5 })

/-- Runs have failed and succeeded, and a call waits. -/
def gauged : Queue :=
  let q : Queue := { config := narrow, mailbox := { free := narrow.capacity } }
  let busy := (q.act faltering (.burst [⟨"a"⟩, ⟨"b"⟩, ⟨"c"⟩, ⟨"d"⟩, ⟨"e"⟩] 0)).2.settle faltering
  (busy.act faltering (.burst [⟨"f"⟩, ⟨"g"⟩, ⟨"h"⟩] 0)).2

theorem attended_gauged : Attended faltering gauged := by
  have hcapacity : narrow.capacity ≤ QueueConfig.maxCapacity := by decide
  refine attended_iff.mpr ⟨?_, by decide⟩
  unfold gauged
  extract_lets q busy
  have hbusy : Reachable faltering busy :=
    ((Reachable.new hcapacity []).act ⟨rfl, rfl, rfl⟩ _).settle
  have hrest : busy.AtRest faltering := isAtRest_iff.mp (by decide)
  exact hbusy.act hrest.isFree _

theorem metered_gauged : Attended faltering gauged ∧
    gauged.stats = ⟨8, 2, 1, 1, 2, some "e"⟩ ∧ gauged.mailbox.waiting.length = 1 ∧
    gauged.Metered :=
  ⟨attended_gauged, by decide, by decide, metered attended_gauged⟩

end Queue
end CoalescingQueue
