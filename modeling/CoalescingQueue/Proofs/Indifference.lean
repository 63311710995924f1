import CoalescingQueue.Proofs.Listeners
import CoalescingQueue.Proofs.Points
import CoalescingQueue.Proofs.Veil
import CoalescingQueue.Scenario
import Mathlib.Data.List.Forall2

/-!
# Failures make no difference

Two work functions that differ only in how their runs end lead a queue without hooks through the
same states, but for the outcomes that were reported and counted: behind the veil, step by step,
the two are one. So who waits, what is dispatched and when, and what callers are told are the same.
With hooks that is not so, since an action may be hooked to a failure.
-/
namespace CoalescingQueue

/-- Works that are the same but for how a run ends. -/
inductive Work.IsLike : Work → Work → Prop
  | breakdown : IsLike .breakdown .breakdown
  | run (plan : RunPlan) (ending ending' : Ending) :
      IsLike (.run { plan with ending }) (.run { plan with ending := ending' })

namespace Work.IsLike

variable {w w' : Work}

theorem veil_eq (h : w.IsLike w') : w.veil = w'.veil := by
  cases h <;> rfl

theorem weight_eq (h : w.IsLike w') : w.weight = w'.weight := by
  cases h <;> rfl

end Work.IsLike

/-- Work functions whose calls are the same but for how the runs end. -/
structure WorkScript.IsLike (s s' : WorkScript) : Prop where
  call : ∀ n, (s.call n).IsLike (s'.call n)
  listedWeight_eq : s.listedWeight = s'.listedWeight
  otherWeight_eq : s.otherWeight = s'.otherWeight

namespace WorkScript

theorem IsLike.veil_eq {s s' : WorkScript} (h : s.IsLike s') : s.veil = s'.veil := by
  unfold veil
  rw [h.listedWeight_eq, h.otherWeight_eq, funext fun n => (h.call n).veil_eq]

theorem isLike_ofList {listed listed' : List Work} {other other' : Work}
    (h : List.Forall₂ Work.IsLike listed listed') (ho : other.IsLike other') :
    (ofList listed other).IsLike (ofList listed' other') := by
  refine ⟨fun n => ?_, ?_, ho.weight_eq⟩
  · show (listed.getD (n - 1) other).IsLike (listed'.getD (n - 1) other')
    generalize n - 1 = i
    induction h generalizing i with
    | nil => exact ho
    | cons hw _ ih =>
      cases i with
      | zero => exact hw
      | succ i => exact ih i
  · show listed.foldr _ 0 = listed'.foldr _ 0
    induction h with
    | nil => rfl
    | cons hw _ ih => rw [List.foldr_cons, List.foldr_cons, ih, hw.weight_eq]

end WorkScript

theorem getLastD_append {α : Type} (as bs : List α) (a : α) :
    (as ++ bs).getLastD a = bs.getLastD (as.getLastD a) := by
  induction as generalizing a with
  | nil => rfl
  | cons b as ih => rw [List.cons_append, List.getLastD_cons, List.getLastD_cons, ih]

namespace Queue

variable {script : WorkScript} {q : Queue}

/-! ## What a queue passes through -/

/-- The queues on the way of so many steps, each after its step. -/
def passed (next? : Queue → Option Queue) : Nat → Queue → List Queue
  | 0, _ => []
  | n + 1, q =>
    match next? q with
    | some q' => q' :: passed next? n q'
    | none => []

/-- The queues on the way to rest. -/
def settling (script : WorkScript) (q : Queue) : List Queue :=
  passed (step? script) (q.patience script) q

/-- The queues on the way to a time. -/
def advancing (script : WorkScript) (time : Nat) : Nat → Queue → List Queue
  | 0, _ => []
  | n + 1, q =>
    q.settling script ++
      if (q.settle script).isAtRest script then
        match (q.settle script).deadline? with
        | some deadline =>
          if deadline < time then
            (q.settle script).wakeRunAt deadline ::
              advancing script time n ((q.settle script).wakeRunAt deadline)
          else if deadline = time then [(q.settle script).wakeRunAt time]
          else [(q.settle script).clockTo time]
        | none => [(q.settle script).clockTo time]
      else []

/-- The queues on the way through a step of a scenario. -/
def trail (script : WorkScript) (q : Queue) : ScenarioStep → List Queue
  | .settle => q.settling script
  | .advance ms =>
    advancing script (q.now + ms) (q.now + ms - q.now) q ++
      (q.advanceTo script (q.now + ms)).settling script
  | .act a =>
    let q := { q with reply := .nothing }.begin a
    q :: passed attend? (q.patience script) q

/-- The queues on the way through a scenario. -/
def journey (script : WorkScript) (q : Queue) : List ScenarioStep → List Queue
  | [] => []
  | step :: rest => q.trail script step ++ (q.take script step).2.journey script rest

theorem iterate_eq (next? : Queue → Option Queue) (n : Nat) (q : Queue) :
    iterate next? n q = (passed next? n q).getLastD q := by
  induction n generalizing q with
  | zero => rfl
  | succ n ih =>
    unfold iterate passed
    cases next? q with
    | none => rfl
    | some q' => exact (ih q').trans (List.getLastD_cons ..).symm

theorem settle_eq (script : WorkScript) (q : Queue) :
    q.settle script = (q.settling script).getLastD q := iterate_eq _ _ q

theorem advanceWithin_eq (script : WorkScript) (time n : Nat) (q : Queue) :
    advanceWithin script time n q = (advancing script time n q).getLastD q := by
  induction n generalizing q with
  | zero => rfl
  | succ n ih =>
    unfold advanceWithin advancing
    dsimp only
    rw [getLastD_append, ← settle_eq]
    generalize q.settle script = q'
    by_cases hr : q'.isAtRest script = true
    · rw [if_pos hr, if_pos hr]
      cases q'.deadline? with
      | none => rfl
      | some deadline =>
        dsimp only
        by_cases hlt : deadline < time
        · rw [if_pos hlt, if_pos hlt, ih, List.getLastD_cons]
        · rw [if_neg hlt, if_neg hlt]
          split <;> rfl
    · rw [if_neg hr, if_neg hr]
      rfl

/-- The way through a step leads to where the step leads. -/
theorem take_eq (script : WorkScript) (q : Queue) (step : ScenarioStep) :
    (q.take script step).2 = (q.trail script step).getLastD q := by
  cases step with
  | settle => exact settle_eq script q
  | advance ms =>
    show (q.advanceTo script (q.now + ms)).settle script = _
    rw [trail, getLastD_append, ← advanceWithin_eq]
    exact settle_eq script _
  | act a =>
    dsimp only [trail, take, act]
    generalize begin { q with reply := .nothing } a = q'
    generalize q'.patience script = n
    rw [List.getLastD_cons]
    exact iterate_eq attend? n q'

/-- The journey of a scenario leads to where playing it leads. -/
theorem play_eq (script : WorkScript) (q : Queue) (steps : List ScenarioStep) :
    (q.play script steps).2 = (q.journey script steps).getLastD q := by
  induction steps generalizing q with
  | nil => rfl
  | cons step rest ih =>
    rw [journey, getLastD_append, ← take_eq, ← ih]
    rfl

/-! ## The way behind the veil -/

theorem veil_passed {next? veiled? : Queue → Option Queue}
    (hnext : ∀ {q : Queue}, q.hooks = [] → veiled? q.veil = (next? q).map veil)
    (hkeeps : ∀ {q q' : Queue}, next? q = some q' → q'.listeners = q.listeners)
    (h : q.hooks = []) (n : Nat) : (passed next? n q).map veil = passed veiled? n q.veil ∧
      ∀ p ∈ passed next? n q, p.hooks = [] := by
  induction n generalizing q with
  | zero => exact ⟨rfl, List.forall_mem_nil _⟩
  | succ n ih =>
    unfold passed
    rw [hnext h]
    cases hq : next? q with
    | none => exact ⟨rfl, List.forall_mem_nil _⟩
    | some q' =>
      have hq' : q'.hooks = [] := hooks_eq_nil (hkeeps hq) h
      obtain ⟨hmap, hall⟩ := ih hq'
      exact ⟨congrArg (q'.veil :: ·) hmap, List.forall_mem_cons.mpr ⟨hq', hall⟩⟩

theorem hooks_getLastD {trail : List Queue} (h : q.hooks = []) (hall : ∀ p ∈ trail, p.hooks = []) :
    (trail.getLastD q).hooks = [] := by
  induction trail generalizing q with
  | nil => exact h
  | cons p trail ih =>
    rw [List.forall_mem_cons] at hall
    rw [List.getLastD_cons]
    exact ih hall.1 hall.2

theorem veil_settling (script : WorkScript) (h : q.hooks = []) :
    (q.settling script).map veil = q.veil.settling script.veil ∧
      ∀ p ∈ q.settling script, p.hooks = [] :=
  veil_passed (fun hq => veil_step? _ hq script) (fun hq => listeners_step? _ hq) h _

theorem veil_settle (script : WorkScript) (h : q.hooks = []) :
    (q.settle script).veil = q.veil.settle script.veil := by
  rw [settle_eq, settle_eq, ← (veil_settling script h).1, List.getLastD_map]

theorem hooks_settle (script : WorkScript) (h : q.hooks = []) : (q.settle script).hooks = [] := by
  rw [settle_eq]
  exact hooks_getLastD h (veil_settling script h).2

theorem veil_advancing (script : WorkScript) (time n : Nat) (h : q.hooks = []) :
    (advancing script time n q).map veil = advancing script.veil time n q.veil ∧
      ∀ p ∈ advancing script time n q, p.hooks = [] := by
  induction n generalizing q with
  | zero => exact ⟨rfl, List.forall_mem_nil _⟩
  | succ n ih =>
    obtain ⟨hsettling, hall⟩ := veil_settling script h
    have hsettled := hooks_settle script h
    unfold advancing
    rw [List.map_append, hsettling, ← veil_settle script h]
    generalize q.settle script = q' at hsettled
    rw [veil_isAtRest q' hsettled, veil_deadline?]
    split
    · cases q'.deadline? with
      | none =>
        exact ⟨rfl, List.forall_mem_append.mpr ⟨hall, List.forall_mem_singleton.mpr hsettled⟩⟩
      | some deadline =>
        have hwoken (time : Nat) : (q'.wakeRunAt time).hooks = [] :=
          hooks_eq_nil (listeners_wakeRunAt q' time) hsettled
        dsimp only
        split
        · obtain ⟨hmap, hrest⟩ := ih (hwoken deadline)
          rw [List.map_cons, hmap, veil_wakeRunAt]
          exact ⟨rfl, List.forall_mem_append.mpr
            ⟨hall, List.forall_mem_cons.mpr ⟨hwoken deadline, hrest⟩⟩⟩
        · split
          · rw [List.map_singleton, veil_wakeRunAt]
            exact ⟨rfl, List.forall_mem_append.mpr
              ⟨hall, List.forall_mem_singleton.mpr (hwoken time)⟩⟩
          · exact ⟨rfl, List.forall_mem_append.mpr
              ⟨hall, List.forall_mem_singleton.mpr hsettled⟩⟩
    · exact ⟨rfl, List.forall_mem_append.mpr ⟨hall, List.forall_mem_nil _⟩⟩

theorem veil_advanceTo (script : WorkScript) (time : Nat) (h : q.hooks = []) :
    (q.advanceTo script time).veil = q.veil.advanceTo script.veil time ∧
      (q.advanceTo script time).hooks = [] := by
  obtain ⟨hmap, hall⟩ := veil_advancing script time (time - q.now) h
  unfold advanceTo
  rw [advanceWithin_eq, advanceWithin_eq]
  refine ⟨?_, hooks_getLastD h hall⟩
  show _ = (advancing script.veil time (time - q.now) q.veil).getLastD q.veil
  rw [← hmap, List.getLastD_map]

/-- Behind the veil the way through a step is that of the veiled work function. -/
theorem veil_trail (script : WorkScript) (step : ScenarioStep) (h : q.hooks = []) :
    (q.trail script step).map veil = q.veil.trail script.veil step ∧
      ∀ p ∈ q.trail script step, p.hooks = [] := by
  cases step with
  | settle => exact veil_settling script h
  | advance ms =>
    obtain ⟨hadvanced, hhooks⟩ := veil_advanceTo script (q.now + ms) h
    obtain ⟨hmap, hall⟩ := veil_advancing script (q.now + ms) (q.now + ms - q.now) h
    obtain ⟨hsettling, hrest⟩ := veil_settling script hhooks
    refine ⟨?_, List.forall_mem_append.mpr ⟨hall, hrest⟩⟩
    rw [trail, List.map_append, hmap, hsettling, hadvanced]
    rfl
  | act a =>
    have hbegun : (begin { q with reply := .nothing } a).hooks = [] :=
      hooks_eq_nil (listeners_begin { q with reply := .nothing } a) h
    have hveil := veil_begin { q with reply := .nothing } a
    dsimp only [trail]
    generalize begin { q with reply := .nothing } a = q' at hbegun hveil
    obtain ⟨hmap, hall⟩ := veil_passed (fun _ => veil_attend? _) (fun hq => listeners_attend? _ hq)
      hbegun (q'.patience script)
    refine ⟨?_, List.forall_mem_cons.mpr ⟨hbegun, hall⟩⟩
    rw [List.map_cons, hmap, ← veil_patience q' script, hveil]
    rfl

theorem veil_take (script : WorkScript) (step : ScenarioStep) (h : q.hooks = []) :
    q.veil.take script.veil step = ((q.take script step).1, (q.take script step).2.veil) ∧
      (q.take script step).2.hooks = [] := by
  obtain ⟨hmap, hall⟩ := veil_trail script step h
  have hlast : (q.veil.take script.veil step).2 = (q.take script step).2.veil := by
    rw [take_eq, take_eq, ← hmap, List.getLastD_map]
  refine ⟨Prod.ext ?_ hlast, ?_⟩
  · cases step with
    | settle | advance => rfl
    | act a => exact congrArg (·.reply) hlast
  · rw [take_eq]
    exact hooks_getLastD h hall

theorem veil_journey (script : WorkScript) (steps : List ScenarioStep) (h : q.hooks = []) :
    (q.journey script steps).map veil = q.veil.journey script.veil steps := by
  induction steps generalizing q with
  | nil => rfl
  | cons step rest ih =>
    obtain ⟨htaken, hhooks⟩ := veil_take script step h
    rw [journey, journey, List.map_append, (veil_trail script step h).1, ih hhooks, htaken]

end Queue

/-- What is found in a log, behind the veil. -/
def LogEntry.veil : LogEntry → LogEntry
  | .event record => .event record.veil
  | .snapshot seen => .snapshot seen.veil
  | entry => entry

/-- What is seen after a step, behind the veil. -/
def StepRecord.veil (r : StepRecord) : StepRecord :=
  { r with seen := r.seen.veil, facts := r.facts.map Fact.veil }

namespace Queue

variable {q : Queue}

theorem veil_play (script : WorkScript) (steps : List ScenarioStep) (h : q.hooks = []) :
    q.veil.play script.veil steps =
      ((q.play script steps).1.map StepRecord.veil, (q.play script steps).2.veil) := by
  induction steps generalizing q with
  | nil => rfl
  | cons step rest ih =>
    obtain ⟨htaken, hhooks⟩ := veil_take script step h
    unfold play
    rw [htaken]
    dsimp only
    rw [ih hhooks, veil_observe]
    have hfacts (q' : Queue) : q'.veil.journal.toList.drop q.veil.journal.size =
        (q'.journal.toList.drop q.journal.size).map Fact.veil := by
      simp [veil, List.map_drop]
    rw [hfacts]
    rfl

end Queue

/-! ## Metrics behind the veil -/

def Measurement.veil : Measurement → Measurement
  | .execution _ ms => .execution true ms
  | m => m

def Sample.veil (s : Sample) : Sample := { s with measurement := s.measurement.veil }

/-- An execution counts under the label of a success. -/
def Contribution.veil (c : Contribution) : Contribution :=
  if c.instrument = .executions then { c with labels.result := some (Sample.resultLabel true) }
  else c

theorem Contribution.veil_instrument (c : Contribution) : c.veil.instrument = c.instrument := by
  unfold veil
  split <;> rfl

theorem Sample.contributions_veil (s : Sample) :
    s.veil.contributions = s.contributions.map Contribution.veil := by
  obtain ⟨queue, measurement⟩ := s
  cases measurement with
  | superseded n =>
    show contributions ⟨queue, .superseded n⟩ = _
    rw [contributions_superseded]
    split <;> rfl
  | _ => rfl

namespace Queue

theorem contributions_veil (q : Queue) : q.veil.samples.flatMap Sample.contributions =
    (q.samples.flatMap Sample.contributions).map Contribution.veil := by
  have hmeasurement (f : Fact) : f.veil.measurement? = f.measurement?.map Measurement.veil := by
    cases f <;> rfl
  have hsamples : q.veil.samples = q.samples.map Sample.veil := by
    unfold samples veil
    rw [Array.toList_map, List.filterMap_map, List.map_map]
    simp only [Function.comp_def, hmeasurement]
    rw [← List.map_filterMap, List.map_map]
    rfl
  rw [hsamples, List.flatMap_map, List.map_flatMap]
  exact List.flatMap_congr fun s _ => s.contributions_veil

/-- Apart from the executions the metrics are the same behind the veil. -/
theorem ofSamples_veil {i : Instrument} (hi : i ≠ .executions) (q : Queue) :
    Points.ofSamples q.veil.samples i = Points.ofSamples q.samples i := by
  have hplain : ∀ c ∈ (q.samples.flatMap Sample.contributions).filter (·.instrument = i),
      c.veil = c := by
    intro c hc
    have hinstrument : c.instrument = i := of_decide_eq_true (List.mem_filter.mp hc).2
    exact if_neg (hinstrument ▸ hi)
  have hsame : (q.veil.samples.flatMap Sample.contributions).filter (·.instrument = i) =
      (q.samples.flatMap Sample.contributions).filter (·.instrument = i) := by
    rw [contributions_veil, List.filter_map]
    simp only [Function.comp_def, Contribution.veil_instrument]
    exact (List.map_congr_left hplain).trans (List.map_id' _)
  rw [Points.ofSamples_eq, Points.ofSamples_eq, hsame]

theorem countP_veil (q : Queue) :
    (q.veil.samples.flatMap Sample.contributions).countP (·.instrument = .executions) =
      (q.samples.flatMap Sample.contributions).countP (·.instrument = .executions) := by
  rw [contributions_veil, List.countP_map]
  simp only [Function.comp_def, Contribution.veil_instrument]

/-- What the executions come to is shown if it is not zero. -/
theorem measured_executions_iff (q : Queue) (n : Nat) :
    (∃ points, (Instrument.executions, points) ∈ measured q.samples ∧ points.total = n) ↔
      0 < n ∧ (q.samples.flatMap Sample.contributions).countP (·.instrument = .executions) = n := by
  have hcomes := Points.comesTo_executions q.samples
  constructor
  · rintro ⟨points, hmem, rfl⟩
    obtain ⟨rfl, hne⟩ := mem_measured_iff.mp hmem
    rw [Points.total_inOrder, hcomes.total_eq]
    exact ⟨hcomes.ne_nil_iff.mp hne, rfl⟩
  · rintro ⟨hpos, rfl⟩
    refine ⟨_, mem_measured_iff.mpr ⟨rfl, hcomes.ne_nil_iff.mpr hpos⟩, ?_⟩
    rw [Points.total_inOrder, hcomes.total_eq]

end Queue

/-- Records of steps that differ only in how runs have ended. -/
structure StepRecord.IsLike (r r' : StepRecord) : Prop where
  reply_eq : r.reply = r'.reply
  time_eq : r.time = r'.time
  state_eq : r.seen.state = r'.seen.state
  isStopped_eq : r.seen.isStopped = r'.seen.isStopped
  /-- Whoever succeeded or failed is counted in one. -/
  stats_eq : r.seen.stats.map Stats.veil = r'.seen.stats.map Stats.veil
  resolved_eq : r.resolved = r'.resolved
  log_eq : r.log.map LogEntry.veil = r'.log.map LogEntry.veil

theorem StepRecord.isLike_of_veil_eq {r r' : StepRecord} (h : r.veil = r'.veil) : r.IsLike r' := by
  have hresolution : (fun f : Fact => f.veil.resolution?) = Fact.resolution? := by
    funext f
    cases f <;> rfl
  have hentry : (fun f : Fact => f.veil.logEntry?) = fun f => f.logEntry?.map LogEntry.veil := by
    funext f
    cases f <;> rfl
  have hresolved (r : StepRecord) : r.veil.resolved = r.resolved := by
    show ((r.facts.map Fact.veil).filterMap _).mergeSort _ = _
    rw [List.filterMap_map]
    exact congrArg (fun kind => (r.facts.filterMap kind).mergeSort _) hresolution
  have hlog (r : StepRecord) : r.veil.log = r.log.map LogEntry.veil := by
    show (r.facts.map Fact.veil).filterMap _ = (r.facts.filterMap _).map _
    rw [List.filterMap_map, List.map_filterMap]
    exact congrArg (fun kind => r.facts.filterMap kind) hentry
  exact ⟨congrArg (·.reply) h, congrArg (·.time) h, congrArg (·.seen.state) h,
    congrArg (·.seen.isStopped) h, congrArg (·.seen.stats) h,
    (hresolved r).symm.trans ((congrArg resolved h).trans (hresolved r')),
    (hlog r).symm.trans ((congrArg log h).trans (hlog r'))⟩

namespace Queue

/-- Two work functions lead a queue through a scenario in the same way, but for how runs end. -/
structure Indifferent (s s' : WorkScript) (q : Queue) (steps : List ScenarioStep) : Prop where
  records : List.Forall₂ StepRecord.IsLike (q.play s steps).1 (q.play s' steps).1
  /-- At any moment on the way the same calls have been made for the same requests. -/
  calls : (q.journey s steps).map (fun p => (p.now, p.flow.journal.dispatched)) =
    (q.journey s' steps).map fun p => (p.now, p.flow.journal.dispatched)
  metrics : ∀ i points, i ≠ .executions →
    ((i, points) ∈ measured (q.play s steps).2.samples ↔
      (i, points) ∈ measured (q.play s' steps).2.samples)
  /-- The executions come to the same number over all labels. -/
  executions : ∀ n,
    (∃ points, (.executions, points) ∈ measured (q.play s steps).2.samples ∧ points.total = n) ↔
      ∃ points, (.executions, points) ∈ measured (q.play s' steps).2.samples ∧ points.total = n

theorem veil_of_open? {config : QueueConfig} {q : Queue} (h : open? config = some q) :
    q.veil = q ∧ q.hooks = [] := by
  unfold open? at h
  split at h
  · obtain rfl := Option.some.inj h
    exact ⟨by simp [veil, Phase.veil, Stats.veil], rfl⟩
  · contradiction

theorem calls_veil (q : Queue) : (q.veil.now, q.veil.flow.journal.dispatched) =
    (q.now, q.flow.journal.dispatched) := by
  have hdispatched : (fun f : Fact => f.veil.dispatched?) = Fact.dispatched? := by
    funext f
    cases f <;> rfl
  have hsame : q.veil.flow.journal.dispatched = q.flow.journal.dispatched := by
    show (q.journal.map Fact.veil).toList.filterMap Fact.dispatched? = _
    rw [Array.toList_map, List.filterMap_map]
    exact congrArg (fun kind => q.journal.toList.filterMap kind) hdispatched
  rw [hsame]
  rfl

theorem indifferent {s s' : WorkScript} (h : s.IsLike s') {config : QueueConfig} {q : Queue}
    (hq : open? config = some q) (steps : List ScenarioStep) : q.Indifferent s s' steps := by
  obtain ⟨hveil, hhooks⟩ := veil_of_open? hq
  have hplay := veil_play s steps hhooks
  have hplay' := veil_play s' steps hhooks
  rw [← h.veil_eq, hplay, Prod.mk.injEq] at hplay'
  obtain ⟨hrecords, hlast⟩ := hplay'
  have hjourney : (q.journey s steps).map veil = (q.journey s' steps).map veil := by
    rw [veil_journey s steps hhooks, veil_journey s' steps hhooks, h.veil_eq]
  refine ⟨?_, ?_, fun i points hi => ?_, fun n => ?_⟩
  · have hsame : List.Forall₂ (· = ·) _ _ := List.forall₂_eq_eq_eq ▸ hrecords
    rw [List.forall₂_map_left_iff, List.forall₂_map_right_iff] at hsame
    exact hsame.imp fun _ _ => StepRecord.isLike_of_veil_eq
  · simpa [Function.comp_def, calls_veil] using
      congrArg (List.map fun p : Queue => (p.now, p.flow.journal.dispatched)) hjourney
  · have hsame := congrArg (fun q : Queue => Points.ofSamples q.samples i) hlast
    rw [ofSamples_veil hi, ofSamples_veil hi] at hsame
    rw [mem_measured_iff, mem_measured_iff, hsame]
  · have hsame := congrArg (fun q : Queue =>
      (q.samples.flatMap Sample.contributions).countP (·.instrument = .executions)) hlast
    rw [countP_veil, countP_veil] at hsame
    rw [measured_executions_iff, measured_executions_iff, hsame]

/-- The first run fails, and all later ones panic after a while. -/
def hapless : WorkScript :=
  .ofList [.run { ending := .failure ["boom"] }] (.run { duration := 5, ending := .panic none })

/-- Nothing goes wrong. -/
def fortunate : WorkScript := .ofList [.run {}] (.run { duration := 5 })

theorem hapless_isLike_fortunate : hapless.IsLike fortunate :=
  WorkScript.isLike_ofList (.cons (.run {} _ _) .nil) (.run { duration := 5 } _ _)

/-- Callers wait, and the queue is cancelled during a run that ends later. -/
def errands : List ScenarioStep :=
  [.act (.burst [⟨"a"⟩, ⟨"b"⟩, ⟨"c"⟩] 0), .settle, .act (.blockingAdd ⟨"d"⟩ 0), .advance 5,
    .act .cancel, .advance 9]

theorem indifferent_hapless :
    let q : Queue := { config := narrow, mailbox := { free := narrow.capacity } }
    hapless.IsLike fortunate ∧ open? narrow = some q ∧
    (q.play hapless errands).2.stats = ⟨4, 3, 0, 3, 1, some "d"⟩ ∧
    (q.play fortunate errands).2.stats = ⟨4, 3, 3, 0, 1, some "d"⟩ ∧
    q.Indifferent hapless fortunate errands := by
  intro q
  have hopen : open? narrow = some q := rfl
  exact ⟨hapless_isLike_fortunate, hopen, by decide, by decide,
    indifferent hapless_isLike_fortunate hopen errands⟩

end Queue
end CoalescingQueue
