import CoalescingQueue.Metrics
import CoalescingQueue.Proofs.Lockstep

/-!
# Parallel scenarios

A scenario and its twin, moment by moment. If at every moment at which actions look at their
handles the two agree, what is seen after each step is the same in the other guise, and so are
the metrics.
-/
namespace CoalescingQueue

inductive ScenarioStep.Twin (m : Guise) : ScenarioStep → ScenarioStep → Prop
  | settle : Twin m .settle .settle
  | advance (ms : Nat) : Twin m (.advance ms) (.advance ms)
  | act {a a' : Action} (ha : a.Twin m a') : Twin m (.act a) (.act a')

structure StepRecord.Twin (m : Guise) (r r' : StepRecord) : Prop where
  reply_eq : r'.reply = r.reply.renumber m.handle
  time_eq : r'.time = r.time
  seen_eq : r'.seen = r.seen.rename m.id
  facts : List.Forall₂ (Fact.Twin m) r.facts r'.facts

/-- The action from outside that a step begins. -/
def ScenarioStep.faced? : ScenarioStep → Option Action
  | .act a => some a
  | _ => none

/-- A queue, and the action that looks at its handle now, if one does. -/
structure Moment where
  queue : Queue
  faced? : Option Action

/-- Queues with the same handles. -/
def Bond.same : Bond where
  Holds hs hs' := hs' = hs
  any_eq h := congrArg (·.any id) h
  IsHeard := False

/-- The handles go together as before, and so do the replies. -/
def Bond.heard (b : Bond) : Bond := { b with IsHeard := True }

namespace Queue

def moment (q : Queue) : Moment := ⟨q, q.faced?⟩

/-- The moments of a scenario. -/
def moments (script : WorkScript) (q : Queue) : List ScenarioStep → List Moment
  | [] => []
  | step :: rest =>
    ⟨q, step.faced?⟩ :: ((q.trail script step).map moment ++
      (q.take script step).2.moments script rest)

/-- Moment by moment the actions agree on their handles, as far as the queues are twins. -/
def Harmonious (m : Guise) (b : Bond) (xs xs' : List Moment) : Prop :=
  ∀ x ∈ xs.zip xs', x.1.queue.Twin m b x.2.queue →
    Agree m b x.1.queue x.2.queue x.1.faced? x.2.faced?

/-- Twins that agree on what they are about to do. -/
structure Alike (m : Guise) (b : Bond) (q q' : Queue) : Prop where
  twin : q.Twin m b q'
  agree : Agree m b q q' q.faced? q'.faced?

variable {m : Guise} {b : Bond} {q q' : Queue} {script script' : WorkScript}

namespace Harmonious

variable {xs xs' ys ys' : List Moment}

theorem prefix_of_append (h : Harmonious m b (xs ++ ys) (xs' ++ ys')) : Harmonious m b xs xs' := by
  induction xs generalizing xs' with
  | nil => exact List.forall_mem_nil _
  | cons x xs ih =>
    cases xs' with
    | nil =>
      rw [Harmonious, List.zip_nil_right]
      exact List.forall_mem_nil _
    | cons x' xs' =>
      rw [Harmonious, List.cons_append, List.cons_append, List.zip_cons_cons,
        List.forall_mem_cons] at h
      rw [Harmonious, List.zip_cons_cons, List.forall_mem_cons]
      exact ⟨h.1, ih h.2⟩

theorem of_append (h : Harmonious m b (xs ++ ys) (xs' ++ ys')) (hlength : xs.length = xs'.length) :
    Harmonious m b ys ys' := by
  rw [Harmonious, List.zip_append hlength] at h
  exact (List.forall_mem_append.mp h).2

theorem heard (h : Harmonious m b xs xs') : Harmonious m b.heard xs xs' :=
  fun x hx htwin => h x hx { htwin with reply_eq := fun _ => htwin.reply_eq trivial }

end Harmonious

namespace Alike

theorem passed {next? next?' : Queue → Option Queue}
    (hnext : ∀ {p p' : Queue}, Alike m b p p' → Option.Rel (Queue.Twin m b) (next? p) (next?' p'))
    (h : Alike m b q q') (n : Nat)
    (hall : Harmonious m b ((passed next? n q).map moment) ((passed next?' n q').map moment)) :
    List.Forall₂ (Alike m b) (passed next? n q) (passed next?' n q') := by
  induction n generalizing q q' with
  | zero => exact .nil
  | succ n ih =>
    unfold Queue.passed at hall ⊢
    rcases rel_cases (hnext h) with ⟨hp, hp'⟩ | ⟨p, p', hp, hp', htwin⟩
    · rw [hp, hp']
      exact .nil
    · rw [hp, hp'] at hall ⊢
      dsimp only at hall ⊢
      rw [Harmonious, List.map_cons, List.map_cons, List.zip_cons_cons,
        List.forall_mem_cons] at hall
      have hhere : Alike m b p p' := ⟨htwin, hall.1 htwin⟩
      exact .cons hhere (ih hhere hall.2)

theorem getLastD {trail trail' : List Queue} (h : Alike m b q q')
    (hall : List.Forall₂ (Alike m b) trail trail') :
    Alike m b (trail.getLastD q) (trail'.getLastD q') := by
  induction hall generalizing q q' with
  | nil => exact h
  | cons hp _ ih =>
    rw [List.getLastD_cons, List.getLastD_cons]
    exact ih hp

theorem settling (h : Alike m b q q') (hs : script.Twin m script')
    (hall : Harmonious m b ((q.settling script).map moment) ((q'.settling script').map moment)) :
    List.Forall₂ (Alike m b) (q.settling script) (q'.settling script') := by
  unfold Queue.settling at hall ⊢
  rw [h.twin.patience_eq hs] at hall ⊢
  exact h.passed (fun hp => hp.twin.step? hs hp.agree) _ hall

theorem settle (h : Alike m b q q') (hs : script.Twin m script')
    (hall : Harmonious m b ((q.settling script).map moment) ((q'.settling script').map moment)) :
    Alike m b (q.settle script) (q'.settle script') := by
  rw [settle_eq, settle_eq]
  exact h.getLastD (h.settling hs hall)

theorem isAtRest_eq (h : Alike m b q q') (hs : script.Twin m script') :
    q'.isAtRest script' = q.isAtRest script := by
  unfold isAtRest
  rcases rel_cases (h.twin.step? hs h.agree) with ⟨hp, hp'⟩ | ⟨p, p', hp, hp', -⟩
  · rw [hp, hp']
  · rw [hp, hp']
    rfl

theorem singleton (h : q.Twin m b q') (hall : Harmonious m b [q.moment] [q'.moment]) :
    List.Forall₂ (Alike m b) [q] [q'] :=
  .cons ⟨h, hall _ (List.mem_singleton_self _) h⟩ .nil

theorem advancing (hs : script.Twin m script') (time n : Nat) (h : Alike m b q q')
    (hall : Harmonious m b ((advancing script time n q).map moment)
      ((advancing script' time n q').map moment)) :
    List.Forall₂ (Alike m b) (advancing script time n q) (advancing script' time n q') := by
  induction n generalizing q q' with
  | zero => exact .nil
  | succ n ih =>
    unfold Queue.advancing at hall ⊢
    rw [List.map_append, List.map_append] at hall
    have hsettling := h.settling hs hall.prefix_of_append
    have hsettled := h.settle hs hall.prefix_of_append
    replace hall := hall.of_append (by rw [List.length_map, List.length_map, hsettling.length_eq])
    refine List.rel_append hsettling ?_
    generalize q.settle script = p at hsettled hall ⊢
    generalize q'.settle script' = p' at hsettled hall ⊢
    rw [hsettled.isAtRest_eq hs, hsettled.twin.deadline_eq] at hall ⊢
    by_cases hrest : p.isAtRest script = true
    · rw [if_pos hrest, if_pos hrest] at hall ⊢
      cases hd : p.deadline? with
      | none =>
        rw [hd] at hall
        exact singleton (hsettled.twin.clockTo time) hall
      | some deadline =>
        rw [hd] at hall
        dsimp only at hall ⊢
        by_cases hlt : deadline < time
        · rw [if_pos hlt, if_pos hlt] at hall ⊢
          rw [List.map_cons, List.map_cons] at hall
          have hwoken := hsettled.twin.wakeRunAt deadline
          have hhere : Alike m b (p.wakeRunAt deadline) (p'.wakeRunAt deadline) :=
            ⟨hwoken, hall _ List.mem_cons_self hwoken⟩
          exact .cons hhere (ih hhere fun x hx => hall x (List.mem_cons_of_mem _ hx))
        · rw [if_neg hlt, if_neg hlt] at hall ⊢
          by_cases heq : deadline = time
          · rw [if_pos heq, if_pos heq] at hall ⊢
            exact singleton (hsettled.twin.wakeRunAt time) hall
          · rw [if_neg heq, if_neg heq] at hall ⊢
            exact singleton (hsettled.twin.clockTo time) hall
    · rw [if_neg hrest, if_neg hrest]
      exact .nil

theorem unheard (h : Alike m b.heard q q') : Alike m b q q' :=
  ⟨{ h.twin with reply_eq := fun _ => h.twin.reply_eq trivial }, h.agree⟩

/-- An action from outside comes to the same, its reply included. -/
theorem acting (h : q.Twin m b q') (hs : script.Twin m script') {a a' : Action} (ha : a.Twin m a')
    (hag : Agree m b q q' (some a) (some a'))
    (hall : Harmonious m b ((q.trail script (.act a)).map moment)
      ((q'.trail script' (.act a')).map moment)) :
    List.Forall₂ (Alike m b.heard) (q.trail script (.act a)) (q'.trail script' (.act a')) := by
  have hq : { q with reply := .nothing }.Twin m b.heard { q' with reply := .nothing } :=
    { h with reply_eq := fun _ => rfl }
  have hbegun := hq.begin ha (hag a rfl a' rfl ha)
  replace hall := hall.heard
  dsimp only [Queue.trail] at hall ⊢
  generalize begin { q with reply := .nothing } a = p at hbegun hall ⊢
  generalize begin { q' with reply := .nothing } a' = p' at hbegun hall ⊢
  rw [hbegun.patience_eq hs, List.map_cons, List.map_cons] at hall
  rw [hbegun.patience_eq hs]
  have hhere : Alike m b.heard p p' := ⟨hbegun, hall _ List.mem_cons_self hbegun⟩
  exact .cons hhere (hhere.passed (fun hp => hp.twin.attend? hp.agree) _
    fun x hx => hall x (List.mem_cons_of_mem _ hx))

theorem trail (h : Alike m b q q') (hs : script.Twin m script') {step step' : ScenarioStep}
    (hstep : step.Twin m step') (hag : Agree m b q q' step.faced? step'.faced?)
    (hall : Harmonious m b ((q.trail script step).map moment)
      ((q'.trail script' step').map moment)) :
    List.Forall₂ (Alike m b) (q.trail script step) (q'.trail script' step') := by
  cases hstep with
  | settle => exact h.settling hs hall
  | advance ms =>
    unfold Queue.trail at hall ⊢
    rw [h.twin.now_eq, List.map_append, List.map_append] at hall
    rw [h.twin.now_eq]
    have hadvancing := h.advancing hs _ _ hall.prefix_of_append
    have hadvanced : Alike m b (q.advanceTo script (q.now + ms))
        (q'.advanceTo script' (q.now + ms)) := by
      unfold advanceTo
      rw [h.twin.now_eq, advanceWithin_eq, advanceWithin_eq]
      exact h.getLastD hadvancing
    refine List.rel_append hadvancing (hadvanced.settling hs (hall.of_append ?_))
    rw [List.length_map, List.length_map, hadvancing.length_eq]
  | act ha => exact (acting h.twin hs ha hag hall).imp fun _ _ => unheard

/-- A step leads to twins, and its reply is the same. -/
theorem take (h : Alike m b q q') (hs : script.Twin m script') {step step' : ScenarioStep}
    (hstep : step.Twin m step') (hag : Agree m b q q' step.faced? step'.faced?)
    (hall : Harmonious m b ((q.trail script step).map moment)
      ((q'.trail script' step').map moment)) :
    (q'.take script' step').1 = (q.take script step).1.renumber m.handle ∧
      Alike m b (q.take script step).2 (q'.take script' step').2 := by
  refine ⟨?_, ?_⟩
  · cases hstep with
    | settle | advance => rfl
    | @act a a' ha =>
      have hlast : Alike m b.heard (q.take script (.act a)).2 (q'.take script' (.act a')).2 := by
        have hacting := acting h.twin hs ha hag hall
        have hne : q.trail script (.act a) ≠ [] := List.cons_ne_nil _ _
        rw [take_eq, take_eq]
        generalize q.trail script (.act a) = trail at hacting hne ⊢
        generalize q'.trail script' (.act a') = trail' at hacting ⊢
        cases hacting with
        | nil => contradiction
        | cons hbegun hrest =>
          rw [List.getLastD_cons, List.getLastD_cons]
          exact hbegun.getLastD hrest
      exact hlast.twin.reply_eq trivial
  · rw [take_eq, take_eq]
    exact h.getLastD (h.trail hs hstep hag hall)

/-- What is seen after each step is the same in the other guise. -/
theorem play (h : Alike m b q q') (hs : script.Twin m script') {steps steps' : List ScenarioStep}
    (hsteps : List.Forall₂ (ScenarioStep.Twin m) steps steps')
    (hall : Harmonious m b (q.moments script steps) (q'.moments script' steps')) :
    List.Forall₂ (StepRecord.Twin m) (q.play script steps).1 (q'.play script' steps').1 ∧
      Alike m b (q.play script steps).2 (q'.play script' steps').2 := by
  induction hsteps generalizing q q' with
  | nil => exact ⟨.nil, h⟩
  | @cons step step' rest rest' hstep _ ih =>
    have hag : Agree m b q q' step.faced? step'.faced? := hall _ List.mem_cons_self h.twin
    have hrest : Harmonious m b
        ((q.trail script step).map moment ++ (q.take script step).2.moments script rest)
        ((q'.trail script' step').map moment ++ (q'.take script' step').2.moments script' rest') :=
      fun x hx => hall x (List.mem_cons_of_mem _ hx)
    have htrail := h.trail hs hstep hag hrest.prefix_of_append
    obtain ⟨hreply, hnext⟩ := h.take hs hstep hag hrest.prefix_of_append
    have hlater := ih hnext
      (hrest.of_append (by rw [List.length_map, List.length_map, htrail.length_eq]))
    have hfacts : List.Forall₂ (Fact.Twin m)
        ((q.take script step).2.journal.toList.drop q.journal.size)
        ((q'.take script' step').2.journal.toList.drop q'.journal.size) := by
      have hsize : q'.journal.size = q.journal.size := h.twin.journal.length_eq.symm
      rw [hsize]
      exact List.forall₂_drop _ hnext.twin.journal
    unfold Queue.play
    exact ⟨.cons ⟨hreply, hnext.twin.now_eq, hnext.twin.observe_eq, hfacts⟩ hlater.1, hlater.2⟩

end Alike

/-- Whoever is in no turn and in no action is about to do nothing with a handle. -/
theorem IsFree.faced? (h : q.IsFree) : q.faced? = none := by
  simp [Queue.faced?, h.due_eq, h.errand_eq, h.turn_eq]

theorem Twin.alike (h : q.Twin m b q') (hf : q.IsFree) : Alike m b q q' := by
  refine ⟨h, fun a ha => ?_⟩
  rw [hf.faced?] at ha
  contradiction

end Queue

/-! ## What is seen of a scenario -/

/-- A line of the log, where an action goes by its name. -/
inductive LogLine
  | event (record : LogRecord)
  | action (name : String) (reply : Reply)
  | snapshot (seen : Snapshot)

def LogEntry.line : LogEntry → LogLine
  | .event record => .event record
  | .action a reply => .action a.label reply
  | .snapshot seen => .snapshot seen

/-- What is seen after a step. -/
structure StepView where
  reply : Reply
  time : Nat
  seen : Snapshot
  resolved : List Resolution
  log : List LogLine

def StepRecord.view (r : StepRecord) : StepView where
  reply := r.reply
  time := r.time
  seen := r.seen
  resolved := r.resolved
  log := r.log.map LogEntry.line

/-- What is seen of a queue at the beginning, after each step, and in its metrics at the end. -/
structure Answer where
  config : QueueConfig
  published : DispatchState
  steps : List StepView
  metrics : List (Instrument × Points)

/-- A queue with its hooks, what its work function does, and what is done with it. -/
structure Scenario where
  config : QueueConfig
  hooks : List Hook := []
  script : WorkScript
  steps : List ScenarioStep

namespace Scenario

/-- The queue at the beginning, unless its mailbox would be too large. -/
def opened? (s : Scenario) : Option Queue := Queue.open? s.config s.hooks

/-- What comes of a scenario, if it can begin. -/
def answer? (s : Scenario) : Option Answer :=
  s.opened?.map fun q => {
    config := q.config
    published := q.published
    steps := (q.play s.script s.steps).1.map StepRecord.view
    metrics := measured (q.play s.script s.steps).2.samples }

/-- The moments of a scenario, from its beginning. -/
def moments (s : Scenario) : List Moment :=
  s.opened?.elim [] fun q => q.moments s.script s.steps

structure Twin (m : Guise) (s s' : Scenario) : Prop where
  config_eq : s'.config = s.config
  hooks : List.Forall₂ (Hook.Twin m) s.hooks s'.hooks
  script : s.script.Twin m s'.script
  steps : List.Forall₂ (ScenarioStep.Twin m) s.steps s'.steps

end Scenario

def LogLine.dress (m : Guise) : LogLine → LogLine
  | .event record => .event (record.rename m.id)
  | .action name reply => .action name (reply.renumber m.handle)
  | .snapshot seen => .snapshot (seen.rename m.id)

def StepView.dress (m : Guise) (v : StepView) : StepView := { v with
  reply := v.reply.renumber m.handle
  seen := v.seen.rename m.id
  log := v.log.map (·.dress m) }

def Answer.dress (m : Guise) (answer : Answer) : Answer :=
  { answer with steps := answer.steps.map (·.dress m) }

theorem filterMap_eq_of_forall₂ {α β : Type} {R : α → α → Prop} {f : α → Option β}
    (hf : ∀ a a', R a a' → f a' = f a) {as as' : List α} (h : List.Forall₂ R as as') :
    as'.filterMap f = as.filterMap f := by
  induction h with
  | nil => rfl
  | cons ha _ ih => rw [List.filterMap_cons, List.filterMap_cons, hf _ _ ha, ih]

theorem map_eq_of_forall₂ {α β : Type} {R : α → α → Prop} {f : α → β} {g : β → β}
    (hf : ∀ a a', R a a' → f a' = g (f a)) {as as' : List α} (h : List.Forall₂ R as as') :
    as'.map f = (as.map f).map g := by
  induction h with
  | nil => rfl
  | cons ha _ ih => rw [List.map_cons, List.map_cons, List.map_cons, hf _ _ ha, ih]

namespace Fact

variable {m : Guise} {fact fact' : Fact}

theorem Twin.measurement?_eq (h : fact.Twin m fact') : fact'.measurement? = fact.measurement? := by
  cases h with
  | performed => rfl
  | told =>
    cases fact with
    | dispatched batch =>
      exact congrArg (fun n => some (Measurement.superseded n)) (Batch.superseded_rename _ _)
    | _ => rfl

theorem Twin.resolution?_eq (h : fact.Twin m fact') : fact'.resolution? = fact.resolution? := by
  cases h with
  | performed => rfl
  | told => cases fact <;> rfl

/-- What a fact adds to the log. -/
def line? (fact : Fact) : Option LogLine := fact.logEntry?.map LogEntry.line

theorem Twin.line?_eq (h : fact.Twin m fact') : fact'.line? = fact.line?.map (·.dress m) := by
  cases h with
  | performed ha reply => exact congrArg (fun name => some (LogLine.action name _)) ha.label_eq
  | told hf =>
    cases fact with
    | performed => contradiction
    | _ => rfl

end Fact

namespace StepRecord

variable {m : Guise} {r r' : StepRecord}

theorem Twin.resolved_eq (h : r.Twin m r') : r'.resolved = r.resolved := by
  unfold resolved
  rw [filterMap_eq_of_forall₂ (fun _ _ hf => Fact.Twin.resolution?_eq hf) h.facts]

theorem Twin.lines_eq (h : r.Twin m r') :
    r'.log.map LogEntry.line = (r.log.map LogEntry.line).map (·.dress m) := by
  have hlog (r : StepRecord) : r.log.map LogEntry.line = r.facts.filterMap Fact.line? :=
    List.map_filterMap
  rw [hlog, hlog]
  have hfacts := h.facts
  generalize r.facts = facts at hfacts
  generalize r'.facts = facts' at hfacts
  induction hfacts with
  | nil => rfl
  | @cons fact _ _ _ hf _ ih =>
    rw [List.filterMap_cons, List.filterMap_cons, hf.line?_eq, ih]
    cases fact.line? <;> rfl

theorem Twin.view_eq (h : r.Twin m r') : r'.view = r.view.dress m := by
  unfold view StepView.dress
  dsimp only
  rw [h.reply_eq, h.time_eq, h.seen_eq, h.resolved_eq, h.lines_eq]

end StepRecord

namespace Queue

variable {m : Guise} {b : Bond} {q q' : Queue} {script script' : WorkScript}

theorem Twin.samples_eq (h : q.Twin m b q') : q'.samples = q.samples := by
  unfold samples
  rw [filterMap_eq_of_forall₂ (fun _ _ hf => Fact.Twin.measurement?_eq hf) h.journal, h.config_eq]

/-- New queues are twins if their hooks are. -/
theorem twin_open? {config : QueueConfig} {hooks hooks' : List Hook}
    (hh : List.Forall₂ (Hook.Twin m) hooks hooks') (hb : b.Holds [true] [true]) :
    Option.Rel (Queue.Twin m b) (open? config hooks) (open? config hooks') := by
  unfold open?
  split
  · exact .some ⟨rfl, rfl, rfl, rfl, rfl, hb, rfl, rfl, .none, rfl, rfl, rfl, rfl, rfl, .none,
      fun _ => rfl, hh, .nil, rfl, .nil⟩
  · exact .none

end Queue

namespace Scenario.Twin

variable {m : Guise} {b : Bond} {s s' : Scenario}

theorem opened? (h : s.Twin m s') (hb : b.Holds [true] [true]) :
    Option.Rel (Queue.Twin m b) s.opened? s'.opened? := by
  unfold Scenario.opened?
  rw [h.config_eq]
  exact Queue.twin_open? h.hooks hb

/-- Scenarios that are twins and agree at every moment come to the same in the other guise. -/
theorem answer?_eq (h : s.Twin m s') (hb : b.Holds [true] [true])
    (hall : Queue.Harmonious m b s.moments s'.moments) :
    s'.answer? = s.answer?.map (·.dress m) := by
  unfold Scenario.moments at hall
  unfold answer?
  rcases rel_cases (h.opened? hb) with ⟨hq, hq'⟩ | ⟨q, q', hq, hq', htwin⟩
  · rw [hq, hq']
    rfl
  · rw [hq, hq'] at hall ⊢
    obtain ⟨hrecords, hlast⟩ :=
      (htwin.alike (Queue.isFree_of_open? hq)).play h.script h.steps hall
    dsimp only [Option.map_some, Answer.dress]
    rw [map_eq_of_forall₂ (fun _ _ hr => StepRecord.Twin.view_eq hr) hrecords,
      hlast.twin.samples_eq, htwin.config_eq, htwin.published_eq]

end Scenario.Twin
end CoalescingQueue
