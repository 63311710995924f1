import CoalescingQueue.Proofs.Parallels
import Mathlib.Data.List.GetD

/-!
# Identifiers are opaque

Whatever the requests of a scenario are called, the same comes of it: the replies and tickets, the
times, the states and counters, the events in their order, and the metrics. Only where an
identifier is shown, the new one is shown. Identifiers that were different may become the same.
-/
namespace CoalescingQueue

variable (f : String → String)

/-! ## Other names in a scenario -/

def Action.rename : Action → Action
  | .add r handle => .add (r.rename f) handle
  | .burst rs handle => .burst (rs.map (·.rename f)) handle
  | .blockingAdd r handle => .blockingAdd (r.rename f) handle
  | a => a

def Hook.rename (k : Hook) : Hook := { k with actions := k.actions.map (·.rename f) }

def RunPlan.rename (p : RunPlan) : RunPlan := { p with
  atStart := p.atStart.map (·.rename f)
  atEnd := p.atEnd.map (·.rename f) }

def Work.rename : Work → Work
  | .breakdown => .breakdown
  | .run p => .run (p.rename f)

def WorkScript.rename (s : WorkScript) : WorkScript :=
  { s with call := fun n => (s.call n).rename f }

def ScenarioStep.rename : ScenarioStep → ScenarioStep
  | .act a => .act (a.rename f)
  | step => step

def Scenario.rename (s : Scenario) : Scenario where
  config := s.config
  hooks := s.hooks.map (·.rename f)
  script := s.script.rename f
  steps := s.steps.map (·.rename f)

/-! ## Other names in an answer -/

def LogLine.rename : LogLine → LogLine
  | .event record => .event (record.rename f)
  | .snapshot seen => .snapshot (seen.rename f)
  | line => line

def StepView.rename (v : StepView) : StepView :=
  { v with seen := v.seen.rename f, log := v.log.map (·.rename f) }

def Answer.rename (answer : Answer) : Answer :=
  { answer with steps := answer.steps.map (·.rename f) }

/-- The value of a field that shows an identifier. -/
def Field.rename : Field → Field
  | .text id => .text (f id)
  | value => value

/-- The fields that show identifiers. -/
def identifying : List String := ["request_id", "superseded_by", "request.id"]

/-- Fields, where the identifying ones show other identifiers. -/
def renameFields (fields : List (String × Field)) : List (String × Field) :=
  fields.map fun (name, value) => (name, if name ∈ identifying then value.rename f else value)

theorem Event.fields_rename (queue : String) (e : Event) :
    (e.rename f).fields queue = renameFields f (e.fields queue) := by
  cases e <;> rfl

theorem Span.fields_rename (queue : String) (s : Span) :
    (s.rename f).fields queue = renameFields f (s.fields queue) := by
  obtain ⟨request, superseded⟩ := s
  cases request <;> cases superseded <;> rfl

/-! ## The guise -/

/-- The guise in which only identifiers change. -/
def Guise.names : Guise where
  id := f
  handle h := h
  Uses h h' := h' = h

theorem Action.twin_rename (a : Action) : a.Twin (.names f) (a.rename f) := by
  cases a with
  | add r handle => exact .add r rfl
  | burst rs handle => exact .burst rs rfl
  | blockingAdd r handle => exact .blockingAdd r rfl
  | shutdown handle => exact .shutdown rfl
  | cancel => exact .cancel
  | release n => exact .release n
  | clone handle => exact .clone handle
  | drop handle => exact .drop handle
  | watch handle => exact .watch rfl
  | describe handle => exact .describe rfl
  | snapshot => exact .snapshot

/-- What each element is twin to by a function, a list is by the function over it. -/
theorem forall₂_map {α : Type} {R : α → α → Prop} {g : α → α} (h : ∀ a, R a (g a))
    (as : List α) : List.Forall₂ R as (as.map g) := by
  rw [List.forall₂_map_right_iff]
  exact List.forall₂_same.mpr fun a _ => h a

theorem Hook.twin_rename (k : Hook) : k.Twin (.names f) (k.rename f) :=
  ⟨rfl, rfl, rfl, rfl, rfl, forall₂_map (Action.twin_rename f) _⟩

theorem Work.twin_rename (w : Work) : w.Twin (.names f) (w.rename f) := by
  cases w with
  | breakdown => exact .breakdown
  | run p =>
    exact .run ⟨rfl, forall₂_map (Action.twin_rename f) _, rfl, rfl,
      forall₂_map (Action.twin_rename f) _, rfl⟩

theorem WorkScript.twin_rename (s : WorkScript) : s.Twin (.names f) (s.rename f) :=
  ⟨fun n => (s.call n).twin_rename f, rfl, rfl⟩

theorem ScenarioStep.twin_rename (step : ScenarioStep) : step.Twin (.names f) (step.rename f) := by
  cases step with
  | settle => exact .settle
  | advance ms => exact .advance ms
  | act a => exact .act (a.twin_rename f)

/-- Where the handles are the same, no action on them differs. -/
theorem Action.Twin.agrees {a a' : Action} (h : a.Twin (.names f) a') {hs hs' : List Bool}
    (hsame : hs' = hs) : a.Agrees (.names f) Bond.same.Holds hs hs' a' := by
  subst hsame
  refine ⟨fun handle handle' hh hh' => ?_, fun _ _ _ => ⟨rfl, rfl⟩, fun _ _ _ => rfl⟩
  have hhandle : a'.handle? = a.handle? := by
    cases h with
    | add _ hu | burst _ hu | blockingAdd _ hu | shutdown hu | watch hu | describe hu =>
      exact congrArg some hu
    | _ => rfl
  rw [hhandle, hh, Option.some.injEq] at hh'
  rw [hh']

theorem LogLine.dress_names (line : LogLine) : line.dress (.names f) = line.rename f := by
  cases line with
  | action name reply => cases reply <;> rfl
  | _ => rfl

theorem StepView.dress_names (v : StepView) : v.dress (.names f) = v.rename f := by
  have hreply : v.reply.renumber (Guise.names f).handle = v.reply := by
    cases v.reply <;> rfl
  unfold dress rename
  rw [hreply, funext (LogLine.dress_names f)]
  rfl

/-- A list of works in other names is a work function in other names. -/
theorem WorkScript.rename_ofList (listed : List Work) (other : Work) :
    (ofList listed other).rename f = ofList (listed.map (·.rename f)) (other.rename f) := by
  have hweight (w : Work) : (w.rename f).weight = w.weight := (w.twin_rename f).weight_eq
  have hcall (i : Nat) :
      (listed.getD i other).rename f = (listed.map (·.rename f)).getD i (other.rename f) :=
    (List.getD_map ..).symm
  have hlisted : (listed.map (·.rename f)).foldr (fun w n => w.weight + n) 0 =
      listed.foldr (fun w n => w.weight + n) 0 := by
    rw [List.foldr_map]
    simp only [hweight]
  unfold rename ofList
  rw [hlisted, hweight]
  exact congrArg (fun call => WorkScript.mk call _ _) (funext fun n => hcall (n - 1))

theorem Scenario.twin_rename (s : Scenario) : s.Twin (.names f) (s.rename f) :=
  ⟨rfl, forall₂_map (Hook.twin_rename f) _, s.script.twin_rename f,
    forall₂_map (ScenarioStep.twin_rename f) _⟩

/-- With other identifiers, be they different or not, the answer is the same in all but the
identifiers that it shows. -/
theorem Scenario.answer?_rename (s : Scenario) :
    (s.rename f).answer? = s.answer?.map (·.rename f) := by
  have hall : Queue.Harmonious (.names f) .same s.moments (s.rename f).moments :=
    fun x _ htwin a _ a' _ ha => ha.agrees f htwin.handles
  rw [(s.twin_rename f).answer?_eq (b := .same) rfl hall]
  unfold Answer.dress
  rw [funext (StepView.dress_names f)]
  rfl

end CoalescingQueue
