import CoalescingQueue.Queue.Step

/-!
# Scenarios

A queue with a scripted work function, driven from outside step by step, and what is seen after
each step.
-/
namespace CoalescingQueue

inductive ScenarioStep
  /-- Everything runs until it is at rest. -/
  | settle
  /-- The clock runs, and then everything settles. -/
  | advance (ms : Nat)
  | act (action : Action)
  deriving Repr

/-- What is seen after a step: its reply, the queue, and what happened meanwhile. -/
structure StepRecord where
  reply : Reply
  time : Nat
  seen : Snapshot
  facts : List Fact

/-- A pending call that came to its end. -/
structure Resolution where
  ticket : Nat
  reply : Reply
  time : Nat

def Fact.resolution? : Fact → Option Resolution
  | .ended ticket reply time => some ⟨ticket, reply, time⟩
  | _ => none

/-- What is found in a log: events, actions with their replies, and snapshots. -/
inductive LogEntry
  | event (record : LogRecord)
  | action (action : Action) (reply : Reply)
  | snapshot (seen : Snapshot)

def Fact.logEntry? : Fact → Option LogEntry
  | .logged record => some (.event record)
  | .performed action reply => some (.action action reply)
  | .observed seen => some (.snapshot seen)
  | _ => none

namespace StepRecord

/-- The calls that ended during the step, by ticket. -/
def resolved (r : StepRecord) : List Resolution :=
  (r.facts.filterMap Fact.resolution?).mergeSort fun a b => a.ticket ≤ b.ticket

def log (r : StepRecord) : List LogEntry := r.facts.filterMap Fact.logEntry?

end StepRecord

namespace Queue

/-- The log of everything that happened to the queue so far. -/
def log (q : Queue) : List LogEntry := q.journal.toList.filterMap Fact.logEntry?

def take (script : WorkScript) (q : Queue) : ScenarioStep → Reply × Queue
  | .settle => (.nothing, q.settle script)
  | .advance ms => (.nothing, q.advance script ms)
  | .act action => q.act script action

/-- Takes the steps one after the other. -/
def play (script : WorkScript) (q : Queue) : List ScenarioStep → List StepRecord × Queue
  | [] => ([], q)
  | step :: rest =>
    let (reply, q') := q.take script step
    let record : StepRecord :=
      ⟨reply, q'.now, q'.observe, q'.journal.toList.drop q.journal.size⟩
    let (records, last) := q'.play script rest
    (record :: records, last)

/-- What is seen of one step. -/
def record (script : WorkScript) (q : Queue) (step : ScenarioStep) : StepRecord :=
  let q' := (q.take script step).2
  ⟨(q.take script step).1, q'.now, q'.observe, q'.journal.toList.drop q.journal.size⟩

theorem play_cons (script : WorkScript) (q : Queue) (step : ScenarioStep)
    (rest : List ScenarioStep) : q.play script (step :: rest) =
      (q.record script step :: ((q.take script step).2.play script rest).1,
        ((q.take script step).2.play script rest).2) := rfl

theorem play_append (script : WorkScript) (q : Queue) (steps steps' : List ScenarioStep) :
    q.play script (steps ++ steps') =
      ((q.play script steps).1 ++ ((q.play script steps).2.play script steps').1,
        ((q.play script steps).2.play script steps').2) := by
  induction steps generalizing q with
  | nil => rfl
  | cons step rest ih => rw [List.cons_append, play_cons, play_cons, ih, List.cons_append]

theorem length_play (script : WorkScript) (q : Queue) (steps : List ScenarioStep) :
    (q.play script steps).1.length = steps.length := by
  induction steps generalizing q with
  | nil => rfl
  | cons step rest ih => exact congrArg (· + 1) (ih _)

end Queue

end CoalescingQueue
