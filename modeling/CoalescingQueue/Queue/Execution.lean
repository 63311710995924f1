import CoalescingQueue.Queue.Offer

/-!
# Runs of the work function

A run logs its start, performs its actions, takes a permit if it has to, sleeps, performs the
rest of its actions and logs its end. Then it is for the dispatcher to see how it ended.
-/
namespace CoalescingQueue.Queue

def setStage (q : Queue) (run : Run) (stage : Stage) : Queue :=
  { q with run := some { run with stage } }

/-- The reply goes on record for an action of a run, and back to the caller for any other. -/
def answer (q : Queue) (a : Action) (reply : Reply) : Queue :=
  if q.turn = some .run then q.noteAction a reply else { q with reply }

/-- Begins an action. One that offers requests takes several steps. -/
def begin (q : Queue) (a : Action) : Queue :=
  match a with
  | .add r handle => { q with errand := some { action := a, caller := .task, handle, todo := [r] } }
  | .blockingAdd r handle =>
    { q with errand := some { action := a, caller := .thread, handle, todo := [r] } }
  | .burst rs handle =>
    { q with errand := some { action := a, caller := .task, handle, todo := rs } }
  | a =>
    let (reply, q) := q.perform a
    q.answer a reply

/-- What an errand comes to. -/
def Errand.reply (e : Errand) : Reply :=
  match e.action with
  | .burst _ _ => .each e.replies
  | _ => e.replies.headD .nothing

/-- One step of an action that offers requests: each request is announced and then offered. -/
def stepErrand (q : Queue) (e : Errand) : Queue :=
  match e.todo with
  | [] => { q with errand := none }.answer e.action (Errand.reply e)
  | r :: rest =>
    if e.isAnnounced then
      let (reply, q) := q.offer e.caller r
      { q with errand := some { e with
        todo := rest, isAnnounced := false, replies := e.replies ++ [reply] } }.wakeIfAbandoned
    else if !q.holds e.handle then
      { q with errand := some { e with todo := rest, replies := e.replies ++ [.noHandle] } }
    else if q.isCancelled then
      { q with errand := some { e with todo := rest, replies := e.replies ++ [.refused] } }
    else
      let span := if q.turn = some .run then q.span else none
      { q with errand := some { e with isAnnounced := true } }.emit (.offered r) span

/-- Logs an event of the work function, if it logs any. -/
def narrate (q : Queue) (run : Run) (e : Event) : Queue :=
  if run.plan.isNarrated then q.emit e q.span else q

/-- One step of the run in flight. -/
def stepRun (q : Queue) (run : Run) : Queue :=
  let plan := run.plan
  match run.stage with
  | .spawned =>
    (q.setStage run (.opening plan.atStart)).narrate run (.workStarted run.call q.now)
  | .opening (a :: todo) => (q.setStage run (.opening todo)).begin a
  | .opening [] => q.setStage run .waiting
  | .waiting =>
    if plan.isGated && q.permits = 0 then q.yieldTurn
    else
      let q := if plan.isGated then { q with permits := q.permits - 1 } else q
      if plan.duration = 0 then q.setStage run (.closing plan.atEnd)
      else (q.setStage run (.sleeping (q.now + plan.duration))).yieldTurn
  | .sleeping deadline =>
    if q.now < deadline then q.yieldTurn else q.setStage run (.closing plan.atEnd)
  | .closing (a :: todo) => (q.setStage run (.closing todo)).begin a
  | .closing [] =>
    ((q.setStage run .ended).note (.returned run.call)).narrate run (.workEnded run.call q.now)
      |>.enqueue .dispatcher
  | .ended => q.yieldTurn

end CoalescingQueue.Queue
