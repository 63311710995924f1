import CoalescingQueue.Queue.Dispatch
import CoalescingQueue.Queue.Execution

/-!
# Steps of a queue

One step of the whole queue, and what is built from it: settling until everything is at rest,
letting the clock run, and acting on the queue from outside, during which nobody else moves.
-/
namespace CoalescingQueue.Queue

/-- What goes before everybody's turn: hooked actions, and then an action in progress. -/
def attend? (q : Queue) : Option Queue :=
  match q.due, q.errand with
  | a :: due, _ => some ({ q with due }.performHooked a)
  | [], some e => some (q.stepErrand e)
  | [], none => none

/-- One step of the party that has the turn. -/
def stepTurn (script : WorkScript) (q : Queue) : Party → Queue
  | .dispatcher => q.stepDispatcher script
  | .run =>
    match q.run with
    | some run => q.stepRun run
    | none => q.yieldTurn
  | .producer ticket =>
    match q.mailbox.find? ticket with
    | some w => (q.settleWaiter w).yieldTurn
    | none => q.yieldTurn

/-- Gives the turn to the first in line. When nobody stands there, threads get their chance. -/
def nextTurn? (q : Queue) : Option Queue :=
  match q.line with
  | p :: line => some { q with line, turn := some p }
  | [] => if q.hasDecidedThread then some q.settleThreads else none

/-- One step, or nothing when all is at rest. -/
def step? (script : WorkScript) (q : Queue) : Option Queue :=
  match q.attend? with
  | some q => some q
  | none =>
    match q.turn with
    | some p => some (q.stepTurn script p)
    | none => q.nextTurn?

/-- Takes steps until there is none left, or as many as allowed. -/
def iterate (step? : Queue → Option Queue) : Nat → Queue → Queue
  | 0, q => q
  | n + 1, q =>
    match step? q with
    | some q => iterate step? n q
    | none => q

/-- How much there is to do: requests, waiting calls, hooks with their actions, and permits. -/
def load (q : Queue) : Nat :=
  let errand :=
    match q.errand with
    | some e => e.todo.length + 1
    | none => 0
  let hooks := q.hooks.foldr (fun h n => h.nth + Action.totalWeight h.actions + 1 + n) 0
  q.mailbox.buffer.length + q.mailbox.waiting.length + q.line.length + errand + hooks +
    Action.totalWeight q.due + q.permits + 8

/-- More steps than can be taken while the clock stands still, unless runs that take no time
feed each other for ever. -/
def patience (script : WorkScript) (q : Queue) : Nat :=
  64 * (q.load + script.listedWeight) * (script.otherWeight + 1)

/-- Runs everything that can run while the clock stands still. -/
def settle (script : WorkScript) (q : Queue) : Queue :=
  iterate (step? script) (q.patience script) q

/-- Performs an action from outside. The dispatcher, the run and waiting producers stay put. -/
def act (script : WorkScript) (q : Queue) (a : Action) : Reply × Queue :=
  let q := { q with reply := .nothing }.begin a
  let q := iterate attend? (q.patience script) q
  (q.reply, q)

/-- When the run in flight wakes up, if it sleeps. -/
def deadline? (q : Queue) : Option Nat :=
  match q.run with
  | some run =>
    match run.stage with
    | .sleeping deadline => some deadline
    | _ => none
  | none => none

/-- Nothing can move while the clock stands still. -/
def AtRest (script : WorkScript) (q : Queue) : Prop := q.step? script = none

def isAtRest (script : WorkScript) (q : Queue) : Bool := (q.step? script).isNone

/-- The clock comes to a time. It never goes back. -/
def clockTo (q : Queue) (time : Nat) : Queue := { q with now := Nat.max q.now time }

/-- The clock comes to the time at which the run wakes up. -/
def wakeRunAt (q : Queue) (time : Nat) : Queue := (q.enqueue .run).clockTo time

/-- Lets the clock run up to a time, waking the run at most as often as allowed. The clock stands
still as long as anything can move. -/
def advanceWithin (script : WorkScript) (time : Nat) : Nat → Queue → Queue
  | 0, q => q
  | n + 1, q =>
    let q := q.settle script
    if q.isAtRest script then
      match q.deadline? with
      | some deadline =>
        if deadline < time then advanceWithin script time n (q.wakeRunAt deadline)
        else if deadline = time then q.wakeRunAt time
        else q.clockTo time
      | none => q.clockTo time
    else q

/-- Lets the clock run up to a time. Everything before that time happens on the way; what is due
at the time itself is woken and no more. A run sleeps for a millisecond at least, so it cannot be
woken more often than there are milliseconds. -/
def advanceTo (script : WorkScript) (time : Nat) (q : Queue) : Queue :=
  advanceWithin script time (time - q.now) q

/-- Lets the clock run for some milliseconds and settles. -/
def advance (script : WorkScript) (q : Queue) (ms : Nat) : Queue :=
  (q.advanceTo script (q.now + ms)).settle script

theorem isAtRest_iff {script : WorkScript} {q : Queue} :
    q.isAtRest script = true ↔ q.AtRest script := by
  simp [isAtRest, AtRest]

/-- Once at rest, allowing more steps makes no difference. -/
theorem iterate_atRest {step? : Queue → Option Queue} {q : Queue} (h : step? q = none) (n : Nat) :
    iterate step? n q = q := by
  cases n <;> simp [iterate, h]

theorem iterate_add (step? : Queue → Option Queue) (m n : Nat) (q : Queue) :
    iterate step? (m + n) q = iterate step? n (iterate step? m q) := by
  induction m generalizing q with
  | zero => simp [iterate]
  | succ m ih =>
    rw [Nat.succ_add, iterate, iterate]
    cases h : step? q with
    | none => exact (iterate_atRest h n).symm
    | some q' => exact ih q'

end CoalescingQueue.Queue
