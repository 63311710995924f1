import CoalescingQueue.DispatchState
import CoalescingQueue.Request
import CoalescingQueue.Stats
import CoalescingQueue.Text.Quoted

/-!
# Work functions

A work function is given by what each of its calls does: it breaks down at once, or it starts a
run that performs actions, may wait for a permit, takes time, and ends well or badly.
-/
namespace CoalescingQueue

/-- Who waits inside an offer, which decides when the outcome is seen. -/
inductive Caller
  /-- A task among the tasks of the queue. -/
  | task
  /-- A thread of its own, which does not notice cancellation. -/
  | thread
  /-- The program that drives the queue. -/
  | foreground
  deriving DecidableEq, Repr

/-- What producers and owners do with a queue. -/
inductive Action
  | add (request : Request) (handle : Nat)
  | burst (requests : List Request) (handle : Nat)
  | blockingAdd (request : Request) (handle : Nat)
  | shutdown (handle : Nat)
  | cancel
  | release (permits : Nat)
  | clone (handle : Nat)
  | drop (handle : Nat)
  | watch (handle : Nat)
  | describe (handle : Nat)
  | snapshot
  deriving DecidableEq, Repr

namespace Action

def label : Action → String
  | .add _ _ => "add"
  | .burst _ _ => "burst"
  | .blockingAdd _ _ => "blocking_add"
  | .shutdown _ => "shutdown"
  | .cancel => "cancel"
  | .release _ => "release"
  | .clone _ => "clone"
  | .drop _ => "drop"
  | .watch _ => "watch"
  | .describe _ => "debug"
  | .snapshot => "snapshot"

/-- How many requests an action may bring, and one for itself. -/
def weight : Action → Nat
  | .burst requests _ => requests.length + 1
  | _ => 2

def totalWeight (actions : List Action) : Nat := actions.foldr (fun a n => a.weight + n) 0

end Action

/-- What an action comes to at once. -/
inductive Reply
  | accepted
  | refused
  | noHandle
  /-- The call goes on under this ticket. -/
  | pending (ticket : Nat)
  | done
  | nothing
  | handle (index : Nat)
  | state (s : DispatchState)
  /-- The queue described on one line, and on several. -/
  | description (line block : String)
  | each (replies : List Reply)
  deriving Repr, Inhabited

/-- How a run ends. -/
inductive Ending
  | success
  /-- The causes of a failure, the outermost first. -/
  | failure (causes : List String)
  /-- A panic, with its message if it has one. -/
  | panic (message : Option String)
  deriving DecidableEq, Repr

namespace Ending

def isSuccess (e : Ending) : Bool := e = .success

/-- What is reported about a run that ended badly. -/
def reason : Ending → String
  | .success => ""
  | .failure causes => ": ".intercalate causes
  | .panic none => "work function panicked: task N panicked"
  | .panic (some message) =>
    "work function panicked: task N panicked with message " ++ Text.quoted message

end Ending

/-- A run of the work function. -/
structure RunPlan where
  /-- Whether start and end are logged. -/
  isNarrated : Bool := true
  atStart : List Action := []
  /-- Whether the run takes a permit from the gate before it goes on. -/
  isGated : Bool := false
  duration : Nat := 0
  atEnd : List Action := []
  ending : Ending := .success
  deriving Repr

/-- One call of the work function. -/
inductive Work
  /-- The call itself panics and takes the dispatcher with it. -/
  | breakdown
  | run (plan : RunPlan)
  deriving Repr

namespace Work

/-- A measure of how much a call can set in motion. -/
def weight : Work → Nat
  | .breakdown => 1
  | .run p => Action.totalWeight (p.atStart ++ p.atEnd) + 1

end Work

/-- A work function, by the number of the call, which counts from one. The weights say how much
the calls can set in motion: some of them together, and each of the others. -/
structure WorkScript where
  call : Nat → Work
  listedWeight : Nat := 0
  otherWeight : Nat := 1

namespace WorkScript

/-- The first calls follow a list, and all later ones are alike. -/
def ofList (listed : List Work) (other : Work) : WorkScript where
  call n := listed.getD (n - 1) other
  listedWeight := listed.foldr (fun w n => w.weight + n) 0
  otherWeight := other.weight

end WorkScript

end CoalescingQueue
