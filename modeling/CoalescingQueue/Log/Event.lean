import CoalescingQueue.DispatchState
import CoalescingQueue.Request
import CoalescingQueue.Text.Quoted

/-!
# Log events

What the queue, its work function and the command line report, by meaning. Level, message and
fields of an event follow from what it is.
-/
namespace CoalescingQueue

inductive Level
  | error
  | warn
  | info
  | debug
  | trace
  deriving DecidableEq, Repr

namespace Level

/-- From the most severe to the least. -/
def all : List Level := [.error, .warn, .info, .debug, .trace]

def name : Level → String
  | .error => "error"
  | .warn => "warn"
  | .info => "info"
  | .debug => "debug"
  | .trace => "trace"

/-- How much a filter has to let through for events of this level to pass. -/
def verbosity : Level → Nat
  | .error => 1
  | .warn => 2
  | .info => 3
  | .debug => 4
  | .trace => 5

end Level

/-- The span of one dispatch. It names the winning request, and how many others it replaced,
only once both are known. -/
structure Span where
  request : Option String := none
  superseded : Option Nat := none
  deriving DecidableEq, Repr

inductive Event
  | started
  /-- Cancelled between two dispatches. -/
  | cancelled
  | abandoned
  | stopped
  | offered (request : Request)
  | superseded (request successor : Request)
  /-- Cancelled between drain and dispatch. -/
  | dropped (request : Request)
  /-- Cancelled while the work function was running. -/
  | outlasted
  | transition (before after : DispatchState)
  | completed (request : Request) (superseded elapsed : Nat)
  | failed (request : Request) (elapsed : Nat) (reason : String)
  | workStarted (call time : Nat)
  | workEnded (call time : Nat)
  | submitting (ids : List String)
  deriving DecidableEq, Repr

/-- The value of a field. -/
inductive Field
  | text (s : String)
  | number (n : Nat)
  /-- Milliseconds on the clock. -/
  | duration (ms : Nat)
  deriving DecidableEq, Repr

/-- A list of texts in brackets, each one quoted. -/
def quotedList (texts : List String) : String :=
  "[" ++ ", ".intercalate (texts.map Text.quoted) ++ "]"

namespace Event

def level : Event → Level
  | .offered _ | .superseded _ _ | .transition _ _ => .debug
  | .failed _ _ _ => .error
  | _ => .info

def message : Event → String
  | .started => "dispatcher started"
  | .cancelled => "lifecycle cancelled, stopping dispatcher"
  | .abandoned => "all queue handles dropped, stopping dispatcher"
  | .stopped => "dispatcher stopped"
  | .offered _ => "enqueueing request"
  | .superseded _ _ => "request superseded"
  | .dropped _ => "lifecycle cancelled before dispatch, dropping request"
  | .outlasted => "lifecycle cancelled during execution, run was allowed to finish"
  | .transition _ _ => "state_transition"
  | .completed _ _ _ => "execution completed"
  | .failed _ _ _ => "execution failed"
  | .workStarted _ _ => "work start"
  | .workEnded _ _ => "work end"
  | .submitting _ => "submitting burst"

/-- The fields of an event of the queue called `queue`. -/
def fields (queue : String) : Event → List (String × Field)
  | .started | .cancelled | .abandoned | .stopped | .outlasted => [("queue", .text queue)]
  | .offered r | .dropped r => [("queue", .text queue), ("request_id", .text r.id)]
  | .superseded r successor =>
    [("queue", .text queue), ("request_id", .text r.id), ("superseded_by", .text successor.id)]
  | .transition before after => [("from", .text before.name), ("to", .text after.name)]
  | .completed r count elapsed =>
    [("queue", .text queue), ("request_id", .text r.id), ("superseded", .number count),
      ("duration_ms", .duration elapsed)]
  | .failed r elapsed reason =>
    [("queue", .text queue), ("request_id", .text r.id), ("duration_ms", .duration elapsed),
      ("error", .text reason)]
  | .workStarted call time | .workEnded call time => [("call", .number call), ("t", .number time)]
  | .submitting ids => [("requests", .text (quotedList ids))]

end Event

namespace Span

/-- The fields of the span of a dispatch, without those that are not known yet. -/
def fields (queue : String) (s : Span) : List (String × Field) :=
  ("queue.name", .text queue) ::
    (s.request.toList.map fun id => ("request.id", .text id)) ++
    (s.superseded.toList.map fun n => ("dispatch.superseded", .number n))

end Span

/-- An event with the span it was logged in, if any. -/
structure LogRecord where
  event : Event
  span : Option Span := none
  deriving DecidableEq, Repr

end CoalescingQueue
