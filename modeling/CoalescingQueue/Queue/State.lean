import CoalescingQueue.Config.Queue
import CoalescingQueue.Log.Event
import CoalescingQueue.Queue.Mailbox

/-!
# The state of a queue

A queue with its dispatcher, the work in flight, the handles its owners hold, and everything it
has done so far. What the outside can see of its past, the log, the metrics and the calls that
ended, is read off one journal that only grows.

Whoever has something to do stands in a line and gets its turn in order. During a turn nobody
else moves, apart from the threads that wait for room, which settle at each logged event, and the
actions that are hooked to an event, which are performed right after it.
-/
namespace CoalescingQueue

/-- Requests that a drain collapsed: all but the latest are superseded. -/
structure Batch where
  older : List Request := []
  latest : Request
  deriving DecidableEq, Repr

namespace Batch

/-- A newer request takes the place of the latest. -/
def push (b : Batch) (r : Request) : Batch := ⟨b.older ++ [b.latest], r⟩

/-- The requests of the batch in order of arrival. -/
def toList (b : Batch) : List Request := b.older ++ [b.latest]

def superseded (b : Batch) : Nat := b.older.length

def span (b : Batch) : Span := ⟨some b.latest.id, some b.superseded⟩

@[simp] theorem toList_push (b : Batch) (r : Request) : (b.push r).toList = b.toList ++ [r] := by
  simp [push, toList]

@[simp] theorem superseded_push (b : Batch) (r : Request) :
    (b.push r).superseded = b.superseded + 1 := by
  simp [push, superseded]

end Batch

/-- Where the dispatcher stands. A phase that holds a batch is within the span of its dispatch. -/
inductive Phase
  | unstarted
  /-- Between two dispatches, where it may rest. -/
  | listening
  /-- The first request of a batch is taken, and the backlog is not yet counted. -/
  | counting (first : Request)
  /-- As many requests as `left` are still to be taken from the backlog. -/
  | draining (batch : Batch) (left : Nat)
  /-- The batch is dropped because the queue was cancelled. -/
  | dropping (batch : Batch)
  /-- The work function is about to be called. -/
  | dispatching (batch : Batch)
  /-- A run of the work function is in flight. -/
  | awaiting (batch : Batch)
  /-- The run has ended and was reported, and the outcome is not yet counted. -/
  | reported (batch : Batch) (ending : Ending)
  /-- The queue was cancelled during the run that has ended. -/
  | retiring (batch : Batch)
  /-- The mailbox is about to be closed. -/
  | closing
  | stopped
  /-- The call of the work function broke down, and the dispatcher with it. -/
  | dead (batch : Batch)
  deriving Repr

/-- How far a run has come. -/
inductive Stage
  | spawned
  /-- The actions at the start that are left. -/
  | opening (todo : List Action)
  /-- Before the permit and the pause. -/
  | waiting
  | sleeping (deadline : Nat)
  /-- The actions at the end that are left. -/
  | closing (todo : List Action)
  | ended
  deriving Repr

/-- A run of the work function that the dispatcher has not yet seen the end of. -/
structure Run where
  call : Nat
  plan : RunPlan
  began : Nat
  stage : Stage := .spawned
  deriving Repr

/-- Who can have a turn. -/
inductive Party
  | dispatcher
  | run
  | producer (ticket : Nat)
  deriving DecidableEq, Repr

/-- Actions to be performed right when an event is logged for the `nth` time. -/
structure Hook where
  message : String
  before : Option String := none
  after : Option String := none
  nth : Nat := 1
  seen : Nat := 0
  actions : List Action
  deriving Repr

namespace Hook

/-- Whether this is an event the hook waits for. -/
def matchesEvent (h : Hook) (e : Event) : Bool :=
  e.message = h.message &&
    match e with
    | .transition before after =>
      h.before.all (· = before.name) && h.after.all (· = after.name)
    | _ => h.before.isNone && h.after.isNone

def notice (h : Hook) (e : Event) : Hook :=
  if h.matchesEvent e then { h with seen := h.seen + 1 } else h

/-- The actions that this event sets off. -/
def due (h : Hook) (e : Event) : List Action :=
  if h.matchesEvent e && h.seen + 1 = h.nth then h.actions else []

end Hook

/-- An action in progress that offers requests one by one. The first of those left may have been
announced already. -/
structure Errand where
  action : Action
  caller : Caller
  handle : Nat
  todo : List Request
  isAnnounced : Bool := false
  replies : List Reply := []
  deriving Repr

/-- What an owner of the queue sees of it. -/
structure Snapshot where
  state : DispatchState
  isStopped : Option Bool
  stats : Option Stats
  deriving Repr

/-- Something that happened. -/
inductive Fact
  | logged (record : LogRecord)
  | performed (action : Action) (reply : Reply)
  | observed (snapshot : Snapshot)
  /-- A request entered the mailbox. -/
  | admitted (request : Request)
  /-- The dispatcher had taken a request when it found this backlog behind it. -/
  | counted (first : Request) (backlog : List Request)
  /-- The batch was dropped because the queue was cancelled. -/
  | discarded (batch : Batch)
  /-- The work function was called for the latest of these. -/
  | dispatched (batch : Batch)
  /-- The call of this number made a run, which is in flight from now on. -/
  | launched (call : Nat)
  /-- The run of this call came to its end. -/
  | returned (call : Nat)
  /-- The outcome of a run was counted. -/
  | concluded (isSuccess : Bool) (elapsed : Nat)
  /-- A pending call came to its end. -/
  | ended (ticket : Nat) (reply : Reply) (time : Nat)
  /-- The caller of a pending call went away. -/
  | forsaken (ticket : Nat)
  deriving Repr

structure Queue where
  config : QueueConfig
  published : DispatchState := .idle
  phase : Phase := .unstarted
  mailbox : Mailbox
  isCancelled : Bool := false
  /-- Which of the handles handed out so far are still held. -/
  handles : List Bool := [true]
  /-- Shutdown calls that wait for the dispatcher to stop. -/
  closers : List Nat := []
  stats : Stats := {}
  run : Option Run := none
  /-- How often the work function has been called. -/
  calls : Nat := 0
  /-- Permits at the gate. -/
  permits : Nat := 0
  now : Nat := 0
  /-- Those who wait for a turn, in order. -/
  line : List Party := [.dispatcher]
  turn : Option Party := none
  errand : Option Errand := none
  /-- The reply to the last action from outside. -/
  reply : Reply := .nothing
  hooks : List Hook := []
  /-- Hooked actions that are to be performed before anything else. -/
  due : List Action := []
  tickets : Nat := 0
  journal : Array Fact := #[]

namespace Queue

/-- A new queue, unless its mailbox would be too large. -/
def open? (config : QueueConfig) (hooks : List Hook := []) : Option Queue :=
  if config.capacity ≤ QueueConfig.maxCapacity then
    some { config, mailbox := { free := config.capacity }, hooks }
  else none

/-- True once the queue takes no more requests. -/
def isStopped (q : Queue) : Bool := q.isCancelled || q.mailbox.isClosed

/-- Whether the dispatcher will never do anything again. -/
def isOver (q : Queue) : Bool :=
  match q.phase with
  | .stopped | .dead _ => true
  | _ => false

def holds (q : Queue) (handle : Nat) : Bool := q.handles.getD handle false

def hasHandle (q : Queue) : Bool := q.handles.any id

/-- Whether an offer is being made, which keeps its handle while it lasts. -/
def isOffering (q : Queue) : Bool :=
  match q.errand with
  | some e => e.isAnnounced
  | none => false

/-- Nobody is left who could offer a request. -/
def isAbandoned (q : Queue) : Bool :=
  !q.hasHandle && q.mailbox.waiting.isEmpty && q.closers.isEmpty && !q.isOffering

def observe (q : Queue) : Snapshot :=
  if q.hasHandle then ⟨q.published, some q.isStopped, some q.stats⟩ else ⟨q.published, none, none⟩

/-- The span of the dispatch in progress, once its batch is complete. -/
def span (q : Queue) : Option Span :=
  match q.phase with
  | .dispatching b | .awaiting b | .reported b _ | .retiring b | .dropping b | .dead b =>
    some b.span
  | _ => none

def describeFields (q : Queue) : List (String × String) :=
  [("name", Text.quoted q.config.name), ("capacity", toString q.config.capacity),
    ("state", q.published.describe), ("stopped", toString q.isStopped)]

/-- The queue on one line. -/
def describeLine (q : Queue) : String :=
  let fields := q.describeFields.map fun (name, value) => name ++ ": " ++ value
  "JobQueue \x7b " ++ ", ".intercalate fields ++ " \x7d"

/-- The queue with one field a line. -/
def describeBlock (q : Queue) : String :=
  let lines := q.describeFields.map fun (name, value) => "    " ++ name ++ ": " ++ value ++ ",\n"
  "JobQueue \x7b\n" ++ String.join lines ++ "\x7d"

/-- Adds to the journal. -/
def note (q : Queue) (f : Fact) : Queue := { q with journal := q.journal.push f }

/-- Puts a party at the end of the line, unless it stands there already. -/
def enqueue (q : Queue) (p : Party) : Queue :=
  if p ∈ q.line then q else { q with line := q.line ++ [p] }

/-- Wakes the dispatcher if it rests between two dispatches. -/
def wakeDispatcher (q : Queue) : Queue :=
  match q.phase with
  | .listening => if q.turn = some .dispatcher then q else q.enqueue .dispatcher
  | _ => q

/-- Lets the dispatcher know when nobody is left. -/
def wakeIfAbandoned (q : Queue) : Queue := if q.isAbandoned then q.wakeDispatcher else q

/-- Ends the turn of whoever has it. -/
def yieldTurn (q : Queue) : Queue := { q with turn := none }

@[simp] theorem note_journal (q : Queue) (f : Fact) :
    (q.note f).journal.toList = q.journal.toList ++ [f] := by
  simp [note]

end Queue

end CoalescingQueue
