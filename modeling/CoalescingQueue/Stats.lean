import CoalescingQueue.Text.Quoted

/-!
# Statistics

Point-in-time counters of a queue. A request counts as enqueued from the moment its producer
offers it, and it ends up executed or superseded unless the queue stops before. The counters are
natural numbers: they are words of 64 bits where the queue runs, and counts are taken to stay below
the limit of a word, at which those would start again from zero.
-/
namespace CoalescingQueue

structure Stats where
  enqueued : Nat := 0
  executed : Nat := 0
  succeeded : Nat := 0
  failed : Nat := 0
  superseded : Nat := 0
  /-- The identifier that was handed to the work function last. -/
  lastDispatched : Option String := none
  deriving DecidableEq, Repr, Inhabited

namespace Stats

def describeLast : Option String → String
  | none => "None"
  | some id => "Some(" ++ Text.quoted id ++ ")"

def describe (s : Stats) : String :=
  s!"QueueStats \x7b enqueued: {s.enqueued}, executed: {s.executed}, succeeded: {s.succeeded}, " ++
    s!"failed: {s.failed}, superseded: {s.superseded}, " ++
    s!"last_dispatched: {describeLast s.lastDispatched} \x7d"

/-- A producer offers a request. -/
def countOffer (s : Stats) : Stats := { s with enqueued := s.enqueued + 1 }

/-- The offer was refused after all. -/
def retractOffer (s : Stats) : Stats := { s with enqueued := s.enqueued - 1 }

/-- The work function is called for `id`, which replaced `superseded` older requests. -/
def countDispatch (s : Stats) (id : String) (superseded : Nat) : Stats :=
  { s with superseded := s.superseded + superseded, lastDispatched := some id }

/-- A run of the work function ended, well or badly. -/
def countOutcome (s : Stats) (ok : Bool) : Stats :=
  if ok then { s with succeeded := s.succeeded + 1, executed := s.executed + 1 }
  else { s with failed := s.failed + 1, executed := s.executed + 1 }

end Stats

end CoalescingQueue
