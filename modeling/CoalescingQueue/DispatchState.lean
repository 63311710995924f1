/-!
# Dispatcher states

What the dispatcher publishes about itself. It starts idle, and stopped is final.
-/
namespace CoalescingQueue

inductive DispatchState
  /-- Waiting for the next request. -/
  | idle
  /-- Collapsing the buffered backlog into its newest request. -/
  | draining
  /-- The work function is running. -/
  | executing
  /-- Cancelled, or no handle was left. -/
  | stopped
  deriving DecidableEq, Repr, Inhabited

namespace DispatchState

def all : List DispatchState := [.idle, .draining, .executing, .stopped]

def name : DispatchState → String
  | .idle => "idle"
  | .draining => "draining"
  | .executing => "executing"
  | .stopped => "stopped"

def describe : DispatchState → String
  | .idle => "Idle"
  | .draining => "Draining"
  | .executing => "Executing"
  | .stopped => "Stopped"

def isTerminal (s : DispatchState) : Bool := s = .stopped

/-- The state with this name. -/
def ofName? (name : String) : Option DispatchState := all.find? (·.name = name)

def unknownMessage (name : String) : String := "unknown dispatch state: " ++ name

@[simp] theorem ofName?_name (s : DispatchState) : ofName? s.name = some s := by
  cases s <;> decide

end DispatchState

end CoalescingQueue
