import CoalescingQueue.Log.Event

/-!
# The span of a dispatch, step by step

A span begins without knowing its request. What is recorded on it later shows on every event
from then on, and a field recorded twice keeps the later value.
-/
namespace CoalescingQueue.Span

inductive Step
  | request (id : String)
  | superseded (count : Nat)
  /-- A transition between two states that are given by name. -/
  | transition (before after : String)
  deriving Repr

/-- The transition between two named states, or the first name that is unknown. -/
def transition? (before after : String) : Except String Event :=
  match DispatchState.ofName? before, DispatchState.ofName? after with
  | some before, some after => .ok (.transition before after)
  | none, _ => .error (DispatchState.unknownMessage before)
  | some _, none => .error (DispatchState.unknownMessage after)

/-- What the steps log, an unknown name included. -/
def trace (s : Span) : List Step → List (Except String LogRecord)
  | [] => []
  | .request id :: rest => trace { s with request := some id } rest
  | .superseded count :: rest => trace { s with superseded := some count } rest
  | .transition before after :: rest =>
    ((transition? before after).map fun event => ⟨event, some s⟩) :: trace s rest

end CoalescingQueue.Span
