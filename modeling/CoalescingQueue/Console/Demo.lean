import CoalescingQueue.Console.Bursts
import CoalescingQueue.Console.Foreground
import CoalescingQueue.Error

/-!
# The demonstration

Feeds bursts of requests to a queue with a pause after each, gives the last run time to end, and
shuts the queue down.
-/
namespace CoalescingQueue.Console

/-- The demonstration ends early if the queue refuses a request. -/
def Foreground.playBursts (script : WorkScript) (gapMs : Nat) (f : Foreground) :
    List (List String) → Option Foreground
  | [] => some f
  | ids :: rest =>
    let f := { f with queue := f.queue.emit (.submitting ids) }
    match f.feedThrough script (ids.map (⟨·⟩)) with
    | .through f => (f.pause script gapMs).playBursts script gapMs rest
    | _ => none

/-- Plays a script of bursts and shuts the queue down. -/
def demo (script : WorkScript) (workMs gapMs : Nat) (burstScript : String) (q : Queue) :
    Except Error Queue :=
  match Foreground.playBursts script gapMs ⟨q, turnCredit⟩ (bursts burstScript) with
  | some f => .ok ((f.pause script workMs).finish script)
  | none => .error .stopped

end CoalescingQueue.Console
