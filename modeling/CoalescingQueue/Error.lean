import CoalescingQueue.Text.Quoted

/-!
# Errors

What a caller of the queue can be told.
-/
namespace CoalescingQueue

inductive Error
  /-- The queue was cancelled or its dispatcher is gone. -/
  | stopped
  | configuration (reason : String)
  | other (reason : String)
  deriving DecidableEq, Repr

namespace Error

def message : Error → String
  | .stopped => "queue stopped"
  | .configuration reason => "configuration error: " ++ reason
  | .other reason => reason

def describe : Error → String
  | .stopped => "QueueStopped"
  | .configuration reason => "Config(" ++ Text.quoted reason ++ ")"
  | .other reason => "Other(" ++ Text.quoted reason ++ ")"

end Error

end CoalescingQueue
