import CoalescingQueue.Text.Quoted

/-!
# Requests

A request asks for one run of the work function. It carries an identifier and nothing else, and
the queue never looks inside the identifier.
-/
namespace CoalescingQueue

structure Request where
  id : String
  deriving DecidableEq, Repr, Inhabited

def Request.describe (r : Request) : String :=
  "QueueRequest \x7b id: " ++ Text.quoted r.id ++ " \x7d"

end CoalescingQueue
