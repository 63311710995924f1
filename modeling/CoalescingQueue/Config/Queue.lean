import CoalescingQueue.Text.Blank
import CoalescingQueue.Text.Numeral
import CoalescingQueue.Text.Quoted

/-!
# The configuration of one queue

A name for logs and metrics and a capacity, which is never zero. Capacities come as numbers or
as texts; a text may have blanks around it and is otherwise a plain numeral.
-/
namespace CoalescingQueue

/-- Why a capacity is refused. -/
inductive CapacityFault
  | zero
  | unreadable (raw : String) (reason : Text.NumeralFault)
  | spelledZero (raw : String)
  deriving DecidableEq, Repr

namespace CapacityFault

def badSpelling (raw reason : String) : String :=
  "JOBQUEUE_CAPACITY must be a positive integer, got " ++ Text.quoted raw ++ ": " ++ reason

def message : CapacityFault → String
  | .zero => "queue capacity must be greater than zero"
  | .unreadable raw reason => badSpelling raw reason.message
  | .spelledZero raw => badSpelling raw "number would be zero for non-zero type"

end CapacityFault

structure QueueConfig where
  /-- The label of log events and metrics. -/
  name : String := "job-queue"
  /-- How many requests the mailbox buffers before producers wait. -/
  capacity : Nat := 100
  capacity_pos : 0 < capacity := by decide
  deriving DecidableEq, Repr

namespace QueueConfig

instance : Inhabited QueueConfig := ⟨{}⟩

def ofCapacity? (name : String) (capacity : Nat) : Except CapacityFault QueueConfig :=
  if h : 0 < capacity then .ok ⟨name, capacity, h⟩ else .error .zero

/-- A mailbox with more slots than this cannot be made. -/
def maxCapacity : Nat := Nat.pow 2 61 - 1

def describe (c : QueueConfig) : String :=
  s!"QueueConfig \x7b name: {Text.quoted c.name}, capacity: {c.capacity} \x7d"

/-- The capacity that a text spells. -/
def capacityOfText? (raw : String) : Except CapacityFault { n : Nat // 0 < n } :=
  match Text.readNumeral Text.wordLimit (Text.trim raw.toList) with
  | .error fault => .error (.unreadable raw fault)
  | .ok n => if h : 0 < n then .ok ⟨n, h⟩ else .error (.spelledZero raw)

end QueueConfig

end CoalescingQueue
