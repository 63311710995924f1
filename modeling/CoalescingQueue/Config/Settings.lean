import CoalescingQueue.Config.Environment
import CoalescingQueue.Config.Queue
import CoalescingQueue.Error

/-!
# The settings of a process

Loaded once from the environment. A malformed capacity is the only thing that is refused; every
other variable falls back on its default.
-/
namespace CoalescingQueue

structure Settings where
  queue : QueueConfig := {}
  /-- Where telemetry is exported to, if anywhere. -/
  endpoint : Option String := none
  logLevel : String := "info"
  deriving DecidableEq, Repr

namespace Settings

def ofEnvironment (env : Environment) : Except CapacityFault Settings := do
  let capacity ←
    match env.text? "JOBQUEUE_CAPACITY" with
    | some raw => QueueConfig.capacityOfText? raw
    | none => .ok ⟨100, Nat.succ_pos 99⟩
  let name := (env.text? "JOBQUEUE_NAME").getD "job-queue"
  return {
    queue := ⟨name, capacity.val, capacity.property⟩
    endpoint := env.text? "OTEL_ENDPOINT"
    logLevel := (env.text? "LOG_LEVEL").getD "info" }

/-- The settings, with a refusal as the error a caller sees. -/
def load (env : Environment) : Except Error Settings :=
  match ofEnvironment env with
  | .ok settings => .ok settings
  | .error fault => .error (.configuration fault.message)

end Settings

end CoalescingQueue
