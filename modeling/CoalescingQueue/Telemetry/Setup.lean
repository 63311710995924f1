import CoalescingQueue.Error
import CoalescingQueue.Log.Filter
import CoalescingQueue.Telemetry.Endpoint

/-!
# Setting up telemetry

Logging always goes through a filter. With an endpoint, spans and metrics are exported as well,
provided the endpoint has the form of one. This can be done once in the life of a process.
-/
namespace CoalescingQueue

structure Telemetry where
  filter : LogFilter
  isExporting : Bool

namespace Telemetry

/-- An empty endpoint stands for the usual one. -/
def checkEndpoint (endpoint : String) : Except Error Unit :=
  if endpoint.isEmpty then .ok ()
  else
    match Endpoint.check endpoint with
    | .ok () => .ok ()
    | .error fault =>
      .error (.other (s!"failed to create OTLP span exporter: invalid URI {endpoint}. " ++
        s!"Reason {fault.message}"))

def start (env : Environment) (logLevel : String) (endpoint : Option String) :
    Except Error Telemetry :=
  let filter := LogFilter.ofEnvironment env logLevel
  match endpoint with
  | none => .ok ⟨filter, false⟩
  | some endpoint => (checkEndpoint endpoint).map fun () => ⟨filter, true⟩

/-- What a second setup comes to. -/
def alreadyStarted : Error :=
  .other "failed to init tracing subscriber: a global default trace dispatcher has already been set"

/-- The targets and levels that pass, target by target. -/
def enabled (t : Telemetry) (targets : List String) : List (String × Level) :=
  targets.flatMap fun target =>
    (Level.all.filter fun level => t.filter.allows target level).map (target, ·)

end Telemetry

end CoalescingQueue
