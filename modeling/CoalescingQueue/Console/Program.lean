import CoalescingQueue.Config.EnvFile
import CoalescingQueue.Config.Settings
import CoalescingQueue.Console.Demo
import CoalescingQueue.Console.Help
import CoalescingQueue.Console.Session
import CoalescingQueue.Json.Model
import CoalescingQueue.Telemetry.Setup

/-!
# The program

One run of the program from its surroundings to its exit: the environment file, the arguments,
the settings, telemetry, and then a queue for the command that was given.
-/
namespace CoalescingQueue.Console

/-- What the program is started with. -/
structure Surroundings where
  arguments : List String := []
  environment : Environment := []
  envFile : List UInt8 := []
  input : List Arrival := []

/-- Why the program fails. -/
inductive ProgramFault
  | error (e : Error)
  | unreadableInput
  /-- The queue cannot be made. -/
  | broken
  deriving DecidableEq, Repr

/-- What the program leaves behind: its exit code, its output, and what it says about a failure. -/
structure Exit where
  code : Nat := 0
  output : String := ""
  complaint : Option String := none
  deriving DecidableEq, Repr

namespace ProgramFault

def message : ProgramFault → String
  | .error e => e.message
  | .unreadableInput =>
    "failed to read stdin\n\nCaused by:\n    stream did not contain valid UTF-8"
  | .broken => ""

def exit : ProgramFault → Exit
  | .broken => { code := 101 }
  | fault => { code := 1, complaint := some ("Error: " ++ fault.message ++ "\n") }

end ProgramFault

/-- Asking for help is no failure; every other fault of the arguments is a wrong use. -/
def ArgumentFault.exit : ArgumentFault → Exit
  | .help topic => { output := topic.page }
  | _ => { code := 2 }

/-- The statistics as the program prints them. -/
def report (q : Queue) : String := Json.wideObject q.stats.members

/-- Runs a command on a new queue and shuts the queue down. -/
def Invocation.execute (i : Invocation) (q : Queue) (input : List Arrival) :
    Except ProgramFault Queue :=
  let script := i.simulation.work
  match i.command with
  | .demo bursts gapMs =>
    match demo script i.simulation.workMs gapMs bursts q with
    | .ok q => .ok q
    | .error e => .error (.error e)
  | .run =>
    match Session.run script q input with
    | .ok q => .ok q
    | .error _ => .error .unreadableInput

/-- Runs the program in an environment that is complete. -/
def Invocation.perform (i : Invocation) (env : Environment) (input : List Arrival) :
    Except ProgramFault String := do
  let settings ← (Settings.load env).mapError .error
  let _ ← (Telemetry.start env settings.logLevel settings.endpoint).mapError .error
  match Queue.open? settings.queue with
  | none => .error .broken
  | some q => return report (← i.execute q input) ++ "\n"

/-- Runs the program. -/
def Surroundings.run (s : Surroundings) : Exit :=
  let env := EnvFile.load s.environment s.envFile
  match Invocation.ofArguments s.arguments with
  | .error fault => fault.exit
  | .ok i =>
    match i.perform env s.input with
    | .ok output => { output }
    | .error fault => fault.exit

end CoalescingQueue.Console
