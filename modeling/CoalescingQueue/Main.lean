import CoalescingQueue.Console.Program

/-!
# The command line

Gathers the surroundings of the process, runs the program on them, and passes on what it leaves
behind.
-/
namespace CoalescingQueue.Console

/-- The variables that the program may look at. -/
def variableNames : List String :=
  ["JOBQUEUE_NAME", "JOBQUEUE_CAPACITY", "OTEL_ENDPOINT", "LOG_LEVEL", "RUST_LOG"]

def readEnvironment : IO Environment :=
  variableNames.filterMapM fun name => do
    return (← IO.getEnv name).map fun value => (name, value.toUTF8.toList)

def readEnvFile : IO (List UInt8) := do
  try
    return (← IO.FS.readBinFile ".env").toList
  catch _ => return []

partial def readAll (input : IO.FS.Stream) (seen : ByteArray) : IO ByteArray := do
  let piece ← input.read 65536
  if piece.isEmpty then return seen else readAll input (seen ++ piece)

/-- The whole input, if the arguments ask for a command that reads it. -/
def readInput (arguments : List String) : IO (List Arrival) := do
  match Invocation.ofArguments arguments with
  | .ok ⟨_, .run⟩ => return [.bytes (← readAll (← IO.getStdin) .empty).toList]
  | _ => return []

def gather (arguments : List String) : IO Surroundings := do
  return {
    arguments
    environment := ← readEnvironment
    envFile := ← readEnvFile
    input := ← readInput arguments }

end CoalescingQueue.Console

def main (arguments : List String) : IO UInt32 := do
  let surroundings ← CoalescingQueue.Console.gather arguments
  let exit := surroundings.run
  IO.print exit.output
  IO.eprint (exit.complaint.getD "")
  return UInt32.ofNat exit.code
