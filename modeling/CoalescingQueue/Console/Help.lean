import CoalescingQueue.Console.Arguments

/-!
# Help pages

What the program says about itself: a summary, how it is used, and lists in two columns.
-/
namespace CoalescingQueue.Console

/-- A list in two columns, the left one as wide as its widest entry. -/
def columns (rows : List (String × String)) : String :=
  let width := (rows.map fun row => row.1.length).foldl Nat.max 0
  let line (row : String × String) : String :=
    let blanks := String.ofList (List.replicate (width - row.1.length + 2) ' ')
    "  " ++ row.1 ++ blanks ++ row.2 ++ "\n"
  String.join (rows.map line)

namespace Opt

/-- The name of the value an option takes. -/
def placeholder : Opt → String
  | .workMs => "WORK_MS"
  | .failEvery => "FAIL_EVERY"
  | .bursts => "BURSTS"
  | .gapMs => "GAP_MS"

def summary : Opt → String
  | .workMs => "Simulated work duration in milliseconds [default: 20]"
  | .failEvery => "Make every Nth execution fail"
  | .bursts => "Bursts separated by ';', request IDs within a burst by ',' [default: 1;2,3,4;5]"
  | .gapMs => "Pause between bursts in milliseconds [default: 50]"

def helpRow (o : Opt) : String × String := (s!"    --{o.name} <{o.placeholder}>", o.summary)

end Opt

def helpRowOfHelp : String × String := ("-h, --help", "Print help")

def helpSummary : String := "Print this message or the help of the given subcommand(s)"

namespace HelpTopic

def summary : HelpTopic → String
  | .program => "Coalescing execution queue"
  | .demo => "Feed scripted bursts of requests and print the resulting stats"
  | .run => "Enqueue one request per stdin line until EOF or Ctrl-C"
  | .help => helpSummary

def usage : HelpTopic → String
  | .program => "jobqueue [OPTIONS] <COMMAND>"
  | .demo => "jobqueue demo [OPTIONS]"
  | .run => "jobqueue run [OPTIONS]"
  | .help => "jobqueue help [COMMAND]..."

/-- The options in the order in which a page lists them. -/
def options : HelpTopic → List Opt
  | .demo => [.bursts, .workMs, .failEvery, .gapMs]
  | .help => []
  | _ => [.workMs, .failEvery]

def optionList (t : HelpTopic) : String :=
  "Options:\n" ++ columns (t.options.map Opt.helpRow ++ [helpRowOfHelp])

def commandList : String :=
  "Commands:\n" ++ columns [("demo", summary .demo), ("run", summary .run), ("help", helpSummary)]

def details : HelpTopic → String
  | .program => commandList ++ "\n" ++ optionList .program
  | .help => "Arguments:\n" ++ columns [("[COMMAND]...", "Print help for the subcommand(s)")]
  | t => t.optionList

/-- The whole page. -/
def page (t : HelpTopic) : String := t.summary ++ "\n\nUsage: " ++ t.usage ++ "\n\n" ++ t.details

end HelpTopic

end CoalescingQueue.Console
