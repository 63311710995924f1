import CoalescingQueue.Console.Simulation
import CoalescingQueue.Text.Numeral
import CoalescingQueue.Text.Split

/-!
# Command line arguments

A command with options. The options of the simulation may stand before or after the command, and
after it they take precedence. An option without an attached value waits for the next word, and
it is looked into only when the next option or the end of its level is reached.
-/
namespace CoalescingQueue.Console

/-- What a help page is about. -/
inductive HelpTopic
  | program
  | demo
  | run
  | help
  deriving DecidableEq, Repr

inductive ArgumentFault
  | unknownArgument
  /-- An option has no value. -/
  | missingValue
  /-- A value is not of the kind the option takes. -/
  | badValue
  /-- An option is given twice on one level. -/
  | repeated
  /-- A flag has a value. -/
  | unneededValue
  | unknownCommand
  | missingCommand
  /-- Nothing is given at all. -/
  | nothingGiven
  /-- Help is asked for. -/
  | help (topic : HelpTopic)
  deriving DecidableEq, Repr

inductive Opt
  | workMs
  | failEvery
  | bursts
  | gapMs
  deriving DecidableEq, Repr

namespace Opt

def all : List Opt := [.workMs, .failEvery, .bursts, .gapMs]

def name : Opt → String
  | .workMs => "work-ms"
  | .failEvery => "fail-every"
  | .bursts => "bursts"
  | .gapMs => "gap-ms"

end Opt

inductive CommandName
  | demo
  | run
  deriving DecidableEq, Repr

namespace CommandName

def all : List CommandName := [.demo, .run]

def text : CommandName → String
  | .demo => "demo"
  | .run => "run"

def ofText? (s : String) : Option CommandName := all.find? (·.text = s)

def topic : CommandName → HelpTopic
  | .demo => .demo
  | .run => .run

end CommandName

def helpWord : String := "help"

/-- The level at which arguments are read: before a command, or after it. -/
abbrev CommandLevel := Option CommandName

def topicOfLevel (level : CommandLevel) : HelpTopic := (level.map CommandName.topic).getD .program

def optionsOfLevel : CommandLevel → List Opt
  | some .demo => Opt.all
  | _ => [.workMs, .failEvery]

/-- The values of the options of one level. -/
structure Given where
  workMs : Option Nat := none
  failEvery : Option Nat := none
  bursts : Option String := none
  gapMs : Option Nat := none
  deriving DecidableEq, Repr

namespace Given

def has (g : Given) : Opt → Bool
  | .workMs => g.workMs.isSome
  | .failEvery => g.failEvery.isSome
  | .bursts => g.bursts.isSome
  | .gapMs => g.gapMs.isSome

def isEmpty (g : Given) : Bool := !Opt.all.any g.has

def number (raw : String) : Except ArgumentFault Nat :=
  match Text.readNumeral Text.wordLimit raw.toList with
  | .ok n => .ok n
  | .error _ => .error .badValue

/-- Gives an option the value that the text spells. -/
def set (g : Given) (o : Opt) (raw : String) : Except ArgumentFault Given :=
  if g.has o then .error .repeated
  else
    match o with
    | .workMs => (number raw).map fun n => { g with workMs := some n }
    | .failEvery => (number raw).map fun n => { g with failEvery := some n }
    | .bursts => .ok { g with bursts := some raw }
    | .gapMs => (number raw).map fun n => { g with gapMs := some n }

end Given

/-- An argument by its form. -/
inductive Token
  /-- Two dashes, after which nothing is an option. -/
  | dashes
  | long (name : String) (value : Option String)
  | short (letters : List Char)
  | word (s : String)

def Token.ofText (s : String) : Token :=
  match s.toList with
  | ['-', '-'] => .dashes
  | '-' :: '-' :: rest =>
    let name := rest.takeWhile (· ≠ '=')
    let value := rest.drop (name.length + 1)
    .long (String.ofList name)
      (if name.length < rest.length then some (String.ofList value) else none)
  | '-' :: c :: rest => .short (c :: rest)
  | _ => .word s

/-- What has been read of a level, with an option that is not looked into yet. -/
structure Reader where
  given : Given := {}
  pending : Option (Opt × Option String) := none

namespace Reader

/-- Looks into the option that was left. -/
def resolve (r : Reader) : Except ArgumentFault Reader :=
  match r.pending with
  | none => .ok r
  | some (_, none) => .error .missingValue
  | some (o, some raw) => (r.given.set o raw).map fun given => { given }

/-- Whether the next word is the value of an option. -/
def awaitsValue (r : Reader) : Bool :=
  match r.pending with
  | some (_, none) => true
  | _ => false

def supply (r : Reader) (raw : String) : Reader :=
  { r with pending := r.pending.map fun (o, _) => (o, some raw) }

/-- An option by name, perhaps with an attached value. -/
def option (level : CommandLevel) (r : Reader) (name : String) (value : Option String) :
    Except ArgumentFault Reader :=
  if name = helpWord then
    match value with
    | some _ => .error .unneededValue
    | none =>
      match r.resolve with
      | .ok _ => .error (.help (topicOfLevel level))
      | .error fault => .error fault
  else
    match (optionsOfLevel level).find? (·.name = name) with
    | none => .error .unknownArgument
    | some o =>
      match r.resolve, value with
      | .error fault, _ => .error fault
      | .ok r, none => .ok { r with pending := some (o, none) }
      | .ok r, some raw => (r.given.set o raw).map fun given => { given }

/-- Options of one letter. There is one, which asks for help. -/
def letters (level : CommandLevel) (r : Reader) (cs : List Char) : ArgumentFault :=
  if cs.head? = some 'h' then
    match r.resolve with
    | .ok _ => .help (topicOfLevel level)
    | .error fault => fault
  else .unknownArgument

end Reader

/-- The page that follows the help command, found by walking along the names after it. -/
def helpPage : List String → ArgumentFault
  | [] => .help .program
  | [name] =>
    match CommandName.ofText? name with
    | some command => .help command.topic
    | none => if name = helpWord then .help .help else .unknownCommand
  | _ => .unknownCommand

/-- A word that is neither value nor command. -/
def strayWord (level : CommandLevel) (isAfterDashes : Bool) (s : String) : ArgumentFault :=
  match level with
  | some _ => .unknownArgument
  | none =>
    if isAfterDashes && ((CommandName.ofText? s).isSome || s = helpWord) then .unknownArgument
    else .unknownCommand

/-- The end of a level: its options, and the command with the arguments after it, if any. -/
structure LevelEnd where
  reader : Reader
  command : Option (CommandName × List String) := none

/-- Reads the arguments of one level. Help and stray words end it at once. -/
def readLevel (level : CommandLevel) (r : Reader) :
    List String → Except ArgumentFault LevelEnd
  | [] => .ok { reader := r }
  | s :: rest =>
    match Token.ofText s with
    | .dashes =>
      match rest with
      | [] => .ok { reader := r }
      | word :: _ => .error (strayWord level true word)
    | .long name value =>
      match r.option level name value with
      | .ok r => readLevel level r rest
      | .error fault => .error fault
    | .short cs => .error (r.letters level cs)
    | .word s =>
      if r.awaitsValue then readLevel level (r.supply s) rest
      else if level.isNone && s = helpWord then .error (helpPage rest)
      else
        match level, CommandName.ofText? s with
        | none, some command => .ok { reader := r, command := some (command, rest) }
        | _, _ => .error (strayWord level false s)

inductive Command
  | demo (bursts : String) (gapMs : Nat)
  | run
  deriving DecidableEq, Repr

structure Invocation where
  simulation : Simulation
  command : Command
  deriving DecidableEq, Repr

/-- What the options of both levels come to. -/
def Invocation.ofGiven (outer inner : Given) (command : CommandName) : Invocation where
  simulation := {
    workMs := (inner.workMs <|> outer.workMs).getD 20
    failEvery := inner.failEvery <|> outer.failEvery }
  command :=
    match command with
    | .demo => .demo (inner.bursts.getD "1;2,3,4;5") (inner.gapMs.getD 50)
    | .run => .run

/-- Reads a command line without the name of the program. The level after the command is complete
before the last option in front of it is looked into. -/
def Invocation.ofArguments (args : List String) : Except ArgumentFault Invocation := do
  let outer ← readLevel none {} args
  match outer.command with
  | some (command, rest) =>
    let inner ← readLevel (some command) {} rest
    let inner ← inner.reader.resolve
    let outer ← outer.reader.resolve
    return ofGiven outer.given inner.given command
  | none =>
    let outer ← outer.reader.resolve
    if outer.given.isEmpty then .error .nothingGiven else .error .missingCommand

end CoalescingQueue.Console
