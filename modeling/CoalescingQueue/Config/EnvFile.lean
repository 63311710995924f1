import CoalescingQueue.Config.Environment
import CoalescingQueue.Text.Blank
import CoalescingQueue.Text.Property
import CoalescingQueue.Text.Split

/-!
# Environment files

Lines that each give a variable a value. Values may be quoted, may go on over several lines
within quotes, and may refer to other variables. The file is read up to the first line that is
wrong, and it never changes a variable that the environment already has.
-/
namespace CoalescingQueue.EnvFile

/-- Where the end of a line leaves off, as far as it matters for the next one. -/
inductive LineState
  | plain
  | escaped
  | single
  | singleEscaped
  | double
  | doubleEscaped
  /-- After a blank, where a comment may begin. -/
  | blank
  deriving DecidableEq, Repr

namespace LineState

/-- A character outside of quotes. -/
def outside (c : Char) : LineState :=
  if c = '\\' then .escaped
  else if c = '"' then .double
  else if c = '\'' then .single
  else .plain

/-- The next state, or nothing if a comment begins. -/
def next? (s : LineState) (c : Char) : Option LineState :=
  match s with
  | .blank => if c = '#' then none else some (outside c)
  | .escaped => some .plain
  | .plain =>
    if Text.isBlank c && c ≠ '\n' && c ≠ '\r' then some .blank else some (outside c)
  | .double =>
    some (if c = '\\' then .doubleEscaped else if c = '"' then .plain else .double)
  | .doubleEscaped => some .double
  | .single =>
    some (if c = '\\' then .singleEscaped else if c = '\'' then .plain else .single)
  | .singleEscaped => some .single

end LineState

/-- Reads a line: the state at its end, or the part in front of a comment. -/
def scanLine (s : LineState) (seen : List Char) : List Char → LineState ⊕ List Char
  | [] => .inl s
  | c :: rest =>
    match s.next? c with
    | some s => scanLine s (c :: seen) rest
    | none => .inr seen.reverse

/-- The line without the mark at its end. -/
def chomp (cs : List Char) : List Char :=
  match cs.reverse with
  | '\n' :: '\r' :: rest => rest.reverse
  | '\n' :: rest => rest.reverse
  | _ => cs

def isComment (cs : List Char) : Bool := (Text.trimLeft cs).head? = some '#'

/-- Joins lines that belong together. A line that has no end, or is no text, is given as nothing,
and nothing comes after it. -/
def joinLines (s : LineState) (before : List Char) :
    List (List UInt8) → List (Option (List Char))
  | [] => if s = .plain then [] else [none]
  | line :: rest =>
    match Text.decode line with
    | .error _ => [none]
    | .ok cs =>
      let whole := before ++ cs
      if isComment whole then some [] :: joinLines .plain [] rest
      else
        match scanLine s [] cs with
        | .inl .plain => some (chomp whole) :: joinLines .plain [] rest
        | .inl s => joinLines s whole rest
        | .inr part => some (before ++ part) :: joinLines .plain [] rest

/-- The lines of a file, each with the mark at its end. -/
def linesOf (bytes : List UInt8) : List (List UInt8) :=
  let pieces := Text.cut 0x0A bytes
  let whole := pieces.dropLast.map (· ++ [0x0A])
  match pieces.getLastD [] with
  | [] => whole
  | last => whole ++ [last]

/-- The values that earlier lines gave. -/
abbrev Known := List (String × String)

/-- What a reference stands for: the variable of the environment, else the value of an earlier
line, else nothing. -/
def lookup (env : Environment) (known : Known) (name : List Char) : List Char :=
  let name := String.ofList name
  match env.text? name with
  | some value => value.toList
  | none => ((List.lookup name known).getD "").toList

/-- Where reading a value stands. -/
inductive ValuePlace
  | plain
  /-- After the value, where only blanks or a comment may follow. -/
  | finished
  | escaped
  | single
  /-- In a reference, or in one between braces. -/
  | reference (name : List Char)
  | braced (name : List Char)

/-- A character inside double quotes or outside of all quotes. -/
structure ValueState where
  place : ValuePlace := .plain
  isDouble : Bool := false
  /-- The value so far, the last character first. -/
  value : List Char := []

namespace ValueState

def push (v : ValueState) (c : Char) : ValueState := { v with value := c :: v.value }

def insert (v : ValueState) (cs : List Char) : ValueState :=
  { v with value := cs.reverse ++ v.value, place := .plain }

/-- A character that is not within a reference or single quotes. -/
def stepPlain (v : ValueState) (c : Char) : ValueState :=
  if c = '$' then { v with place := .reference [] }
  else if v.isDouble then
    if c = '"' then { v with isDouble := false }
    else if c = '\\' then { v with place := .escaped }
    else v.push c
  else if c = '\'' then { v with place := .single }
  else if c = '"' then { v with isDouble := true }
  else if c = '\\' then { v with place := .escaped }
  else if c = ' ' || c = '\t' then { v with place := .finished }
  else v.push c

def escape? (c : Char) : Option Char :=
  if c = 'n' then some '\n'
  else if c = '\\' || c = '\'' || c = '"' || c = '$' || c = ' ' then some c
  else none

/-- One character of a value, with the meaning of references. -/
def step (find : List Char → List Char) (v : ValueState) (c : Char) : Option ValueState :=
  match v.place with
  | .finished => if c = ' ' || c = '\t' then some v else none
  | .escaped => (escape? c).map fun e => { v.push e with place := .plain }
  | .single => some (if c = '\'' then { v with place := .plain } else v.push c)
  | .reference name =>
    if Text.isAlphanumeric c then some { v with place := .reference (name ++ [c]) }
    else if c = '\x7b' && name.isEmpty then some { v with place := .braced [] }
    else
      let v := v.insert (find name)
      some (if c = '$' then { v with place := .reference [] } else v.push c)
  | .braced name =>
    if c = '\x7d' then some (v.insert (find name))
    else some { v with place := .braced (name ++ [c]) }
  | .plain => some (v.stepPlain c)

/-- The end of a value. -/
def finish? (find : List Char → List Char) (v : ValueState) : Option (List Char) :=
  if v.isDouble then none
  else
    match v.place with
    | .braced _ | .single => none
    | .reference name => some (v.insert (find name)).value.reverse
    | _ => some v.value.reverse

end ValueState

/-- Reads a value. A comment may follow it after a blank. -/
def readValue (find : List Char → List Char) (v : ValueState) : List Char → Option (List Char)
  | [] => v.finish? find
  | c :: rest =>
    match v.place with
    | .finished =>
      if c = '#' then v.finish? find
      else
        match v.step find c with
        | some v => readValue find v rest
        | none => none
    | _ =>
      match v.step find c with
      | some v => readValue find v rest
      | none => none

def startsKey (c : Char) : Bool := c.isAlpha || c = '_'

def isKeyChar (c : Char) : Bool := c.isAlphanum || c = '_' || c = '.'

/-- Reads a key and the blanks after it. -/
def readKey (cs : List Char) : Option (List Char × List Char) :=
  match cs with
  | c :: _ =>
    if startsKey c then
      let key := cs.takeWhile isKeyChar
      some (key, Text.trimLeft (cs.drop key.length))
    else none
  | [] => none

def readEqual : List Char → Option (List Char)
  | '=' :: rest => some rest
  | _ => none

/-- The key of a line and what follows the equals sign. The word export in front of a key does
not count, unless it is the key itself. -/
def readAssignment (cs : List Char) : Option (List Char × List Char) := do
  let (key, rest) ← readKey cs
  match readEqual rest with
  | some rest => return (key, rest)
  | none =>
    if key = "export".toList then
      let (key, rest) ← readKey rest
      return (key, ← readEqual rest)
    else none

/-- What a line says. -/
inductive Line
  | nothing
  | wrong
  | assignment (key value : String)

def Line.ofChars (find : List Char → List Char) (cs : List Char) : Line :=
  let cs := Text.trim cs
  if cs.isEmpty || cs.head? = some '#' then .nothing
  else
    match readAssignment cs with
    | none => .wrong
    | some (key, rest) =>
      let rest := Text.trimLeft rest
      let key := String.ofList key
      if rest.isEmpty || rest.head? = some '#' then .assignment key ""
      else
        match readValue find {} rest with
        | some value => .assignment key (String.ofList value)
        | none => .wrong

/-- Sets the variables that lines give values to, up to the first line that is wrong. -/
def loadLines (env : Environment) (known : Known) : List (Option (List Char)) → Environment
  | [] => env
  | none :: _ => env
  | some cs :: rest =>
    match Line.ofChars (lookup env known) cs with
    | .nothing => loadLines env known rest
    | .wrong => env
    | .assignment key value =>
      let env' := if (env.text? key).isSome then env else env.set key value.toUTF8.toList
      loadLines env' ((key, value) :: known) rest

/-- The file without the mark that may stand at its beginning. -/
def withoutMark : List UInt8 → List UInt8
  | 0xEF :: 0xBB :: 0xBF :: rest => rest
  | bytes => bytes

/-- The environment with the variables that the file adds to it. -/
def load (env : Environment) (file : List UInt8) : Environment :=
  loadLines env [] (joinLines .plain [] (linesOf (withoutMark file)))

end CoalescingQueue.EnvFile
