import CoalescingQueue.Config.Environment
import CoalescingQueue.Log.Event
import CoalescingQueue.Text.Numeral
import CoalescingQueue.Text.Property
import CoalescingQueue.Text.Split

/-!
# Log filters

A filter is a list of directives, each with a level for the targets that begin with its name.
The directive with the longest name that fits decides. A directive that names a span, or asks a
field for a value, is for events within such spans and lets nothing else through.
-/
namespace CoalescingQueue

/-- How much a directive lets through, for which targets. -/
structure Directive where
  target : Option (List Char) := none
  verbosity : Nat := 5
  /-- The field that the directive names. -/
  field : Option (List Char) := none
  /-- Whether the directive is bound to spans. -/
  isBound : Bool := false
  deriving DecidableEq, Repr

namespace Directive

def equalsName (cs : List Char) (name : String) : Bool := cs.map Char.toLower = name.toList

/-- A level by number or by name, where case does not matter. -/
def verbosity? (cs : List Char) : Option Nat :=
  match Text.readNumeral Text.wordLimit cs with
  | .ok n => if n ≤ 5 then some n else none
  | .error _ =>
    if equalsName cs "off" then some 0
    else (Level.all.find? fun l => equalsName cs l.name).map Level.verbosity

/-- Where reading a directive stands, with the position at which the current part begins. -/
inductive Place
  | start
  | name (start : Nat)
  | span (start : Nat)
  | field (start : Nat)
  /-- After the last field. -/
  | fields
  /-- After the span. -/
  | spanned
  | level (start : Nat)
  deriving DecidableEq, Repr

def slice (raw : List Char) (start stop : Nat) : List Char := (raw.drop start).take (stop - start)

def mayStart (c : Char) : Bool := c = '-' || c = ':' || c = '_' || Text.isAlphanumeric c

/-- One character of a directive. -/
def step (raw : List Char) (d : Directive) (place : Place) (i : Nat) (c : Char) :
    Option (Directive × Place) :=
  match place with
  | .start =>
    if c = '[' then some (d, .span (i + 1))
    else if mayStart c then some (d, .name i)
    else none
  | .name start =>
    if c = '=' then some ({ d with target := some (slice raw start i) }, .level (i + 1))
    else if c = '[' then some ({ d with target := some (slice raw start i) }, .span (i + 1))
    else some (d, place)
  | .span start =>
    if c = ']' then some ({ d with isBound := true }, .spanned)
    else if c = '\x7b' then some ({ d with isBound := start < i }, .field (i + 1))
    else some (d, place)
  | .field start =>
    let name := slice raw start i
    if c ≠ '\x7d' then some (d, place)
    else if name.isEmpty then none
    else some ({ d with field := some name, isBound := d.isBound || name.contains '=' }, .fields)
  | .fields => if c = ']' then some (d, .spanned) else none
  | .spanned => if c = '=' then some (d, .level (i + 1)) else none
  | .level _ => some (d, place)

/-- A level, where nothing at all stands for everything. -/
def levelText? (cs : List Char) : Option Nat := if cs.isEmpty then some 5 else verbosity? cs

/-- The end of a directive. A name without a level is a level, if it can be read as one. -/
def finish (raw : List Char) (d : Directive) : Place → Option Directive
  | .name start =>
    let cs := raw.drop start
    match levelText? cs with
    | some verbosity => some { d with verbosity, target := none }
    | none => some { d with verbosity := 5, target := some cs }
  | .level start => (levelText? (raw.drop start)).map fun verbosity => { d with verbosity }
  | .spanned => some d
  | _ => none

def scan (raw : List Char) (d : Directive) (place : Place) (i : Nat) :
    List Char → Option Directive
  | [] => finish raw d place
  | c :: rest =>
    match step raw d place i c with
    | some (d, place) => scan raw d place (i + 1) rest
    | none => none

/-- Reads a directive. The blanks around it are passed over when positions are counted, and are
there again when the parts are cut out. -/
def ofChars? (raw : List Char) : Option Directive := scan raw {} .start 0 (Text.trim raw)

/-- Whether the directive speaks about events of this target, outside any span. -/
def fits (d : Directive) (target : List Char) : Bool :=
  !d.isBound && (d.target.getD []).isPrefixOf target

/-- A longer name is more specific, and any name more than none. -/
def nameRank (d : Directive) : Nat :=
  match d.target with
  | none => 0
  | some name => name.length + 1

/-- Of two directives for one name, the one that names a field is more specific, and of two such
the one with the field that is later in the alphabet. -/
def fieldRank (d : Directive) : String := String.ofList (('f' :: ·) <$> d.field |>.getD [])

/-- Whether the second directive is at least as specific as the first. -/
def yields (d e : Directive) : Bool :=
  d.nameRank < e.nameRank || (d.nameRank = e.nameRank && d.fieldRank ≤ e.fieldRank)

end Directive

structure LogFilter where
  directives : List Directive
  deriving DecidableEq, Repr

namespace LogFilter

def pieces (s : String) : List (List Char) := (Text.cut ',' s.toList).filter (!·.isEmpty)

/-- A filter in which every directive has to be readable. -/
def strict? (s : String) : Option LogFilter :=
  ((pieces s).mapM Directive.ofChars?).map LogFilter.mk

/-- A filter of the directives that are readable; errors only, if there are none. -/
def lenient (s : String) : LogFilter :=
  match (pieces s).filterMap Directive.ofChars? with
  | [] => ⟨[{ verbosity := Level.error.verbosity }]⟩
  | directives => ⟨directives⟩

/-- The more specific of two directives, the later one if they are equally specific. -/
def prefer (best : Option Directive) (d : Directive) : Option Directive :=
  match best with
  | none => some d
  | some b => if b.yields d then some d else some b

/-- The directive that decides about a target. -/
def decider (f : LogFilter) (target : String) : Option Directive :=
  (f.directives.filter fun d => d.fits target.toList).foldl prefer none

def allows (f : LogFilter) (target : String) (level : Level) : Bool :=
  (f.decider target).any fun d => level.verbosity ≤ d.verbosity

/-- The filter that the environment asks for; if it asks for none that can be read, the one of
the configured level. -/
def ofEnvironment (env : Environment) (logLevel : String) : LogFilter :=
  ((env.text? "RUST_LOG").bind strict?).getD (lenient logLevel)

end LogFilter

end CoalescingQueue
