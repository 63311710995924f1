import CoalescingQueue.Text.Decimal
import CoalescingQueue.Text.Quoted

/-!
# Faults of a JSON reader

A text can end too early, break the grammar, or be well formed and hold something of another
shape than the one asked for. Reading goes from left to right and reports what it meets first.
-/
namespace CoalescingQueue.Json

/-- A value as a complaint names it. -/
inductive Found
  | null
  | boolean (b : Bool)
  | integer (i : Int)
  | floating (x : Float)
  | text (s : String)
  | sequence
  | map

def Found.message : Found → String
  | .null => "null"
  | .boolean b => s!"boolean `{b}`"
  | .integer i => s!"integer `{i}`"
  | .floating x => s!"floating point `{Text.floatText x}`"
  | .text s => "string " ++ Text.quoted s
  | .sequence => "sequence"
  | .map => "map"

/-- How a well-formed value differs from the shape asked for. -/
inductive Mismatch
  | kind (found : Found) (expected : String)
  | value (found : Found) (expected : String)
  | missing (field : String)
  | duplicate (field : String)
  | length (n : Nat) (expected : String)
  | variant (name : String) (known : List String)

def Mismatch.message : Mismatch → String
  | .kind found expected => s!"invalid type: {found.message}, expected {expected}"
  | .value found expected => s!"invalid value: {found.message}, expected {expected}"
  | .missing field => s!"missing field `{field}`"
  | .duplicate field => s!"duplicate field `{field}`"
  | .length n expected => s!"invalid length {n}, expected {expected}"
  | .variant name known =>
    let names := ", ".intercalate (known.map fun k => "`" ++ k ++ "`")
    s!"unknown variant `{name}`, expected one of {names}"

inductive Fault
  /-- The text ends where more is needed. -/
  | truncated
  /-- The text breaks the grammar. -/
  | malformed
  | mismatch (m : Mismatch)

/-- What reading yields: the value and the rest of the text. -/
abbrev Reading (α : Type) := Except Fault (α × List Char)

/-- The four blanks that may stand between tokens. -/
def isGap (c : Char) : Bool := c = ' ' || c = '\n' || c = '\t' || c = '\r'

def skipGaps (cs : List Char) : List Char := cs.dropWhile isGap

/-- Reads the rest of a word of which the first letter is known. -/
def readWord : List Char → List Char → Except Fault (List Char)
  | [], rest => .ok rest
  | _ :: _, [] => .error .truncated
  | w :: word, c :: rest => if c = w then readWord word rest else .error .malformed

end CoalescingQueue.Json
