import CoalescingQueue.Json.Text

/-!
# Flat JSON documents

What the library writes: an object of named scalars, or a single text. A document has a compact
form without gaps and a wide form with one member a line, indented by two spaces.
-/
namespace CoalescingQueue.Json

inductive Scalar
  | null
  | number (n : Nat)
  | text (s : String)
  deriving DecidableEq, Repr, Inhabited

def Scalar.write : Scalar → List Char
  | .null => ['n', 'u', 'l', 'l']
  | .number n => Nat.toDigits 10 n
  | .text s => writeText s

/-- Members of an object, in the order in which they are written. -/
abbrev Members := List (String × Scalar)

def writeMember (gap : List Char) (m : String × Scalar) : List Char :=
  writeText m.1 ++ ':' :: gap ++ m.2.write

def compactObject (members : Members) : String :=
  String.ofList ('\x7b' :: [','].intercalate (members.map (writeMember [])) ++ ['\x7d'])

def wideObject (members : Members) : String :=
  let line (m : String × Scalar) : List Char := '\n' :: ' ' :: ' ' :: writeMember [' '] m
  String.ofList ('\x7b' :: [','].intercalate (members.map line) ++ ['\n', '\x7d'])

def textDocument (s : String) : String := String.ofList (writeText s)

end CoalescingQueue.Json
