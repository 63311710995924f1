import CoalescingQueue.Json.Number
import CoalescingQueue.Json.Scalar
import CoalescingQueue.Json.Skip

/-!
# Reading records

A record is written as an object with its fields in any order, or as a list of its fields in
their own order. An object may hold other members, which are passed over, but no field twice.
A field that may be null may be left out as well. What is wrong first, from left to right, is
what gets reported; fields that are missing show at the closing bracket.
-/
namespace CoalescingQueue.Json

inductive FieldKind
  | text
  | counter
  | textOrNull
  deriving DecidableEq, Repr

/-- What a complaint says it would have liked. -/
def FieldKind.expected : FieldKind → String
  | .text => "a string"
  | .counter => "u64"
  | .textOrNull => "a string"

structure Shape where
  name : String
  fields : List (String × FieldKind)

/-- Names the value that begins here, once it has been read as far as its name needs. -/
def readFound (cs : List Char) : Except Fault Found :=
  match cs with
  | [] => .error .truncated
  | 'n' :: rest => (readWord ['u', 'l', 'l'] rest).map fun _ => .null
  | 't' :: rest => (readWord ['r', 'u', 'e'] rest).map fun _ => .boolean true
  | 'f' :: rest => (readWord ['a', 'l', 's', 'e'] rest).map fun _ => .boolean false
  | '"' :: rest => (readText rest).map fun (s, _) => .text s
  | '[' :: _ => .ok .sequence
  | '\x7b' :: _ => .ok .map
  | c :: _ =>
    if c = '-' || c.isDigit then (readNumber cs).map fun (n, _) => n.found
    else .error .malformed

/-- The value that begins here is not of the kind asked for. -/
def rejectKind (cs : List Char) (expected : String) : Fault :=
  match readFound cs with
  | .ok found => .mismatch (.kind found expected)
  | .error fault => fault

def readScalarText (expected : String) (cs : List Char) : Reading String :=
  match cs with
  | '"' :: rest => readText rest
  | _ => .error (rejectKind cs expected)

def readCounter (cs : List Char) : Reading Scalar :=
  match cs with
  | [] => .error .truncated
  | c :: _ =>
    if c = '-' || c.isDigit then
      match readNumber cs with
      | .ok (.natural n, rest) => .ok (.number n, rest)
      | .ok (.negative n, _) =>
        .error (.mismatch (.value (.integer (-n)) FieldKind.counter.expected))
      | .ok (.floating x, _) => .error (.mismatch (.kind (.floating x) FieldKind.counter.expected))
      | .error fault => .error fault
    else .error (rejectKind cs FieldKind.counter.expected)

def readNull (cs : List Char) : Except Fault (List Char) :=
  match cs with
  | 'n' :: rest => readWord ['u', 'l', 'l'] rest
  | _ => .error (rejectKind cs "unit")

/-- Reads the value of a field, perhaps after gaps. -/
def FieldKind.read (kind : FieldKind) (cs : List Char) : Reading Scalar :=
  let cs := skipGaps cs
  match kind with
  | .text => (readScalarText kind.expected cs).map fun (s, rest) => (.text s, rest)
  | .counter => readCounter cs
  | .textOrNull =>
    match cs with
    | 'n' :: rest => (readWord ['u', 'l', 'l'] rest).map (.null, ·)
    | _ => (readScalarText kind.expected cs).map fun (s, rest) => (.text s, rest)

def readColon (cs : List Char) : Except Fault (List Char) :=
  match skipGaps cs with
  | ':' :: rest => .ok rest
  | _ :: _ => .error .malformed
  | [] => .error .truncated

/-- The fields of a record as far as they are known, in the order of the shape. -/
abbrev Slots := List ((String × FieldKind) × Option Scalar)

def Shape.slots (shape : Shape) : Slots := shape.fields.map (·, none)

/-- The slot of a field, which is known by its name. -/
def Slots.find? (slots : Slots) (name : String) : Option ((String × FieldKind) × Option Scalar) :=
  List.find? (fun slot => slot.1.1 = name) slots

def Slots.fill (slots : Slots) (name : String) (value : Scalar) : Slots :=
  slots.map fun slot => if slot.1.1 = name then (slot.1, some value) else slot

/-- The values of all fields, if none is missing that has to be there. -/
def Slots.values : Slots → Except Fault (List Scalar)
  | [] => .ok []
  | ((_, _), some value) :: rest => (Slots.values rest).map (value :: ·)
  | ((_, .textOrNull), none) :: rest => (Slots.values rest).map (.null :: ·)
  | ((name, _), none) :: _ => .error (.mismatch (.missing name))

/-- Reads a member of which the opening quote of its key has been read. -/
def readMember (slots : Slots) (cs : List Char) : Except Fault (Slots × List Char) := do
  let (key, rest) ← readText cs
  match slots.find? key with
  | some (_, some _) => .error (.mismatch (.duplicate key))
  | some ((_, kind), none) =>
    let (value, rest) ← kind.read (← readColon rest)
    return (slots.fill key value, rest)
  | none => return (slots, ← skipValue (← readColon rest))

/-- Whether a key begins here. -/
def readKeyQuote (cs : List Char) : Except Fault (List Char) :=
  match skipGaps cs with
  | '"' :: rest => .ok rest
  | _ :: _ => .error .malformed
  | [] => .error .truncated

/-- Reads members up to the closing bracket; `isFirst` before any of them. -/
def readMembers (slots : Slots) (isFirst : Bool) (cs : List Char) :
    Nat → Except Fault (Slots × List Char)
  | 0 => .error .truncated
  | room + 1 =>
    match skipGaps cs with
    | [] => .error .truncated
    | '\x7d' :: rest => .ok (slots, rest)
    | ',' :: rest =>
      if isFirst then .error .malformed
      else do
        let (slots, rest) ← readMember slots (← readKeyQuote rest)
        readMembers slots false rest room
    | cs =>
      if isFirst then do
        let (slots, rest) ← readMember slots (← readKeyQuote cs)
        readMembers slots false rest room
      else .error .malformed

/-- The complaint about a list that ended after `n` elements. -/
def Shape.tooShort (shape : Shape) (n : Nat) : Fault :=
  let total := shape.fields.length
  let noun := if total = 1 then "element" else "elements"
  .mismatch (.length n s!"struct {shape.name} with {total} {noun}")

/-- Reads the elements of a list, one for each field that is left. -/
def Shape.readElements (shape : Shape) (n : Nat) (cs : List Char) :
    List (String × FieldKind) → Except Fault (List Scalar × List Char)
  | [] =>
    match skipGaps cs with
    | ']' :: rest => .ok ([], rest)
    | [] => .error .truncated
    | _ :: _ => .error .malformed
  | (_, kind) :: fields => do
    let cs := skipGaps cs
    if cs.head? = some ']' then .error (shape.tooShort n)
    else
      let cs ←
        if n = 0 then pure cs
        else
          match cs with
          | [] => .error .truncated
          | ',' :: rest =>
            let rest := skipGaps rest
            if rest.head? = some ']' then .error .malformed else pure rest
          | _ :: _ => .error .malformed
      let (value, rest) ← kind.read cs
      let (values, rest) ← shape.readElements (n + 1) rest fields
      return (value :: values, rest)

/-- Reads a record in either form. -/
def Shape.read (shape : Shape) (cs : List Char) : Except Fault (List Scalar × List Char) :=
  match skipGaps cs with
  | '[' :: rest => shape.readElements 0 rest shape.fields
  | '\x7b' :: rest =>
    match readMembers shape.slots true rest (rest.length + 1) with
    | .ok (slots, rest) => slots.values.map (·, rest)
    | .error fault => .error fault
  | cs => .error (rejectKind cs s!"struct {shape.name}")

/-- Nothing but gaps may follow a document. -/
def endDocument {α : Type} (result : Except Fault (α × List Char)) : Except Fault α :=
  match result with
  | .error fault => .error fault
  | .ok (value, rest) => if (skipGaps rest).isEmpty then .ok value else .error .malformed

end CoalescingQueue.Json
