import CoalescingQueue.DispatchState
import CoalescingQueue.Json.Record
import CoalescingQueue.Request
import CoalescingQueue.Stats

/-!
# JSON forms of the data model

Requests and statistics are records; a state is its name, or an object whose only member has
that name and the value null.
-/
namespace CoalescingQueue

namespace Request

def shape : Json.Shape := ⟨"QueueRequest", [("id", .text)]⟩

def members (r : Request) : Json.Members := [("id", .text r.id)]

def ofScalars? : List Json.Scalar → Option Request
  | [.text id] => some ⟨id⟩
  | _ => none

def ofJson? (s : String) : Except Json.Fault Request :=
  match Json.endDocument (shape.read s.toList) with
  | .ok values =>
    match ofScalars? values with
    | some r => .ok r
    | none => .error .malformed
  | .error fault => .error fault

end Request

namespace Stats

def shape : Json.Shape :=
  ⟨"QueueStats", [("enqueued", .counter), ("executed", .counter), ("succeeded", .counter),
    ("failed", .counter), ("superseded", .counter), ("last_dispatched", .textOrNull)]⟩

def lastScalar : Option String → Json.Scalar
  | none => .null
  | some id => .text id

def members (s : Stats) : Json.Members :=
  [("enqueued", .number s.enqueued), ("executed", .number s.executed),
    ("succeeded", .number s.succeeded), ("failed", .number s.failed),
    ("superseded", .number s.superseded), ("last_dispatched", lastScalar s.lastDispatched)]

def ofScalars? : List Json.Scalar → Option Stats
  | [.number a, .number b, .number c, .number d, .number e, .null] => some ⟨a, b, c, d, e, none⟩
  | [.number a, .number b, .number c, .number d, .number e, .text id] =>
    some ⟨a, b, c, d, e, some id⟩
  | _ => none

def ofJson? (s : String) : Except Json.Fault Stats :=
  match Json.endDocument (shape.read s.toList) with
  | .ok values =>
    match ofScalars? values with
    | some stats => .ok stats
    | none => .error .malformed
  | .error fault => .error fault

@[simp] theorem ofScalars?_members (s : Stats) : ofScalars? (s.members.map Prod.snd) = some s := by
  rcases s with ⟨a, b, c, d, e, _ | id⟩ <;> rfl

end Stats

namespace DispatchState

def toJson (s : DispatchState) : String := Json.textDocument s.name

def ofVariant? (name : String) : Except Json.Fault DispatchState :=
  match ofName? name with
  | some s => .ok s
  | none => .error (.mismatch (.variant name (all.map (·.name))))

/-- Reads the name of a state. -/
def readName (cs : List Char) : Json.Reading DispatchState :=
  match Json.readScalarText "variant identifier" (Json.skipGaps cs) with
  | .ok (name, rest) => (ofVariant? name).map (·, rest)
  | .error fault => .error fault

/-- Reads a state written as an object, of which the opening bracket has been read. -/
def readObject (cs : List Char) : Except Json.Fault (DispatchState × List Char) := do
  let (s, rest) ← readName cs
  let rest ← Json.readColon rest
  let rest ← Json.readNull (Json.skipGaps rest)
  match Json.skipGaps rest with
  | '\x7d' :: rest => return (s, rest)
  | _ :: _ => .error .malformed
  | [] => .error .truncated

def read (cs : List Char) : Json.Reading DispatchState :=
  match Json.skipGaps cs with
  | '\x7b' :: rest => readObject rest
  | '"' :: rest => readName ('"' :: rest)
  | _ :: _ => .error .malformed
  | [] => .error .truncated

def ofJson? (s : String) : Except Json.Fault DispatchState := Json.endDocument (read s.toList)

end DispatchState

end CoalescingQueue
