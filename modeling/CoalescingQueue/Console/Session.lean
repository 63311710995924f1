import CoalescingQueue.Console.Foreground
import CoalescingQueue.Text.Split
import CoalescingQueue.Text.Utf8

/-!
# Sessions

Reads lines from an input that arrives in pieces and offers one request for each line that is
not blank, until the input ends, the queue is cancelled, or a line is no text. Pieces may end
anywhere, also within a character.
-/
namespace CoalescingQueue.Console

/-- A piece of input, or what happens between two pieces. -/
inductive Arrival
  | bytes (piece : List UInt8)
  | time (ms : Nat)
  | cancellation
  deriving Repr

def newline : UInt8 := 0x0A

/-- The request on a line, if the line is not blank. -/
def requestOfLine (line : List UInt8) : Except Text.Utf8Fault (Option Request) :=
  match Text.decode line with
  | .error fault => .error fault
  | .ok cs =>
    let id := Text.trim cs
    .ok (if id.isEmpty then none else some ⟨String.ofList id⟩)

/-- The requests on some lines, up to the first line that is no text. -/
def requestsOfLines : List (List UInt8) → List Request × Option Text.Utf8Fault
  | [] => ([], none)
  | line :: rest =>
    match requestOfLine line with
    | .error fault => ([], some fault)
    | .ok request =>
      let (requests, fault) := requestsOfLines rest
      (request.toList ++ requests, fault)

/-- Why a session reads no more. -/
inductive SessionEnd
  /-- The queue takes no more requests. -/
  | refused
  | unreadable (fault : Text.Utf8Fault)
  deriving DecidableEq, Repr

structure Session where
  foreground : Foreground
  /-- The last line so far, of which the end has not been seen. -/
  unfinished : List UInt8 := []
  /-- Requests that have been read and not yet offered. -/
  pending : List Request := []
  /-- The fault that comes after those requests. -/
  fault : Option Text.Utf8Fault := none
  /-- The call that waits for room. -/
  ticket : Option Nat := none
  /-- Whether the end of the input has been seen. -/
  isComplete : Bool := false
  ended : Option SessionEnd := none

namespace Session

def queue (s : Session) : Queue := s.foreground.queue

def withQueue (s : Session) (q : Queue) : Session := { s with foreground := ⟨q, turnCredit⟩ }

variable (script : WorkScript)

/-- Takes note of how far a row of offers came. More input is a reason to wait; its end is not. -/
def after (s : Session) : Progress → Session
  | .through f => { s with
    foreground := if s.isComplete then f else f.relent script
    pending := []
    ticket := none
    ended := s.fault.map .unreadable }
  | .refused f => { s with
    foreground := f.relent script, pending := [], ticket := none, ended := some .refused }
  | .waits f ticket rest => { s with
    foreground := f.relent script, pending := rest, ticket := some ticket }

/-- Goes on after everybody else has come to rest. -/
def pump (s : Session) : Session :=
  let f := s.foreground.relent script
  let s := { s with foreground := f }
  match s.ended, s.ticket with
  | some _, _ => s
  | none, some ticket => s.after script (f.resume script ticket s.pending)
  | none, none =>
    if f.queue.isCancelled then { s with ended := some .refused }
    else s.after script (f.feed script s.pending)

/-- Pumps as long as the waiting call is decided, as often as allowed. -/
def pumpAll (s : Session) : Nat → Session
  | 0 => s
  | n + 1 =>
    let s := s.pump script
    let isDecided := s.ticket.any fun ticket => (s.foreground.decide? ticket).isSome
    if isDecided then s.pumpAll n else s

/-- Goes as far as possible while the clock stands still. -/
def settle (s : Session) : Session := s.pumpAll script (s.pending.length + 2)

/-- Lines that have been read. Nothing counts any more after a line that is no text. -/
def read (s : Session) (lines : List (List UInt8)) : Session :=
  if s.ended.isSome || s.fault.isSome then s
  else
    let (requests, fault) := requestsOfLines lines
    { s with pending := s.pending ++ requests, fault }

/-- A piece of input: all lines in it that have an end can be read. -/
def receive (s : Session) (piece : List UInt8) : Session :=
  let lines := Text.cut newline (s.unfinished ++ piece)
  { s with unfinished := lines.getLastD [] }.read lines.dropLast

/-- The input ends. A last line needs no end of its own. -/
def finishInput (s : Session) : Session :=
  let s := { s with isComplete := true }
  if s.unfinished.isEmpty then s else { s with unfinished := [] }.read [s.unfinished]

/-- Lets the clock run up to a time, waking the run at most as often as allowed. -/
def advanceWithin (time : Nat) : Nat → Session → Session
  | 0, s => s
  | n + 1, s =>
    let s := s.settle script
    match s.queue.deadline? with
    | some deadline =>
      if deadline ≤ time then advanceWithin time n (s.withQueue (s.queue.wakeRunAt deadline))
      else s.withQueue (s.queue.clockTo time)
    | none => s.withQueue (s.queue.clockTo time)

/-- Lets the clock run up to a time, with everything that is due then. -/
def advanceTo (time : Nat) (s : Session) : Session :=
  advanceWithin script time (time - s.queue.now) s

/-- Lets the clock run until every request is offered, jumping as often as allowed. -/
def drain (s : Session) : Nat → Session
  | 0 => s
  | n + 1 =>
    let s := s.settle script
    if s.ticket.isSome then { s with foreground := s.foreground.jump script }.drain n else s

def arrive (s : Session) : Arrival → Session
  | .bytes piece => (s.receive piece).settle script
  | .time ms => (s.advanceTo script (s.queue.now + ms)).settle script
  | .cancellation => (s.withQueue s.queue.cancel).settle script

/-- The state after a whole input, with the clock running once the input has ended. -/
def consume (s : Session) (arrivals : List Arrival) : Session :=
  let s := (arrivals.foldl (fun s a => s.arrive script a) (s.settle script)).finishInput
  s.drain script (s.pending.length + 2)

/-- A session over a whole input, with the shutdown after it. It fails if a line is no text. -/
def run (q : Queue) (arrivals : List Arrival) : Except Text.Utf8Fault Queue :=
  let s := consume script { foreground := ⟨q, turnCredit⟩ } arrivals
  match s.ended with
  | some (.unreadable fault) => .error fault
  | _ => .ok (s.foreground.finish script)

end Session

end CoalescingQueue.Console
