import CoalescingQueue.Queue.Step

/-!
# The foreground

The program that drives a queue is a producer of its own. It goes before everybody else at the
start, and it gets its turn back only when all the others rest. A turn comes with a credit: once
it is used up, the program announces its next request and lets the others go first.
-/
namespace CoalescingQueue.Console

/-- How many offers and pauses one turn allows. -/
def turnCredit : Nat := 128

structure Foreground where
  queue : Queue
  credit : Nat := turnCredit

/-- How far a row of offers came. -/
inductive Progress
  /-- Every request was taken. -/
  | through (f : Foreground)
  /-- The queue has stopped. -/
  | refused (f : Foreground)
  /-- A call waits for room, with more requests to come after it. -/
  | waits (f : Foreground) (ticket : Nat) (rest : List Request)

namespace Foreground

variable (script : WorkScript)

/-- Lets the others run until all of them rest, which makes for a new turn. -/
def relent (f : Foreground) : Foreground := ⟨f.queue.settle script, turnCredit⟩

/-- Lets the others go first if the credit is used up. -/
def refresh (f : Foreground) : Foreground := if f.credit = 0 then f.relent script else f

/-- Logs a request that is about to be offered. -/
def announce (f : Foreground) (r : Request) : Foreground :=
  { f with queue := f.queue.emit (.offered r) }

/-- Offers requests one after the other, as long as nothing has to be waited for. -/
def feed (f : Foreground) : List Request → Progress
  | [] => .through f
  | r :: rest =>
    if f.queue.isCancelled then .refused f
    else
      let f := (f.announce r).refresh script
      match f.queue.offer .foreground r with
      | (.accepted, queue) => feed ⟨queue, f.credit - 1⟩ rest
      | (.pending ticket, queue) => .waits ⟨queue, f.credit⟩ ticket rest
      | (_, queue) => .refused ⟨queue, f.credit⟩

/-- What becomes of a call that waits, if it is decided. -/
def decide? (f : Foreground) (ticket : Nat) : Option (Reply × Queue) :=
  (f.queue.mailbox.find? ticket).bind f.queue.decide?

/-- Goes on with a call that waited, if it is decided, and with the requests after it. -/
def resume (f : Foreground) (ticket : Nat) (rest : List Request) : Progress :=
  match f.decide? ticket with
  | some (.accepted, queue) => feed script ⟨queue, turnCredit - 1⟩ rest
  | some (_, queue) => .refused ⟨queue, turnCredit⟩
  | none => .waits f ticket rest

/-- Lets the clock run to the time at which the run in flight wakes up, and everything settle. -/
def jump (f : Foreground) : Foreground :=
  match f.queue.deadline? with
  | some deadline => ⟨(f.queue.wakeRunAt deadline).settle script, turnCredit⟩
  | none => f

/-- Lets the others run, and the clock as well if need be, until a waiting call is decided. -/
def await (f : Foreground) (ticket : Nat) : Foreground :=
  let f := f.relent script
  if (f.decide? ticket).isSome then f else f.jump script

/-- Goes on with requests that wait for room, as often as allowed. -/
def persist (patience : Nat) (progress : Progress) : Progress :=
  match patience, progress with
  | n + 1, .waits f ticket rest => persist n ((f.await script ticket).resume script ticket rest)
  | _, progress => progress

/-- Offers requests and waits for room as often as there are requests. -/
def feedThrough (f : Foreground) (requests : List Request) : Progress :=
  persist script requests.length (f.feed script requests)

/-- Sleeps for some milliseconds. No time at all is no reason to let the others go. -/
def pause (f : Foreground) (ms : Nat) : Foreground :=
  let f := f.refresh script
  if ms = 0 then { f with credit := f.credit - 1 }
  else ⟨f.queue.advanceTo script (f.queue.now + ms), turnCredit - 1⟩

/-- Cancels the queue and waits until its dispatcher is done. One run at most can be in flight. -/
def finish (f : Foreground) : Queue :=
  let f : Foreground := ({ f with queue := f.queue.cancel }).relent script
  if f.queue.isOver then f.queue else (f.jump script).queue

end Foreground

end CoalescingQueue.Console
