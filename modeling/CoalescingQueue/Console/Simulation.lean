import CoalescingQueue.Queue.Work

/-!
# Simulated work

A work function that only takes time, and that fails on every call whose number is a multiple of
a given one.
-/
namespace CoalescingQueue.Console

structure Simulation where
  /-- How long each call takes, in milliseconds. -/
  workMs : Nat := 20
  failEvery : Option Nat := none
  deriving DecidableEq, Repr

namespace Simulation

def failureText (call : Nat) : String := s!"simulated failure on call {call}"

/-- Whether the call fails. Never, if the period is zero. -/
def fails (s : Simulation) (call : Nat) : Bool :=
  match s.failEvery with
  | some period => 0 < period && call % period = 0
  | none => false

def ending (s : Simulation) (call : Nat) : Ending :=
  if s.fails call then .failure [failureText call] else .success

def work (s : Simulation) : WorkScript where
  call n := .run { isNarrated := false, duration := s.workMs, ending := s.ending n }

/-- Calls one after the other: how each one ends, and when. -/
def outcomes (s : Simulation) (calls : Nat) : List (Ending × Nat) :=
  (List.range calls).map fun i => (s.ending (i + 1), (i + 1) * s.workMs)

end Simulation

end CoalescingQueue.Console
