import CoalescingQueue.Json.Scalar
import CoalescingQueue.Queue.State

/-!
# Metrics

Four instruments that sum up what queues do, with one series for each set of labels. Queues of
one name share their series, and a series exists only once something was recorded in it.
-/
namespace CoalescingQueue

/-- Something worth counting. -/
inductive Measurement
  | enqueued
  | superseded (count : Nat)
  | execution (isSuccess : Bool) (ms : Float)

/-- A measurement with the name of the queue it was taken at. -/
structure Sample where
  queue : String
  measurement : Measurement

inductive Instrument
  | duration
  | executions
  | enqueued
  | superseded
  deriving DecidableEq, Repr

namespace Instrument

def all : List Instrument := [.duration, .executions, .enqueued, .superseded]

def name : Instrument → String
  | .duration => "jobqueue.execution.duration_ms"
  | .executions => "jobqueue.executions"
  | .enqueued => "jobqueue.requests.enqueued"
  | .superseded => "jobqueue.requests.superseded"

def description : Instrument → String
  | .duration => "Work function duration in milliseconds"
  | .executions => "Number of work function executions"
  | .enqueued => "Number of requests accepted by the queue"
  | .superseded => "Number of requests collapsed into a later request"

def unit : Instrument → String
  | .duration => "ms"
  | _ => ""

end Instrument

/-- The labels of a series. -/
structure Labels where
  queue : String
  result : Option String := none
  deriving DecidableEq, Repr

namespace Labels

def members (l : Labels) : Json.Members :=
  ("queue", .text l.queue) :: (l.result.toList.map fun result => ("result", .text result))

/-- The labels as a compact JSON text, by which series are put in order. -/
def key (l : Labels) : String := Json.compactObject l.members

end Labels

/-- The value of a series: a total, or a summary of durations. -/
inductive Series
  | counter (total : Nat)
  | histogram (count : Nat) (sum least most : Float)

/-- What one sample adds to a series. -/
structure Contribution where
  instrument : Instrument
  labels : Labels
  series : Series

namespace Sample

def resultLabel (isSuccess : Bool) : String := if isSuccess then "ok" else "error"

/-- A sample goes to the instruments it concerns. Nothing superseded is nothing to record. -/
def contributions (s : Sample) : List Contribution :=
  match s.measurement with
  | .enqueued => [⟨.enqueued, ⟨s.queue, none⟩, .counter 1⟩]
  | .superseded 0 => []
  | .superseded n => [⟨.superseded, ⟨s.queue, none⟩, .counter n⟩]
  | .execution isSuccess ms =>
    [⟨.executions, ⟨s.queue, some (resultLabel isSuccess)⟩, .counter 1⟩,
      ⟨.duration, ⟨s.queue, none⟩, .histogram 1 ms ms ms⟩]

end Sample

namespace Series

/-- Two series of one kind taken together. -/
def merge : Series → Series → Series
  | .counter a, .counter b => .counter (a + b)
  | .histogram n s low high, .histogram n' s' low' high' =>
    .histogram (n + n') (s + s') (if low' < low then low' else low)
      (if high < high' then high' else high)
  | a, _ => a

end Series

/-- The series of one instrument, each with its labels. -/
abbrev Points := List (Labels × Series)

/-- Adds to the series with the given labels. -/
def Points.add (labels : Labels) (series : Series) : Points → Points
  | [] => [(labels, series)]
  | (l, s) :: rest =>
    if l = labels then (l, s.merge series) :: rest else (l, s) :: Points.add labels series rest

/-- The series of an instrument after some samples. -/
def Points.ofSamples (samples : List Sample) (instrument : Instrument) : Points :=
  (samples.flatMap Sample.contributions).foldl
    (fun points c => if c.instrument = instrument then points.add c.labels c.series else points) []

/-- The series in the order of their labels. -/
def Points.inOrder (points : Points) : Points :=
  points.mergeSort fun a b => a.1.key ≤ b.1.key

/-- The instruments that have data, with their series. -/
def measured (samples : List Sample) : List (Instrument × Points) :=
  (Instrument.all.map fun i => (i, (Points.ofSamples samples i).inOrder)).filter fun entry =>
    !entry.2.isEmpty

/-- What a fact adds to the metrics. -/
def Fact.measurement? : Fact → Option Measurement
  | .admitted _ => some .enqueued
  | .dispatched batch => some (.superseded batch.superseded)
  | .concluded isSuccess elapsed => some (.execution isSuccess elapsed.toFloat)
  | _ => none

/-- The samples taken at a queue so far. -/
def Queue.samples (q : Queue) : List Sample :=
  (q.journal.toList.filterMap Fact.measurement?).map (⟨q.config.name, ·⟩)

end CoalescingQueue
