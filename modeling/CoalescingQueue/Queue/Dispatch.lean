import CoalescingQueue.Queue.Offer

/-!
# The dispatcher

The only reader of the mailbox. It takes the oldest request, collapses the backlog it finds at
that moment into the newest request, calls the work function once for it, and waits for the run
to end. One step of it ends with at most one logged event, and it looks for cancellation three
times in a cycle: before it takes a request, between drain and call, and after the run.
-/
namespace CoalescingQueue.Queue

/-- Publishes a state and logs the transition to it. -/
def publish (q : Queue) (before after : DispatchState) (phase : Phase) (span : Span) : Queue :=
  { q with published := after, phase }.emit (.transition before after) (some span)

/-- Between two dispatches. -/
def listen (q : Queue) : Queue :=
  if q.isCancelled then { q with phase := .closing }.emit .cancelled
  else
    match q.receive? with
    | some (first, q) => q.publish .idle .draining (.counting first) {}
    | none =>
      if q.isAbandoned then { q with phase := .closing }.emit .abandoned else q.yieldTurn

/-- Reads the size of the backlog, once for the whole drain. -/
def countBacklog (q : Queue) (first : Request) : Queue :=
  let backlog := q.mailbox.buffer
  { q with phase := .draining { latest := first } backlog.length }.note (.counted first backlog)

/-- The drain is over. -/
def finishDrain (q : Queue) (batch : Batch) : Queue :=
  if q.isCancelled then
    { q with phase := .dropping batch }.note (.discarded batch) |>.emit (.dropped batch.latest)
  else q.publish .draining .executing (.dispatching batch) batch.span

/-- Takes the next request of the backlog, which takes the place of the latest. -/
def drain (q : Queue) (batch : Batch) (left : Nat) : Queue :=
  match left with
  | 0 => q.finishDrain batch
  | left + 1 =>
    match q.receive? with
    | some (next, q) =>
      { q with phase := .draining (batch.push next) left }.emit (.superseded batch.latest next)
    | none => q.finishDrain batch

/-- The mailbox takes nothing any more, and whoever waits for room is told. -/
def closeMailbox (q : Queue) : Queue := { q with mailbox := q.mailbox.close }.wakeProducers

/-- Calls the work function for the latest request of the batch. -/
def dispatch (script : WorkScript) (q : Queue) (batch : Batch) : Queue :=
  let call := q.calls + 1
  let q := { q with
    calls := call
    stats := q.stats.countDispatch batch.latest.id batch.superseded }
    |>.note (.dispatched batch)
  match script.call call with
  | .breakdown => { q with phase := .dead batch }.closeMailbox.releaseClosers.yieldTurn
  | .run plan =>
    { q with
      phase := .awaiting batch
      run := some { call, plan, began := q.now } }.note (.launched call)
      |>.enqueue .run |>.yieldTurn

/-- Reports how a run ended. -/
def report (q : Queue) (batch : Batch) (run : Run) : Queue :=
  let elapsed := q.now - run.began
  let ending := run.plan.ending
  let event :=
    if ending.isSuccess then .completed batch.latest batch.superseded elapsed
    else .failed batch.latest elapsed ending.reason
  { q with phase := .reported batch ending }.emit event (some batch.span)

/-- Waits for the end of the run. -/
def await (q : Queue) (batch : Batch) : Queue :=
  match q.run with
  | some run =>
    match run.stage with
    | .ended => q.report batch run
    | _ => q.yieldTurn
  | none => q.yieldTurn

/-- Counts the outcome of the run that was reported. -/
def conclude (q : Queue) (batch : Batch) (ending : Ending) : Queue :=
  let elapsed :=
    match q.run with
    | some run => q.now - run.began
    | none => 0
  let q := { q with run := none, stats := q.stats.countOutcome ending.isSuccess }
    |>.note (.concluded ending.isSuccess elapsed)
  if q.isCancelled then { q with phase := .retiring batch }.emit .outlasted
  else q.publish .executing .idle .listening batch.span

/-- Closes the mailbox, and only then publishes that the queue has stopped. -/
def close (q : Queue) : Queue :=
  { q.closeMailbox with published := .stopped, phase := .stopped }.releaseClosers.emit .stopped

/-- One step of the dispatcher. -/
def stepDispatcher (script : WorkScript) (q : Queue) : Queue :=
  match q.phase with
  | .unstarted => { q with phase := .listening }.emit .started
  | .listening => q.listen
  | .counting first => q.countBacklog first
  | .draining batch left => q.drain batch left
  | .dropping batch =>
    { q with phase := .closing }.emit (.transition .draining .stopped) (some batch.span)
  | .dispatching batch => q.dispatch script batch
  | .awaiting batch => q.await batch
  | .reported batch ending => q.conclude batch ending
  | .retiring batch =>
    { q with phase := .closing }.emit (.transition .executing .stopped) (some batch.span)
  | .closing => q.close
  | .stopped | .dead _ => q.yieldTurn

end CoalescingQueue.Queue
