import CoalescingQueue.Proofs.Shift

/-!
# Looking away from how runs end

Behind the veil each run seems to have succeeded: an outcome that was reported or counted counts
as a success, and an execution that failed is logged as one that was completed. Whatever a queue
does, it does in the same way behind the veil, as long as no hook listens for the outcome. That a
hook may is the reason why queues with hooks are left out.
-/
namespace CoalescingQueue

def RunPlan.veil (p : RunPlan) : RunPlan := { p with ending := .success }

def Work.veil : Work → Work
  | .breakdown => .breakdown
  | .run p => .run p.veil

def WorkScript.veil (s : WorkScript) : WorkScript := { s with call := fun n => (s.call n).veil }

def Run.veil (r : Run) : Run := { r with plan := r.plan.veil }

def Stats.veil (s : Stats) : Stats := { s with succeeded := s.succeeded + s.failed, failed := 0 }

def Snapshot.veil (s : Snapshot) : Snapshot := { s with stats := s.stats.map Stats.veil }

def Phase.veil : Phase → Phase
  | .reported b _ => .reported b .success
  | p => p

/-- A failure is logged within the span of its dispatch, which tells what its request replaced. -/
def LogRecord.veil : LogRecord → LogRecord
  | ⟨.failed r elapsed _, span⟩ => ⟨.completed r ((span.bind (·.superseded)).getD 0) elapsed, span⟩
  | record => record

def Fact.veil : Fact → Fact
  | .logged record => .logged record.veil
  | .observed s => .observed s.veil
  | .concluded _ elapsed => .concluded true elapsed
  | f => f

namespace Stats

variable (s : Stats)

/-- Behind the veil every outcome is a success. -/
@[simp] theorem veil_countOutcome (isSuccess : Bool) :
    (s.countOutcome isSuccess).veil = s.veil.countOutcome true := by
  cases isSuccess <;> simp [countOutcome, veil] <;> omega

end Stats

namespace Queue

/-- The queue behind the veil. -/
def veil (q : Queue) : Queue := { q with
  phase := q.phase.veil
  stats := q.stats.veil
  run := q.run.map Run.veil
  journal := q.journal.map Fact.veil }

variable (q : Queue)

@[simp] theorem veil_note (f : Fact) : (q.note f).veil = q.veil.note f.veil := by
  simp [note, veil]

@[simp] theorem veil_enqueue (p : Party) : (q.enqueue p).veil = q.veil.enqueue p := by
  unfold enqueue
  split
  · exact (if_pos ‹_›).symm
  · exact (if_neg ‹_›).symm

@[simp] theorem veil_wakeDispatcher : q.wakeDispatcher.veil = q.veil.wakeDispatcher := by
  unfold wakeDispatcher
  have hphase : q.veil.phase = q.phase.veil := rfl
  rw [hphase]
  cases q.phase with
  | listening =>
    dsimp only [Phase.veil]
    split
    · exact (if_pos ‹_›).symm
    · rw [veil_enqueue]
      exact (if_neg ‹_›).symm
  | _ => rfl

@[simp] theorem veil_isAbandoned : q.veil.isAbandoned = q.isAbandoned := rfl

@[simp] theorem veil_wakeIfAbandoned : q.wakeIfAbandoned.veil = q.veil.wakeIfAbandoned := by
  unfold wakeIfAbandoned
  rw [veil_isAbandoned]
  split
  · exact veil_wakeDispatcher q
  · rfl

@[simp] theorem veil_yieldTurn : q.yieldTurn.veil = q.veil.yieldTurn := rfl

@[simp] theorem veil_releaseSlot : q.releaseSlot.veil = q.veil.releaseSlot := by
  unfold releaseSlot
  have hmailbox : q.veil.mailbox = q.mailbox := rfl
  rw [hmailbox]
  split
  · dsimp only
    split
    · exact veil_enqueue _ _
    · rfl
  · rfl

theorem veil_receive? :
    q.veil.receive? = q.receive?.map fun (r, q') => (r, q'.veil) := by
  unfold receive?
  have hmailbox : q.veil.mailbox = q.mailbox := rfl
  rw [hmailbox]
  split
  · next r mailbox _ =>
    exact congrArg (fun q' => some (r, q')) (veil_releaseSlot { q with mailbox }).symm
  · rfl

@[simp] theorem veil_enter (w : Waiter) : (q.enter w).veil = q.veil.enter w := by
  unfold enter
  rw [veil_wakeDispatcher, veil_note]
  rfl

@[simp] theorem veil_leave (w : Waiter) : (q.leave w).veil = q.veil.leave w := by
  unfold leave
  dsimp only
  rw [veil_wakeIfAbandoned]
  have hclosed : (q.veil.mailbox.dismiss w.ticket).isClosed =
      (q.mailbox.dismiss w.ticket).isClosed := rfl
  rw [hclosed]
  split
  · rw [veil_releaseSlot]
    rfl
  · rfl

@[simp] theorem veil_withdraw (w : Waiter) : (q.withdraw w).veil = q.veil.withdraw w :=
  veil_leave _ w

theorem veil_decide? (w : Waiter) :
    q.veil.decide? w = (q.decide? w).map fun (reply, q') => (reply, q'.veil) := by
  unfold decide?
  have hsame : ((w.caller.heedsCancellation && q.veil.isCancelled) || q.veil.mailbox.isClosed) =
    ((w.caller.heedsCancellation && q.isCancelled) || q.mailbox.isClosed) := rfl
  rw [hsame]
  split
  · exact congrArg (fun q' => some (Reply.refused, q')) (veil_withdraw q w).symm
  · split
    · exact congrArg (fun q' => some (Reply.accepted, q')) (veil_enter q w).symm
    · rfl

@[simp] theorem veil_settleWaiter (w : Waiter) :
    (q.settleWaiter w).veil = q.veil.settleWaiter w := by
  unfold settleWaiter
  rw [veil_decide?]
  cases q.decide? w with
  | none => rfl
  | some result => exact veil_note _ _

/-- What each of a list of operations does behind the veil, all of them do. -/
theorem veil_foldl {α : Type} {f : Queue → α → Queue} (hf : ∀ q a, (f q a).veil = f q.veil a)
    (as : List α) (q : Queue) : (as.foldl f q).veil = as.foldl f q.veil := by
  induction as generalizing q with
  | nil => rfl
  | cons a as ih => rw [List.foldl_cons, List.foldl_cons, ih, hf]

@[simp] theorem veil_settleThreads : q.settleThreads.veil = q.veil.settleThreads := by
  refine veil_foldl (fun q w => ?_) _ q
  split
  · exact veil_settleWaiter q w
  · rfl

/-- An event that does not tell of a failure. -/
@[simp] theorem veil_emit {e : Event} {span : Option Span}
    (h : LogRecord.veil ⟨e, span⟩ = ⟨e, span⟩) : (q.emit e span).veil = q.veil.emit e span := by
  unfold emit
  dsimp only
  rw [veil_settleThreads, veil_note, Fact.veil, h]
  rfl

theorem veil_offer (caller : Caller) (r : Request) :
    q.veil.offer caller r = ((q.offer caller r).1, (q.offer caller r).2.veil) := by
  unfold offer
  have hsame : ((caller.heedsCancellation && q.veil.isCancelled) || q.veil.mailbox.isClosed) =
    ((caller.heedsCancellation && q.isCancelled) || q.mailbox.isClosed) := rfl
  have hput : q.veil.mailbox.put? r = q.mailbox.put? r := rfl
  rw [hsame]
  split
  · rfl
  · dsimp only
    rw [hput]
    split
    · dsimp only
      rw [veil_wakeDispatcher, veil_note]
      rfl
    · split
      · dsimp only
        rw [veil_enqueue]
        rfl
      · rfl

theorem veil_offerQuietly (caller : Caller) (handle : Nat) (r : Request) :
    q.veil.offerQuietly caller handle r =
      ((q.offerQuietly caller handle r).1, (q.offerQuietly caller handle r).2.veil) := by
  unfold offerQuietly
  have hholds : q.veil.holds handle = q.holds handle := rfl
  have hcancelled : q.veil.isCancelled = q.isCancelled := rfl
  rw [hholds, hcancelled, veil_offer]
  split
  · rfl
  · split <;> rfl

theorem veil_offerAllQuietly (handle : Nat) (rs : List Request) :
    q.veil.offerAllQuietly handle rs =
      ((q.offerAllQuietly handle rs).1, (q.offerAllQuietly handle rs).2.veil) := by
  induction rs generalizing q with
  | nil => rfl
  | cons r rs ih =>
    unfold offerAllQuietly
    rw [veil_offerQuietly]
    dsimp only
    rw [ih]

@[simp] theorem veil_wakeProducers : q.wakeProducers.veil = q.veil.wakeProducers := by
  refine veil_foldl (fun q w => ?_) _ q
  split
  · exact veil_enqueue q _
  · rfl

@[simp] theorem veil_cancel : q.cancel.veil = q.veil.cancel := by
  unfold cancel
  have hcancelled : q.veil.isCancelled = q.isCancelled := rfl
  rw [hcancelled]
  split
  · rfl
  · rw [veil_wakeProducers, veil_wakeDispatcher]
    rfl

@[simp] theorem veil_isOver : q.veil.isOver = q.isOver := by
  unfold isOver
  have hphase : q.veil.phase = q.phase.veil := rfl
  rw [hphase]
  cases q.phase <;> rfl

theorem veil_shutdown : q.veil.shutdown = (q.shutdown.1, q.shutdown.2.veil) := by
  unfold shutdown
  dsimp only
  rw [← veil_cancel, veil_isOver]
  split <;> rfl

@[simp] theorem veil_releaseClosers : q.releaseClosers.veil = q.veil.releaseClosers := by
  have hfold := veil_foldl (f := fun q ticket => q.note (.ended ticket .done q.now))
    (fun q ticket => veil_note q _) q.closers q
  exact congrArg (fun q => { q with closers := [] }) hfold

@[simp] theorem veil_releasePermits (n : Nat) :
    (q.releasePermits n).veil = q.veil.releasePermits n := by
  unfold releasePermits
  have hrun : q.veil.run = q.run.map Run.veil := rfl
  dsimp only
  rw [hrun]
  cases q.run with
  | none => rfl
  | some run =>
    have hstage : run.veil.stage = run.stage := rfl
    dsimp only [Option.map_some]
    rw [hstage]
    split
    · rw [veil_enqueue]
      rfl
    · rfl

@[simp] theorem veil_drop (handle : Nat) : (q.drop handle).veil = q.veil.drop handle :=
  veil_wakeIfAbandoned _

theorem veil_observe : q.veil.observe = q.observe.veil := by
  unfold observe
  have hhandle : q.veil.hasHandle = q.hasHandle := rfl
  rw [hhandle]
  split <;> rfl

theorem veil_perform (a : Action) :
    q.veil.perform a = ((q.perform a).1, (q.perform a).2.veil) := by
  have hholds (handle : Nat) : q.veil.holds handle = q.holds handle := rfl
  unfold perform
  cases a with
  | add r handle => exact veil_offerQuietly q .task handle r
  | blockingAdd r handle => exact veil_offerQuietly q .thread handle r
  | burst rs handle =>
    dsimp only
    rw [veil_offerAllQuietly]
  | shutdown handle =>
    dsimp only
    rw [hholds, veil_shutdown]
    split <;> rfl
  | cancel => exact congrArg (Prod.mk _) (veil_cancel q).symm
  | release n => exact congrArg (Prod.mk _) (veil_releasePermits q n).symm
  | drop handle =>
    dsimp only
    rw [hholds, ← veil_drop]
    split <;> rfl
  | snapshot =>
    dsimp only
    rw [veil_note, veil_observe]
    rfl
  | clone handle | watch handle | describe handle =>
    dsimp only
    rw [hholds]
    split <;> rfl

@[simp] theorem veil_noteAction (a : Action) (reply : Reply) :
    (q.noteAction a reply).veil = q.veil.noteAction a reply := by
  unfold noteAction
  split
  · rfl
  · exact veil_note q _

@[simp] theorem veil_performHooked (a : Action) :
    (q.performHooked a).veil = q.veil.performHooked a := by
  unfold performHooked
  rw [veil_perform]
  exact veil_noteAction _ a _

@[simp] theorem veil_answer (a : Action) (reply : Reply) :
    (q.answer a reply).veil = q.veil.answer a reply := by
  unfold answer
  have hturn : q.veil.turn = q.turn := rfl
  rw [hturn]
  split
  · exact veil_noteAction q a reply
  · rfl

/-! ## Runs and errands -/

@[simp] theorem veil_begin (a : Action) : (q.begin a).veil = q.veil.begin a := by
  unfold begin
  split
  · rfl
  · rfl
  · rfl
  · dsimp only
    rw [veil_perform]
    exact veil_answer _ _ _

@[simp] theorem veil_span : q.veil.span = q.span := by
  unfold span
  have hphase : q.veil.phase = q.phase.veil := rfl
  rw [hphase]
  cases q.phase <;> rfl

@[simp] theorem veil_stepErrand (e : Errand) : (q.stepErrand e).veil = q.veil.stepErrand e := by
  have hholds : q.veil.holds e.handle = q.holds e.handle := rfl
  have hcancelled : q.veil.isCancelled = q.isCancelled := rfl
  have hturn : q.veil.turn = q.turn := rfl
  unfold stepErrand
  split
  · exact veil_answer _ _ _
  · next r rest _ =>
    rw [veil_offer, hholds, hcancelled, hturn, veil_span]
    split
    · exact veil_wakeIfAbandoned _
    · split
      · rfl
      · split
        · rfl
        · exact veil_emit _ rfl

@[simp] theorem veil_narrate (run : Run) {e : Event}
    (h : ∀ span, LogRecord.veil ⟨e, span⟩ = ⟨e, span⟩) :
    (q.narrate run e).veil = q.veil.narrate run.veil e := by
  unfold narrate
  have hnarrated : run.veil.plan.isNarrated = run.plan.isNarrated := rfl
  rw [hnarrated, veil_span]
  split
  · exact veil_emit q (h _)
  · rfl

theorem veil_stepRun (run : Run) : (q.stepRun run).veil = q.veil.stepRun run.veil := by
  unfold stepRun
  have hstage : run.veil.stage = run.stage := rfl
  have hpermits : q.veil.permits = q.permits := rfl
  have hnow : q.veil.now = q.now := rfl
  dsimp only
  rw [hstage]
  split
  · exact veil_narrate _ _ fun _ => rfl
  · exact veil_begin _ _
  · rfl
  · rw [hpermits]
    have hgated : run.veil.plan.isGated = run.plan.isGated := rfl
    have hduration : run.veil.plan.duration = run.plan.duration := rfl
    rw [hgated, hduration]
    split
    · rfl
    · split
      · split <;> rfl
      · split <;> rfl
  · rw [hnow]
    split <;> rfl
  · exact veil_begin _ _
  · rw [veil_enqueue, veil_narrate _ _ fun _ => rfl, veil_note]
    rfl
  · rfl

/-! ## The dispatcher -/

theorem veil_publish (before after : DispatchState) (phase : Phase) (span : Span) :
    (q.publish before after phase span).veil = q.veil.publish before after phase.veil span :=
  veil_emit _ rfl

theorem veil_listen : q.listen.veil = q.veil.listen := by
  unfold listen
  have hcancelled : q.veil.isCancelled = q.isCancelled := rfl
  rw [hcancelled, veil_receive?, veil_isAbandoned]
  split
  · exact veil_emit _ rfl
  · cases q.receive? with
    | none =>
      dsimp only [Option.map_none]
      split
      · exact veil_emit _ rfl
      · rfl
    | some taken => exact veil_publish _ _ _ _ _

theorem veil_countBacklog (first : Request) :
    (q.countBacklog first).veil = q.veil.countBacklog first := veil_note _ _

theorem veil_finishDrain (b : Batch) : (q.finishDrain b).veil = q.veil.finishDrain b := by
  unfold finishDrain
  have hcancelled : q.veil.isCancelled = q.isCancelled := rfl
  rw [hcancelled]
  split
  · rw [veil_emit _ rfl, veil_note]
    rfl
  · exact veil_publish _ _ _ _ _

theorem veil_drain (b : Batch) (left : Nat) : (q.drain b left).veil = q.veil.drain b left := by
  unfold drain
  split
  · exact veil_finishDrain q b
  · rw [veil_receive?]
    cases q.receive? with
    | none => exact veil_finishDrain q b
    | some taken => exact veil_emit _ rfl

@[simp] theorem veil_closeMailbox : q.closeMailbox.veil = q.veil.closeMailbox :=
  veil_wakeProducers _

theorem veil_dispatch (script : WorkScript) (b : Batch) :
    (q.dispatch script b).veil = q.veil.dispatch script.veil b := by
  unfold dispatch
  have hcalls : q.veil.calls = q.calls := rfl
  dsimp only
  rw [hcalls]
  have hcall : script.veil.call (q.calls + 1) = (script.call (q.calls + 1)).veil := rfl
  rw [hcall]
  have hcounted := veil_note
    { q with
      calls := q.calls + 1
      stats := q.stats.countDispatch b.latest.id b.superseded } (.dispatched b)
  cases script.call (q.calls + 1) with
  | breakdown =>
    dsimp only [Work.veil]
    rw [veil_yieldTurn, veil_releaseClosers, veil_closeMailbox]
    exact congrArg (fun q₁ : Queue =>
      { q₁ with phase := .dead b }.closeMailbox.releaseClosers.yieldTurn) hcounted
  | run plan =>
    dsimp only [Work.veil]
    rw [veil_yieldTurn, veil_enqueue, veil_note]
    exact congrArg (fun q₁ : Queue => ({ q₁ with
      phase := .awaiting b
      run := some { call := q.calls + 1, plan := plan.veil, began := q.now } }.note
        (.launched (q.calls + 1))).enqueue .run |>.yieldTurn) hcounted

/-- Where nobody listens, any event may stand for another behind the veil. -/
theorem veil_emit_of_hooks_eq (h : q.hooks = []) {e e' : Event} {span : Option Span}
    (he : LogRecord.veil ⟨e, span⟩ = ⟨e', span⟩) : (q.emit e span).veil = q.veil.emit e' span := by
  have hveiled : q.veil.hooks = [] := h
  unfold emit
  dsimp only
  rw [veil_settleThreads, veil_note, Fact.veil, he, h, hveiled]
  rfl

theorem veil_report (h : q.hooks = []) (b : Batch) (run : Run) :
    (q.report b run).veil = q.veil.report b run.veil := by
  unfold report
  dsimp only
  rw [if_pos (show run.veil.plan.ending.isSuccess = true from rfl)]
  split
  · exact veil_emit_of_hooks_eq { q with phase := .reported b run.plan.ending } h rfl
  · exact veil_emit_of_hooks_eq { q with phase := .reported b run.plan.ending } h rfl

theorem veil_await (h : q.hooks = []) (b : Batch) : (q.await b).veil = q.veil.await b := by
  unfold await
  have hrun : q.veil.run = q.run.map Run.veil := rfl
  rw [hrun]
  cases q.run with
  | none => rfl
  | some run =>
    have hstage : run.veil.stage = run.stage := rfl
    dsimp only [Option.map_some]
    rw [hstage]
    split
    · exact veil_report q h b run
    · rfl

/-- An outcome is counted that took so long to come. -/
def concludeAfter (b : Batch) (isSuccess : Bool) (elapsed : Nat) : Queue :=
  let q := { q with run := none, stats := q.stats.countOutcome isSuccess }.note
    (.concluded isSuccess elapsed)
  if q.isCancelled then { q with phase := .retiring b }.emit .outlasted
  else q.publish .executing .idle .listening b.span

theorem conclude_eq (b : Batch) (ending : Ending) : q.conclude b ending =
    q.concludeAfter b ending.isSuccess (q.run.elim 0 fun run => q.now - run.began) := by
  unfold conclude
  cases q.run <;> rfl

theorem veil_concludeAfter (b : Batch) (isSuccess : Bool) (elapsed : Nat) :
    (q.concludeAfter b isSuccess elapsed).veil = q.veil.concludeAfter b true elapsed := by
  have hcounted : ({ q with run := none, stats := q.stats.countOutcome isSuccess }.note
      (.concluded isSuccess elapsed)).veil =
        { q.veil with run := none, stats := q.veil.stats.countOutcome true }.note
          (.concluded true elapsed) := by
    rw [veil_note]
    exact congrArg (fun stats => { q.veil with run := none, stats }.note (.concluded true elapsed))
      (Stats.veil_countOutcome _ _)
  unfold concludeAfter
  dsimp only
  rw [← hcounted]
  split
  · next hc =>
    rw [veil_emit _ rfl]
    exact (if_pos hc).symm
  · next hc =>
    rw [veil_publish]
    exact (if_neg hc).symm

theorem veil_conclude (b : Batch) (ending : Ending) :
    (q.conclude b ending).veil = q.veil.conclude b .success := by
  have hrun : q.veil.run = q.run.map Run.veil := rfl
  rw [conclude_eq, conclude_eq, veil_concludeAfter, hrun, Option.elim_map]
  rfl

theorem veil_close : q.close.veil = q.veil.close := by
  unfold close
  rw [veil_emit _ rfl, veil_releaseClosers]
  exact congrArg (fun q₁ : Queue =>
    ({ q₁ with published := .stopped, phase := .stopped }.releaseClosers.emit .stopped))
    (veil_closeMailbox q)

theorem veil_stepDispatcher (h : q.hooks = []) (script : WorkScript) :
    (q.stepDispatcher script).veil = q.veil.stepDispatcher script.veil := by
  unfold stepDispatcher
  have hphase : q.veil.phase = q.phase.veil := rfl
  rw [hphase]
  cases q.phase with
  | unstarted => exact veil_emit _ rfl
  | listening => exact veil_listen q
  | counting first => exact veil_countBacklog q first
  | draining b left => exact veil_drain q b left
  | dropping b => exact veil_emit _ rfl
  | dispatching b => exact veil_dispatch q script b
  | awaiting b => exact veil_await q h b
  | reported b ending => exact veil_conclude q b ending
  | retiring b => exact veil_emit _ rfl
  | closing => exact veil_close q
  | stopped | dead b => rfl

/-! ## Steps -/

theorem veil_attend? : q.veil.attend? = q.attend?.map veil := by
  unfold attend?
  have hdue : q.veil.due = q.due := rfl
  have herrand : q.veil.errand = q.errand := rfl
  rw [hdue, herrand]
  split
  · next a due _ => exact congrArg some (veil_performHooked { q with due } a).symm
  · next e _ _ => exact congrArg some (veil_stepErrand q e).symm
  · rfl

theorem veil_stepTurn (h : q.hooks = []) (script : WorkScript) (p : Party) :
    (q.stepTurn script p).veil = q.veil.stepTurn script.veil p := by
  cases p with
  | dispatcher => exact veil_stepDispatcher q h script
  | run =>
    unfold stepTurn
    have hrun : q.veil.run = q.run.map Run.veil := rfl
    rw [hrun]
    cases q.run with
    | none => rfl
    | some run => exact veil_stepRun q run
  | producer ticket =>
    dsimp only [stepTurn]
    have hmailbox : q.veil.mailbox = q.mailbox := rfl
    rw [hmailbox]
    split
    · exact congrArg yieldTurn (veil_settleWaiter q _)
    · rfl

theorem veil_nextTurn? : q.veil.nextTurn? = q.nextTurn?.map veil := by
  unfold nextTurn?
  have hline : q.veil.line = q.line := rfl
  have hdecided : q.veil.hasDecidedThread = q.hasDecidedThread := rfl
  rw [hline, hdecided]
  split
  · rfl
  · split
    · exact congrArg some (veil_settleThreads q).symm
    · rfl

theorem veil_step? (h : q.hooks = []) (script : WorkScript) :
    q.veil.step? script.veil = (q.step? script).map veil := by
  unfold step?
  have hturn : q.veil.turn = q.turn := rfl
  rw [veil_attend?, hturn, veil_nextTurn?]
  cases q.attend? with
  | some q' => rfl
  | none =>
    dsimp only [Option.map_none]
    split
    · exact congrArg some (veil_stepTurn q h script _).symm
    · rfl

theorem veil_patience (script : WorkScript) : q.veil.patience script.veil = q.patience script := rfl

theorem veil_deadline? : q.veil.deadline? = q.deadline? := by
  unfold deadline?
  have hrun : q.veil.run = q.run.map Run.veil := rfl
  rw [hrun]
  cases q.run <;> rfl

theorem veil_isAtRest (h : q.hooks = []) (script : WorkScript) :
    q.veil.isAtRest script.veil = q.isAtRest script := by
  unfold isAtRest
  rw [veil_step? q h, Option.isNone_map]

theorem veil_wakeRunAt (time : Nat) : (q.wakeRunAt time).veil = q.veil.wakeRunAt time :=
  congrArg (·.clockTo time) (veil_enqueue q .run)

end Queue
end CoalescingQueue
