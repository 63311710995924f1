import CoalescingQueue.Queue.Reachable

/-!
# Who listens

A hook is there from the start or never. Events are noticed by the hooks there are, and nothing
that a queue does adds a hook or takes one away, so a queue without hooks stays one. When hooks
are set off, and what that does, is not looked at.
-/
namespace CoalescingQueue.Queue

/-- How many hooks there are. -/
def listeners (q : Queue) : Nat := q.hooks.length

variable (q : Queue)

variable {q} in
/-- Where nobody listened before, nobody listens. -/
theorem hooks_eq_nil {q' : Queue} (hsame : q'.listeners = q.listeners) (h : q.hooks = []) :
    q'.hooks = [] :=
  List.length_eq_zero_iff.mp (hsame.trans (List.length_eq_zero_iff.mpr h))

@[simp] theorem listeners_note (f : Fact) : (q.note f).listeners = q.listeners := rfl

@[simp] theorem listeners_yieldTurn : q.yieldTurn.listeners = q.listeners := rfl

@[simp] theorem listeners_enqueue (p : Party) : (q.enqueue p).listeners = q.listeners := by
  obtain ⟨line, heq⟩ := enqueue_eq q p
  rw [heq]
  rfl

@[simp] theorem listeners_wakeDispatcher : q.wakeDispatcher.listeners = q.listeners := by
  obtain ⟨line, heq⟩ := wakeDispatcher_eq q
  rw [heq]
  rfl

@[simp] theorem listeners_wakeIfAbandoned : q.wakeIfAbandoned.listeners = q.listeners := by
  obtain ⟨line, heq⟩ := wakeIfAbandoned_eq q
  rw [heq]
  rfl

@[simp] theorem listeners_wakeProducers : q.wakeProducers.listeners = q.listeners := by
  obtain ⟨line, heq⟩ := wakeProducers_eq q
  rw [heq]
  rfl

@[simp] theorem listeners_releaseSlot : q.releaseSlot.listeners = q.listeners := by
  unfold releaseSlot
  grind [listeners_enqueue, listeners]

theorem listeners_receive {r : Request} {q' : Queue} (h : q.receive? = some (r, q')) :
    q'.listeners = q.listeners := by
  unfold receive? at h
  grind [listeners_releaseSlot, listeners]

@[simp] theorem listeners_leave (w : Waiter) : (q.leave w).listeners = q.listeners := by
  unfold leave
  grind [listeners_wakeIfAbandoned, listeners_releaseSlot, listeners]

@[simp] theorem listeners_enter (w : Waiter) : (q.enter w).listeners = q.listeners :=
  listeners_wakeDispatcher _

@[simp] theorem listeners_settleWaiter (w : Waiter) :
    (q.settleWaiter w).listeners = q.listeners := by
  unfold settleWaiter decide? withdraw
  grind [listeners_leave, listeners_enter, listeners_note, listeners]

/-- What each of a list of operations leaves alone, all of them do. -/
theorem listeners_foldl {α : Type} {f : Queue → α → Queue}
    (hf : ∀ q a, (f q a).listeners = q.listeners) (as : List α) (q : Queue) :
    (as.foldl f q).listeners = q.listeners := by
  induction as generalizing q with
  | nil => rfl
  | cons a as ih => rw [List.foldl_cons, ih, hf]

@[simp] theorem listeners_settleThreads : q.settleThreads.listeners = q.listeners := by
  refine listeners_foldl (fun q w => ?_) _ q
  split
  · exact listeners_settleWaiter q w
  · rfl

/-- Each hook takes notice, and stays. -/
@[simp] theorem listeners_emit (e : Event) (span : Option Span) :
    (q.emit e span).listeners = q.listeners := by
  unfold emit
  rw [listeners_settleThreads]
  exact List.length_map _

theorem listeners_offer (caller : Caller) (r : Request) :
    (q.offer caller r).2.listeners = q.listeners := by
  unfold offer
  grind [listeners_wakeDispatcher, listeners_enqueue, listeners_note, listeners]

theorem listeners_offerQuietly (caller : Caller) (handle : Nat) (r : Request) :
    (q.offerQuietly caller handle r).2.listeners = q.listeners := by
  unfold offerQuietly
  grind [listeners_offer]

theorem listeners_offerAllQuietly (handle : Nat) (rs : List Request) :
    (q.offerAllQuietly handle rs).2.listeners = q.listeners := by
  induction rs generalizing q with
  | nil => rfl
  | cons r rs ih => exact (ih _).trans (listeners_offerQuietly q .task handle r)

theorem listeners_cancel : q.cancel.listeners = q.listeners := by
  unfold cancel
  grind [listeners_wakeProducers, listeners_wakeDispatcher, listeners]

@[simp] theorem listeners_releaseClosers : q.releaseClosers.listeners = q.listeners :=
  listeners_foldl (f := fun q ticket => q.note (.ended ticket .done q.now)) (fun _ _ => rfl)
    q.closers q

theorem listeners_releasePermits (n : Nat) : (q.releasePermits n).listeners = q.listeners := by
  unfold releasePermits
  grind [listeners_enqueue, listeners]

theorem listeners_perform (a : Action) : (q.perform a).2.listeners = q.listeners := by
  unfold perform shutdown drop
  grind [listeners_offerQuietly, listeners_offerAllQuietly, listeners_cancel,
    listeners_releasePermits, listeners_wakeIfAbandoned, listeners_note, listeners]

@[simp] theorem listeners_noteAction (a : Action) (reply : Reply) :
    (q.noteAction a reply).listeners = q.listeners := by
  unfold noteAction
  split <;> rfl

theorem listeners_performHooked (a : Action) : (q.performHooked a).listeners = q.listeners :=
  (listeners_noteAction _ a _).trans (listeners_perform q a)

theorem listeners_answer (a : Action) (reply : Reply) :
    (q.answer a reply).listeners = q.listeners := by
  unfold answer
  split
  · exact listeners_noteAction q a reply
  · rfl

theorem listeners_begin (a : Action) : (q.begin a).listeners = q.listeners := by
  unfold begin
  grind [listeners_answer, listeners_perform, listeners]

theorem listeners_stepErrand (e : Errand) : (q.stepErrand e).listeners = q.listeners := by
  unfold stepErrand
  grind [listeners_answer, listeners_offer, listeners_wakeIfAbandoned, listeners_emit, listeners]

theorem listeners_narrate (run : Run) (e : Event) :
    (q.narrate run e).listeners = q.listeners := by
  unfold narrate
  split
  · exact listeners_emit q e _
  · rfl

theorem listeners_stepRun (run : Run) : (q.stepRun run).listeners = q.listeners := by
  unfold stepRun setStage
  grind [listeners_narrate, listeners_begin, listeners_enqueue, listeners_note, listeners_yieldTurn,
    listeners]

theorem listeners_listen : q.listen.listeners = q.listeners := by
  unfold listen
  split
  · exact listeners_emit _ _ _
  · split
    · next first q' hr =>
      have hreceived := listeners_receive q hr
      exact (listeners_emit _ _ _).trans hreceived
    · split
      · exact listeners_emit _ _ _
      · rfl

theorem listeners_finishDrain (b : Batch) : (q.finishDrain b).listeners = q.listeners := by
  unfold finishDrain
  split
  · exact listeners_emit _ _ _
  · exact listeners_emit _ _ _

theorem listeners_drain (b : Batch) (left : Nat) : (q.drain b left).listeners = q.listeners := by
  unfold drain
  split
  · exact listeners_finishDrain q b
  · split
    · next hr =>
      have hreceived := listeners_receive q hr
      exact (listeners_emit _ _ _).trans hreceived
    · exact listeners_finishDrain q b

theorem listeners_dispatch (script : WorkScript) (b : Batch) :
    (q.dispatch script b).listeners = q.listeners := by
  unfold dispatch closeMailbox
  grind [listeners_note, listeners_yieldTurn, listeners_releaseClosers, listeners_wakeProducers,
    listeners_enqueue, listeners]

theorem listeners_stepDispatcher (script : WorkScript) :
    (q.stepDispatcher script).listeners = q.listeners := by
  unfold stepDispatcher countBacklog await report conclude close closeMailbox publish
  grind [listeners_listen, listeners_drain, listeners_dispatch, listeners_emit, listeners_note,
    listeners_yieldTurn, listeners_releaseClosers, listeners_wakeProducers, listeners]

theorem listeners_attend? {q' : Queue} (h : q.attend? = some q') : q'.listeners = q.listeners := by
  unfold attend? at h
  split at h
  · obtain rfl := Option.some.inj h
    exact listeners_performHooked _ _
  · obtain rfl := Option.some.inj h
    exact listeners_stepErrand q _
  · contradiction

theorem listeners_stepTurn (script : WorkScript) (p : Party) :
    (q.stepTurn script p).listeners = q.listeners := by
  unfold stepTurn
  split
  · exact listeners_stepDispatcher q script
  · split
    · exact listeners_stepRun q _
    · rfl
  · split
    · exact listeners_settleWaiter q _
    · rfl

theorem listeners_step? {script : WorkScript} {q' : Queue} (h : q.step? script = some q') :
    q'.listeners = q.listeners := by
  unfold step? at h
  split at h
  · next ha =>
    obtain rfl := Option.some.inj h
    exact listeners_attend? q ha
  · split at h
    · obtain rfl := Option.some.inj h
      exact listeners_stepTurn q script _
    · unfold nextTurn? at h
      split at h
      · obtain rfl := Option.some.inj h
        rfl
      · split at h
        · obtain rfl := Option.some.inj h
          exact listeners_settleThreads q
        · contradiction

theorem listeners_wakeRunAt (time : Nat) : (q.wakeRunAt time).listeners = q.listeners :=
  listeners_enqueue q .run

end CoalescingQueue.Queue
