import CoalescingQueue.Proofs.Replies

/-!
# Queues that are left alone

Nothing is hooked to any event, nobody acts from outside, and the run in flight performs no actions.
Then a step is a tick: someone is called or goes back, a task in line joins the buffer, or the
dispatcher or the run comes further. What a tick changes in the journal, the counters and the
published state is said only as far as it is needed to see how requests are cut into batches.
-/
namespace CoalescingQueue

namespace RunPlan

/-- A run that performs no actions. -/
structure IsBare (p : RunPlan) : Prop where
  atStart_eq : p.atStart = []
  atEnd_eq : p.atEnd = []

/-- How many permits a run takes from the gate. -/
def toll (p : RunPlan) : Nat := if p.isGated then 1 else 0

end RunPlan

/-- The actions that are left at this stage of a run. -/
def Stage.todo : Stage → List Action
  | .opening todo | .closing todo => todo
  | _ => []

structure Run.IsBare (run : Run) : Prop where
  plan : run.plan.IsBare
  todo_eq : run.stage.todo = []

/-- The dispatcher has neither stopped nor is it about to. -/
def Phase.isWorking : Phase → Bool
  | .unstarted | .listening | .counting _ | .draining _ _ | .dispatching _ | .awaiting _
  | .reported _ _ => true
  | _ => false

/-- The journal grows, and these are the batches that were dispatched meanwhile. -/
def Grows (before after : Array Fact) (batches : List Batch) : Prop :=
  ∃ facts : History, after.toList = before.toList ++ facts ∧ facts.dispatched = batches

theorem Grows.mem {before after : Array Fact} {batches : List Batch}
    (h : Grows before after batches) {f : Fact} (hf : f ∈ before) : f ∈ after := by
  obtain ⟨facts, heq, -⟩ := h
  rw [← Array.mem_toList_iff] at hf ⊢
  rw [heq]
  exact List.mem_append_left _ hf

theorem Grows.dispatched_eq {before after : Array Fact} {batches : List Batch}
    (h : Grows before after batches) :
    History.dispatched after.toList = History.dispatched before.toList ++ batches := by
  obtain ⟨facts, heq, rfl⟩ := h
  rw [heq]
  exact History.gather_append _ _ _

theorem grows_refl (journal : Array Fact) : Grows journal journal [] :=
  ⟨[], (List.append_nil _).symm, rfl⟩

theorem Grows.push {before after : Array Fact} {batches : List Batch}
    (h : Grows before after batches) {f : Fact} (hf : f.dispatched? = none) :
    Grows before (after.push f) batches := by
  obtain ⟨facts, heq, rfl⟩ := h
  refine ⟨facts ++ [f], ?_, facts.gather_concat_of_eq_none hf⟩
  rw [Array.toList_push, heq, List.append_assoc]

theorem Grows.trans {before middle after : Array Fact} {batches : List Batch}
    (h : Grows before middle []) (h' : Grows middle after batches) :
    Grows before after batches := by
  obtain ⟨facts, heq, hnone⟩ := h
  obtain ⟨facts', heq', rfl⟩ := h'
  refine ⟨facts ++ facts', ?_, ?_⟩
  · rw [heq', heq, List.append_assoc]
  · rw [History.dispatched, History.gather_append]
    exact congrArg (· ++ facts'.dispatched) hnone

theorem grows_push (journal : Array Fact) {f : Fact} (hf : f.dispatched? = none) :
    Grows journal (journal.push f) [] := (grows_refl journal).push hf

namespace Queue

/-- Nothing happens to the queue but what it does itself. -/
structure IsAlone (q : Queue) : Prop where
  hooks_eq : q.hooks = []
  due_eq : q.due = []
  errand_eq : q.errand = none
  going : q.IsGoing
  held : q.hasHandle = true
  tasks : ∀ w ∈ q.mailbox.waiting, w.caller = .task
  working : q.phase.isWorking = true
  bare : ∀ run, q.run = some run → run.IsBare

theorem IsAlone.attend? {q : Queue} (h : q.IsAlone) : q.attend? = none := by
  rw [Queue.attend?, h.due_eq, h.errand_eq]

theorem IsAlone.isUnprompted {q : Queue} (h : q.IsAlone) : q.IsUnprompted :=
  isUnprompted_of_due_eq h.due_eq

/-- One step of a queue that is left alone. -/
inductive Tick (script : WorkScript) (q : Queue) : Queue → Prop
  | call {p : Party} {line : List Party} (hturn : q.turn = none) (hline : q.line = p :: line) :
      Tick script q { q with line, turn := some p }
  | rest {p : Party} (hturn : q.turn = some p) : Tick script q { q with turn := none }
  /-- A task uses its slot. -/
  | join {w : Waiter} {line : List Party} (hturn : q.turn = some (.producer w.ticket))
      (hw : w ∈ q.mailbox.waiting) (hslot : w.hasSlot = true)
      (hline : line.length ≤ q.line.length + 1) :
      Tick script q { q with
        mailbox := (q.mailbox.dismiss w.ticket).append w.request
        journal := (q.journal.push (.admitted w.request)).push (.ended w.ticket .accepted q.now)
        line
        turn := none }
  | start {journal : Array Fact} (hturn : q.turn = some .dispatcher) (hphase : q.phase = .unstarted)
      (hjournal : Grows q.journal journal []) :
      Tick script q { q with phase := .listening, journal }
  /-- The dispatcher takes the first request of a batch. -/
  | receive {r : Request} {mailbox : Mailbox} {line : List Party} {published : DispatchState}
      {journal : Array Fact} (hturn : q.turn = some .dispatcher) (hphase : q.phase = .listening)
      (htake : q.mailbox.take? = some (r, mailbox)) (hline : line.length ≤ q.line.length + 1)
      (hjournal : Grows q.journal journal []) :
      Tick script q { q with
        mailbox := mailbox.release.2
        line, published
        phase := .counting r
        journal }
  | count {first : Request} {journal : Array Fact} (hturn : q.turn = some .dispatcher)
      (hphase : q.phase = .counting first) (hjournal : Grows q.journal journal []) :
      Tick script q { q with
        phase := .draining { latest := first } q.mailbox.buffer.length
        journal }
  /-- The dispatcher takes the next request of the batch. -/
  | drain {b : Batch} {left : Nat} {r : Request} {mailbox : Mailbox} {line : List Party}
      {journal : Array Fact} (hturn : q.turn = some .dispatcher)
      (hphase : q.phase = .draining b (left + 1)) (htake : q.mailbox.take? = some (r, mailbox))
      (hline : line.length ≤ q.line.length + 1) (hjournal : Grows q.journal journal []) :
      Tick script q { q with
        mailbox := mailbox.release.2
        line
        phase := .draining (b.push r) left
        journal }
  /-- The batch is complete. -/
  | drained {b : Batch} {left : Nat} {published : DispatchState} {journal : Array Fact}
      (hturn : q.turn = some .dispatcher) (hphase : q.phase = .draining b left)
      (hdone : left = 0 ∨ q.mailbox.buffer = []) (hjournal : Grows q.journal journal []) :
      Tick script q { q with published, phase := .dispatching b, journal }
  /-- The work function is called. -/
  | launch {b : Batch} {plan : RunPlan} {stats : Stats} {line : List Party} {journal : Array Fact}
      (hturn : q.turn = some .dispatcher) (hphase : q.phase = .dispatching b)
      (hcall : script.call (q.calls + 1) = .run plan) (hline : line.length ≤ q.line.length + 1)
      (hjournal : Grows q.journal journal [b]) :
      Tick script q { q with
        calls := q.calls + 1
        stats
        phase := .awaiting b
        run := some { call := q.calls + 1, plan, began := q.now }
        journal, line
        turn := none }
  | report {b : Batch} {run : Run} {journal : Array Fact} (hturn : q.turn = some .dispatcher)
      (hphase : q.phase = .awaiting b) (hrun : q.run = some run) (hended : run.stage = .ended)
      (hjournal : Grows q.journal journal []) :
      Tick script q { q with phase := .reported b run.plan.ending, journal }
  | conclude {b : Batch} {ending : Ending} {stats : Stats} {published : DispatchState}
      {journal : Array Fact} (hturn : q.turn = some .dispatcher)
      (hphase : q.phase = .reported b ending) (hjournal : Grows q.journal journal []) :
      Tick script q { q with run := none, stats, published, phase := .listening, journal }
  /-- The run in flight begins. -/
  | begin {run : Run} {journal : Array Fact} (hturn : q.turn = some .run) (hrun : q.run = some run)
      (hstage : run.stage = .spawned) (hjournal : Grows q.journal journal []) :
      Tick script q { q with run := some { run with stage := .opening [] }, journal }
  | arrive {run : Run} (hturn : q.turn = some .run) (hrun : q.run = some run)
      (hstage : run.stage = .opening []) :
      Tick script q { q with run := some { run with stage := .waiting } }
  /-- It takes a permit if it has to, and takes no time. -/
  | pass {run : Run} (hturn : q.turn = some .run) (hrun : q.run = some run)
      (hstage : run.stage = .waiting) (htoll : run.plan.toll ≤ q.permits) :
      Tick script q { q with
        permits := q.permits - run.plan.toll
        run := some { run with stage := .closing [] } }
  /-- It takes a permit if it has to, and sleeps. -/
  | sleep {run : Run} {deadline : Nat} (hturn : q.turn = some .run) (hrun : q.run = some run)
      (hstage : run.stage = .waiting) (htoll : run.plan.toll ≤ q.permits)
      (hlater : q.now < deadline) :
      Tick script q { q with
        permits := q.permits - run.plan.toll
        run := some { run with stage := .sleeping deadline }
        turn := none }
  | awake {run : Run} {deadline : Nat} (hturn : q.turn = some .run) (hrun : q.run = some run)
      (hstage : run.stage = .sleeping deadline) (hdue : deadline ≤ q.now) :
      Tick script q { q with run := some { run with stage := .closing [] } }
  /-- It comes to its end and calls the dispatcher. -/
  | finish {run : Run} {line : List Party} {journal : Array Fact} (hturn : q.turn = some .run)
      (hrun : q.run = some run) (hstage : run.stage = .closing [])
      (hline : line.length ≤ q.line.length + 1) (hjournal : Grows q.journal journal []) :
      Tick script q { q with run := some { run with stage := .ended }, journal, line }

variable {script : WorkScript} {q q' : Queue}

/-! ## What is put in line -/

theorem enqueue_le (q : Queue) (p : Party) :
    ∃ line, line.length ≤ q.line.length + 1 ∧ q.enqueue p = { q with line } := by
  unfold enqueue
  split
  · exact ⟨q.line, Nat.le_succ _, rfl⟩
  · exact ⟨q.line ++ [p], by rw [List.length_append, List.length_singleton], rfl⟩

theorem wakeDispatcher_le (q : Queue) :
    ∃ line, line.length ≤ q.line.length + 1 ∧ q.wakeDispatcher = { q with line } := by
  have hsame : ∃ line, line.length ≤ q.line.length + 1 ∧ q = { q with line } :=
    ⟨q.line, Nat.le_succ _, rfl⟩
  unfold wakeDispatcher
  split
  · split
    · exact hsame
    · exact q.enqueue_le .dispatcher
  · exact hsame

theorem releaseSlot_le (q : Queue) : ∃ line, line.length ≤ q.line.length + 1 ∧
    q.releaseSlot = { q with mailbox := q.mailbox.release.2, line } := by
  unfold releaseSlot
  split
  · next w mailbox h =>
    rw [h]
    dsimp only
    split
    · exact enqueue_le { q with mailbox } (.producer w.ticket)
    · exact ⟨q.line, Nat.le_succ _, rfl⟩
  · next mailbox h =>
    rw [h]
    exact ⟨q.line, Nat.le_succ _, rfl⟩

theorem receive?_eq_some {r : Request} {q' : Queue} (h : q.receive? = some (r, q')) :
    ∃ mailbox line, q.mailbox.take? = some (r, mailbox) ∧ line.length ≤ q.line.length + 1 ∧
      q' = { q with mailbox := mailbox.release.2, line } := by
  unfold receive? at h
  split at h
  · next r' mailbox htake =>
    obtain ⟨rfl, rfl⟩ := Prod.mk.inj (Option.some.inj h)
    obtain ⟨line, hline, heq⟩ := releaseSlot_le { q with mailbox }
    exact ⟨mailbox, line, htake, hline, heq⟩
  · contradiction

theorem emit_of_tasks (hhooks : q.hooks = []) (htasks : ∀ w ∈ q.mailbox.waiting, w.caller = .task)
    (e : Event) (span : Option Span) : q.emit e span = q.note (.logged ⟨e, span⟩) :=
  emit_of_settled hhooks (settleThreads_of_caller_eq (q := q.note (.logged ⟨e, span⟩)) htasks)

theorem narrate_of_tasks (hhooks : q.hooks = [])
    (htasks : ∀ w ∈ q.mailbox.waiting, w.caller = .task) (run : Run) (e : Event) :
    ∃ journal, Grows q.journal journal [] ∧ q.narrate run e = { q with journal } := by
  unfold Queue.narrate
  split
  · exact ⟨_, grows_push _ rfl, emit_of_tasks hhooks htasks e _⟩
  · exact ⟨q.journal, grows_refl _, rfl⟩

/-- Whoever waits after a request was taken has waited before. -/
theorem IsAlone.tasks_of_take (h : q.IsAlone) {r : Request} {mailbox : Mailbox}
    (htake : q.mailbox.take? = some (r, mailbox)) :
    ∀ w ∈ mailbox.release.2.waiting, w.caller = .task := by
  have hsame : mailbox.waiting = q.mailbox.waiting := by rw [Mailbox.eq_of_take? htake]
  intro w hw
  obtain ⟨v, hv, hcaller⟩ := Mailbox.exists_of_mem_release hw
  exact hcaller ▸ h.tasks v (hsame ▸ hv)

/-! ## Steps of each party -/

theorem tick_dispatch {b : Batch} {plan : RunPlan} (hturn : q.turn = some .dispatcher)
    (hphase : q.phase = .dispatching b) (hcall : script.call (q.calls + 1) = .run plan) :
    Tick script q (q.dispatch script b) := by
  let launched : Queue := { q with
    calls := q.calls + 1
    stats := q.stats.countDispatch b.latest.id b.superseded
    phase := .awaiting b
    run := some { call := q.calls + 1, plan, began := q.now }
    journal := (q.journal.push (.dispatched b)).push (.launched (q.calls + 1)) }
  have hdispatch : q.dispatch script b = (launched.enqueue .run).yieldTurn := by
    unfold dispatch
    dsimp only
    rw [hcall]
    rfl
  obtain ⟨line, hline, heq⟩ := launched.enqueue_le .run
  have htells : Grows q.journal launched.journal [b] := by
    refine Grows.push ⟨[.dispatched b], Array.toList_push, ?_⟩ rfl
    rfl
  rw [hdispatch, heq]
  exact .launch hturn hphase hcall hline htells

section Steps

variable (h : q.IsAlone)
include h

theorem IsAlone.tick_listen (hturn : q.turn = some .dispatcher) (hphase : q.phase = .listening) :
    Tick script q q.listen := by
  unfold listen
  rw [if_neg (by simp [h.going.isCancelled_eq])]
  split
  · next first q₁ hreceive =>
    obtain ⟨mailbox, line, htake, hline, rfl⟩ := receive?_eq_some hreceive
    unfold publish
    rw [emit_of_tasks (by exact h.hooks_eq) (by exact h.tasks_of_take htake)]
    exact .receive hturn hphase htake hline (grows_push _ rfl)
  · have hkept : q.isAbandoned ≠ true := by simp [isAbandoned, h.held]
    rw [if_neg hkept]
    exact .rest hturn

theorem IsAlone.tick_drain {b : Batch} {left : Nat} (hturn : q.turn = some .dispatcher)
    (hphase : q.phase = .draining b left) : Tick script q (q.drain b left) := by
  have hdrained (hdone : left = 0 ∨ q.mailbox.buffer = []) : Tick script q (q.finishDrain b) := by
    unfold finishDrain publish
    rw [if_neg (by simp [h.going.isCancelled_eq]),
      emit_of_tasks (by exact h.hooks_eq) (by exact h.tasks)]
    exact .drained hturn hphase hdone (grows_push _ rfl)
  unfold drain
  split
  · exact hdrained (.inl rfl)
  · split
    · next next q₁ hreceive =>
      obtain ⟨mailbox, line, htake, hline, rfl⟩ := receive?_eq_some hreceive
      rw [emit_of_tasks (by exact h.hooks_eq) (by exact h.tasks_of_take htake)]
      exact .drain hturn hphase htake hline (grows_push _ rfl)
    · next hnone => exact hdrained (.inr (buffer_of_receive?_eq_none hnone))

theorem IsAlone.tick_await {b : Batch} (hturn : q.turn = some .dispatcher)
    (hphase : q.phase = .awaiting b) : Tick script q (q.await b) := by
  unfold await
  split
  · next run hrun =>
    split
    · next hended =>
      unfold report
      rw [emit_of_tasks (by exact h.hooks_eq) (by exact h.tasks)]
      exact .report hturn hphase hrun hended (grows_push _ rfl)
    · exact .rest hturn
  · exact .rest hturn

theorem IsAlone.tick_conclude {b : Batch} {ending : Ending} (hturn : q.turn = some .dispatcher)
    (hphase : q.phase = .reported b ending) : Tick script q (q.conclude b ending) := by
  unfold conclude publish
  dsimp only
  rw [if_neg (by simp [note, h.going.isCancelled_eq]),
    emit_of_tasks (by exact h.hooks_eq) (by exact h.tasks)]
  exact .conclude hturn hphase ((grows_push _ rfl).push rfl)

theorem IsAlone.tick_stepDispatcher (hturn : q.turn = some .dispatcher)
    (hcall : ∀ b, q.phase = .dispatching b → ∃ plan, script.call (q.calls + 1) = .run plan) :
    Tick script q (q.stepDispatcher script) := by
  have hworking := h.working
  unfold stepDispatcher
  cases hphase : q.phase with
  | unstarted =>
    dsimp only
    rw [emit_of_tasks (by exact h.hooks_eq) (by exact h.tasks)]
    exact .start hturn hphase (grows_push _ rfl)
  | listening => exact h.tick_listen hturn hphase
  | counting first => exact .count hturn hphase (grows_push _ rfl)
  | draining b left => exact h.tick_drain hturn hphase
  | dispatching b =>
    obtain ⟨plan, hplan⟩ := hcall b hphase
    exact tick_dispatch hturn hphase hplan
  | awaiting b => exact h.tick_await hturn hphase
  | reported b ending => exact h.tick_conclude hturn hphase
  | _ =>
    rw [hphase] at hworking
    contradiction

theorem IsAlone.tick_stepRun {run : Run} (hturn : q.turn = some .run) (hrun : q.run = some run) :
    Tick script q (q.stepRun run) := by
  obtain ⟨⟨hatStart, hatEnd⟩, htodo⟩ := h.bare run hrun
  unfold stepRun
  dsimp only
  cases hstage : run.stage with
  | spawned =>
    dsimp only
    rw [hatStart]
    obtain ⟨journal, hjournal, heq⟩ := narrate_of_tasks (q := q.setStage run (.opening []))
      h.hooks_eq h.tasks run (.workStarted run.call q.now)
    rw [heq]
    exact .begin hturn hrun hstage hjournal
  | opening todo =>
    obtain rfl : todo = [] := by
      rw [hstage] at htodo
      exact htodo
    exact .arrive hturn hrun hstage
  | waiting =>
    dsimp only
    split
    · exact .rest hturn
    · next hopen =>
      have htoll : run.plan.toll ≤ q.permits := by
        unfold RunPlan.toll
        split
        · next hgated =>
          simp only [hgated, Bool.true_and, decide_eq_true_eq] at hopen
          omega
        · exact Nat.zero_le _
      have hpaid : (if run.plan.isGated = true then { q with permits := q.permits - 1 } else q) =
          { q with permits := q.permits - run.plan.toll } := by
        unfold RunPlan.toll
        split <;> rfl
      rw [hpaid, hatEnd]
      split
      · exact .pass hturn hrun hstage htoll
      · next hlong =>
        exact .sleep hturn hrun hstage htoll (Nat.lt_add_of_pos_right (Nat.pos_of_ne_zero hlong))
  | sleeping deadline =>
    dsimp only
    split
    · exact .rest hturn
    · next hdue =>
      rw [hatEnd]
      exact .awake hturn hrun hstage (Nat.le_of_not_lt hdue)
  | closing todo =>
    obtain rfl : todo = [] := by
      rw [hstage] at htodo
      exact htodo
    dsimp only
    obtain ⟨journal, hjournal, heq⟩ := narrate_of_tasks
      (q := (q.setStage run .ended).note (.returned run.call)) h.hooks_eq h.tasks run
      (.workEnded run.call q.now)
    obtain ⟨line, hline, henqueued⟩ := enqueue_le
      { (q.setStage run .ended).note (.returned run.call) with journal } .dispatcher
    rw [heq, henqueued]
    exact .finish hturn hrun hstage hline ((grows_push _ rfl).trans hjournal)
  | ended => exact .rest hturn

theorem IsAlone.tick_settleWaiter {w : Waiter} (hturn : q.turn = some (.producer w.ticket))
    (hw : w ∈ q.mailbox.waiting) : Tick script q (q.settleWaiter w).yieldTurn := by
  unfold settleWaiter decide?
  rw [if_neg (by simp [h.going.isCancelled_eq, h.going.isClosed_eq])]
  split
  · next reply q₁ hdecided =>
    split at hdecided
    · next hslot =>
      obtain ⟨rfl, rfl⟩ := Prod.mk.inj (Option.some.inj hdecided)
      obtain ⟨line, hline, heq⟩ := wakeDispatcher_le
        ({ q with mailbox := (q.mailbox.dismiss w.ticket).append w.request }.note
          (.admitted w.request))
      unfold enter
      rw [heq]
      exact .join hturn hw hslot hline
    · contradiction
  · exact .rest hturn

/-- A step is a tick, if the work function does not break down. -/
theorem IsAlone.tick (hcall : ∀ b, q.phase = .dispatching b →
      ∃ plan, script.call (q.calls + 1) = .run plan)
    (hs : q.step? script = some q') : Tick script q q' := by
  unfold step? at hs
  rw [h.attend?] at hs
  dsimp only at hs
  split at hs
  · next p hturn =>
    obtain rfl := Option.some.inj hs
    unfold stepTurn
    split
    · exact h.tick_stepDispatcher hturn hcall
    · split
      · next run hrun => exact h.tick_stepRun hturn hrun
      · exact .rest hturn
    · next ticket =>
      split
      · next w hfind =>
        obtain rfl : w.ticket = ticket := by simpa using List.find?_some hfind
        exact h.tick_settleWaiter hturn (List.mem_of_find?_eq_some hfind)
      · exact .rest hturn
  · next hturn =>
    unfold nextTurn? at hs
    split at hs
    · next p line hline =>
      obtain rfl := Option.some.inj hs
      exact .call hturn hline
    · have hnobody : q.hasDecidedThread = false := by
        rw [hasDecidedThread, List.any_eq_false]
        intro w hw
        simp [h.tasks w hw]
      rw [hnobody] at hs
      contradiction

end Steps

/-- A queue that is left alone stays alone, if the runs that are made perform no actions. -/
theorem Tick.isAlone (ht : Tick script q q') (h : q.IsAlone)
    (hcall : ∀ b plan, q.phase = .dispatching b → script.call (q.calls + 1) = .run plan →
      plan.IsBare) : q'.IsAlone := by
  obtain ⟨hhooks, hdue, herrand, hgoing, hheld, htasks, hworking, hbare⟩ := id h
  cases ht with
  | call | rest =>
    exact ⟨hhooks, hdue, herrand, ⟨hgoing.1, hgoing.2⟩, hheld, htasks, hworking, hbare⟩
  | join =>
    refine ⟨hhooks, hdue, herrand, ⟨hgoing.1, hgoing.2⟩, hheld, fun w hw => ?_, hworking, hbare⟩
    exact htasks w (Mailbox.mem_of_mem_dismiss hw).1
  | start | count | drained | report =>
    exact ⟨hhooks, hdue, herrand, ⟨hgoing.1, hgoing.2⟩, hheld, htasks, rfl, hbare⟩
  | @receive _ mailbox _ _ _ _ _ htake | @drain _ _ _ mailbox _ _ _ _ htake =>
    have hclosed : mailbox.release.2.isClosed = false := by
      rw [Mailbox.release_isClosed, ← hgoing.isClosed_eq, Mailbox.eq_of_take? htake]
    exact ⟨hhooks, hdue, herrand, ⟨hgoing.1, hclosed⟩, hheld, h.tasks_of_take htake, rfl, hbare⟩
  | launch _ hphase hplan =>
    refine ⟨hhooks, hdue, herrand, ⟨hgoing.1, hgoing.2⟩, hheld, htasks, rfl, fun run hrun => ?_⟩
    obtain rfl := Option.some.inj hrun
    exact ⟨hcall _ _ hphase hplan, rfl⟩
  | conclude =>
    exact ⟨hhooks, hdue, herrand, ⟨hgoing.1, hgoing.2⟩, hheld, htasks, rfl, nofun⟩
  | begin _ hrun | arrive _ hrun | pass _ hrun | sleep _ hrun | awake _ hrun | finish _ hrun =>
    refine ⟨hhooks, hdue, herrand, ⟨hgoing.1, hgoing.2⟩, hheld, htasks, hworking, fun r hr => ?_⟩
    obtain rfl := Option.some.inj hr
    exact ⟨(hbare _ hrun).plan, rfl⟩

end Queue
end CoalescingQueue
