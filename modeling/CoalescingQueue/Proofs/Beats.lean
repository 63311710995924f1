import CoalescingQueue.Console.Simulation
import CoalescingQueue.Proofs.Bursts

/-!
# Beats

A program that drives a queue by itself is the only one who offers anything, nothing is hooked to
any event, and the runs take some time and do nothing else. What a step of such a queue can be is
listed here once; a step like this is a beat. A producer that waits is the program itself, so nobody
but the dispatcher and the run ever stands in line.
-/
namespace CoalescingQueue

namespace Console.Simulation

/-- The run that a call makes. -/
def plan (s : Simulation) (call : Nat) : RunPlan where
  isNarrated := false
  duration := s.workMs
  ending := s.ending call

theorem call_work (s : Simulation) (call : Nat) : s.work.call call = .run (s.plan call) := rfl

end Console.Simulation

/-- Whether the dispatcher may be in this phase: it takes nothing out of a queue that is cancelled,
and leaves only such a queue. -/
def Phase.suits (isCancelled : Bool) : Phase → Bool
  | .counting _ | .draining _ _ | .dispatching _ => !isCancelled
  | .retiring _ | .closing | .stopped => isCancelled
  | .dropping _ | .dead _ => false
  | _ => true

/-- A drain takes all that is buffered. -/
def Phase.TakesAll (buffer : List Request) : Phase → Prop
  | .draining _ left => left = buffer.length
  | .dispatching _ => buffer = []
  | _ => True

/-- The party at the end of a line, unless it stands there already. -/
def joined (line : List Party) (p : Party) : List Party := if p ∈ line then line else line ++ [p]

theorem mem_joined {line : List Party} {p p' : Party} :
    p' ∈ joined line p ↔ p' ∈ line ∨ p' = p := by
  unfold joined
  split
  · next hmem =>
    refine (or_iff_left_of_imp ?_).symm
    rintro rfl
    exact hmem
  · rw [List.mem_append, List.mem_singleton]

theorem length_joined_le (line : List Party) (p : Party) :
    (joined line p).length ≤ line.length + 1 := by
  unfold joined
  split
  · exact Nat.le_succ _
  · rw [List.length_append, List.length_singleton]

namespace Queue

open Console (Simulation)

/-- An event is logged, and nobody listens. -/
def logged (q : Queue) (e : Event) (span : Option Span := none) : Queue :=
  q.note (.logged ⟨e, span⟩)

/-- A queue that one program drives by itself. -/
structure Tended (s : Simulation) (q : Queue) : Prop where
  hooks_eq : q.hooks = []
  due_eq : q.due = []
  errand_eq : q.errand = none
  closers_eq : q.closers = []
  held : q.hasHandle = true
  /-- Whoever waits for room is the program. -/
  callers : ∀ w ∈ q.mailbox.waiting, w.caller = .foreground
  unproduced : ∀ ticket, ¬ q.Awake (.producer ticket)
  flow : q.flow.Reachable s.work
  proper : q.scene.Proper
  packed : q.Packed
  alert : q.Alert
  suits : q.phase.suits q.isCancelled = true
  takesAll : q.phase.TakesAll q.mailbox.buffer
  /-- The run in flight performs no actions. -/
  todo_eq : ∀ run, q.run = some run → run.stage.todo = []
  /-- It sleeps no longer than a run takes. -/
  deadline_le : ∀ run d, q.run = some run → run.stage = .sleeping d → d ≤ q.now + s.workMs

/-- One step of a queue that is driven by itself. What it counts is left to the flow. -/
inductive Beat (s : Simulation) (q : Queue) : Queue → Prop
  | call {p : Party} {line : List Party} (hturn : q.turn = none) (hline : q.line = p :: line) :
      Beat s q { q with line, turn := some p }
  | rest {p : Party} (hturn : q.turn = some p) (hidle : ¬ q.Wanted p) :
      Beat s q { q with turn := none }
  | start (hturn : q.turn = some .dispatcher) (hphase : q.phase = .unstarted) :
      Beat s q ({ q with phase := .listening }.logged .started)
  /-- The dispatcher finds the queue cancelled. -/
  | heed (hturn : q.turn = some .dispatcher) (hphase : q.phase = .listening)
      (hc : q.isCancelled = true) : Beat s q ({ q with phase := .closing }.logged .cancelled)
  /-- The dispatcher takes the first request of a batch. -/
  | receive {r : Request} {mailbox : Mailbox} (hturn : q.turn = some .dispatcher)
      (hphase : q.phase = .listening) (hc : q.isCancelled = false)
      (htake : q.mailbox.take? = some (r, mailbox)) :
      Beat s q ({ q with
        mailbox := mailbox.release.2
        published := .draining
        phase := .counting r }.logged (.transition .idle .draining) (some {}))
  | count {first : Request} (hturn : q.turn = some .dispatcher)
      (hphase : q.phase = .counting first) :
      Beat s q ({ q with phase := .draining { latest := first } q.mailbox.buffer.length }.note
        (.counted first q.mailbox.buffer))
  /-- The dispatcher takes the next request of the batch. -/
  | drain {b : Batch} {left : Nat} {r : Request} {mailbox : Mailbox}
      (hturn : q.turn = some .dispatcher) (hphase : q.phase = .draining b (left + 1))
      (htake : q.mailbox.take? = some (r, mailbox)) :
      Beat s q ({ q with
        mailbox := mailbox.release.2
        phase := .draining (b.push r) left }.logged (.superseded b.latest r))
  /-- The batch is complete. -/
  | engage {b : Batch} {left : Nat} (hturn : q.turn = some .dispatcher)
      (hphase : q.phase = .draining b left) (hdone : left = 0 ∨ q.mailbox.buffer = []) :
      Beat s q ({ q with published := .executing, phase := .dispatching b }.logged
        (.transition .draining .executing) (some b.span))
  /-- The work function is called. -/
  | launch {b : Batch} {stats : Stats} (hturn : q.turn = some .dispatcher)
      (hphase : q.phase = .dispatching b) :
      Beat s q { q with
        calls := q.calls + 1
        stats
        phase := .awaiting b
        run := some { call := q.calls + 1, plan := s.plan (q.calls + 1), began := q.now }
        journal := (q.journal.push (.dispatched b)).push (.launched (q.calls + 1))
        line := joined q.line .run
        turn := none }
  | report {b : Batch} {run : Run} {elapsed : Nat} (hturn : q.turn = some .dispatcher)
      (hphase : q.phase = .awaiting b) (hrun : q.run = some run) (hended : run.stage = .ended) :
      Beat s q ({ q with phase := .reported b run.plan.ending }.logged
        (Flow.verdict b run.plan.ending elapsed) (some b.span))
  /-- The outcome is counted, and the dispatcher listens again. -/
  | relax {b : Batch} {ending : Ending} {elapsed : Nat} {stats : Stats}
      (hturn : q.turn = some .dispatcher) (hphase : q.phase = .reported b ending)
      (hc : q.isCancelled = false) :
      Beat s q (({ q with run := none, stats, published := .idle, phase := .listening }.note
        (.concluded ending.isSuccess elapsed)).logged (.transition .executing .idle) (some b.span))
  /-- The outcome is counted, and the queue is found cancelled. -/
  | retire {b : Batch} {ending : Ending} {elapsed : Nat} {stats : Stats}
      (hturn : q.turn = some .dispatcher) (hphase : q.phase = .reported b ending)
      (hc : q.isCancelled = true) :
      Beat s q (({ q with run := none, stats, phase := .retiring b }.note
        (.concluded ending.isSuccess elapsed)).logged .outlasted)
  | leave {b : Batch} (hturn : q.turn = some .dispatcher) (hphase : q.phase = .retiring b) :
      Beat s q ({ q with phase := .closing }.logged (.transition .executing .stopped) (some b.span))
  | close (hturn : q.turn = some .dispatcher) (hphase : q.phase = .closing) :
      Beat s q ({ q with
        mailbox := q.mailbox.close
        published := .stopped
        phase := .stopped }.logged .stopped)
  /-- The run in flight begins. -/
  | begin {run : Run} (hturn : q.turn = some .run) (hrun : q.run = some run)
      (hstage : run.stage = .spawned) :
      Beat s q { q with run := some { run with stage := .opening [] } }
  | arrive {run : Run} (hturn : q.turn = some .run) (hrun : q.run = some run)
      (hstage : run.stage = .opening []) :
      Beat s q { q with run := some { run with stage := .waiting } }
  /-- It takes no time. -/
  | pass {run : Run} (hturn : q.turn = some .run) (hrun : q.run = some run)
      (hstage : run.stage = .waiting) (hnone : s.workMs = 0) :
      Beat s q { q with run := some { run with stage := .closing [] } }
  | sleep {run : Run} (hturn : q.turn = some .run) (hrun : q.run = some run)
      (hstage : run.stage = .waiting) (hsome : 0 < s.workMs) :
      Beat s q { q with
        run := some { run with stage := .sleeping (q.now + s.workMs) }
        turn := none }
  | awake {run : Run} {deadline : Nat} (hturn : q.turn = some .run) (hrun : q.run = some run)
      (hstage : run.stage = .sleeping deadline) (hdue : deadline ≤ q.now) :
      Beat s q { q with run := some { run with stage := .closing [] } }
  /-- It comes to its end and calls the dispatcher. -/
  | finish {run : Run} (hturn : q.turn = some .run) (hrun : q.run = some run)
      (hstage : run.stage = .closing []) :
      Beat s q { q with
        run := some { run with stage := .ended }
        journal := q.journal.push (.returned run.call)
        line := joined q.line .dispatcher }

variable {s : Simulation} {q q' : Queue}

/-! ## What operations come to -/

theorem enqueue_eq_joined (q : Queue) (p : Party) :
    q.enqueue p = { q with line := joined q.line p } := by
  unfold enqueue joined
  split <;> rfl

theorem settleThreads_of_foreground (h : ∀ w ∈ q.mailbox.waiting, w.caller = .foreground) :
    q.settleThreads = q := by
  refine settleThreads_of_undecided fun w hw hthread => ?_
  rw [h w hw] at hthread
  contradiction

theorem emit_eq_logged (hhooks : q.hooks = []) (h : ∀ w ∈ q.mailbox.waiting, w.caller = .foreground)
    (e : Event) (span : Option Span) : q.emit e span = q.logged e span :=
  emit_of_settled hhooks (settleThreads_of_foreground (q := q.note (.logged ⟨e, span⟩)) h)

theorem releaseSlot_of_foreground (h : ∀ w ∈ q.mailbox.waiting, w.caller = .foreground) :
    q.releaseSlot = { q with mailbox := q.mailbox.release.2 } := by
  unfold releaseSlot Mailbox.release
  cases hgrant : Mailbox.grantFirst q.mailbox.waiting with
  | none => rfl
  | some granted =>
    obtain ⟨w, waiting⟩ := granted
    obtain ⟨before, rest, hwaiting, -⟩ := Mailbox.exists_of_grantFirst hgrant
    have hw : w ∈ q.mailbox.waiting := by
      rw [hwaiting]
      exact List.mem_append_right _ List.mem_cons_self
    dsimp only
    rw [h w hw]

theorem wakeProducers_of_foreground (h : ∀ w ∈ q.mailbox.waiting, w.caller = .foreground) :
    q.wakeProducers = q := by
  unfold wakeProducers
  generalize q.mailbox.waiting = ws at h
  induction ws with
  | nil => rfl
  | cons w ws ih =>
    obtain ⟨hw, hrest⟩ := List.forall_mem_cons.mp h
    rw [List.foldl_cons, if_neg (by rw [hw]; nofun)]
    exact ih hrest

theorem receive?_of_foreground (h : ∀ w ∈ q.mailbox.waiting, w.caller = .foreground) {r : Request}
    {q' : Queue} (hreceive : q.receive? = some (r, q')) :
    ∃ mailbox, q.mailbox.take? = some (r, mailbox) ∧
      q' = { q with mailbox := mailbox.release.2 } := by
  obtain ⟨mailbox, htake, rfl⟩ := course_receive hreceive
  refine ⟨mailbox, htake, releaseSlot_of_foreground (q := { q with mailbox }) ?_⟩
  rw [show mailbox.waiting = q.mailbox.waiting by rw [Mailbox.eq_of_take? htake]]
  exact h

theorem isAbandoned_eq_false (h : q.hasHandle = true) : q.isAbandoned = false := by
  simp [isAbandoned, h]

/-! ## Steps are beats -/

section Steps

variable (h : q.Tended s)
include h

theorem Tended.emit (e : Event) (span : Option Span := none) : q.emit e span = q.logged e span :=
  emit_eq_logged h.hooks_eq h.callers e span

/-- Whoever waits after a request was taken has waited before. -/
theorem Tended.callers_of_take {r : Request} {mailbox : Mailbox}
    (htake : q.mailbox.take? = some (r, mailbox)) :
    ∀ w ∈ mailbox.release.2.waiting, w.caller = .foreground := by
  have hsame : mailbox.waiting = q.mailbox.waiting := by rw [Mailbox.eq_of_take? htake]
  intro w hw
  obtain ⟨v, hv, hcaller⟩ := Mailbox.exists_of_mem_release hw
  exact hcaller ▸ h.callers v (hsame ▸ hv)

theorem Tended.plan_eq {run : Run} (hrun : q.run = some run) : run.plan = s.plan run.call :=
  (Work.run.inj (h.flow.follows.run_eq run hrun)).symm

theorem Tended.beat_listen (hturn : q.turn = some .dispatcher) (hphase : q.phase = .listening) :
    Beat s q q.listen := by
  unfold listen
  split
  · next hc =>
    rw [emit_eq_logged (by exact h.hooks_eq) (by exact h.callers)]
    exact .heed hturn hphase hc
  · next hc =>
    have hc : q.isCancelled = false := Bool.eq_false_iff.mpr hc
    have hkept := isAbandoned_eq_false h.held
    split
    · next first q₁ hreceive =>
      obtain ⟨mailbox, htake, rfl⟩ := receive?_of_foreground h.callers hreceive
      unfold publish
      rw [emit_eq_logged (by exact h.hooks_eq) (by exact h.callers_of_take htake)]
      exact .receive hturn hphase hc htake
    · next hnone =>
      rw [hkept]
      refine .rest hturn ?_
      unfold Wanted
      rw [hphase, hc, buffer_of_receive?_eq_none hnone, hkept]
      simp

theorem Tended.beat_drain {b : Batch} {left : Nat} (hturn : q.turn = some .dispatcher)
    (hphase : q.phase = .draining b left) : Beat s q (q.drain b left) := by
  have hc : q.isCancelled = false := by
    have hsuits := h.suits
    rw [hphase] at hsuits
    simpa [Phase.suits] using hsuits
  have hengage (hdone : left = 0 ∨ q.mailbox.buffer = []) : Beat s q (q.finishDrain b) := by
    unfold finishDrain publish
    rw [if_neg (by simp [hc]), emit_eq_logged (by exact h.hooks_eq) (by exact h.callers)]
    exact .engage hturn hphase hdone
  unfold drain
  split
  · exact hengage (.inl rfl)
  · split
    · next next q₁ hreceive =>
      obtain ⟨mailbox, htake, rfl⟩ := receive?_of_foreground h.callers hreceive
      rw [emit_eq_logged (by exact h.hooks_eq) (by exact h.callers_of_take htake)]
      exact .drain hturn hphase htake
    · next hnone => exact hengage (.inr (buffer_of_receive?_eq_none hnone))

omit h in
theorem beat_dispatch {b : Batch} (hturn : q.turn = some .dispatcher)
    (hphase : q.phase = .dispatching b) : Beat s q (q.dispatch s.work b) := by
  unfold dispatch
  dsimp only
  rw [s.call_work]
  dsimp only
  rw [enqueue_eq_joined]
  exact .launch hturn hphase

theorem Tended.beat_await {b : Batch} (hturn : q.turn = some .dispatcher)
    (hphase : q.phase = .awaiting b) : Beat s q (q.await b) := by
  have hidle (hnot : ∀ run, q.run = some run → run.stage ≠ .ended) : ¬ q.Wanted .dispatcher := by
    unfold Wanted
    rw [hphase]
    rintro ⟨run, hrun, hended⟩
    exact hnot run hrun hended
  unfold await
  split
  · next run hrun =>
    split
    · next hended =>
      unfold Queue.report
      rw [emit_eq_logged (by exact h.hooks_eq) (by exact h.callers)]
      exact .report hturn hphase hrun hended
    · next hnot =>
      refine .rest hturn (hidle fun run' hrun' hended => ?_)
      obtain rfl := Option.some.inj (hrun.symm.trans hrun')
      exact hnot hended
  · next hnone =>
    refine .rest hturn (hidle fun run hrun => ?_)
    rw [hnone] at hrun
    contradiction

theorem Tended.beat_conclude {b : Batch} {ending : Ending} (hturn : q.turn = some .dispatcher)
    (hphase : q.phase = .reported b ending) : Beat s q (q.conclude b ending) := by
  unfold conclude
  extract_lets elapsed concluded
  split
  · next hc =>
    rw [emit_eq_logged (by exact h.hooks_eq) (by exact h.callers)]
    exact .retire hturn hphase hc
  · next hc =>
    unfold publish
    rw [emit_eq_logged (by exact h.hooks_eq) (by exact h.callers)]
    exact .relax hturn hphase (Bool.eq_false_iff.mpr hc)

theorem Tended.beat_close (hturn : q.turn = some .dispatcher) (hphase : q.phase = .closing) :
    Beat s q q.close := by
  have hclosed : q.closeMailbox = { q with mailbox := q.mailbox.close } :=
    wakeProducers_of_foreground (q := { q with mailbox := q.mailbox.close }) h.callers
  unfold Queue.close releaseClosers
  rw [hclosed]
  dsimp only
  rw [h.closers_eq, List.foldl_nil]
  have hsame : ({ q with
      mailbox := q.mailbox.close
      published := .stopped
      phase := .stopped
      closers := [] } : Queue) =
      { q with mailbox := q.mailbox.close, published := .stopped, phase := .stopped } := by
    rw [← h.closers_eq]
  rw [hsame, emit_eq_logged (by exact h.hooks_eq) (by exact h.callers)]
  exact .close hturn hphase

theorem Tended.beat_stepDispatcher (hturn : q.turn = some .dispatcher) :
    Beat s q (q.stepDispatcher s.work) := by
  have hsuits := h.suits
  unfold stepDispatcher
  cases hphase : q.phase with
  | unstarted =>
    dsimp only
    rw [emit_eq_logged (by exact h.hooks_eq) (by exact h.callers)]
    exact .start hturn hphase
  | listening => exact h.beat_listen hturn hphase
  | counting first => exact .count hturn hphase
  | draining b left => exact h.beat_drain hturn hphase
  | dispatching b => exact beat_dispatch hturn hphase
  | awaiting b => exact h.beat_await hturn hphase
  | reported b ending => exact h.beat_conclude hturn hphase
  | retiring b =>
    dsimp only
    rw [emit_eq_logged (by exact h.hooks_eq) (by exact h.callers)]
    exact .leave hturn hphase
  | closing => exact h.beat_close hturn hphase
  | stopped =>
    refine .rest hturn ?_
    unfold Wanted
    rw [hphase]
    exact not_false
  | _ =>
    rw [hphase] at hsuits
    contradiction

theorem Tended.beat_stepRun {run : Run} (hturn : q.turn = some .run) (hrun : q.run = some run) :
    Beat s q (q.stepRun run) := by
  have hplan := h.plan_eq hrun
  have htodo := h.todo_eq run hrun
  have hquiet (q₁ : Queue) (e : Event) : q₁.narrate run e = q₁ := by
    unfold narrate
    rw [hplan]
    rfl
  have hidle (hnot : ¬ run.CanGoOn q.permits q.now) : ¬ q.Wanted .run := by
    rintro ⟨run', hrun', hgo⟩
    obtain rfl := Option.some.inj (hrun.symm.trans hrun')
    exact hnot hgo
  unfold stepRun
  dsimp only
  cases hstage : run.stage with
  | spawned =>
    dsimp only
    rw [hquiet, hplan]
    exact .begin hturn hrun hstage
  | opening todo =>
    obtain rfl : todo = [] := by
      rw [hstage] at htodo
      exact htodo
    exact .arrive hturn hrun hstage
  | waiting =>
    dsimp only
    rw [hplan]
    show Beat s q (if s.workMs = 0 then q.setStage run (.closing [])
      else (q.setStage run (.sleeping (q.now + s.workMs))).yieldTurn)
    split
    · next hnone => exact .pass hturn hrun hstage hnone
    · next hsome => exact .sleep hturn hrun hstage (Nat.pos_of_ne_zero hsome)
  | sleeping deadline =>
    dsimp only
    split
    · next hearly =>
      refine .rest hturn (hidle ?_)
      unfold Run.CanGoOn
      rw [hstage]
      exact Nat.not_le_of_lt hearly
    · next hdue =>
      rw [hplan]
      exact .awake hturn hrun hstage (Nat.le_of_not_lt hdue)
  | closing todo =>
    obtain rfl : todo = [] := by
      rw [hstage] at htodo
      exact htodo
    dsimp only
    rw [hquiet, enqueue_eq_joined]
    exact .finish hturn hrun hstage
  | ended =>
    refine .rest hturn (hidle ?_)
    unfold Run.CanGoOn
    rw [hstage]
    exact not_false

/-- A step of a queue that is driven by itself is a beat. -/
theorem Tended.beat (hs : q.step? s.work = some q') : Beat s q q' := by
  have hattend : q.attend? = none := by rw [Queue.attend?, h.due_eq, h.errand_eq]
  unfold step? at hs
  rw [hattend] at hs
  dsimp only at hs
  split at hs
  · next p hturn =>
    obtain rfl := Option.some.inj hs
    unfold stepTurn
    split
    · exact h.beat_stepDispatcher hturn
    · split
      · next run hrun => exact h.beat_stepRun hturn hrun
      · next hnone =>
        refine .rest hturn ?_
        rintro ⟨run, hrun, -⟩
        rw [hnone] at hrun
        contradiction
    · next ticket => exact absurd (.inl hturn) (h.unproduced ticket)
  · next hturn =>
    unfold nextTurn? at hs
    split at hs
    · next p line hline =>
      obtain rfl := Option.some.inj hs
      exact .call hturn hline
    · have hnobody : q.hasDecidedThread = false := by
        rw [hasDecidedThread, List.any_eq_false]
        intro w hw
        simp [h.callers w hw]
      rw [hnobody] at hs
      contradiction

end Steps

end Queue
end CoalescingQueue
