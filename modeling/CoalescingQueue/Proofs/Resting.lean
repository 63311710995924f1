import CoalescingQueue.Proofs.Conservation
import CoalescingQueue.Proofs.Outcomes
import CoalescingQueue.Proofs.Parting
import CoalescingQueue.Proofs.Slots
import CoalescingQueue.Proofs.Wakeups

/-!
# Queues at rest

When nothing moves, nobody is forgotten: there are five ways for a queue to be at rest, and a
queue at rest is so in exactly one of them. Either everything is done, or a run is in flight that
all others wait for, or the queue has come to its end. The statements hold of a queue that is at
rest and do not say that it gets there.
-/
namespace CoalescingQueue
namespace Queue

variable {script : WorkScript} {q : Queue}

/-! ## What rest means -/

/-- Nobody has the turn or stands in line, and no thread's call is decided. -/
structure IsStill (q : Queue) : Prop where
  turn_eq : q.turn = none
  errand_eq : q.errand = none
  line_eq : q.line = []
  undecided : q.hasDecidedThread = false

theorem AtRest.isStill (hr : q.AtRest script) : q.IsStill := by
  obtain ⟨hturn, herrand, hdue⟩ := hr.isFree
  unfold AtRest step? attend? at hr
  rw [hdue, herrand, hturn] at hr
  dsimp only at hr
  unfold nextTurn? at hr
  split at hr
  · contradiction
  · next hline =>
    split at hr
    · contradiction
    · next hnot => exact ⟨hturn, herrand, hline, Bool.eq_false_iff.mpr hnot⟩

/-- When nothing moves, nobody has anything to do. -/
theorem Reachable.not_wanted (h : Reachable script q) (hr : q.AtRest script) (p : Party) :
    ¬ q.Wanted p := by
  intro hw
  rcases h.alert p hw with hturn | hline
  · rw [hr.isStill.turn_eq] at hturn
    contradiction
  · rw [hr.isStill.line_eq] at hline
    exact List.not_mem_nil hline

/-- A call that still waits when nothing moves. -/
structure IsStuck (q : Queue) (w : Waiter) : Prop where
  isClosed_eq : q.mailbox.isClosed = false
  hasSlot_eq : w.hasSlot = false
  /-- A thread does not notice that the queue is cancelled. -/
  caller_eq : q.isCancelled = true → w.caller = .thread

theorem Reachable.isStuck (h : Reachable script q) (hr : q.AtRest script) {w : Waiter}
    (hw : w ∈ q.mailbox.waiting) : q.IsStuck w := by
  cases hcaller : w.caller with
  | task =>
    have hidle : ¬ (w.hasSlot = true ∨ q.isCancelled = true ∨ q.mailbox.isClosed = true) :=
      fun hdecided => h.not_wanted hr (.producer w.ticket) ⟨w, hw, rfl, hcaller, hdecided⟩
    simp only [not_or, Bool.not_eq_true] at hidle
    obtain ⟨hslot, hc, hopen⟩ := hidle
    exact ⟨hopen, hslot, fun hcancelled => absurd (hc.symm.trans hcancelled) Bool.false_ne_true⟩
  | thread =>
    have hundecided := hr.isStill.undecided
    unfold hasDecidedThread at hundecided
    rw [List.any_eq_false] at hundecided
    have hnot := hundecided w hw
    simp only [hcaller, decide_true, Bool.true_and, Bool.or_eq_true, not_or,
      Bool.not_eq_true] at hnot
    exact ⟨hnot.1, hnot.2, fun _ => hcaller⟩
  | foreground => exact absurd hcaller (h.orderly.waiting_ne w hw)

/-- A call waits for room only while there is none. -/
theorem Reachable.length_buffer (h : Reachable script q) (hr : q.AtRest script)
    (hwaiting : q.mailbox.waiting ≠ []) : q.mailbox.buffer.length = q.config.capacity := by
  obtain ⟨w, hw⟩ := List.exists_mem_of_ne_nil _ hwaiting
  -- nobody who waits has a slot, so none is free and none is promised
  obtain ⟨hopen, hslot, -⟩ := h.isStuck hr hw
  have hfits := h.packed hopen
  have hfree : q.mailbox.free = 0 := hfits.free_eq w hw hslot
  have hpromised : q.mailbox.promised = 0 := by
    unfold Mailbox.promised
    rw [List.countP_eq_zero]
    intro v hv
    rw [(h.isStuck hr hv).hasSlot_eq]
    exact Bool.false_ne_true
  have hslots := hfits.slots_eq
  omega

/-- Nobody waits at a closed mailbox. -/
theorem Reachable.waiting_of_isClosed (h : Reachable script q) (hr : q.AtRest script)
    (hclosed : q.mailbox.isClosed = true) : q.mailbox.waiting = [] := by
  by_contra hne
  obtain ⟨w, hw⟩ := List.exists_mem_of_ne_nil _ hne
  have hopen := (h.isStuck hr hw).isClosed_eq
  rw [hclosed] at hopen
  contradiction

/-! ## The shapes of rest -/

inductive RestShape
  /-- Everything is done. -/
  | idle
  /-- Everybody waits for the run in flight. -/
  | executing
  /-- The queue was cancelled and lets the run in flight finish. -/
  | finishing
  | stopped
  /-- The call of the work function broke down. -/
  | dead
  deriving DecidableEq, Repr

structure RestsIdle (script : WorkScript) (q : Queue) : Prop where
  isCancelled_eq : q.isCancelled = false
  published_eq : q.published = .idle
  buffer_eq : q.mailbox.buffer = []
  waiting_eq : q.mailbox.waiting = []
  run_eq : q.run = none
  /-- Beside what was settled, only the calls whose callers went away are still counted. -/
  settled_eq : q.stats.executed + q.stats.superseded + q.flow.journal.forsaken.length =
    q.stats.enqueued
  attended_eq : Attended script q →
    q.stats.executed + q.stats.superseded = q.stats.enqueued
  hasHandle_eq : q.hasHandle = true

/-- One run is in flight: of the calls that made a run, it alone has not come to its end. -/
def HasOneRun (q : Queue) : Prop :=
  ∃ run, q.run = some run ∧ run.stage ≠ .ended ∧
    q.flow.journal.launched = q.flow.journal.returned ++ [run.call]

structure RestsExecuting (q : Queue) : Prop where
  isCancelled_eq : q.isCancelled = false
  published_eq : q.published = .executing
  run_eq : q.HasOneRun
  full : q.mailbox.waiting ≠ [] → q.mailbox.buffer.length = q.config.capacity

structure RestsFinishing (q : Queue) : Prop where
  isCancelled_eq : q.isCancelled = true
  published_eq : q.published = .executing
  run_eq : q.HasOneRun
  waiting_eq : ∀ w ∈ q.mailbox.waiting, w.caller = .thread

/-- The mailbox is closed, and nobody waits for anything. -/
structure IsVacant (q : Queue) : Prop where
  isClosed_eq : q.mailbox.isClosed = true
  run_eq : q.run = none
  waiting_eq : q.mailbox.waiting = []
  closers_eq : q.closers = []

/-- Whether a queue at rest has this shape. -/
def RestsAs (script : WorkScript) (q : Queue) : RestShape → Prop
  | .idle => q.RestsIdle script
  | .executing => q.RestsExecuting
  | .finishing => q.RestsFinishing
  | .stopped => q.published = .stopped ∧ q.IsVacant
  | .dead =>
    q.published = .executing ∧ (0 < q.calls ∧ script.call q.calls = .breakdown) ∧ q.IsVacant

/-- The shape that the outside can tell. -/
def restShape (q : Queue) : RestShape :=
  match q.published with
  | .idle | .draining => .idle
  | .executing => if q.run.isNone then .dead else if q.isCancelled then .finishing else .executing
  | .stopped => .stopped

theorem RestsAs.shape_eq {shape : RestShape} (h : q.RestsAs script shape) :
    shape = q.restShape := by
  unfold restShape
  cases shape with
  | idle =>
    have hidle : q.RestsIdle script := h
    rw [hidle.published_eq]
  | executing =>
    obtain ⟨hc, hpublished, ⟨run, hrun, -⟩, -⟩ : q.RestsExecuting := h
    simp [hpublished, hrun, hc]
  | finishing =>
    obtain ⟨hc, hpublished, ⟨run, hrun, -⟩, -⟩ : q.RestsFinishing := h
    simp [hpublished, hrun, hc]
  | stopped =>
    obtain ⟨hpublished, -⟩ := h
    rw [hpublished]
  | dead =>
    obtain ⟨hpublished, -, hvacant⟩ := h
    simp [hpublished, hvacant.run_eq]

theorem Reachable.rests_idle (h : Reachable script q) (hr : q.AtRest script)
    (hp : q.phase = .listening) : q.RestsIdle script := by
  have hidle := h.not_wanted hr .dispatcher
  unfold Wanted at hidle
  simp only [hp, not_or, Bool.not_eq_true, not_not] at hidle
  obtain ⟨hc, hbuffer, habandoned⟩ := hidle
  have hpublished : q.published = .idle :=
    h.flow.posture.published_eq _ (congrArg Phase.shown? hp)
  have hwaiting : q.mailbox.waiting = [] := by
    by_contra hne
    have hlen := h.length_buffer hr hne
    have hpos := q.config.capacity_pos
    rw [hbuffer, List.length_nil] at hlen
    omega
  have hclosers : q.closers = [] := by
    by_contra hne
    exact absurd (hc.symm.trans (h.parts.awaited hne).1) Bool.false_ne_true
  have hoffering := isOffering_of_errand_eq_none hr.isStill.errand_eq
  have hhandle : q.hasHandle = true := by
    rw [isAbandoned, hwaiting, hclosers, hoffering] at habandoned
    simpa using habandoned
  have hsettled : q.stats.executed + q.stats.superseded + q.flow.journal.forsaken.length =
      q.stats.enqueued := by
    have hbalance := h.flow.balanced.enqueued_eq
    have hdiscarded : q.flow.journal.discarded = [] :=
      h.flow.dropped.discarded_eq (congrArg Phase.isLeaving hp)
    have htaken : q.flow.phase.taken = [] := congrArg Phase.taken hp
    have howed : q.flow.unrecorded = 0 :=
      (h.flow.serial.unrecorded_eq h.flow.tally).trans (congrArg Phase.owed hp)
    have hnone : q.flow.mailbox.waiting = [] := hwaiting
    have hempty : q.flow.mailbox.buffer = [] := hbuffer
    rw [howed, Flow.undispatched, hdiscarded, htaken, hempty, Flow.undecided, hnone] at hbalance
    have hsum : q.flow.stats.executed + q.flow.stats.superseded +
        q.flow.journal.forsaken.length = q.flow.stats.enqueued := by simpa using hbalance.symm
    exact hsum
  have hrun : q.run = none := (h.flow.serial.idle (congrArg Phase.isRunning hp)).1
  refine ⟨hc, hpublished, hbuffer, hwaiting, hrun, hsettled, fun hattended => ?_, hhandle⟩
  rw [hattended.forsaken_eq] at hsettled
  exact hsettled

theorem Reachable.hasOneRun (h : Reachable script q) (hr : q.AtRest script) {b : Batch}
    (hp : q.phase = .awaiting b) : q.HasOneRun := by
  obtain ⟨run, hrun, -, -, ⟨hended, -⟩ | ⟨hstage, hflight, -⟩⟩ :=
    h.flow.serial.running (congrArg Phase.isRunning hp)
  · -- the dispatcher would have seen the end of the run
    refine absurd ?_ (h.not_wanted hr .dispatcher)
    unfold Wanted
    rw [hp]
    exact ⟨run, hrun, hended⟩
  · exact ⟨run, hrun, hstage, hflight⟩

theorem Reachable.isVacant (h : Reachable script q) (hr : q.AtRest script)
    (hover : q.phase.isOver = true) : q.IsVacant := by
  have hclosed : q.mailbox.isClosed = true := h.parts.isClosed_eq.trans hover
  have hrunning : q.phase.isRunning = false := by
    cases hp : q.phase <;> simp_all [Phase.isOver, Phase.isRunning]
  refine ⟨hclosed, (h.flow.serial.idle hrunning).1, h.waiting_of_isClosed hr hclosed, ?_⟩
  by_contra hne
  exact absurd ((h.parts.awaited hne).2.symm.trans hover) Bool.false_ne_true

/-- A dispatcher at rest listens, waits for a run, or is at its end. -/
theorem Reachable.phase_atRest (h : Reachable script q) (hr : q.AtRest script) :
    q.phase = .listening ∨ (∃ b, q.phase = .awaiting b) ∨ q.phase = .stopped ∨
      q.phase.isDead = true := by
  have hidle := h.not_wanted hr .dispatcher
  unfold Wanted at hidle
  cases hp : q.phase with
  | listening => exact .inl rfl
  | awaiting b => exact .inr (.inl ⟨b, rfl⟩)
  | stopped => exact .inr (.inr (.inl rfl))
  | dead b => exact .inr (.inr (.inr rfl))
  | _ =>
    rw [hp] at hidle
    exact absurd trivial hidle

theorem Reachable.restsAs (h : Reachable script q) (hr : q.AtRest script) :
    ∃ shape, q.RestsAs script shape := by
  have hshown (s : DispatchState) (hs : q.phase.shown? = some s) : q.published = s :=
    h.flow.posture.published_eq s hs
  rcases h.phase_atRest hr with hp | ⟨b, hp⟩ | hp | hdead
  · exact ⟨.idle, h.rests_idle hr hp⟩
  · have hpublished := hshown .executing (congrArg Phase.shown? hp)
    have hrun := h.hasOneRun hr hp
    cases hc : q.isCancelled with
    | false => exact ⟨.executing, hc, hpublished, hrun, h.length_buffer hr⟩
    | true => exact ⟨.finishing, hc, hpublished, hrun, fun w hw => (h.isStuck hr hw).caller_eq hc⟩
  · have hpublished := hshown .stopped (congrArg Phase.shown? hp)
    exact ⟨.stopped, hpublished, h.isVacant hr (congrArg Phase.isOver hp)⟩
  · have hpublished := hshown .executing (Phase.shown_of_isDead hdead)
    have hbreakdown : 0 < q.calls ∧ script.call q.calls = .breakdown :=
      h.flow.follows.breakdown_of_dead hdead
    exact ⟨.dead, hpublished, hbreakdown, h.isVacant hr (Phase.isOver_of_isDead hdead)⟩

/-- A queue that is at rest is so in exactly one way, and it is never draining. -/
theorem rests_in_one_shape (h : Reachable script q) (hr : q.AtRest script) :
    (∃! shape, q.RestsAs script shape) ∧ q.published ≠ .draining := by
  obtain ⟨shape, hshape⟩ := h.restsAs hr
  refine ⟨⟨shape, hshape, fun other hother => ?_⟩, fun hdraining => ?_⟩
  · exact hother.shape_eq.trans hshape.shape_eq.symm
  · cases shape with
    | idle =>
      have hidle : q.RestsIdle script := hshape
      rw [hidle.published_eq] at hdraining
      contradiction
    | executing =>
      have hexecuting : q.RestsExecuting := hshape
      rw [hexecuting.published_eq] at hdraining
      contradiction
    | finishing =>
      have hfinishing : q.RestsFinishing := hshape
      rw [hfinishing.published_eq] at hdraining
      contradiction
    | stopped | dead =>
      rw [hshape.1] at hdraining
      contradiction

/-- More requests than the mailbox holds, while the first run sleeps. -/
theorem rests_in_one_shape_crowded :
    Reachable patient (crowded patient) ∧ (crowded patient).AtRest patient ∧
    (crowded patient).restShape = .executing ∧
    (∃! shape, (crowded patient).RestsAs patient shape) ∧
    (crowded patient).published ≠ .draining := by
  have hreach := reachable_crowded patient
  have hrest : (crowded patient).AtRest patient := isAtRest_iff.mp (by decide)
  exact ⟨hreach, hrest, by decide, rests_in_one_shape hreach hrest⟩

end Queue
end CoalescingQueue
