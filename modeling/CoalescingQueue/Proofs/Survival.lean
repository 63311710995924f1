import CoalescingQueue.Proofs.Fates
import CoalescingQueue.Proofs.Resting

/-!
# What the dispatcher survives

A run may fail or panic: its outcome is counted, the dispatcher goes back to rest, and what comes
later is dispatched as before. A call that breaks down before it has made a run is another
matter. It is never counted, and the queue is closed from then on, although nobody cancelled it.
-/
namespace CoalescingQueue

/-- The dispatcher goes back to rest after a run. -/
@[simp] def Fact.relaxed? : Fact → Option Unit
  | .logged ⟨.transition .executing .idle, _⟩ => some ()
  | _ => none

theorem Fact.IsAside.relaxed_eq_none {f : Fact} (h : f.IsAside) : f.relaxed? = none := by
  cases h with
  | @logged r he =>
    obtain ⟨e, span⟩ := r
    cases e <;> simp_all [Event.isAside]
  | _ => rfl

/-- How often the dispatcher went back to rest after a run. -/
abbrev History.relaxed (h : History) : List Unit := h.gather Fact.relaxed?

namespace Flow

variable {script : WorkScript} {c c' : Flow}

theorem relaxed_verdict (b : Batch) (ending : Ending) (elapsed : Nat) (span : Option Span) :
    (Fact.logged ⟨verdict b ending elapsed, span⟩).relaxed? = none := by
  unfold verdict
  split <;> rfl

/-- Unless the queue was cancelled, the dispatcher went back to rest after each outcome. -/
def Relaxed (c : Flow) : Prop :=
  c.isCancelled = false → c.journal.relaxed.length = c.journal.outcomes.length

theorem Relaxed.congr (hi : c.Relaxed) (hc : c'.isCancelled = c.isCancelled)
    (hr : c'.journal.relaxed = c.journal.relaxed)
    (ho : c'.journal.outcomes = c.journal.outcomes) : c'.Relaxed := by
  unfold Relaxed
  rw [hc, hr, ho]
  exact hi

theorem Step.relaxed (h : Step script c c') (hi : c.Relaxed) : c'.Relaxed := by
  cases h with
  | remark hf =>
    refine hi.congr rfl (History.gather_concat_of_eq_none c.journal hf.relaxed_eq_none) ?_
    cases hf <;> simp [note]
  | cancel => exact fun hc => absurd hc.symm Bool.false_ne_true
  | report =>
    refine hi.congr rfl ?_ (by simp [log, note, verdict])
    exact History.gather_concat_of_eq_none c.journal (relaxed_verdict _ _ _ _)
  | relax hp hc =>
    intro _
    have heq := hi hc
    simp [log, note, enter, conclude] at heq ⊢
    exact heq
  | retire hp hc =>
    intro hnot
    exact absurd (hnot.symm.trans hc) Bool.false_ne_true
  | _ => exact hi.congr rfl (by simp [log, note, enter, call]) (by simp [log, note, enter, call])

theorem Reachable.relaxed (h : Reachable script c) : c.Relaxed :=
  h.keeps (fun _ _ => rfl) fun _ hs hi => hs.relaxed hi

end Flow

namespace Queue

variable {script : WorkScript} {q : Queue}

/-- What a queue goes through that is held and not cancelled. -/
structure Survives (script : WorkScript) (q : Queue) : Prop where
  executed_eq : q.stats.executed = q.flow.journal.outcomes.length
  failed_eq : q.stats.failed = q.flow.journal.outcomes.count false
  /-- One outcome was counted for each call from the first one on. -/
  outcomes_eq : q.flow.journal.outcomes =
    (List.range' 1 q.stats.executed).map fun n => (script.call n).succeeds
  relaxed_eq : q.flow.journal.relaxed.length = q.stats.executed
  /-- Nothing but a call that breaks down closes the queue. -/
  isStopped_iff : q.isStopped = true ↔
    ∃ n, 0 < n ∧ n ≤ q.calls ∧ script.call n = .breakdown
  /-- The call that broke down is the last one, and is not counted. -/
  breaks : q.isStopped = true → q.published = .executing ∧ q.calls = q.stats.executed + 1 ∧
    script.call q.calls = .breakdown
  settles : q.isStopped = false → q.AtRest script → q.run = none → q.RestsIdle script ∧
    q.stats.executed + q.stats.superseded = q.flow.journal.arrivals.length

/-- As long as somebody holds a queue that is not cancelled, only a breakdown closes it. -/
theorem Reachable.isStopped_eq (h : Reachable script q) (hc : q.isCancelled = false)
    (hheld : q.hasHandle = true) : q.isStopped = q.phase.isDead := by
  rw [isStopped, hc, Bool.false_or, h.parts.isClosed_eq]
  cases hp : q.phase with
  | stopped =>
    have hdeserted := h.parts.deserted (congrArg Phase.isExit hp) hc
    rw [hdeserted.hasHandle_eq] at hheld
    contradiction
  | _ => rfl

theorem Reachable.rests_settled (h : Reachable script q) (hr : q.AtRest script)
    (hlive : q.phase.isDead = false) (hopen : q.mailbox.isClosed = false) (hrun : q.run = none) :
    q.RestsIdle script ∧ q.stats.executed + q.stats.superseded = q.flow.journal.arrivals.length := by
  have hp : q.phase = .listening := by
    rcases h.phase_atRest hr with hp | ⟨b, hp⟩ | hp | hdead
    · exact hp
    · obtain ⟨run, hsome, -⟩ := h.hasOneRun hr hp
      rw [hrun] at hsome
      contradiction
    · rw [h.parts.isClosed_eq, hp] at hopen
      contradiction
    · exact absurd (hlive.symm.trans hdead) Bool.false_ne_true
  have hidle := h.rests_idle hr hp
  have harrivals := h.flow.arrivals_eq hidle.isCancelled_eq (congrArg Phase.taken hp)
    hidle.buffer_eq
  refine ⟨hidle, ?_⟩
  rw [harrivals]
  exact h.flow.settled_eq (congrArg Phase.owed hp)

/-- Failing and panicking runs are counted and survived, and calls that break down are not. -/
theorem survives (h : Reachable script q) (hc : q.isCancelled = false)
    (hheld : q.hasHandle = true) : q.Survives script := by
  have hfollows := h.flow.follows
  have hexecuted : q.stats.executed = q.flow.journal.outcomes.length := h.flow.tally.executed_eq
  have hstopped := h.isStopped_eq hc hheld
  constructor
  · exact hexecuted
  · exact h.flow.tally.failed_eq
  · rw [hexecuted]
    exact hfollows.outcomes_eq
  · rw [hexecuted]
    exact h.flow.relaxed hc
  · rw [hstopped]
    constructor
    · intro hdead
      obtain ⟨hpos, hbreakdown⟩ := hfollows.breakdown_of_dead hdead
      exact ⟨q.calls, hpos, le_rfl, hbreakdown⟩
    · rintro ⟨n, hpos, hn, hbreakdown⟩
      exact (hfollows.last_of_breakdown n hpos hn hbreakdown).2
  · rw [hstopped]
    intro hdead
    have howed : q.flow.phase.owed = 1 := Phase.owed_of_isDead hdead
    have hcalls : q.calls = q.flow.journal.outcomes.length + q.flow.phase.owed :=
      h.flow.serial.calls_eq
    rw [howed, ← hexecuted] at hcalls
    exact ⟨h.flow.posture.published_eq _ (Phase.shown_of_isDead hdead), hcalls,
      (hfollows.breakdown_of_dead hdead).2⟩
  · intro hopen hr hrun
    refine h.rests_settled hr (hstopped.symm.trans hopen) ?_ hrun
    rw [isStopped, hc, Bool.false_or] at hopen
    exact hopen

/-- The first run fails, the second one panics, and all others are well. -/
def stumbling : WorkScript :=
  .ofList [.run { ending := .failure ["boom"] }, .run { ending := .panic none }] (.run {})

/-- A queue whose first run has failed. -/
def shaken : Queue :=
  let q : Queue := { config := narrow, mailbox := { free := narrow.capacity } }
  (q.act stumbling (.add ⟨"a"⟩ 0)).2.settle stumbling

theorem reachable_shaken : Reachable stumbling shaken := by
  have hcapacity : narrow.capacity ≤ QueueConfig.maxCapacity := by decide
  exact ((Reachable.new hcapacity []).act ⟨rfl, rfl, rfl⟩ _).settle

/-- The same queue after the next run, which has panicked. -/
def unshaken : Queue := (shaken.act stumbling (.add ⟨"b"⟩ 0)).2.settle stumbling

theorem reachable_unshaken : Reachable stumbling unshaken := by
  have hrest : shaken.AtRest stumbling := isAtRest_iff.mp (by decide)
  exact (reachable_shaken.act hrest.isFree _).settle

theorem survives_unshaken : Reachable stumbling unshaken ∧ unshaken.isCancelled = false ∧
    unshaken.hasHandle = true ∧ unshaken.stats.executed = 2 ∧ unshaken.stats.failed = 2 ∧
    unshaken.isStopped = false ∧ unshaken.Survives stumbling := by
  have hc : unshaken.isCancelled = false := by decide
  have hheld : unshaken.hasHandle = true := by decide
  exact ⟨reachable_unshaken, hc, hheld, by decide, by decide, by decide,
    survives reachable_unshaken hc hheld⟩

/-- A queue whose first call breaks down. -/
def collapsed : Queue :=
  let q : Queue := { config := narrow, mailbox := { free := narrow.capacity } }
  (q.act broken (.add ⟨"x"⟩ 0)).2.settle broken

/-- Nobody cancelled the queue or let go of it, and yet it is closed and its call not counted. -/
theorem collapsed_stops : Reachable broken collapsed ∧ collapsed.AtRest broken ∧
    collapsed.isCancelled = false ∧ collapsed.hasHandle = true ∧ collapsed.isStopped = true ∧
    collapsed.published = .executing ∧ collapsed.calls = 1 ∧ collapsed.stats.executed = 0 ∧
    collapsed.stats.failed = 0 := by
  have hcapacity : narrow.capacity ≤ QueueConfig.maxCapacity := by decide
  have hreach : Reachable broken collapsed :=
    ((Reachable.new hcapacity []).act ⟨rfl, rfl, rfl⟩ _).settle
  exact ⟨hreach, isAtRest_iff.mp (by decide), by decide, by decide, by decide, by decide,
    by decide, by decide, by decide⟩

end Queue
end CoalescingQueue
