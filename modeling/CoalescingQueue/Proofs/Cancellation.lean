import CoalescingQueue.Proofs.Coalescing
import CoalescingQueue.Proofs.Turns

/-!
# Calls after cancellation

The dispatcher looks for cancellation before it takes a request and again after the drain. Once
it has passed the second look it is committed to its batch, and a cancellation that comes before
the call comes too late for it. The statements say that this is the only call that can still be
made, and that it is made: they depend on whose turn it is, not on how the events are hooked.
-/
namespace CoalescingQueue
namespace Flow

variable {script : WorkScript} {c c' : Flow}

/-- The flow is cancelled, and these are all the batches it will ever dispatch. -/
structure Bound (bs : List Batch) (c : Flow) : Prop where
  isCancelled_eq : c.isCancelled = true
  dispatched_eq : c.journal.dispatched ++ c.phase.committed = bs

theorem Bound.congr {bs : List Batch} (hi : c.Bound bs) (hc : c'.isCancelled = c.isCancelled)
    (hd : c'.journal.dispatched ++ c'.phase.committed =
      c.journal.dispatched ++ c.phase.committed) : c'.Bound bs :=
  ⟨hc.trans hi.isCancelled_eq, hd.trans hi.dispatched_eq⟩

theorem Step.bound {bs : List Batch} (h : Step script c c') (hi : c.Bound bs) : c'.Bound bs := by
  cases h with
  | remark hf => cases hf <;> exact hi.congr rfl (by simp [note])
  | cancel => exact ⟨rfl, hi.dispatched_eq⟩
  -- the dispatcher comes no nearer to a call unless it finds the queue not cancelled
  | receive hp hc | engage hp hleft hc | relax hp hc | abandon hp hc =>
    rw [hi.isCancelled_eq] at hc
    contradiction
  | launch hp | breakDown hp =>
    exact hi.congr rfl (by simp [note, call, hp, Phase.committed])
  | start hp | heed hp | count hp | drain hp | discard hp | report hp | retire hp | leaveDrain hp
  | leaveRun hp | close hp =>
    exact hi.congr rfl (by simp [log, note, enter, conclude, hp, Phase.committed])
  | _ => exact hi.congr rfl (by simp [note])

theorem Step.calls_le (h : Step script c c') : c.calls ≤ c'.calls := by
  cases h with
  | launch | breakDown => exact Nat.le_succ _
  | _ => exact le_rfl

end Flow

namespace Queue

variable {script : WorkScript} {q q' : Queue}

theorem Later.dispatched_eq (hl : Later script q q') (h : Reachable script q)
    (hc : q.isCancelled = true) : q'.flow.journal.dispatched ++ q'.phase.committed =
      q.flow.journal.dispatched ++ q.phase.committed := by
  have hbound : q.flow.Bound (q.flow.journal.dispatched ++ q.phase.committed) := ⟨hc, rfl⟩
  exact ((hl.course h).keeps Flow.Step.bound hbound).dispatched_eq

theorem Later.isCancelled (hl : Later script q q') (h : Reachable script q)
    (hc : q.isCancelled = true) : q'.isCancelled = true := by
  have hbound : q.flow.Bound (q.flow.journal.dispatched ++ q.phase.committed) := ⟨hc, rfl⟩
  exact ((hl.course h).keeps Flow.Step.bound hbound).isCancelled_eq

/-- Calls that have been made and the one that is bound to be made. -/
theorem Later.calls_eq (hl : Later script q q') (h : Reachable script q)
    (hc : q.isCancelled = true) :
    q'.calls + q'.phase.committed.length = q.calls + q.phase.committed.length := by
  have hcalls : q.calls = q.flow.journal.dispatched.length := h.flow.tally.calls_eq
  have hcalls' : q'.calls = q'.flow.journal.dispatched.length :=
    (h.later hl).flow.tally.calls_eq
  have hlen := congrArg List.length (hl.dispatched_eq h hc)
  rw [List.length_append, List.length_append] at hlen
  omega

theorem Later.calls_le (hl : Later script q q') (h : Reachable script q) :
    q.calls ≤ q'.calls := by
  have hcourse := hl.course h
  exact hcourse.keeps (P := fun c => q.calls ≤ c.calls) (fun hs hle => hle.trans hs.calls_le)
    le_rfl

/-- A dispatcher that is about to call comes to it, after the actions that were hooked to the last
event. -/
theorem exists_later_committed_nil {b : Batch} {due : List Action}
    (hs : q.scene = ⟨.dispatching b, some .dispatcher, none, due⟩) :
    ∃ q', Later script q q' ∧ q'.phase.committed = [] := by
  induction due generalizing q with
  | nil =>
    obtain ⟨hp, hturn, herrand, hdue⟩ := Scene.mk.inj hs
    have hstep : q.step? script = some (q.dispatch script b) := by
      simp only [step?, attend?, hdue, herrand, hturn, stepTurn, stepDispatcher, hp]
    refine ⟨q.dispatch script b, .single (.step hstep), ?_⟩
    rcases q.phase_dispatch b with hphase | hphase
    · rw [hphase, Phase.committed]
      simp
    · rw [hphase, Phase.committed]
      simp
  | cons a due ih =>
    obtain ⟨hp, hturn, herrand, hdue⟩ := Scene.mk.inj hs
    have hstep : q.step? script = some ({ q with due }.performHooked a) := by
      simp only [step?, attend?, hdue]
    have hscene : ({ q with due }.performHooked a).scene =
        ⟨.dispatching b, some .dispatcher, none, due⟩ := by
      rw [scene_performHooked, scene, hp, hturn, herrand]
    obtain ⟨q', hl, hnil⟩ := ih hscene
    exact ⟨q', .head (.step hstep) hl, hnil⟩

/-- After cancellation the work function is called for the batch the dispatcher is committed to, and
for no other. -/
theorem called_after_cancellation (h : Reachable script q) (hc : q.isCancelled = true) :
    (∀ q', Later script q q' → q'.flow.journal.dispatched ++ q'.phase.committed =
      q.flow.journal.dispatched ++ q.phase.committed) ∧
    ((∀ q', Later script q q' → q'.calls = q.calls) ↔ ∀ b, q.phase ≠ .dispatching b) := by
  constructor
  · intro q' hl
    exact hl.dispatched_eq h hc
  · constructor
    · intro hsame b hp
      have hbusy : q.scene.phase.isBusy = true := by simp [scene, hp, Phase.isBusy]
      have hturn : q.turn = some .dispatcher := h.proper.turn_eq hbusy
      have herrand : q.errand = none := h.proper.errand_eq hturn
      have hscene : q.scene = ⟨.dispatching b, some .dispatcher, none, q.due⟩ := by
        rw [scene, hp, hturn, herrand]
      have hcall : ∃ q', Later script q q' ∧ q'.phase.committed = [] :=
        exists_later_committed_nil hscene
      obtain ⟨q', hl, hnil⟩ := hcall
      have hcalls := hl.calls_eq h hc
      rw [hsame q' hl, hnil, hp] at hcalls
      simp [Phase.committed] at hcalls
    · intro hp q' hl
      have hcalls := hl.calls_eq h hc
      have hle := hl.calls_le h
      rw [Phase.committed_eq_nil hp, List.length_nil] at hcalls
      omega

/-- Runs that end at once. -/
def prompt : WorkScript := .ofList [] (.run {})

/-- A queue that is cancelled when it is about to call the work function. -/
def overtaken : Queue :=
  let cut : Hook := {
    message := "state_transition"
    before := some "draining"
    after := some "executing"
    actions := [.cancel] }
  let q : Queue := { config := { capacity := 1 }, mailbox := { free := 1 }, hooks := [cut] }
  iterate (step? prompt) 6 (q.act prompt (.add ⟨"x"⟩ 0)).2

theorem reachable_overtaken : Reachable prompt overtaken := by
  have hcapacity : (1 : Nat) ≤ QueueConfig.maxCapacity := by decide
  unfold overtaken
  apply Reachable.iterate
  · exact .step
  · exact (Reachable.new hcapacity _).act ⟨rfl, rfl, rfl⟩ _

theorem called_after_cancellation_overtaken :
    Reachable prompt overtaken ∧ overtaken.isCancelled = true ∧
    (∀ q', Later prompt overtaken q' → q'.flow.journal.dispatched ++ q'.phase.committed =
      overtaken.flow.journal.dispatched ++ overtaken.phase.committed) ∧
    ((∀ q', Later prompt overtaken q' → q'.calls = overtaken.calls) ↔
      ∀ b, overtaken.phase ≠ .dispatching b) := by
  have hcancelled : overtaken.isCancelled = true := by decide
  exact ⟨reachable_overtaken, hcancelled,
    called_after_cancellation reachable_overtaken hcancelled⟩

/-- A cancelled queue can make a call that it had not made before. -/
theorem overtaken_calls : Reachable prompt overtaken ∧ overtaken.isCancelled = true ∧
    overtaken.calls = 0 ∧ Later prompt overtaken (overtaken.settle prompt) ∧
    (overtaken.settle prompt).calls = 1 :=
  ⟨reachable_overtaken, by decide, by decide, later_settle prompt overtaken, by decide⟩

end Queue
end CoalescingQueue
