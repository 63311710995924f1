import CoalescingQueue.Queue.Step
import Mathlib.Logic.Relation

/-!
# Reachable queues

Everything that can happen to a queue, one move at a time. A queue is settled, acted on and
advanced by such moves only, so what holds of a new queue and is kept by each move holds of
every queue that is ever seen. The moves say nothing about how often they are made: in
particular they do not promise that a queue comes to rest.
-/
namespace CoalescingQueue.Queue

/-- Nobody is in the middle of a turn or of an action. -/
structure IsFree (q : Queue) : Prop where
  turn_eq : q.turn = none
  errand_eq : q.errand = none
  due_eq : q.due = []

/-- One move. Actions come from outside while nobody has a turn, and the clock moves on only while
everything is at rest, at most to the time at which the run wakes up. -/
inductive Move (script : WorkScript) (q : Queue) : Queue → Prop
  | step {q' : Queue} (h : q.step? script = some q') : Move script q q'
  | act (h : q.IsFree) (a : Action) : Move script q ({ q with reply := .nothing }.begin a)
  | abandon (h : q.IsFree) (ticket : Nat) : Move script q (q.abandon ticket)
  | wake (h : q.AtRest script) {time : Nat} (ht : q.deadline? = some time) :
      Move script q (q.wakeRunAt time)
  | wait (h : q.AtRest script) {time : Nat} (ht : ∀ d, q.deadline? = some d → time < d) :
      Move script q (q.clockTo time)

/-- A queue that comes from a new one by moves. -/
inductive Reachable (script : WorkScript) : Queue → Prop
  | opened {config : QueueConfig} {hooks : List Hook} {q : Queue}
      (h : open? config hooks = some q) : Reachable script q
  | move {q q' : Queue} (h : Reachable script q) (hm : Move script q q') : Reachable script q'

/-- A queue that comes from a new one by moves, while the caller of each call that waits stays. -/
inductive Attended (script : WorkScript) : Queue → Prop
  | opened {config : QueueConfig} {hooks : List Hook} {q : Queue}
      (h : open? config hooks = some q) : Attended script q
  | move {q q' : Queue} (h : Attended script q) (hm : Move script q q')
      (hstays : ∀ w ∈ q.mailbox.waiting, q' ≠ q.abandon w.ticket) : Attended script q'

/-- One queue is what another becomes by moves. -/
def Later (script : WorkScript) : Queue → Queue → Prop := Relation.ReflTransGen (Move script)

theorem Attended.reachable {script : WorkScript} {q : Queue} (h : Attended script q) :
    Reachable script q := by
  induction h with
  | opened hq => exact .opened hq
  | move _ hm _ ih => exact ih.move hm

theorem step?_of_attend? {script : WorkScript} {q q' : Queue} (h : q.attend? = some q') :
    q.step? script = some q' := by
  simp [step?, h]

theorem errand_of_attend? {q : Queue} (h : q.attend? = none) : q.errand = none ∧ q.due = [] := by
  unfold attend? at h
  split at h
  · simp at h
  · simp at h
  · next hdue herrand => exact ⟨herrand, hdue⟩

theorem IsFree.attend? {q : Queue} (h : q.IsFree) : q.attend? = none := by
  unfold Queue.attend?
  rw [h.due_eq, h.errand_eq]

/-- Whoever finds a queue at rest may act on it. -/
theorem AtRest.isFree {script : WorkScript} {q : Queue} (h : q.AtRest script) : q.IsFree := by
  unfold AtRest step? at h
  split at h
  · simp at h
  · next ha =>
    obtain ⟨herrand, hdue⟩ := errand_of_attend? ha
    split at h
    · simp at h
    · next hturn => exact ⟨hturn, herrand, hdue⟩

theorem isFree_of_open? {config : QueueConfig} {hooks : List Hook} {q : Queue}
    (h : open? config hooks = some q) : q.IsFree := by
  unfold open? at h
  split at h
  · obtain rfl := Option.some.inj h
    exact ⟨rfl, rfl, rfl⟩
  · simp at h

theorem later_iterate {script : WorkScript} {next? : Queue → Option Queue}
    (hn : ∀ {q q' : Queue}, next? q = some q' → Move script q q') (q : Queue) (n : Nat) :
    Later script q (iterate next? n q) := by
  induction n generalizing q with
  | zero => exact .refl
  | succ n ih =>
    unfold Queue.iterate
    split
    · next hq => exact .head (hn hq) (ih _)
    · exact .refl

theorem later_settle (script : WorkScript) (q : Queue) : Later script q (q.settle script) :=
  later_iterate .step q _

namespace Reachable

variable {script : WorkScript} {q : Queue}

theorem new {config : QueueConfig} (h : config.capacity ≤ QueueConfig.maxCapacity)
    (hooks : List Hook) :
    Reachable script { config, mailbox := { free := config.capacity }, hooks } :=
  opened (if_pos h)

theorem later {q' : Queue} (h : Reachable script q) (hl : Later script q q') :
    Reachable script q' := by
  induction hl with
  | refl => exact h
  | tail _ hm ih => exact ih.move hm

theorem iterate {next? : Queue → Option Queue}
    (hn : ∀ {q q' : Queue}, next? q = some q' → Move script q q') (h : Reachable script q)
    (n : Nat) : Reachable script (iterate next? n q) :=
  h.later (later_iterate hn q n)

theorem settle (h : Reachable script q) : Reachable script (q.settle script) :=
  h.iterate .step _

/-- An action from outside leads from one reachable queue to another. -/
theorem act (h : Reachable script q) (hf : q.IsFree) (a : Action) :
    Reachable script (q.act script a).2 :=
  (h.move (.act hf a)).iterate (fun hq => .step (step?_of_attend? hq)) _

theorem advanceWithin (h : Reachable script q) (time n : Nat) :
    Reachable script (advanceWithin script time n q) := by
  induction n generalizing q with
  | zero => exact h
  | succ n ih =>
    simp only [Queue.advanceWithin]
    split
    · next hr =>
      have hr := isAtRest_iff.mp hr
      split
      · next deadline hd =>
        split
        · exact ih (h.settle.move (.wake hr hd))
        · split
          · next heq => exact h.settle.move (.wake hr (heq ▸ hd))
          · refine h.settle.move (.wait hr fun d hd' => ?_)
            rw [hd, Option.some.injEq] at hd'
            omega
      · next hd =>
        exact h.settle.move (.wait hr fun d hd' => by simp [hd] at hd')
    · exact h.settle

/-- Letting the clock run leads from one reachable queue to another. -/
theorem advance (h : Reachable script q) (ms : Nat) : Reachable script (q.advance script ms) :=
  (h.advanceWithin _ _).settle

end Reachable

end CoalescingQueue.Queue
