import CoalescingQueue.Proofs.Coalescing
import CoalescingQueue.Proofs.SingleFlight
import Mathlib.Data.Bool.Count

/-!
# Where every request went

The counters add up. Each request that was counted when it was offered has been executed or
superseded, is with the run in flight, was taken for a dispatch, is in the mailbox, or belongs to
a call that is undecided. This holds at every moment at which somebody can look, whether the
queue goes on or has come to its end.
-/
namespace CoalescingQueue
namespace Flow

variable {script : WorkScript} {c c' : Flow}

/-- Requests that were dispatched and whose outcome is not counted. -/
def unrecorded (c : Flow) : Nat := c.journal.dispatched.length - c.journal.outcomes.length

/-- Requests that were taken out of the mailbox and not dispatched, or not yet. -/
def undispatched (c : Flow) : List Request :=
  c.journal.discarded.flatMap Batch.toList ++ c.phase.taken

/-- The counters agree with each other and with what is where. -/
structure Balanced (c : Flow) : Prop where
  enqueued_eq : c.stats.enqueued = c.stats.executed + c.stats.superseded + c.unrecorded +
    c.undispatched.length + c.mailbox.buffer.length + c.undecided
  executed_eq : c.stats.executed = c.stats.succeeded + c.stats.failed
  dispatched_eq : c.journal.dispatched.length = c.stats.executed + c.unrecorded
  unrecorded_le : c.unrecorded ≤ 1
  /-- A call that broke down is never accounted for. -/
  unrecorded_dead : ∀ b, c.phase = .dead b → c.unrecorded = 1
  settled_le : c.stats.executed + c.stats.superseded ≤ c.stats.enqueued
  waiting_le : c.mailbox.waiting.length ≤ c.stats.enqueued
  /-- A waiting call that is refused takes back what it counted. -/
  retract_eq : ∀ w ∈ c.mailbox.waiting, c.stats.retractOffer.enqueued + 1 = c.stats.enqueued

theorem length_toList (b : Batch) : b.toList.length = b.superseded + 1 := by
  rw [Batch.toList, List.length_append, List.length_singleton, Batch.superseded]

theorem length_flatMap_toList (bs : List Batch) :
    (bs.flatMap Batch.toList).length = bs.length + (bs.flatMap Batch.older).length := by
  induction bs with
  | nil => rfl
  | cons b bs ih =>
    rw [List.flatMap_cons, List.flatMap_cons, List.length_append, List.length_append, ih,
      length_toList, Batch.superseded, List.length_cons]
    omega

theorem Serial.unrecorded_eq (hs : c.Serial) (ht : c.Tally) : c.unrecorded = c.phase.owed := by
  have hcalls := hs.calls_eq
  rw [ht.calls_eq] at hcalls
  unfold unrecorded
  omega

theorem Tally.executed_eq_add (ht : c.Tally) :
    c.stats.executed = c.stats.succeeded + c.stats.failed := by
  rw [ht.executed_eq, ht.succeeded_eq, ht.failed_eq]
  exact (List.count_true_add_count_false c.journal.outcomes).symm

theorem Reachable.balanced (h : Reachable script c) : c.Balanced := by
  have ht := h.tally
  have hrecorded := h.serial.unrecorded_eq ht
  have hcalls := h.serial.calls_eq
  rw [ht.calls_eq, ← ht.executed_eq, ← hrecorded] at hcalls
  have hexecuted := ht.executed_eq_add
  have hcounted := h.counted
  have harrivals : c.journal.arrivals.length = c.journal.dispatched.length + c.stats.superseded +
      c.undispatched.length + c.mailbox.buffer.length := by
    rw [h.partitioned, List.append_assoc _ _ c.phase.taken, List.length_append, List.length_append,
      length_flatMap_toList, ← ht.superseded_eq]
    rfl
  -- with the history gone, what is left is arithmetic
  unfold Counted at hcounted
  have howed := c.phase.owed_le_one
  have hwaiting : c.mailbox.waiting.length ≤ c.stats.enqueued := by
    unfold undecided at hcounted
    omega
  refine ⟨by omega, hexecuted, hcalls, by omega, ?_, by omega, hwaiting, ?_⟩
  · intro b hp
    rw [hrecorded, hp, Phase.owed]
  · intro w hw
    have hpos : 0 < c.mailbox.waiting.length := List.length_pos_of_mem hw
    show c.stats.enqueued - 1 + 1 = c.stats.enqueued
    omega

end Flow

/-- Counters that were seen are those of a flow that had the same past. -/
def SeenIn (script : WorkScript) (before : History) (f : Fact) : Prop :=
  ∀ s stats, f = .observed s → s.stats = some stats →
    ∃ c : Flow, c.Reachable script ∧ c.journal = before ∧ c.stats = stats ∧ c.Balanced

namespace Flow

variable {script : WorkScript} {c c' : Flow}

theorem Step.seen (h : Step script c c') (hc : c.Reachable script)
    (hi : c.journal.Always (SeenIn script)) : c'.journal.Always (SeenIn script) := by
  refine h.always ?_ ?_ ?_ ?_ ?_ hi
  · rintro before f hf s stats rfl
    simp [Fact.isPlain] at hf
  · exact fun _ _ _ _ h => by cases h
  · exact fun _ _ _ _ h => by cases h
  · exact fun _ _ _ _ _ _ h => by cases h
  · intro s hs s' stats heq hstats
    obtain rfl := Fact.observed.inj heq
    exact ⟨c, hc, rfl, (hs stats hstats).symm, hc.balanced⟩

theorem Reachable.seen (h : Reachable script c) : c.journal.Always (SeenIn script) :=
  h.keeps (fun _ => History.always_nil _) fun ha hs hi => hs.seen ha hi

end Flow

namespace Queue

variable {script : WorkScript} {q : Queue}

/-- No request is lost from the count, now or at any moment at which it was looked at. -/
theorem conserves (h : Reachable script q) :
    q.flow.Balanced ∧ q.flow.journal.Always (SeenIn script) :=
  ⟨h.flow.balanced, h.flow.seen⟩

/-- Every call breaks down. -/
def broken : WorkScript := .ofList [] .breakdown

/-- A queue that is looked at during its drain, after which it breaks down. -/
def watched : Queue :=
  let look : Hook := { message := "request superseded", actions := [.snapshot] }
  let q : Queue := { config := narrow, mailbox := { free := narrow.capacity }, hooks := [look] }
  (q.act broken (.burst [⟨"a"⟩, ⟨"b"⟩, ⟨"c"⟩] 0)).2.settle broken

theorem reachable_watched : Reachable broken watched := by
  have hcapacity : narrow.capacity ≤ QueueConfig.maxCapacity := by decide
  exact ((Reachable.new hcapacity _).act ⟨rfl, rfl, rfl⟩ _).settle

/-- The waiting request was counted when the drain was looked at and is taken back in the end. -/
theorem conserves_watched : Reachable broken watched ∧
    watched.flow.journal.observed.map (·.stats.map Stats.enqueued) = [some 3] ∧
    watched.stats.enqueued = 2 ∧ watched.flow.unrecorded = 1 ∧
    (watched.flow.Balanced ∧ watched.flow.journal.Always (SeenIn broken)) :=
  ⟨reachable_watched, by decide, by decide, by decide, conserves reachable_watched⟩

end Queue
end CoalescingQueue
