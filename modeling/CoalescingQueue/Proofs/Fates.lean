import CoalescingQueue.Proofs.Conservation

/-!
# What became of the requests

Once the dispatcher has stopped, each request that entered the mailbox was dispatched with its
batch, was dropped with a batch that was drained and not dispatched, or is still in the mailbox.
Only the first are counted, as executed or as superseded. So the counters account for everything
that left the mailbox exactly if no batch was dropped.
-/
namespace CoalescingQueue
namespace Flow

variable {script : WorkScript} {c c' : Flow}

/-- That the queue has stopped is published at the end and not before. -/
def Announced (c : Flow) : Prop := c.published = .stopped ↔ c.phase = .stopped

theorem Announced.congr (hi : c.Announced) (hpublished : c'.published = c.published)
    (hbefore : c.phase ≠ .stopped) (hafter : c'.phase ≠ .stopped) : c'.Announced := by
  have hnot : c.published ≠ .stopped := fun hp => hbefore (hi.mp hp)
  rw [← hpublished] at hnot
  exact ⟨fun hp => absurd hp hnot, fun hp => absurd hp hafter⟩

theorem Step.announced (h : Step script c c') (hi : c.Announced) : c'.Announced := by
  cases h with
  | start hp | heed hp | abandon hp | count hp | drain hp | discard hp | launch hp | breakDown hp
  | report hp | retire hp | leaveDrain hp | leaveRun hp =>
    exact hi.congr rfl (by rw [hp]; nofun) nofun
  | receive | engage | relax => exact ⟨nofun, nofun⟩
  | close => exact ⟨fun _ => rfl, fun _ => rfl⟩
  | _ => exact hi

theorem Reachable.announced (h : Reachable script c) : c.Announced :=
  h.keeps (fun _ => ⟨nofun, nofun⟩) fun _ hs hi => hs.announced hi

/-- While nothing is taken or buffered, a queue that is not cancelled has dispatched all that came. -/
theorem Reachable.arrivals_eq (h : Reachable script c) (hc : c.isCancelled = false)
    (htaken : c.phase.taken = []) (hbuffer : c.mailbox.buffer = []) :
    c.journal.arrivals = c.journal.dispatched.flatMap Batch.toList := by
  have hdiscarded : c.journal.discarded = [] := by
    rcases h.dropped with hnone | ⟨-, hcancelled, -⟩
    · exact hnone
    · exact absurd (hc.symm.trans hcancelled) Bool.false_ne_true
  have hparts : c.journal.arrivals = _ := h.partitioned
  rw [hdiscarded, htaken, hbuffer] at hparts
  simpa using hparts

/-- Unless a call is owed, the counters account for the requests that were dispatched. -/
theorem Reachable.executed_eq (h : Reachable script c) (howed : c.phase.owed = 0) :
    c.stats.executed = c.journal.dispatched.length := by
  have hdispatched := h.balanced.dispatched_eq
  rw [h.serial.unrecorded_eq h.tally, howed] at hdispatched
  exact hdispatched.symm

theorem Reachable.settled_eq (h : Reachable script c) (howed : c.phase.owed = 0) :
    c.stats.executed + c.stats.superseded =
      (c.journal.dispatched.flatMap Batch.toList).length := by
  rw [length_flatMap_toList, ← h.tally.superseded_eq, h.executed_eq howed]

end Flow

namespace Queue

variable {script : WorkScript} {q : Queue}

/-- Where the requests are that entered a queue that has stopped. -/
structure Fates (q : Queue) : Prop where
  arrivals_eq : q.flow.journal.arrivals =
    q.flow.journal.dispatched.flatMap Batch.toList ++
      q.flow.journal.discarded.flatMap Batch.toList ++ q.mailbox.buffer
  /-- Of each batch that was dispatched the latest was executed, and the others superseded. -/
  executed_eq : q.stats.executed = q.flow.journal.dispatched.length
  superseded_eq : q.stats.superseded = (q.flow.journal.dispatched.flatMap Batch.older).length
  /-- One batch is dropped at most, because the queue was cancelled during its drain. -/
  discarded : q.flow.journal.discarded = [] ∨
    (∃ b, q.flow.journal.discarded = [b]) ∧ q.isCancelled = true
  counted_eq : q.stats.executed + q.stats.superseded + q.mailbox.buffer.length +
    (q.flow.journal.discarded.flatMap Batch.toList).length = q.flow.journal.arrivals.length
  accounted_iff : q.stats.executed + q.stats.superseded + q.mailbox.buffer.length =
    q.flow.journal.arrivals.length ↔ q.flow.journal.discarded = []

theorem fates_of_stopped (h : Reachable script q) (hs : q.published = .stopped) : q.Fates := by
  have hf := h.flow
  have hp : q.phase = .stopped := hf.announced.mp hs
  have howed : q.flow.phase.owed = 0 := congrArg Phase.owed hp
  have htaken : q.flow.phase.taken = [] := congrArg Phase.taken hp
  have harrivals : q.flow.journal.arrivals =
      q.flow.journal.dispatched.flatMap Batch.toList ++
        q.flow.journal.discarded.flatMap Batch.toList ++ q.mailbox.buffer := by
    have hparts : q.flow.journal.arrivals = _ := hf.partitioned
    rwa [htaken, List.append_nil] at hparts
  have hsettled : q.stats.executed + q.stats.superseded =
      (q.flow.journal.dispatched.flatMap Batch.toList).length := hf.settled_eq howed
  have hcounted : q.stats.executed + q.stats.superseded + q.mailbox.buffer.length +
      (q.flow.journal.discarded.flatMap Batch.toList).length =
        q.flow.journal.arrivals.length := by
    rw [harrivals, List.length_append, List.length_append]
    omega
  refine ⟨harrivals, hf.executed_eq howed, hf.tally.superseded_eq, ?_, hcounted, ?_⟩
  · rcases hf.dropped with hnone | ⟨hone, hc, -⟩
    · exact .inl hnone
    · exact .inr ⟨hone, hc⟩
  · constructor
    · intro hall
      rcases hf.dropped with hnone | ⟨⟨b, hone⟩, -, -⟩
      · exact hnone
      · -- a batch is never empty
        rw [hone, List.flatMap_singleton, Flow.length_toList] at hcounted
        omega
    · intro hnone
      rw [hnone, List.flatMap_nil, List.length_nil] at hcounted
      exact hcounted

/-- A queue that is cancelled during its first drain. -/
def forestalled : Queue :=
  let cut : Hook := { message := "request superseded", actions := [.cancel] }
  let q : Queue := { config := narrow, mailbox := { free := narrow.capacity }, hooks := [cut] }
  (q.act patient (.burst [⟨"x"⟩, ⟨"y"⟩] 0)).2.settle patient

theorem reachable_forestalled : Reachable patient forestalled := by
  have hcapacity : narrow.capacity ≤ QueueConfig.maxCapacity := by decide
  exact ((Reachable.new hcapacity _).act ⟨rfl, rfl, rfl⟩ _).settle

theorem fates_of_stopped_forestalled : Reachable patient forestalled ∧
    forestalled.published = .stopped ∧
    forestalled.flow.journal.discarded = [⟨[⟨"x"⟩], ⟨"y"⟩⟩] ∧ forestalled.Fates := by
  have hstopped : forestalled.published = .stopped := by decide
  exact ⟨reachable_forestalled, hstopped, by decide,
    fates_of_stopped reachable_forestalled hstopped⟩

/-- Two requests that were accepted and left the mailbox are counted nowhere. -/
theorem forestalled_unaccounted : Reachable patient forestalled ∧
    forestalled.published = .stopped ∧ (∀ n, patient.call n ≠ .breakdown) ∧
    forestalled.flow.journal.arrivals = [⟨"x"⟩, ⟨"y"⟩] ∧
    forestalled.stats.executed + forestalled.stats.superseded +
      forestalled.mailbox.buffer.length = 0 :=
  ⟨reachable_forestalled, by decide, nofun, by decide, by decide⟩

end Queue
end CoalescingQueue
