import CoalescingQueue.Proofs.Fates
import CoalescingQueue.Proofs.Resting

/-!
# When all handles are gone

A queue that nobody cancels is left by its dispatcher only when nobody can offer anything any
more, which comes after the last request that was accepted. So what was buffered when the last
handle went, and what calls that waited then still brought in, is dispatched first. What comes of
a queue whose work function breaks down is not said here.
-/
namespace CoalescingQueue
namespace Flow

variable {script : WorkScript} {c c' : Flow}

theorem Step.tickets_le (h : Step script c c') : c.tickets ≤ c'.tickets := by
  cases h with
  | enlist | draw => exact Nat.le_succ _
  | _ => exact le_rfl

end Flow

namespace Queue

variable {script : WorkScript} {p q : Queue}

theorem Later.tickets_le (hl : Later script p q) (h : Reachable script p) :
    p.tickets ≤ q.tickets := by
  have hcourse := hl.course h
  exact hcourse.keeps (P := fun c => p.tickets ≤ c.tickets)
    (fun hs hle => hle.trans hs.tickets_le) le_rfl

/-- The call of this ticket has ended well, or its caller went away. -/
def IsServed (q : Queue) (ticket : Nat) : Prop :=
  (∃ time, Fact.ended ticket .accepted time ∈ q.flow.journal) ∨
    ticket ∈ q.flow.journal.forsaken

/-- Once nobody waits any more, each ticket that was drawn was served, unless the queue came to
its end before. -/
theorem Reachable.isServed (h : Reachable script q) (hc : q.isCancelled = false)
    (hlive : q.phase.isDead = false) (hwaiting : q.mailbox.waiting = []) {ticket : Nat}
    (ht : ticket < q.tickets) : q.IsServed ticket := by
  have hclosers : q.closers = [] := by
    by_contra hne
    exact absurd (hc.symm.trans (h.parts.awaited hne).1) Bool.false_ne_true
  have hdrawn := h.orderly.tickets_perm.mem_iff.mpr (List.mem_range.mpr ht)
  unfold Mailbox.tickets at hdrawn
  rw [hclosers, hwaiting, List.map_nil, List.nil_append, List.nil_append] at hdrawn
  obtain ⟨f, hf, hover⟩ := List.mem_filterMap.mp hdrawn
  cases f with
  | ended ended reply time =>
    obtain rfl := Option.some.inj hover
    rcases h.parts.replied ended reply time hf with rfl | hcancelled | hdead
    · exact .inl ⟨time, hf⟩
    · exact absurd (hc.symm.trans hcancelled) Bool.false_ne_true
    · exact absurd (hlive.symm.trans hdead) Bool.false_ne_true
  | forsaken gone =>
    obtain rfl := Option.some.inj hover
    exact .inr (List.mem_filterMap.mpr ⟨_, hf, rfl⟩)
  | _ => contradiction

/-- Everything that was accepted was dispatched, and the queue has stopped. -/
structure IsFinished (q : Queue) : Prop where
  published_eq : q.published = .stopped
  buffer_eq : q.mailbox.buffer = []
  arrivals_eq : q.flow.journal.arrivals = q.flow.journal.dispatched.flatMap Batch.toList
  settled_eq : q.stats.executed + q.stats.superseded = q.flow.journal.arrivals.length

/-- A queue that is not cancelled and lives stops when it is deserted. -/
theorem Reachable.isDeserted (h : Reachable script q) (hc : q.isCancelled = false)
    (hlive : q.phase.isDead = false) (hleft : q.phase.isExit = true ∨ q.isStopped = true) :
    q.IsDeserted := by
  refine h.parts.deserted ?_ hc
  rcases hleft with hexit | hstopped
  · exact hexit
  · have hover : q.phase.isOver = true := by
      rw [isStopped, hc, Bool.false_or] at hstopped
      exact h.parts.isClosed_eq.symm.trans hstopped
    cases hp : q.phase with
    | stopped => rfl
    | dead b =>
      rw [hp] at hlive
      contradiction
    | _ =>
      rw [hp] at hover
      contradiction

theorem Reachable.isFinished (h : Reachable script q) (hr : q.AtRest script)
    (hc : q.isCancelled = false) (hlive : q.phase.isDead = false) (hhandle : q.hasHandle = false)
    (hrun : q.run = none) : q.IsFinished := by
  have hp : q.phase = .stopped := by
    rcases h.phase_atRest hr with hp | ⟨b, hp⟩ | hp | hdead
    · have hheld := (h.rests_idle hr hp).hasHandle_eq
      rw [hhandle] at hheld
      contradiction
    · obtain ⟨run, hsome, -⟩ := h.hasOneRun hr hp
      rw [hrun] at hsome
      contradiction
    · exact hp
    · exact absurd (hlive.symm.trans hdead) Bool.false_ne_true
  have hpublished : q.published = .stopped :=
    h.flow.posture.published_eq _ (congrArg Phase.shown? hp)
  have hbuffer := (h.isDeserted hc hlive (.inl (congrArg Phase.isExit hp))).buffer_eq
  have harrivals := h.flow.arrivals_eq hc (congrArg Phase.taken hp) hbuffer
  refine ⟨hpublished, hbuffer, harrivals, ?_⟩
  rw [harrivals]
  exact h.flow.settled_eq (congrArg Phase.owed hp)

/-- A queue that is not cancelled is not left while somebody holds it, waits at it or has left a
request in it. Once it is, everything that was accepted has been dispatched, and the calls that
waited at any time got their room. -/
theorem deserted_finishes (h : Reachable script q) (hc : q.isCancelled = false)
    (hlive : q.phase.isDead = false) :
    (q.phase.isExit = true ∨ q.isStopped = true → q.IsDeserted) ∧
    (q.AtRest script → q.hasHandle = false → q.run = none → q.IsFinished ∧
      ∀ p, Reachable script p → Later script p q → ∀ w ∈ p.mailbox.waiting,
        q.IsServed w.ticket) ∧
    (Attended script q → q.flow.journal.forsaken = []) := by
  refine ⟨h.isDeserted hc hlive, fun hr hhandle hrun => ?_, Attended.forsaken_eq⟩
  have hfinished := h.isFinished hr hc hlive hhandle hrun
  refine ⟨hfinished, fun p hp hl w hw => ?_⟩
  have hstopped : q.phase = .stopped := h.flow.announced.mp hfinished.published_eq
  have hwaiting := (h.isDeserted hc hlive (.inl (congrArg Phase.isExit hstopped))).waiting_eq
  have hdrawn : w.ticket < p.tickets := by
    refine List.mem_range.mp (hp.orderly.tickets_perm.subset ?_)
    exact List.mem_append_left _ (List.mem_append_left _ (List.mem_map_of_mem hw))
  exact h.isServed hc hlive hwaiting (hdrawn.trans_le (hl.tickets_le hp))

/-- A run is in flight, the mailbox is full, and another request waits for room. -/
def busy : Queue :=
  let q : Queue := { config := narrow, mailbox := { free := narrow.capacity } }
  (q.act patient (.burst [⟨"a"⟩, ⟨"b"⟩, ⟨"c"⟩, ⟨"d"⟩, ⟨"e"⟩] 0)).2.settle patient

theorem reachable_busy : Reachable patient busy := by
  have hcapacity : narrow.capacity ≤ QueueConfig.maxCapacity := by decide
  exact ((Reachable.new hcapacity []).act ⟨rfl, rfl, rfl⟩ _).settle

/-- The last handle of the busy queue goes, and then there is time enough. -/
def orphaned : Queue := (busy.act patient (.drop 0)).2.advance patient 20

theorem reachable_orphaned : Reachable patient orphaned := by
  have hrest : busy.AtRest patient := isAtRest_iff.mp (by decide)
  exact (reachable_busy.act hrest.isFree _).advance 20

theorem deserted_finishes_orphaned : Reachable patient orphaned ∧
    orphaned.isCancelled = false ∧ orphaned.phase.isDead = false ∧ orphaned.AtRest patient ∧
    orphaned.hasHandle = false ∧ orphaned.run = none ∧
    busy.mailbox.waiting.map (·.request) = [⟨"e"⟩] ∧
    (orphaned.phase.isExit = true ∨ orphaned.isStopped = true → orphaned.IsDeserted) ∧
    (orphaned.IsFinished ∧ ∀ p, Reachable patient p → Later patient p orphaned →
      ∀ w ∈ p.mailbox.waiting, orphaned.IsServed w.ticket) ∧
    (Attended patient orphaned → orphaned.flow.journal.forsaken = []) := by
  have hc : orphaned.isCancelled = false := by decide
  have hlive : orphaned.phase.isDead = false := by decide
  have hrest : orphaned.AtRest patient := isAtRest_iff.mp (by decide)
  have hhandle : orphaned.hasHandle = false := by decide
  have hrun : orphaned.run = none := Option.isNone_iff_eq_none.mp (by decide)
  obtain ⟨hdeserted, hfinishes, hattended⟩ := deserted_finishes reachable_orphaned hc hlive
  exact ⟨reachable_orphaned, hc, hlive, hrest, hhandle, hrun, by decide, hdeserted,
    hfinishes hrest hhandle hrun, hattended⟩

end Queue
end CoalescingQueue
