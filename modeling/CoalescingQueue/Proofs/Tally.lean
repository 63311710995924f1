import CoalescingQueue.Proofs.Moves

/-!
# Counters and history

The counters of a queue say how much of each thing has happened. Here each of them is tied to
the history, whatever the dispatcher is doing. How the counters relate to each other does depend
on that and is not said here.
-/
namespace CoalescingQueue.Flow

variable {script : WorkScript} {c c' : Flow}

/-- Offers that were counted and whose request neither entered the mailbox nor was taken back:
calls that wait, and calls that went away while they waited. -/
def undecided (c : Flow) : Nat := c.mailbox.waiting.length + c.journal.forsaken.length

/-- What the dispatcher counted. -/
structure Tally (c : Flow) : Prop where
  calls_eq : c.calls = c.journal.dispatched.length
  superseded_eq : c.stats.superseded = (c.journal.dispatched.flatMap Batch.older).length
  last_eq : c.stats.lastDispatched = c.journal.dispatched.getLast?.map (·.latest.id)
  executed_eq : c.stats.executed = c.journal.outcomes.length
  succeeded_eq : c.stats.succeeded = c.journal.outcomes.count true
  failed_eq : c.stats.failed = c.journal.outcomes.count false

/-- What depends on the counters and on the history of dispatches and outcomes alone. -/
theorem Tally.congr (hi : c.Tally) (hs : { c'.stats with enqueued := c.stats.enqueued } = c.stats)
    (hcalls : c'.calls = c.calls) (hd : c'.journal.dispatched = c.journal.dispatched)
    (ho : c'.journal.outcomes = c.journal.outcomes) : c'.Tally := by
  obtain ⟨h₁, h₂, h₃, h₄, h₅, h₆⟩ := hi
  rw [← hs, ← hd] at h₂ h₃
  rw [← hs, ← ho] at h₄ h₅ h₆
  exact ⟨by rw [hcalls, hd, h₁], h₂, h₃, h₄, h₅, h₆⟩

theorem Tally.call (hi : c.Tally) (b : Batch) : (c.call b).Tally := by
  have hdispatched : (c.call b).journal.dispatched = c.journal.dispatched ++ [b] := by
    simp [Flow.call, note]
  have houtcomes : (c.call b).journal.outcomes = c.journal.outcomes := by
    simp [Flow.call, note]
  constructor
  · rw [hdispatched, List.length_append, ← hi.calls_eq]
    rfl
  · rw [hdispatched, List.flatMap_append, List.length_append, ← hi.superseded_eq]
    simp [Flow.call, note, Stats.countDispatch, Batch.superseded]
  · rw [hdispatched, List.getLast?_concat]
    rfl
  · rw [houtcomes]
    exact hi.executed_eq
  · rw [houtcomes]
    exact hi.succeeded_eq
  · rw [houtcomes]
    exact hi.failed_eq

theorem Tally.conclude (hi : c.Tally) (isSuccess : Bool) (elapsed : Nat) :
    (c.conclude isSuccess elapsed).Tally := by
  have hdispatched : (c.conclude isSuccess elapsed).journal.dispatched = c.journal.dispatched := by
    simp [Flow.conclude, note]
  have houtcomes : (c.conclude isSuccess elapsed).journal.outcomes =
      c.journal.outcomes ++ [isSuccess] := by
    simp [Flow.conclude, note]
  constructor
  · rw [hdispatched]
    exact hi.calls_eq
  · rw [hdispatched, ← hi.superseded_eq]
    cases isSuccess <;> rfl
  · rw [hdispatched, ← hi.last_eq]
    cases isSuccess <;> rfl
  · rw [houtcomes, List.length_append, ← hi.executed_eq]
    cases isSuccess <;> rfl
  · rw [houtcomes, List.count_append, ← hi.succeeded_eq]
    cases isSuccess <;> rfl
  · rw [houtcomes, List.count_append, ← hi.failed_eq]
    cases isSuccess <;> rfl

theorem Step.tally (h : Step script c c') (hi : c.Tally) : c'.Tally := by
  cases h with
  | remark hf => cases hf <;> exact hi.congr rfl rfl (by simp [note]) (by simp [note])
  | launch hp | breakDown hp =>
    exact (hi.call _).congr rfl rfl (by simp [Flow.call, note]) (by simp [Flow.call, note])
  | @relax b ending elapsed | @retire b ending elapsed =>
    have hconcluded := hi.conclude ending.isSuccess elapsed
    exact hconcluded.congr rfl rfl (by simp [Flow.conclude, log, note, enter])
      (by simp [Flow.conclude, log, note, enter])
  | _ => exact hi.congr rfl rfl (by simp [log, note, enter]) (by simp [log, note, enter])

theorem length_dismiss {m : Mailbox} {w : Waiter} (hm : m.tickets.Nodup) (hw : w ∈ m.waiting) :
    (m.dismiss w.ticket).waiting.length + 1 = m.waiting.length := by
  have hmem : w.ticket ∈ m.tickets := List.mem_map_of_mem hw
  have herase : (m.dismiss w.ticket).tickets = m.tickets.erase w.ticket := by
    rw [Mailbox.dismiss_tickets, hm.erase_eq_filter]
    simp only [ne_eq, decide_not]
    rfl
  have hlen := List.length_erase_of_mem hmem
  have hpos := List.length_pos_of_mem hmem
  rw [← herase] at hlen
  simp only [Mailbox.tickets, List.length_map] at hlen hpos
  omega

theorem length_release (m : Mailbox) : m.release.2.waiting.length = m.waiting.length := by
  have htickets := congrArg List.length m.release_tickets
  simpa [Mailbox.tickets] using htickets

/-- Each offer that was counted entered the mailbox or is undecided. -/
def Counted (c : Flow) : Prop := c.stats.enqueued = c.journal.arrivals.length + c.undecided

theorem counted_iff : c.Counted ↔ c.stats.enqueued =
    (c.journal.gather Fact.admitted?).length +
      (c.mailbox.waiting.length + (c.journal.gather Fact.forsaken?).length) := Iff.rfl

/-- What depends on the count and on what became of the offers alone. -/
theorem Counted.congr (hi : c.Counted) (hs : c'.stats.enqueued = c.stats.enqueued)
    (hw : c'.mailbox.waiting.length = c.mailbox.waiting.length)
    (ha : c'.journal.arrivals = c.journal.arrivals)
    (hf : c'.journal.forsaken = c.journal.forsaken) : c'.Counted := by
  unfold Counted undecided at hi ⊢
  rw [hs, hw, ha, hf, hi]

theorem enqueued_countOutcome (s : Stats) (isSuccess : Bool) :
    (s.countOutcome isSuccess).enqueued = s.enqueued := by
  cases isSuccess <;> rfl

theorem Step.counted (h : Step script c c') (ht : c.Tidy) (hi : c.Counted) : c'.Counted := by
  cases h with
  | remark hf => cases hf <;> exact hi.congr rfl rfl (by simp [note]) (by simp [note])
  | put hopen hput =>
    obtain rfl := Mailbox.eq_of_put? hput
    rw [counted_iff] at hi ⊢
    simp [note, Stats.countOffer, Mailbox.append]
    omega
  | enlist =>
    rw [counted_iff] at hi ⊢
    simp [Stats.countOffer, Mailbox.enlist]
    omega
  | join hopen hw =>
    have hlen := length_dismiss ht.nodup hw
    rw [counted_iff] at hi ⊢
    simp [note, Mailbox.append]
    omega
  | withdraw hw =>
    have hlen := length_dismiss ht.nodup hw
    rw [counted_iff] at hi ⊢
    simp only [Stats.retractOffer]
    omega
  | forsake hw =>
    have hlen := length_dismiss ht.nodup hw
    rw [counted_iff] at hi ⊢
    simp [note]
    omega
  | release => exact hi.congr rfl (length_release _) rfl rfl
  | receive hp hc htake | drain hp htake =>
    have hwaiting := congrArg Mailbox.waiting (Mailbox.eq_of_take? htake)
    exact hi.congr rfl (congrArg List.length hwaiting.symm) (by simp [log, note, enter])
      (by simp [log, note, enter])
  | @relax b ending | @retire b ending =>
    have henqueued := enqueued_countOutcome c.stats ending.isSuccess
    exact hi.congr henqueued rfl (by simp [conclude, log, note, enter])
      (by simp [conclude, log, note, enter])
  | _ =>
    exact hi.congr rfl rfl (by simp [log, note, enter, call]) (by simp [log, note, enter, call])

theorem Reachable.tally (h : Reachable script c) : c.Tally :=
  h.keeps (fun _ => ⟨rfl, rfl, rfl, rfl, rfl, rfl⟩) fun _ hs hi => hs.tally hi

theorem Reachable.counted (h : Reachable script c) : c.Counted :=
  h.keeps (fun _ => rfl) fun ha hs hi => hs.counted ha.tidy hi

end CoalescingQueue.Flow
