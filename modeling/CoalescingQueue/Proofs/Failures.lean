import CoalescingQueue.Proofs.Programs
import CoalescingQueue.Proofs.Rounds

/-!
# Which runs fail

The work function numbers its calls, and the dispatcher counts outcomes. The two go together, so
what is counted and reported of a run is what its number says, whatever was superseded, dropped or
refused in between. This holds at every moment of a program that works with a simulation; a run in
flight is not spoken of before it is reported.
-/
namespace CoalescingQueue

/-- What is reported of a run that has ended: nothing if it ended well, and otherwise why not. -/
@[simp] def Fact.complaint? : Fact → Option (Option String)
  | .logged ⟨.completed _ _ _, _⟩ => some none
  | .logged ⟨.failed _ _ reason, _⟩ => some (some reason)
  | _ => none

/-- What was reported of the runs, one after the other. -/
abbrev History.complaints (h : History) : List (Option String) := h.gather Fact.complaint?

def Ending.complaint (e : Ending) : Option String := if e.isSuccess then none else some e.reason

def Work.complaint : Work → Option String
  | .breakdown => none
  | .run plan => plan.ending.complaint

theorem Fact.IsAside.complaint_eq_none {f : Fact} (h : f.IsAside) : f.complaint? = none := by
  cases h with
  | @logged r he =>
    obtain ⟨e, span⟩ := r
    cases e <;> simp_all [Event.isAside]
  | _ => rfl

/-- Whoever is named in a report has had a run of his own. -/
theorem History.length_complaints (h : History) : h.complaints.length = h.reported.length := by
  induction h with
  | nil => rfl
  | cons f h ih =>
    rw [complaints, reported, gather_cons, gather_cons, List.length_append, List.length_append, ih]
    cases f with
    | logged r =>
      obtain ⟨e, span⟩ := r
      cases e <;> rfl
    | _ => rfl

theorem Phase.length_unreported_le (p : Phase) : p.unreported.length ≤ p.owed := by
  cases p <;> simp [unreported, owed]

namespace Flow

variable {script : WorkScript} {c c' : Flow}

theorem complaint_verdict (b : Batch) (ending : Ending) (elapsed : Nat) (span : Option Span) :
    (Fact.logged ⟨verdict b ending elapsed, span⟩).complaint? = some ending.complaint := by
  unfold verdict Ending.complaint
  split <;> rfl

/-- Each run was reported as its call ended. -/
def Explained (script : WorkScript) (c : Flow) : Prop :=
  c.journal.complaints =
    (List.range' 1 c.journal.complaints.length).map fun n => (script.call n).complaint

theorem Explained.congr (hi : c.Explained script)
    (h : c'.journal.complaints = c.journal.complaints) : c'.Explained script := by
  unfold Explained
  rwa [h]

/-- The run that is reported next is that of the last call. -/
theorem Reachable.calls_of_awaiting (h : Reachable script c) {b : Batch}
    (hp : c.phase = .awaiting b) : c.calls = c.journal.complaints.length + 1 := by
  have hnamed := congrArg List.length h.named
  rw [hp, List.length_append, List.length_map, ← h.tally.calls_eq,
    ← History.length_complaints] at hnamed
  exact hnamed.symm

theorem Step.explained (h : Step script c c') (hr : Reachable script c)
    (hi : c.Explained script) : c'.Explained script := by
  cases h with
  | remark hf => exact hi.congr (History.gather_concat_of_eq_none _ hf.complaint_eq_none)
  | @report b run elapsed hp hrun hstage =>
    obtain ⟨run', hrun', hcall, -⟩ := hr.serial.running (congrArg Phase.isRunning hp)
    obtain rfl := Option.some.inj (hrun.symm.trans hrun')
    have hnext : (script.call (1 + c.journal.complaints.length)).complaint =
        run.plan.ending.complaint := by
      rw [Nat.add_comm, ← hr.calls_of_awaiting hp, ← hcall, hr.follows.run_eq run hrun]
      rfl
    have happ : ({ c with phase := .reported b run.plan.ending }.log
        (verdict b run.plan.ending elapsed) (some b.span)).journal.complaints =
          c.journal.complaints ++ [run.plan.ending.complaint] := by
      show History.gather _ (c.journal ++ [_]) = _
      rw [History.gather_append, History.gather_cons, complaint_verdict]
      rfl
    unfold Explained
    rw [happ, List.length_append, List.length_singleton, List.range'_concat, Nat.one_mul,
      List.map_append, ← hi, List.map_singleton, hnext]
  | _ => exact hi.congr (by simp [log, note, enter, conclude, call])

theorem Reachable.explained (h : Reachable script c) : c.Explained script :=
  h.keeps (fun _ => rfl) fun ha hs hi => hs.explained ha hi

end Flow

namespace Console.Simulation

/-- Whether a call is one of those that fail: every so many calls one is. -/
def IsDue (s : Simulation) (call : Nat) : Prop :=
  ∃ period, s.failEvery = some period ∧ 0 < period ∧ period ∣ call

variable {s : Simulation} {call : Nat}

theorem fails_iff : s.fails call = true ↔ s.IsDue call := by
  unfold fails IsDue
  cases s.failEvery with
  | none => simp
  | some period => simp [Nat.dvd_iff_mod_eq_zero]

theorem complaint_call (s : Simulation) (call : Nat) :
    (s.work.call call).complaint = if s.fails call then some (failureText call) else none := by
  show (s.ending call).complaint = _
  unfold ending Ending.complaint
  cases s.fails call <;> rfl

end Console.Simulation

namespace Queue

open Console

variable {s : Simulation} {q : Queue}

/-- What has been counted and reported of the runs is what their numbers say. Calls are numbered
from one. -/
structure IsScheduled (s : Simulation) (q : Queue) : Prop where
  executed_eq : q.stats.executed = q.flow.journal.outcomes.length
  outcome_iff : ∀ n ok, q.flow.journal.outcomes[n]? = some ok → (ok = false ↔ s.IsDue (n + 1))
  /-- Each run is reported just before it is counted. -/
  reported : q.stats.executed ≤ q.flow.journal.complaints.length ∧
    q.flow.journal.complaints.length ≤ q.stats.executed + 1
  complaint_of_isDue : ∀ n complaint, q.flow.journal.complaints[n]? = some complaint →
    s.IsDue (n + 1) → complaint = some ("simulated failure on call " ++ toString (n + 1))
  complaint_of_not_isDue : ∀ n complaint, q.flow.journal.complaints[n]? = some complaint →
    ¬ s.IsDue (n + 1) → complaint = none
  failed_eq : ∀ period, s.failEvery = some period → 0 < period →
    q.stats.failed = q.stats.executed / period
  failed_eq_zero : s.failEvery = none ∨ s.failEvery = some 0 → q.stats.failed = 0

theorem isScheduled_of_reachable (h : q.flow.Reachable s.work) : q.IsScheduled s := by
  have hfailed := failed_eq_of_reachable h
  have hexecuted : q.stats.executed = q.flow.journal.outcomes.length := h.tally.executed_eq
  have hcomplaint {n : Nat} {complaint : Option String}
      (hn : q.flow.journal.complaints[n]? = some complaint) :
      complaint = if s.fails (n + 1) then some (Simulation.failureText (n + 1)) else none := by
    rw [h.explained, List.getElem?_map, Option.map_eq_some_iff] at hn
    obtain ⟨call, hcall, rfl⟩ := hn
    obtain ⟨hlt, rfl⟩ := List.getElem?_eq_some_iff.mp hcall
    rw [List.getElem_range', s.complaint_call, Nat.one_mul, Nat.add_comm]
  refine ⟨hexecuted, ?_, ?_, ?_, ?_, ?_, ?_⟩
  · intro n ok hn
    rw [h.follows.outcomes_eq, List.getElem?_map, Option.map_eq_some_iff] at hn
    obtain ⟨call, hcall, rfl⟩ := hn
    obtain ⟨hlt, rfl⟩ := List.getElem?_eq_some_iff.mp hcall
    rw [List.getElem_range', s.succeeds_call, Nat.one_mul, Nat.add_comm, ← Simulation.fails_iff]
    rw [Bool.not_eq_false']
  · have hcalls : _ = q.flow.journal.outcomes.length + _ := h.serial.calls_eq
    have hnamed := congrArg List.length h.named
    have hle := q.flow.phase.length_unreported_le
    have howed := q.flow.phase.owed_le_one
    rw [List.length_append, List.length_map, ← h.tally.calls_eq,
      ← History.length_complaints] at hnamed
    omega
  · intro n complaint hn hdue
    rw [hcomplaint hn, if_pos (Simulation.fails_iff.mpr hdue)]
    rfl
  · intro n complaint hn hnot
    rw [hcomplaint hn, if_neg fun hfails => hnot (Simulation.fails_iff.mp hfails)]
  · intro period hperiod hpos
    rw [hfailed, hperiod]
    rfl
  · rintro (hnone | hzero)
    · rw [hfailed, hnone]
      rfl
    · rw [hfailed, hzero]
      exact Nat.div_zero _

/-- At every moment of a program that works with a simulation, be it a demonstration or a session
and wherever it is cancelled, exactly those runs have failed whose numbers say so. -/
theorem fails_on_schedule (s : Simulation) {q : Queue} (h : q.Operated s.work) :
    q.IsScheduled s ∧
      (∀ (command : Command) (input : List Arrival) (q' : Queue),
        ({ simulation := s, command } : Invocation).execute q input = .ok q' →
          q'.Operated s.work ∧ q'.IsScheduled s) ∧
      ∀ input : List Arrival,
        (Session.consume s.work { foreground := ⟨q, turnCredit⟩ } input).queue.IsScheduled s := by
  refine ⟨isScheduled_of_reachable h.flow, fun command input q' hq' => ?_, fun input => ?_⟩
  · have hdone := h.deeds (deeds_execute hq')
    exact ⟨hdone, isScheduled_of_reachable hdone.flow⟩
  · have hread := Session.deeds_consume s.work { foreground := ⟨q, turnCredit⟩ } input
    exact isScheduled_of_reachable (h.deeds hread).flow

/-- A session that is cancelled during its second run, with requests superseded, refused and
left. -/
theorem fails_on_schedule_broken :
    let s : Simulation := { workMs := 7, failEvery := some 2 }
    let q : Queue := { config := narrow, mailbox := { free := narrow.capacity } }
    let input : List Arrival := [.bytes [0x61, 0x0A, 0x62, 0x0A], .time 8, .bytes [0x63, 0x0A],
      .time 3, .bytes [0x64, 0x0A, 0x65, 0x0A, 0x66, 0x0A], .cancellation, .time 10]
    let q' := (Session.consume s.work { foreground := ⟨q, turnCredit⟩ } input).queue
    q.Operated s.work ∧ q'.published = .stopped ∧ q'.stats.enqueued = 5 ∧
      q'.stats.superseded = 1 ∧ q'.stats.executed = 2 ∧ q'.stats.failed = 1 ∧
      q'.flow.journal.complaints = [none, some "simulated failure on call 2"] ∧
      q'.IsScheduled s := by
  intro s q input q'
  have hopen : open? narrow = some q := rfl
  have hoperated : q.Operated s.work := operated_of_open? hopen
  have hcounted : q'.published = .stopped ∧ q'.stats.enqueued = 5 ∧ q'.stats.superseded = 1 ∧
      q'.stats.executed = 2 ∧ q'.stats.failed = 1 ∧
      q'.flow.journal.complaints = [none, some "simulated failure on call 2"] := by decide +kernel
  obtain ⟨hstopped, henqueued, hsuperseded, hexecuted, hfailed, hcomplaints⟩ := hcounted
  exact ⟨hoperated, hstopped, henqueued, hsuperseded, hexecuted, hfailed, hcomplaints,
    (fails_on_schedule s hoperated).2.2 input⟩

end Queue
end CoalescingQueue
