import CoalescingQueue.Proofs.History
import Mathlib.Data.List.Nodup
import Mathlib.Logic.Relation

/-!
# The flow of requests

What becomes of a request depends on a part of a queue only: not on who stands in line, who has
the turn, or which handles are held. That part is a flow, and the steps below are everything that
can happen to it. A step of the dispatcher is taken together with the event it logs. The
statements about flows do not say which steps a queue takes, or when; that every move of a queue
is made of these steps is shown apart.
-/
namespace CoalescingQueue

structure Flow where
  phase : Phase := .unstarted
  published : DispatchState := .idle
  mailbox : Mailbox
  isCancelled : Bool := false
  stats : Stats := {}
  run : Option Run := none
  calls : Nat := 0
  tickets : Nat := 0
  journal : History := []

/-- The flow of a queue. -/
def Queue.flow (q : Queue) : Flow where
  phase := q.phase
  published := q.published
  mailbox := q.mailbox
  isCancelled := q.isCancelled
  stats := q.stats
  run := q.run
  calls := q.calls
  tickets := q.tickets
  journal := q.journal.toList

/-- Events that say nothing about the dispatcher. -/
def Event.isAside : Event → Bool
  | .offered _ | .workStarted _ _ | .workEnded _ _ | .submitting _ => true
  | _ => false

/-- Facts that are of no consequence for any request. -/
inductive Fact.IsAside : Fact → Prop
  | logged {r : LogRecord} (h : r.event.isAside = true) : IsAside (.logged r)
  | performed (a : Action) (reply : Reply) : IsAside (.performed a reply)
  | ended (ticket : Nat) (reply : Reply) (time : Nat) : IsAside (.ended ticket reply time)

/-- Facts that say nothing about the moment at which they come. -/
def Fact.isPlain : Fact → Bool
  | .counted _ _ | .dispatched _ | .concluded _ _ | .observed _ => false
  | _ => true

namespace Fact.IsAside

variable {f : Fact}

theorem isPlain (h : f.IsAside) : f.isPlain = true := by
  cases h <;> rfl

theorem replaced_eq_none (h : f.IsAside) : f.replaced? = none := by
  cases h with
  | @logged r he =>
    obtain ⟨e, span⟩ := r
    cases e <;> simp_all [Event.isAside]
  | _ => rfl

theorem reported_eq_none (h : f.IsAside) : f.reported? = none := by
  cases h with
  | @logged r he =>
    obtain ⟨e, span⟩ := r
    cases e <;> simp_all [Event.isAside]
  | _ => rfl

end Fact.IsAside

namespace Flow

/-- A flow that nothing has happened to. -/
def opened (capacity : Nat) : Flow := { mailbox := { free := capacity } }

def note (c : Flow) (f : Fact) : Flow := { c with journal := c.journal ++ [f] }

/-- An event of the dispatcher, which is logged within the span of a dispatch or outside. -/
def log (c : Flow) (e : Event) (span : Option Span := none) : Flow := c.note (.logged ⟨e, span⟩)

/-- The dispatcher enters a phase and publishes what it does there. -/
def enter (c : Flow) (phase : Phase) (s : DispatchState) : Flow := { c with phase, published := s }

/-- The work function is called for the latest request of a batch. -/
def call (c : Flow) (b : Batch) : Flow :=
  { c with
    calls := c.calls + 1
    stats := c.stats.countDispatch b.latest.id b.superseded }.note (.dispatched b)

/-- The outcome of the run in flight is counted. -/
def conclude (c : Flow) (isSuccess : Bool) (elapsed : Nat) : Flow :=
  { c with run := none, stats := c.stats.countOutcome isSuccess }.note
    (.concluded isSuccess elapsed)

/-- How the end of a run is reported. -/
def verdict (b : Batch) (ending : Ending) (elapsed : Nat) : Event :=
  if ending.isSuccess then .completed b.latest b.superseded elapsed
  else .failed b.latest elapsed ending.reason

inductive Step (script : WorkScript) (c : Flow) : Flow → Prop
  /-- An offer finds a free slot. -/
  | put {r : Request} {mailbox : Mailbox} (hopen : c.mailbox.isClosed = false)
      (hput : c.mailbox.put? r = some mailbox) :
      Step script c ({ c with mailbox, stats := c.stats.countOffer }.note (.admitted r))
  /-- An offer has to wait. -/
  | enlist {w : Waiter} (hopen : c.mailbox.isClosed = false)
      (hput : c.mailbox.put? w.request = none) (hticket : w.ticket = c.tickets) :
      Step script c { c with
        mailbox := c.mailbox.enlist w
        tickets := c.tickets + 1
        stats := c.stats.countOffer }
  /-- A waiting offer uses its slot. -/
  | join {w : Waiter} (hopen : c.mailbox.isClosed = false) (hw : w ∈ c.mailbox.waiting)
      (hslot : w.hasSlot = true) :
      Step script c ({ c with
        mailbox := (c.mailbox.dismiss w.ticket).append w.request }.note (.admitted w.request))
  /-- A waiting offer is refused. -/
  | withdraw {w : Waiter} (hw : w ∈ c.mailbox.waiting)
      (hrefused : c.isCancelled = true ∨ c.mailbox.isClosed = true) :
      Step script c { c with
        mailbox := c.mailbox.dismiss w.ticket
        stats := c.stats.retractOffer }
  /-- The caller of a waiting offer goes away. -/
  | forsake {w : Waiter} (hw : w ∈ c.mailbox.waiting) :
      Step script c ({ c with mailbox := c.mailbox.dismiss w.ticket }.note (.forsaken w.ticket))
  /-- A slot becomes free, or goes to a waiting offer. -/
  | release : Step script c { c with mailbox := c.mailbox.release.2 }
  /-- A ticket is drawn for something else than an offer. -/
  | draw : Step script c { c with tickets := c.tickets + 1 }
  | cancel : Step script c { c with isCancelled := true }
  | observe {s : Snapshot} (hs : ∀ stats, s.stats = some stats → stats = c.stats) :
      Step script c (c.note (.observed s))
  | remark {f : Fact} (hf : f.IsAside) : Step script c (c.note f)
  /-- The run in flight comes further. -/
  | proceed {run : Run} {stage : Stage} (hrun : c.run = some run) (hstage : run.stage ≠ .ended)
      (hnext : stage ≠ .ended) : Step script c { c with run := some { run with stage } }
  /-- The run in flight comes to its end. -/
  | finish {run : Run} (hrun : c.run = some run) (hstage : run.stage ≠ .ended) :
      Step script c ({ c with run := some { run with stage := .ended } }.note (.returned run.call))
  | start (hp : c.phase = .unstarted) :
      Step script c ({ c with phase := .listening }.log .started)
  | heed (hp : c.phase = .listening) (hc : c.isCancelled = true) :
      Step script c ({ c with phase := .closing }.log .cancelled)
  | abandon (hp : c.phase = .listening) (hc : c.isCancelled = false)
      (hbuffer : c.mailbox.buffer = []) :
      Step script c ({ c with phase := .closing }.log .abandoned)
  /-- The first request of a batch is taken. -/
  | receive {first : Request} {mailbox : Mailbox} (hp : c.phase = .listening)
      (hc : c.isCancelled = false) (htake : c.mailbox.take? = some (first, mailbox)) :
      Step script c (({ c with mailbox }.enter (.counting first) .draining).log
        (.transition .idle .draining) (some {}))
  | count {first : Request} (hp : c.phase = .counting first) :
      Step script c ({ c with
        phase := .draining { latest := first } c.mailbox.buffer.length }.note
          (.counted first c.mailbox.buffer))
  | drain {b : Batch} {left : Nat} {next : Request} {mailbox : Mailbox}
      (hp : c.phase = .draining b (left + 1))
      (htake : c.mailbox.take? = some (next, mailbox)) :
      Step script c ({ c with mailbox, phase := .draining (b.push next) left }.log
        (.superseded b.latest next))
  /-- The drain is over and the queue cancelled. -/
  | discard {b : Batch} {left : Nat} (hp : c.phase = .draining b left)
      (hleft : left = 0 ∨ c.mailbox.buffer = []) (hc : c.isCancelled = true) :
      Step script c (({ c with phase := .dropping b }.note (.discarded b)).log (.dropped b.latest))
  /-- The drain is over and its batch goes on to be dispatched. -/
  | engage {b : Batch} {left : Nat} (hp : c.phase = .draining b left)
      (hleft : left = 0 ∨ c.mailbox.buffer = []) (hc : c.isCancelled = false) :
      Step script c ((c.enter (.dispatching b) .executing).log
        (.transition .draining .executing) (some b.span))
  | launch {b : Batch} {plan : RunPlan} {began : Nat} (hp : c.phase = .dispatching b)
      (hwork : script.call (c.calls + 1) = .run plan) :
      Step script c ({ c.call b with
        phase := .awaiting b
        run := some { call := c.calls + 1, plan, began } }.note (.launched (c.calls + 1)))
  /-- The call of the work function breaks down. -/
  | breakDown {b : Batch} (hp : c.phase = .dispatching b)
      (hwork : script.call (c.calls + 1) = .breakdown) :
      Step script c { c.call b with phase := .dead b, mailbox := c.mailbox.close }
  | report {b : Batch} {run : Run} {elapsed : Nat} (hp : c.phase = .awaiting b)
      (hrun : c.run = some run) (hstage : run.stage = .ended) :
      Step script c ({ c with phase := .reported b run.plan.ending }.log
        (verdict b run.plan.ending elapsed) (some b.span))
  | relax {b : Batch} {ending : Ending} {elapsed : Nat} (hp : c.phase = .reported b ending)
      (hc : c.isCancelled = false) :
      Step script c (((c.conclude ending.isSuccess elapsed).enter .listening .idle).log
        (.transition .executing .idle) (some b.span))
  | retire {b : Batch} {ending : Ending} {elapsed : Nat} (hp : c.phase = .reported b ending)
      (hc : c.isCancelled = true) :
      Step script c ({ c.conclude ending.isSuccess elapsed with phase := .retiring b }.log
        .outlasted)
  | leaveDrain {b : Batch} (hp : c.phase = .dropping b) :
      Step script c ({ c with phase := .closing }.log (.transition .draining .stopped)
        (some b.span))
  | leaveRun {b : Batch} (hp : c.phase = .retiring b) :
      Step script c ({ c with phase := .closing }.log (.transition .executing .stopped)
        (some b.span))
  | close (hp : c.phase = .closing) :
      Step script c (({ c with mailbox := c.mailbox.close }.enter .stopped .stopped).log .stopped)

/-- Waiting offers have tickets of their own, all of which have been drawn. -/
structure Tidy (c : Flow) : Prop where
  lt_tickets : ∀ t ∈ c.mailbox.tickets, t < c.tickets
  nodup : c.mailbox.tickets.Nodup

theorem Tidy.of_sublist {c c' : Flow} (h : c.Tidy)
    (hm : c'.mailbox.tickets.Sublist c.mailbox.tickets) (ht : c.tickets ≤ c'.tickets) :
    c'.Tidy :=
  ⟨fun t hmem => (h.lt_tickets t (hm.subset hmem)).trans_le ht, h.nodup.sublist hm⟩

variable {script : WorkScript} {c c' : Flow}

theorem dismiss_sublist (m : Mailbox) (ticket : Nat) :
    (m.dismiss ticket).tickets.Sublist m.tickets := by
  rw [Mailbox.dismiss_tickets]
  exact List.filter_sublist

theorem tidy_opened (capacity : Nat) : (opened capacity).Tidy :=
  ⟨fun _ h => absurd h List.not_mem_nil, List.nodup_nil⟩

theorem Step.tidy (h : Step script c c') (ht : c.Tidy) : c'.Tidy := by
  cases h with
  | put hopen hput =>
    obtain rfl := Mailbox.eq_of_put? hput
    exact ht.of_sublist (List.Sublist.refl _) le_rfl
  | @enlist w hopen hput hticket =>
    have happ : (c.mailbox.enlist w).tickets = c.mailbox.tickets ++ [w.ticket] := by
      simp [Mailbox.tickets, Mailbox.enlist]
    have hnew : w.ticket ∉ c.mailbox.tickets := fun hmem => by
      have hlt := ht.lt_tickets _ hmem
      omega
    refine ⟨fun t hmem => ?_, ?_⟩
    · rw [happ, List.mem_append, List.mem_singleton] at hmem
      rcases hmem with hmem | rfl
      · exact Nat.lt_succ_of_lt (ht.lt_tickets t hmem)
      · exact hticket ▸ Nat.lt_succ_self _
    · rw [happ, ← List.concat_eq_append]
      exact List.Nodup.concat hnew ht.nodup
  | join | withdraw | forsake => exact ht.of_sublist (dismiss_sublist _ _) le_rfl
  | release =>
    refine ht.of_sublist ?_ le_rfl
    change c.mailbox.release.2.tickets.Sublist c.mailbox.tickets
    rw [Mailbox.release_tickets]
  | receive hp hc htake =>
    refine ht.of_sublist ?_ le_rfl
    rw [Mailbox.eq_of_take? htake]
    exact List.Sublist.refl _
  | drain hp htake =>
    refine ht.of_sublist ?_ le_rfl
    rw [Mailbox.eq_of_take? htake]
    exact List.Sublist.refl _
  | draw => exact ht.of_sublist (List.Sublist.refl _) (Nat.le_succ _)
  | _ => exact ht.of_sublist (List.Sublist.refl _) le_rfl

/-- What holds of plain facts at any moment, and of the others at theirs, holds always. -/
theorem Step.always {P : History → Fact → Prop} (h : Step script c c')
    (hplain : ∀ (before : History) (f : Fact), f.isPlain = true → P before f)
    (hcounted : ∀ first, c.phase = .counting first →
      P c.journal (.counted first c.mailbox.buffer))
    (hdispatched : ∀ b, c.phase = .dispatching b → P c.journal (.dispatched b))
    (hconcluded : ∀ b ending elapsed, c.phase = .reported b ending →
      P c.journal (.concluded ending.isSuccess elapsed))
    (hobserved : ∀ s : Snapshot, (∀ stats, s.stats = some stats → stats = c.stats) →
      P c.journal (.observed s))
    (hi : c.journal.Always P) : c'.journal.Always P := by
  have hadd {before : History} {f : Fact} (hb : before.Always P) (hf : f.isPlain = true) :
      History.Always P (before ++ [f]) :=
    History.always_concat.mpr ⟨hb, hplain before f hf⟩
  cases h with
  | enlist | withdraw | release | draw | cancel | proceed => exact hi
  | remark hf => exact hadd hi hf.isPlain
  | observe hs => exact History.always_concat.mpr ⟨hi, hobserved _ hs⟩
  | count hp => exact History.always_concat.mpr ⟨hi, hcounted _ hp⟩
  | discard => exact hadd (hadd hi rfl) rfl
  | launch hp => exact hadd (History.always_concat.mpr ⟨hi, hdispatched _ hp⟩) rfl
  | breakDown hp => exact History.always_concat.mpr ⟨hi, hdispatched _ hp⟩
  | relax hp | retire hp =>
    exact hadd (History.always_concat.mpr ⟨hi, hconcluded _ _ _ hp⟩) rfl
  | _ => exact hadd hi rfl

/-- A flow comes from a tidy one by steps. -/
structure Course (script : WorkScript) (c c' : Flow) : Prop where
  tidy : c.Tidy
  steps : Relation.ReflTransGen (Step script) c c'

namespace Course

theorem refl (h : c.Tidy) : Course script c c := ⟨h, .refl⟩

theorem step {c'' : Flow} (h : Course script c c') (hs : Step script c' c'') :
    Course script c c'' :=
  ⟨h.tidy, h.steps.tail hs⟩

/-- What holds at the start and is kept by each step holds at the end. -/
theorem keeps {P : Flow → Prop} (h : Course script c c')
    (hstep : ∀ {a b : Flow}, Step script a b → P a → P b) (hc : P c) : P c' := by
  obtain ⟨-, hsteps⟩ := h
  induction hsteps with
  | refl => exact hc
  | tail _ hs ih => exact hstep hs ih

/-- What others are told is of no consequence. -/
theorem tell {told : History} (h : Course script c c') (htold : ∀ f ∈ told, f.IsAside) :
    Course script c { c' with journal := c'.journal ++ told } := by
  induction told generalizing c' with
  | nil => simpa using h
  | cons f told ih =>
    rw [List.forall_mem_cons] at htold
    have hrest := ih (h.step (.remark htold.1)) htold.2
    simpa [note] using hrest

theorem tidy_last (h : Course script c c') : c'.Tidy := h.keeps Step.tidy h.tidy

end Course

/-- The flows of a queue at some time after it was opened. -/
def Reachable (script : WorkScript) (c : Flow) : Prop :=
  ∃ capacity, Course script (opened capacity) c

namespace Reachable

theorem step (h : Reachable script c) (hs : Step script c c') : Reachable script c' := by
  obtain ⟨capacity, hcourse⟩ := h
  exact ⟨capacity, hcourse.step hs⟩

/-- What a new flow has and each step from a reachable flow keeps, each reachable flow has. -/
theorem keeps {P : Flow → Prop} (h : Reachable script c)
    (hopened : ∀ capacity, P (opened capacity))
    (hstep : ∀ {a b : Flow}, Reachable script a → Step script a b → P a → P b) : P c := by
  obtain ⟨capacity, htidy, hsteps⟩ := h
  have hboth : Reachable script c ∧ P c := by
    induction hsteps with
    | refl => exact ⟨⟨capacity, Course.refl htidy⟩, hopened capacity⟩
    | tail _ hs ih => exact ⟨ih.1.step hs, hstep ih.1 hs ih.2⟩
  exact hboth.2

theorem tidy (h : Reachable script c) : c.Tidy := by
  obtain ⟨capacity, hcourse⟩ := h
  exact hcourse.tidy_last

end Reachable

end Flow
end CoalescingQueue
