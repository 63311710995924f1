import CoalescingQueue.Proofs.Coalescing
import CoalescingQueue.Proofs.Fates

/-!
# The grammar of the log

What a dispatcher logs about itself is the beginning of a word: that it has started, complete
cycles, one way of stopping, and that it has stopped. A cycle tells of one batch. It names each
request of the batch with the one that took its place, and from then on the latest of them and
how many it replaced, in the events as well as in their span. A dispatcher whose work function
breaks down falls silent in the middle of a word.
-/
namespace CoalescingQueue

/-! ## Words -/

/-- What is logged while the requests of a batch are taken, one after the other. -/
inductive Gathers : Batch → List LogRecord → Prop
  | first (r : Request) : Gathers { latest := r } [⟨.transition .idle .draining, some {}⟩]
  | next {b : Batch} {taken : List LogRecord} (h : Gathers b taken) (successor : Request) :
      Gathers (b.push successor) (taken ++ [⟨.superseded b.latest successor, none⟩])

/-- One event tells of the first request, and one of each time a request is superseded. -/
theorem Gathers.length_eq {b : Batch} {taken : List LogRecord} (h : Gathers b taken) :
    taken.length = b.superseded + 1 := by
  induction h with
  | first r => rfl
  | next h successor ih => rw [List.length_append, ih, Batch.superseded_push, List.length_singleton]

/-- How the end of the run for a batch is reported. -/
inductive Batch.IsVerdict (b : Batch) : LogRecord → Prop
  | completed (elapsed : Nat) :
      b.IsVerdict ⟨.completed b.latest b.superseded elapsed, some b.span⟩
  | failed (elapsed : Nat) (reason : String) :
      b.IsVerdict ⟨.failed b.latest elapsed reason, some b.span⟩

/-- A batch is on its way to the work function. -/
def Batch.engaged (b : Batch) : LogRecord := ⟨.transition .draining .executing, some b.span⟩

/-- A cycle up to the end of its run. -/
inductive Executes (b : Batch) : List LogRecord → Prop
  | intro {taken : List LogRecord} {verdict : LogRecord} (h : Gathers b taken)
      (hv : b.IsVerdict verdict) : Executes b (taken ++ [b.engaged, verdict])

/-- Complete cycles, each with its batch. -/
inductive Cycles : List Batch → List LogRecord → Prop
  | nil : Cycles [] []
  | concat {batches : List Batch} {b : Batch} {said run : List LogRecord}
      (h : Cycles batches said) (hrun : Executes b run) :
      Cycles (batches ++ [b])
        (said ++ (run ++ [⟨.transition .executing .idle, some b.span⟩]))

/-- The ways of stopping, with the batch of the cycle that comes to no regular end. -/
inductive Stops : List Batch → List LogRecord → Prop
  | cancelled : Stops [] [⟨.cancelled, none⟩]
  | abandoned : Stops [] [⟨.abandoned, none⟩]
  | dropped {b : Batch} {taken : List LogRecord} (h : Gathers b taken) :
      Stops [b] (taken ++
        [⟨.dropped b.latest, none⟩, ⟨.transition .draining .stopped, some b.span⟩])
  | outlasted {b : Batch} {run : List LogRecord} (h : Executes b run) :
      Stops [b] (run ++ [⟨.outlasted, none⟩, ⟨.transition .executing .stopped, some b.span⟩])

/-- Everything a dispatcher has to say, with the batches it speaks of. -/
inductive Word : List Batch → List LogRecord → Prop
  | intro {batches last : List Batch} {said stop : List LogRecord} (h : Cycles batches said)
      (hstop : Stops last stop) :
      Word (batches ++ last) (⟨.started, none⟩ :: (said ++ stop) ++ [⟨.stopped, none⟩])

/-- More requests take the place of the latest, one after the other. -/
def Batch.pushAll (b : Batch) (rs : List Request) : Batch := rs.foldl Batch.push b

theorem Batch.toList_pushAll (b : Batch) (rs : List Request) :
    (b.pushAll rs).toList = b.toList ++ rs := by
  induction rs generalizing b with
  | nil => exact (List.append_nil _).symm
  | cons r rs ih =>
    show ((b.push r).pushAll rs).toList = _
    rw [ih, toList_push, List.append_assoc]
    rfl

theorem Gathers.pushAll {b : Batch} {taken : List LogRecord} (h : Gathers b taken)
    (rs : List Request) : ∃ more, Gathers (b.pushAll rs) (taken ++ more) := by
  induction rs generalizing b taken with
  | nil => exact ⟨[], (List.append_nil taken).symm ▸ h⟩
  | cons r rs ih =>
    obtain ⟨more, hmore⟩ := ih (h.next r)
    rw [List.append_assoc] at hmore
    exact ⟨_, hmore⟩

/-! ## What a phase has to tell -/

def Phase.isStarted : Phase → Bool
  | .unstarted => false
  | _ => true

/-- What was logged since the last complete cycle, with the batch of it that was dispatched or
dropped since. -/
inductive Phase.Tells : Phase → List Batch → List LogRecord → Prop
  | listening : Tells .listening [] []
  | counting {first : Request} {taken : List LogRecord}
      (h : Gathers { latest := first } taken) : Tells (.counting first) [] taken
  | draining {b : Batch} {taken : List LogRecord} (h : Gathers b taken) (left : Nat) :
      Tells (.draining b left) [] taken
  | dropping {b : Batch} {taken : List LogRecord} (h : Gathers b taken) :
      Tells (.dropping b) [b] (taken ++ [⟨.dropped b.latest, none⟩])
  | dispatching {b : Batch} {taken : List LogRecord} (h : Gathers b taken) :
      Tells (.dispatching b) [] (taken ++ [b.engaged])
  | awaiting {b : Batch} {taken : List LogRecord} (h : Gathers b taken) :
      Tells (.awaiting b) [b] (taken ++ [b.engaged])
  | dead {b : Batch} {taken : List LogRecord} (h : Gathers b taken) :
      Tells (.dead b) [b] (taken ++ [b.engaged])
  | reported {b : Batch} {run : List LogRecord} (h : Executes b run) (ending : Ending) :
      Tells (.reported b ending) [b] run
  | retiring {b : Batch} {run : List LogRecord} (h : Executes b run) :
      Tells (.retiring b) [b] (run ++ [⟨.outlasted, none⟩])
  | closing {last : List Batch} {stop : List LogRecord} (h : Stops last stop) :
      Tells .closing last stop
  | stopped {last : List Batch} {stop : List LogRecord} (h : Stops last stop) :
      Tells .stopped last (stop ++ [⟨.stopped, none⟩])

/-- Whatever a phase has told so far, there is a way to stop from there. -/
theorem Phase.Tells.exists_stops {p : Phase} {last : List Batch} {told : List LogRecord}
    (h : p.Tells last told) (buffer : List Request) : ∃ final stop, Stops final stop ∧
      told <+: stop ++ [⟨.stopped, none⟩] ∧ last <+: final ∧
      (last ++ p.committed).map Batch.toList ++ p.prospect buffer <+:
        final.map Batch.toList := by
  have hran {b : Batch} {taken : List LogRecord} (hb : Gathers b taken) :
      Executes b (taken ++ [b.engaged, ⟨.completed b.latest b.superseded 0, some b.span⟩]) :=
    .intro hb (.completed 0)
  cases h with
  | listening => exact ⟨_, _, .cancelled, List.nil_prefix, List.prefix_rfl, List.prefix_rfl⟩
  | counting hb =>
    exact ⟨_, _, .dropped hb, by simp [List.append_assoc], List.nil_prefix, List.nil_prefix⟩
  | draining hb left =>
    -- the drain takes what is left of the backlog, and no more
    obtain ⟨more, hall⟩ := hb.pushAll (buffer.take left)
    refine ⟨_, _, .dropped hall, by simp [List.append_assoc], List.nil_prefix, ?_⟩
    simp [committed, prospect, Batch.toList_pushAll]
  | dropping hb =>
    exact ⟨_, _, .dropped hb, by simp, List.prefix_rfl, by simp [committed, prospect]⟩
  | dispatching hb =>
    exact ⟨_, _, .outlasted (hran hb), by simp, List.nil_prefix, by simp [committed, prospect]⟩
  | awaiting hb | dead hb =>
    exact ⟨_, _, .outlasted (hran hb), by simp, List.prefix_rfl, by simp [committed, prospect]⟩
  | reported hrun =>
    exact ⟨_, _, .outlasted hrun, by simp, List.prefix_rfl, by simp [committed, prospect]⟩
  | retiring hrun =>
    exact ⟨_, _, .outlasted hrun, by simp, List.prefix_rfl, by simp [committed, prospect]⟩
  | closing hstop =>
    exact ⟨_, _, hstop, List.prefix_append _ _, List.prefix_rfl, by simp [committed, prospect]⟩
  | stopped hstop =>
    exact ⟨_, _, hstop, List.prefix_rfl, List.prefix_rfl, by simp [committed, prospect]⟩

/-! ## What a flow has told -/

/-- What the dispatcher logged. -/
@[simp] def Fact.report? : Fact → Option LogRecord
  | .logged r => if r.event.isAside then none else some r
  | _ => none

/-- The log of the dispatcher. -/
abbrev History.reports (h : History) : List LogRecord := h.gather Fact.report?

theorem Fact.IsAside.report_eq_none {f : Fact} (h : f.IsAside) : f.report? = none := by
  cases h with
  | logged he => exact if_pos he
  | _ => rfl

namespace Flow

variable {script : WorkScript} {c c' : Flow}

/-- The batches that were dispatched, and the one that was dropped, in order. -/
def settled (c : Flow) : List Batch := c.journal.dispatched ++ c.journal.discarded

/-- The log tells of complete cycles, and then what the phase has to tell. -/
def Told (c : Flow) : Prop :=
  ∃ batches said last told, Cycles batches said ∧ c.phase.Tells last told ∧
    c.journal.reports = ⟨.started, none⟩ :: (said ++ told) ∧ c.settled = batches ++ last

/-- Nothing has been told, or the dispatcher has started. -/
def Recounted (c : Flow) : Prop :=
  (c.phase = .unstarted ∧ c.journal.reports = [] ∧ c.settled = []) ∨ c.Told

theorem Recounted.congr (hi : c.Recounted) (hp : c'.phase = c.phase)
    (hr : c'.journal.reports = c.journal.reports) (hb : c'.settled = c.settled) :
    c'.Recounted := by
  unfold Recounted Told at hi ⊢
  rw [hp, hr, hb]
  exact hi

theorem Recounted.told (hi : c.Recounted) {p : Phase} (hp : c.phase = p)
    (hstarted : p.isStarted = true) :
    ∃ batches said last told, Cycles batches said ∧ p.Tells last told ∧
      c.journal.reports = ⟨.started, none⟩ :: (said ++ told) ∧ c.settled = batches ++ last := by
  subst hp
  refine hi.resolve_left fun h => ?_
  rw [h.1] at hstarted
  contradiction

/-- Something more is told of the cycle in progress. -/
theorem Recounted.tell (hi : c.Recounted) {p : Phase} (hp : c.phase = p)
    (hstarted : p.isStarted = true) (p' : Phase) (hp' : c'.phase = p') (more : List LogRecord)
    (batches : List Batch) (hr : c'.journal.reports = c.journal.reports ++ more)
    (hb : c'.settled = c.settled ++ batches)
    (htells : ∀ {last told}, p.Tells last told → p'.Tells (last ++ batches) (told ++ more)) :
    c'.Recounted := by
  obtain ⟨complete, said, last, told, hcycles, htold, hreports, hsettled⟩ := hi.told hp hstarted
  refine .inr ⟨complete, said, last ++ batches, told ++ more, hcycles, ?_, ?_, ?_⟩
  · rw [hp']
    exact htells htold
  · rw [hr, hreports, List.cons_append, List.append_assoc]
  · rw [hb, hsettled, List.append_assoc]

/-- A report of the end of a run names the batch of the run. -/
theorem isVerdict_verdict (b : Batch) (ending : Ending) (elapsed : Nat) :
    b.IsVerdict ⟨verdict b ending elapsed, some b.span⟩ := by
  unfold verdict
  split
  · exact .completed elapsed
  · exact .failed elapsed _

theorem Step.recounted (h : Step script c c') (hx : c.Dropped) (hi : c.Recounted) :
    c'.Recounted := by
  cases h with
  | remark hf =>
    have hsilent := History.gather_concat_of_eq_none c.journal hf.report_eq_none
    cases hf <;> exact hi.congr rfl hsilent (by simp [settled, note])
  | start hp =>
    obtain ⟨-, hreports, hsettled⟩ : c.phase = .unstarted ∧ c.journal.reports = [] ∧
        c.settled = [] := by
      refine hi.resolve_right fun htold => ?_
      obtain ⟨_, _, _, _, _, htells, _⟩ := htold
      rw [hp] at htells
      cases htells
    refine .inr ⟨[], [], [], [], .nil, .listening, ?_, ?_⟩
    · simp [log, note, hreports, Event.isAside]
    · simpa [settled, log, note] using hsettled
  | heed hp =>
    refine hi.tell hp rfl .closing rfl [⟨.cancelled, none⟩] [] (by simp [log, note, Event.isAside])
      (by simp [settled, log, note]) fun htells => ?_
    cases htells with
    | listening => exact .closing .cancelled
  | abandon hp =>
    refine hi.tell hp rfl .closing rfl [⟨.abandoned, none⟩] [] (by simp [log, note, Event.isAside])
      (by simp [settled, log, note]) fun htells => ?_
    cases htells with
    | listening => exact .closing .abandoned
  | @receive first mailbox hp =>
    refine hi.tell hp rfl (.counting first) rfl [⟨.transition .idle .draining, some {}⟩] []
      (by simp [log, note, enter, Event.isAside]) (by simp [settled, log, note, enter])
      fun htells => ?_
    cases htells with
    | listening => exact .counting (.first first)
  | @count first hp =>
    refine hi.tell hp rfl (.draining { latest := first } c.mailbox.buffer.length) rfl [] []
      (by simp [note]) (by simp [settled, note]) fun htells => ?_
    cases htells with
    | counting hb => simpa using Phase.Tells.draining hb _
  | @drain b left next mailbox hp =>
    refine hi.tell hp rfl (.draining (b.push next) left) rfl [⟨.superseded b.latest next, none⟩] []
      (by simp [log, note, Event.isAside]) (by simp [settled, log, note]) fun htells => ?_
    cases htells with
    | draining hb _ => exact .draining (hb.next next) left
  | @discard b left hp =>
    have hnone := hx.discarded_eq (by simp [hp, Phase.isLeaving])
    refine hi.tell hp rfl (.dropping b) rfl [⟨.dropped b.latest, none⟩] [b]
      (by simp [log, note, Event.isAside]) (by simp [settled, log, note, hnone]) fun htells => ?_
    cases htells with
    | draining hb _ => exact .dropping hb
  | @engage b left hp =>
    refine hi.tell hp rfl (.dispatching b) rfl [b.engaged] []
      (by simp [log, note, enter, Event.isAside, Batch.engaged])
      (by simp [settled, log, note, enter]) fun htells => ?_
    cases htells with
    | draining hb _ => exact .dispatching hb
  | @launch b plan began hp =>
    have hnone := hx.discarded_eq (by simp [hp, Phase.isLeaving])
    refine hi.tell hp rfl (.awaiting b) rfl [] [b] (by simp [note, call])
      (by simp [settled, note, call, hnone]) fun htells => ?_
    cases htells with
    | dispatching hb => simpa using Phase.Tells.awaiting hb
  | @breakDown b hp =>
    have hnone := hx.discarded_eq (by simp [hp, Phase.isLeaving])
    refine hi.tell hp rfl (.dead b) rfl [] [b] (by simp [call, note])
      (by simp [settled, call, note, hnone]) fun htells => ?_
    cases htells with
    | dispatching hb => simpa using Phase.Tells.dead hb
  | @report b run elapsed hp =>
    have hverdict := isVerdict_verdict b run.plan.ending elapsed
    have haside : (verdict b run.plan.ending elapsed).isAside = false := by
      unfold verdict
      split <;> rfl
    refine hi.tell hp rfl (.reported b run.plan.ending) rfl
      [⟨verdict b run.plan.ending elapsed, some b.span⟩] [] (by simp [log, note, haside])
      (by simp [settled, log, note]) fun htells => ?_
    cases htells with
    | awaiting hb => simpa using Phase.Tells.reported (.intro hb hverdict) _
  | @relax b ending elapsed hp =>
    -- the cycle is complete
    obtain ⟨complete, said, last, told, hcycles, htold, hreports, hsettled⟩ := hi.told hp rfl
    cases htold with
    | reported hrun =>
      refine .inr ⟨_, _, [], [], hcycles.concat hrun, .listening, ?_, ?_⟩
      · simp [log, note, conclude, enter, Event.isAside, hreports]
      · rw [List.append_nil, ← hsettled]
        simp [settled, log, note, conclude, enter]
  | @retire b ending elapsed hp =>
    refine hi.tell hp rfl (.retiring b) rfl [⟨.outlasted, none⟩] []
      (by simp [log, note, conclude, Event.isAside]) (by simp [settled, log, note, conclude])
      fun htells => ?_
    cases htells with
    | reported hrun _ => exact .retiring hrun
  | @leaveDrain b hp =>
    refine hi.tell hp rfl .closing rfl [⟨.transition .draining .stopped, some b.span⟩] []
      (by simp [log, note, Event.isAside]) (by simp [settled, log, note]) fun htells => ?_
    cases htells with
    | dropping hb => simpa using Phase.Tells.closing (.dropped hb)
  | @leaveRun b hp =>
    refine hi.tell hp rfl .closing rfl [⟨.transition .executing .stopped, some b.span⟩] []
      (by simp [log, note, Event.isAside]) (by simp [settled, log, note]) fun htells => ?_
    cases htells with
    | retiring hrun => simpa using Phase.Tells.closing (.outlasted hrun)
  | close hp =>
    refine hi.tell hp rfl .stopped rfl [⟨.stopped, none⟩] []
      (by simp [log, note, enter, Event.isAside]) (by simp [settled, log, note, enter]) fun htells => ?_
    cases htells with
    | closing hstop => simpa using Phase.Tells.stopped hstop
  | _ => exact hi.congr rfl (by simp [note]) (by simp [settled, note])

theorem Reachable.recounted (h : Reachable script c) : c.Recounted :=
  h.keeps (fun _ => .inl ⟨rfl, rfl, rfl⟩) fun ha hs hi => hs.recounted ha.dropped hi

theorem complete_eq (c : Flow) : c.complete = c.settled ++ c.phase.committed := rfl

/-- What was told is the beginning of a word, and the batches of the word go on as the drain in
progress will. -/
theorem Recounted.exists_word (hi : c.Recounted) (hm : c.Measured) : ∃ batches word,
    Word batches word ∧ c.journal.reports <+: word ∧ c.settled <+: batches ∧
      c.journal.counts <+: batches.map Batch.toList := by
  have hcounts := hm.counts_eq
  rw [complete_eq] at hcounts
  rcases hi with ⟨hp, hreports, hsettled⟩ | htold
  · rw [hsettled, hp] at hcounts
    have hnone : c.journal.counts = [] := hcounts
    rw [hreports, hsettled, hnone]
    exact ⟨_, _, .intro .nil .cancelled, List.nil_prefix, List.nil_prefix, List.nil_prefix⟩
  · obtain ⟨complete, said, last, told, hcycles, htells, hreports, hsettled⟩ := htold
    obtain ⟨final, stop, hstop, htold, hlast, hfinal⟩ := htells.exists_stops c.mailbox.buffer
    refine ⟨_, _, .intro hcycles hstop, ?_, ?_, ?_⟩
    · rw [hreports, List.cons_append, List.append_assoc]
      exact (List.prefix_append_right_inj (_ :: said)).mpr htold
    · rw [hsettled]
      exact (List.prefix_append_right_inj complete).mpr hlast
    · rw [hcounts, hsettled]
      simpa only [List.map_append, List.append_assoc] using
        (List.prefix_append_right_inj (complete.map Batch.toList)).mpr hfinal

end Flow

/-- The batch that the work function was called for, until the cycle is over. -/
def Phase.called : Phase → List Batch
  | .awaiting b | .dead b | .reported b _ | .retiring b => [b]
  | _ => []

theorem Phase.Tells.eq_of_called {p : Phase} {last : List Batch} {told : List LogRecord}
    (h : p.Tells last told) {b : Batch} (hb : p.called = [b]) : last = [b] := by
  cases h <;> simp_all [called]

theorem Flow.Recounted.getLast?_eq {c : Flow} (hi : c.Recounted) (hx : c.Dropped) {b : Batch}
    (hb : c.phase.called = [b]) : c.journal.dispatched.getLast? = some b := by
  have hnone : c.journal.discarded = [] := hx.discarded_eq (by
    cases hp : c.phase <;> simp_all [Phase.called, Phase.isLeaving])
  rcases hi with ⟨hp, -⟩ | ⟨complete, said, last, told, -, htells, -, hsettled⟩
  · rw [hp] at hb
    contradiction
  · have hlast : last = [b] := htells.eq_of_called hb
    rw [settled, hnone, List.append_nil, hlast] at hsettled
    rw [hsettled, List.getLast?_concat]

namespace Queue

variable {script : WorkScript} {q : Queue}

/-- What the log tells of a queue. -/
structure Recounts (q : Queue) : Prop where
  /-- The log is the beginning of a word. Its batches are those that were dispatched, or dropped at
  last, and each of them is what was found when its backlog was counted. -/
  log : ∃ batches word, Word batches word ∧ q.flow.journal.reports <+: word ∧
    q.flow.settled <+: batches ∧ q.flow.journal.counts <+: batches.map Batch.toList
  /-- A dispatcher that has stopped has told everything. -/
  whole : q.published = .stopped → Word q.flow.settled q.flow.journal.reports
  /-- Until the next call the last one was made for the latest of its batch. -/
  lastDispatched_eq : q.stats.lastDispatched =
    q.flow.journal.dispatched.getLast?.map (·.latest.id)
  /-- In the cycle of a call that is the request which is named. -/
  called : ∀ b, q.phase.called = [b] → q.stats.lastDispatched = some b.latest.id

/-- The log of every queue follows the grammar. -/
theorem recounts (h : Reachable script q) : q.Recounts := by
  have hf := h.flow
  have hlast : q.stats.lastDispatched = _ := hf.tally.last_eq
  refine ⟨hf.recounted.exists_word hf.measured, fun hs => ?_, hlast, fun b hb => ?_⟩
  · have hp : q.flow.phase = .stopped := hf.announced.mp hs
    obtain ⟨batches, said, last, told, hcycles, htells, hreports, hsettled⟩ :=
      hf.recounted.told hp rfl
    cases htells with
    | stopped hstop =>
      rw [hreports, hsettled, ← List.append_assoc, ← List.cons_append]
      exact .intro hcycles hstop
  · have hcalled := hf.recounted.getLast?_eq hf.dropped hb
    rw [hlast]
    exact congrArg (Option.map _) hcalled

/-- A queue that was cancelled during its drain tells of the batch that was dropped. -/
theorem recounts_forestalled : Reachable patient forestalled ∧
    forestalled.flow.journal.reports = [⟨.started, none⟩, ⟨.transition .idle .draining, some {}⟩,
      ⟨.superseded ⟨"x"⟩ ⟨"y"⟩, none⟩, ⟨.dropped ⟨"y"⟩, none⟩,
      ⟨.transition .draining .stopped, some ⟨some "y", some 1⟩⟩, ⟨.stopped, none⟩] ∧
    forestalled.flow.settled = [⟨[⟨"x"⟩], ⟨"y"⟩⟩] ∧ forestalled.Recounts :=
  ⟨reachable_forestalled, by decide, by decide, recounts reachable_forestalled⟩

end Queue
end CoalescingQueue
