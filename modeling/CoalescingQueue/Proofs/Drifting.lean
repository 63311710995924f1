import CoalescingQueue.Proofs.Collapse
import CoalescingQueue.Proofs.Tending

/-!
# What happens while the program waits

A queue that is driven by one program drifts while the program waits: it goes from beat to beat
until everything is at rest, and then the clock goes on. Meanwhile nothing is announced and nothing
enters, and what is buffered goes into one batch. What waits for a run to end waits no longer than
for that run, and where nothing is left to be taken the run in flight is the last. At rest the
dispatcher listens with nothing buffered, a run sleeps, or the queue has stopped.
-/
namespace CoalescingQueue

/-- Whether a run at this stage comes to its end by itself once the clock shows this time. -/
def Stage.EndsBy (limit : Nat) : Stage → Prop
  | .sleeping deadline => deadline ≤ limit
  | .closing _ | .ended => True
  | _ => False

/-- Whether a fact says nothing about what became of an offer before its dispatch. -/
def Fact.IsInner (f : Fact) : Prop :=
  f.offered? = none ∧ f.admitted? = none ∧ f.forsaken? = none ∧ f.discarded? = none

namespace Queue

open Console (Simulation)

variable {s : Simulation} {q q' : Queue} {limit time : Nat}

/-- One thing that happens while the program waits. -/
inductive Drift (s : Simulation) (q : Queue) : Queue → Prop
  | beat {q' : Queue} (hs : q.step? s.work = some q') : Drift s q q'
  | wake (hr : q.AtRest s.work) {deadline : Nat} (hd : q.deadline? = some deadline) :
      Drift s q (q.wakeRunAt deadline)
  | wait (hr : q.AtRest s.work) {time : Nat} (ht : ∀ d, q.deadline? = some d → time < d) :
      Drift s q (q.clockTo time)

/-- Any number of such things. -/
abbrev Drifts (s : Simulation) : Queue → Queue → Prop := Relation.ReflTransGen (Drift s)

/-- How a queue can be at rest. -/
inductive Lull (q : Queue) : Prop
  | idle (hphase : q.phase = .listening) (hc : q.isCancelled = false)
      (hbuffer : q.mailbox.buffer = []) (hrun : q.run = none)
  | asleep {b : Batch} {run : Run} {deadline : Nat} (hphase : q.phase = .awaiting b)
      (hrun : q.run = some run) (hstage : run.stage = .sleeping deadline)
      (hlater : q.now < deadline)
  | over (hphase : q.phase = .stopped) (hc : q.isCancelled = true) (hrun : q.run = none)

/-! ## At rest -/

theorem deadline?_eq_some {deadline : Nat} : q.deadline? = some deadline ↔
    ∃ run, q.run = some run ∧ run.stage = .sleeping deadline := by
  unfold deadline?
  constructor
  · intro hd
    split at hd
    · next run hrun =>
      split at hd
      · next d hstage =>
        obtain rfl := Option.some.inj hd
        exact ⟨run, hrun, hstage⟩
      · contradiction
    · contradiction
  · rintro ⟨run, hrun, hstage⟩
    rw [hrun]
    dsimp only
    rw [hstage]

section Rest

variable (h : q.Tended s) (hr : q.AtRest s.work)
include h hr

theorem Tended.not_wanted (p : Party) : ¬ q.Wanted p := by
  intro hw
  rcases h.alert p hw with hturn | hline
  · rw [hr.isStill.turn_eq] at hturn
    contradiction
  · rw [hr.isStill.line_eq] at hline
    exact List.not_mem_nil hline

theorem Tended.lull : q.Lull := by
  have hidle := h.not_wanted hr .dispatcher
  have hsuits := h.suits
  have hnone (hphase : q.phase.isRunning = false) : q.run = none := (h.flow.serial.idle hphase).1
  unfold Wanted at hidle
  cases hphase : q.phase with
  | listening =>
    rw [hphase] at hidle
    have hc : q.isCancelled = false := Bool.eq_false_iff.mpr fun hc => hidle (.inl hc)
    have hbuffer : q.mailbox.buffer = [] := by
      by_contra hmore
      exact hidle (.inr (.inl hmore))
    exact .idle hphase hc hbuffer (hnone (by rw [hphase]; rfl))
  | awaiting b =>
    rw [hphase] at hidle
    obtain ⟨run, hrun, -⟩ := h.flow.serial.running (congrArg Phase.isRunning hphase)
    have hstill : ¬ run.CanGoOn q.permits q.now := fun hgo =>
      h.not_wanted hr .run ⟨run, hrun, hgo⟩
    unfold Run.CanGoOn at hstill
    cases hstage : run.stage with
    | sleeping deadline =>
      rw [hstage] at hstill
      exact .asleep hphase hrun hstage (Nat.lt_of_not_le hstill)
    | waiting =>
      rw [hstage, h.plan_eq hrun] at hstill
      exact absurd (fun hgated => nomatch hgated) hstill
    | ended => exact absurd ⟨run, hrun, hstage⟩ hidle
    | _ =>
      rw [hstage] at hstill
      exact absurd trivial hstill
  | stopped =>
    rw [hphase] at hsuits
    exact .over hphase hsuits (hnone (by rw [hphase]; rfl))
  | dropping b | dead b =>
    rw [hphase] at hsuits
    contradiction
  | _ =>
    rw [hphase] at hidle
    exact absurd trivial hidle

/-- A run that sleeps on is to be woken later. -/
theorem Tended.lt_deadline {deadline : Nat} (hd : q.deadline? = some deadline) :
    q.now < deadline := by
  obtain ⟨run, hrun, hstage⟩ := deadline?_eq_some.mp hd
  rcases h.lull hr with ⟨-, -, -, hnone⟩ | ⟨-, hrun', hstage', hlater⟩ | ⟨-, -, hnone⟩
  · rw [hrun] at hnone
    contradiction
  · obtain rfl := Option.some.inj (hrun.symm.trans hrun')
    obtain rfl := Stage.sleeping.inj (hstage.symm.trans hstage')
    exact hlater
  · rw [hrun] at hnone
    contradiction

/-- The clock goes on, and the run in flight is put in line if its time has come. -/
theorem Tended.tick {line : List Party} {now : Nat} (hnow : q.now ≤ now)
    (hline : ∀ p ∈ line, p = .run)
    (hrun : ∀ run, q.run = some run → run.CanGoOn q.permits now → .run ∈ line) :
    { q with line, now }.Tended s := by
  have hturn := hr.isStill.turn_eq
  refine { h with
    flow := h.flow, packed := h.packed, unproduced := ?_, alert := ?_, deadline_le := ?_ }
  · rintro ticket (hhas | hmem)
    · rw [show ({ q with line, now } : Queue).turn = q.turn from rfl, hturn] at hhas
      contradiction
    · cases hline _ hmem
  · intro p hw
    cases p with
    | dispatcher => exact absurd hw (h.not_wanted hr .dispatcher)
    | run =>
      obtain ⟨run, hflight, hgo⟩ := hw
      exact .inr (hrun run hflight hgo)
    | producer ticket => exact absurd hw (h.not_wanted hr (.producer ticket))
  · intro run d hflight hstage
    exact (h.deadline_le run d hflight hstage).trans (Nat.add_le_add_right hnow _)

end Rest

/-! ## Drifting -/

theorem wakeRunAt_eq_joined (q : Queue) (time : Nat) :
    q.wakeRunAt time = { q with line := joined q.line .run, now := max q.now time } := by
  rw [wakeRunAt, enqueue_eq_joined]
  rfl

/-- A beat, or the clock goes on. -/
theorem Drift.beat_or (hd : Drift s q q') (h : q.Tended s) :
    Beat s q q' ∨ ∃ line now, q.now ≤ now ∧ q' = { q with line, now } := by
  cases hd with
  | beat hs => exact .inl (h.beat hs)
  | wake => exact .inr ⟨_, _, Nat.le_max_left _ _, q.wakeRunAt_eq_joined _⟩
  | wait => exact .inr ⟨q.line, _, Nat.le_max_left _ _, rfl⟩

theorem Drift.tended (hd : Drift s q q') (h : q.Tended s) : q'.Tended s := by
  cases hd with
  | beat hs => exact h.step hs
  | wake hr =>
    rw [wakeRunAt_eq_joined]
    refine h.tick hr (Nat.le_max_left _ _) (fun p hp => ?_) fun _ _ _ => mem_joined.mpr (.inr rfl)
    rw [hr.isStill.line_eq] at hp
    exact (mem_joined.mp hp).resolve_left List.not_mem_nil
  | @wait hr time ht =>
    refine h.tick hr (Nat.le_max_left q.now time) (fun p hp => ?_) fun run hrun hgo => ?_
    · rw [hr.isStill.line_eq] at hp
      contradiction
    · rcases h.lull hr with ⟨-, -, -, hnone⟩ | ⟨-, hrun', hstage, hlater⟩ | ⟨-, -, hnone⟩
      · rw [hrun] at hnone
        contradiction
      · obtain rfl := Option.some.inj (hrun.symm.trans hrun')
        have hnot := ht _ (deadline?_eq_some.mpr ⟨run, hrun, hstage⟩)
        unfold Run.CanGoOn at hgo
        rw [hstage] at hgo
        exact absurd hgo (Nat.not_le_of_lt (Nat.max_lt.mpr ⟨hlater, hnot⟩))
      · rw [hrun] at hnone
        contradiction

/-- What each thing keeps that happens, all of them keep. -/
theorem Drifts.keeps {P : Queue → Prop} (hd : Drifts s q q') (h : q.Tended s)
    (hstep : ∀ {a b : Queue}, a.Tended s → Drift s a b → P a → P b) (hq : P q) :
    q'.Tended s ∧ P q' := by
  induction hd with
  | refl => exact ⟨h, hq⟩
  | tail _ hd ih => exact ⟨hd.tended ih.1, hstep ih.1 hd ih.2⟩

theorem Drifts.tended (hd : Drifts s q q') (h : q.Tended s) : q'.Tended s :=
  (hd.keeps (P := fun _ => True) h (fun _ _ _ => trivial) trivial).1

theorem drifts_settle (s : Simulation) (q : Queue) : Drifts s q (q.settle s.work) := by
  have hall (n : Nat) (q : Queue) : Drifts s q (iterate (step? s.work) n q) := by
    induction n generalizing q with
    | zero => exact .refl
    | succ n ih =>
      unfold iterate
      split
      · next q' hs => exact .head (.beat hs) (ih q')
      · exact .refl
  exact hall _ q

theorem settle_of_atRest (hr : q.AtRest s.work) : q.settle s.work = q := iterate_atRest hr _

/-! ## What is kept -/

/-- What the queue does by itself leaves alone. -/
structure Undisturbed (q q' : Queue) : Prop where
  config_eq : q'.config = q.config
  tickets_eq : q'.tickets = q.tickets
  isCancelled_eq : q'.isCancelled = q.isCancelled
  calls_eq : q'.mailbox.calls = q.mailbox.calls
  offered_eq : q'.flow.journal.offered = q.flow.journal.offered
  arrivals_eq : q'.flow.journal.arrivals = q.flow.journal.arrivals
  forsaken_eq : q'.flow.journal.forsaken = q.flow.journal.forsaken
  discarded_eq : q'.flow.journal.discarded = q.flow.journal.discarded

theorem Undisturbed.trans {q'' : Queue} (h : q.Undisturbed q') (h' : q'.Undisturbed q'') :
    q.Undisturbed q'' :=
  ⟨h'.config_eq.trans h.config_eq, h'.tickets_eq.trans h.tickets_eq,
    h'.isCancelled_eq.trans h.isCancelled_eq, h'.calls_eq.trans h.calls_eq,
    h'.offered_eq.trans h.offered_eq, h'.arrivals_eq.trans h.arrivals_eq,
    h'.forsaken_eq.trans h.forsaken_eq, h'.discarded_eq.trans h.discarded_eq⟩

theorem undisturbed_of {facts : History} (hconfig : q'.config = q.config)
    (htickets : q'.tickets = q.tickets) (hc : q'.isCancelled = q.isCancelled)
    (hcalls : q'.mailbox.calls = q.mailbox.calls)
    (hjournal : q'.journal.toList = q.journal.toList ++ facts)
    (hfacts : ∀ f ∈ facts, Fact.IsInner f) : q.Undisturbed q' := by
  have hnone {α : Type} (kind : Fact → Option α) (hkind : ∀ f ∈ facts, kind f = none) :
      q'.flow.journal.gather kind = q.flow.journal.gather kind := by
    show History.gather kind q'.journal.toList = _
    rw [hjournal, History.gather_append]
    exact (congrArg _ (List.filterMap_eq_nil_iff.mpr hkind)).trans (List.append_nil _)
  exact ⟨hconfig, htickets, hc, hcalls, hnone _ fun f hf => (hfacts f hf).1,
    hnone _ fun f hf => (hfacts f hf).2.1, hnone _ fun f hf => (hfacts f hf).2.2.1,
    hnone _ fun f hf => (hfacts f hf).2.2.2⟩

theorem Beat.undisturbed (hb : Beat s q q') : q.Undisturbed q' := by
  have hone (f : Fact) (hf : f.IsInner) : ∀ g ∈ [f], Fact.IsInner g := by
    intro g hg
    rwa [List.mem_singleton.mp hg]
  have htwo (f g : Fact) (hf : f.IsInner) (hg : g.IsInner) : ∀ k ∈ [f, g], Fact.IsInner k := by
    intro k hk
    rcases List.mem_pair.mp hk with rfl | rfl
    · exact hf
    · exact hg
  have hpushed (f g : Fact) : ((q.journal.push f).push g).toList = q.journal.toList ++ [f, g] := by
    simp
  cases hb with
  | call | rest | begin | arrive | pass | sleep | awake =>
    exact undisturbed_of rfl rfl rfl rfl (List.append_nil _).symm (List.forall_mem_nil _)
  | receive _ _ _ htake | drain _ _ htake =>
    have hcalls : q.mailbox.calls = _ := congrArg Mailbox.calls (Mailbox.eq_of_take? htake)
    exact undisturbed_of rfl rfl rfl ((Mailbox.calls_release _).trans hcalls.symm)
      Array.toList_push (hone _ ⟨rfl, rfl, rfl, rfl⟩)
  | report =>
    refine undisturbed_of rfl rfl rfl rfl Array.toList_push (hone _ ?_)
    unfold Flow.verdict Fact.IsInner
    split <;> exact ⟨rfl, rfl, rfl, rfl⟩
  | launch | relax | retire =>
    exact undisturbed_of rfl rfl rfl rfl (hpushed _ _)
      (htwo _ _ ⟨rfl, rfl, rfl, rfl⟩ ⟨rfl, rfl, rfl, rfl⟩)
  | start | heed | count | engage | leave | close | finish =>
    exact undisturbed_of rfl rfl rfl rfl Array.toList_push (hone _ ⟨rfl, rfl, rfl, rfl⟩)

theorem Drift.undisturbed (hd : Drift s q q') (h : q.Tended s) : q.Undisturbed q' := by
  rcases hd.beat_or h with hb | ⟨line, now, -, rfl⟩
  · exact hb.undisturbed
  · exact ⟨rfl, rfl, rfl, rfl, rfl, rfl, rfl, rfl⟩

theorem Drifts.undisturbed (hd : Drifts s q q') (h : q.Tended s) : q.Undisturbed q' :=
  (hd.keeps (P := q.Undisturbed) h (fun ha hd hi => hi.trans (hd.undisturbed ha))
    ⟨rfl, rfl, rfl, rfl, rfl, rfl, rfl, rfl⟩).2

/-! ## Batches -/

/-- The requests that have entered and are not dispatched, nor dropped. -/
def backlog (q : Queue) : List Request := q.phase.taken ++ q.mailbox.buffer

/-- The batches that were dispatched, and the one that what has entered would make. -/
def batches (q : Queue) : List (List Request) :=
  q.flow.journal.dispatched.map Batch.toList ++ [q.backlog].filter (!·.isEmpty)

theorem batches_of_backlog_ne_nil (h : q.backlog ≠ []) :
    q.batches = q.flow.journal.dispatched.map Batch.toList ++ [q.backlog] := by
  rw [batches, List.filter_cons_of_pos (by simpa using h), List.filter_nil]

theorem batches_of_backlog_eq_nil (h : q.backlog = []) :
    q.batches = q.flow.journal.dispatched.map Batch.toList := by
  rw [batches, h]
  exact List.append_nil _

/-- Whatever has entered goes into one batch. -/
theorem Beat.batches_eq (hb : Beat s q q') (h : q.Tended s) : q'.batches = q.batches := by
  have hstill {f : Fact} (hf : f.dispatched? = none) :
      History.dispatched (q.journal.push f).toList = q.flow.journal.dispatched := by
    rw [Array.toList_push]
    exact History.gather_concat_of_eq_none _ hf
  have hsame (hbacklog : q'.backlog = q.backlog)
      (hdispatched : q'.flow.journal.dispatched = q.flow.journal.dispatched) :
      q'.batches = q.batches := by
    rw [batches, batches, hbacklog, hdispatched]
  have hall := h.takesAll
  cases hb with
  | call | rest | begin | arrive | pass | sleep | awake => rfl
  | receive _ hphase _ htake =>
    refine hsame ?_ (hstill rfl)
    rw [backlog, backlog, hphase, buffer_of_take htake]
    rfl
  | drain _ hphase htake =>
    refine hsame ?_ (hstill rfl)
    rw [backlog, backlog, hphase, buffer_of_take htake]
    simp [logged, note, Phase.taken]
  | start _ hphase | heed _ hphase | count _ hphase | engage _ hphase | leave _ hphase
  | close _ hphase =>
    refine hsame ?_ (hstill rfl)
    rw [backlog, backlog, hphase]
    rfl
  | @report b run elapsed _ hphase =>
    refine hsame ?_ (hstill ?_)
    · rw [backlog, backlog, hphase]
      rfl
    · unfold Flow.verdict
      split <;> rfl
  | @relax b ending elapsed _ _ hphase | @retire b ending elapsed _ _ hphase =>
    refine hsame ?_ ?_
    · rw [backlog, backlog, hphase]
      rfl
    · simp [logged, note, flow]
  | finish => exact hsame rfl (hstill rfl)
  | @launch b _ _ hphase =>
    -- the drain has left nothing behind, so the batch is all of the backlog
    rw [hphase] at hall
    have hnone : q.mailbox.buffer = [] := hall
    have hbefore : q.backlog = b.toList := by
      rw [backlog, hphase, hnone, List.append_nil]
      rfl
    have hsome : q.backlog ≠ [] := by
      rw [hbefore]
      exact List.append_ne_nil_of_right_ne_nil _ (List.cons_ne_nil _ _)
    rw [batches_of_backlog_ne_nil hsome, batches_of_backlog_eq_nil (by exact hnone), hbefore]
    simp [flow]

theorem Drift.batches_eq (hd : Drift s q q') (h : q.Tended s) : q'.batches = q.batches := by
  rcases hd.beat_or h with hb | ⟨line, now, -, rfl⟩
  · exact hb.batches_eq h
  · rfl

theorem Drifts.batches_eq (hd : Drifts s q q') (h : q.Tended s) : q'.batches = q.batches :=
  (hd.keeps (P := fun p => p.batches = q.batches) h
    (fun ha hd hi => (hd.batches_eq ha).trans hi) rfl).2

/-! ## How long it takes -/

/-- The run in flight comes to its end by itself once the clock shows this time. -/
def EndsBy (limit : Nat) (q : Queue) : Prop := ∀ run, q.run = some run → run.stage.EndsBy limit

/-- What is buffered waits for a run that ends by this time, at most. -/
def ClearsBy (limit : Nat) (q : Queue) : Prop := q.mailbox.buffer = [] ∨ q.EndsBy limit

/-- Nothing is left to be taken, or the queue is cancelled, so the run in flight is the last, and it
ends by this time. -/
structure Spent (limit : Nat) (q : Queue) : Prop where
  taken_eq : q.phase.taken = []
  nothing : q.isCancelled = true ∨ q.mailbox.buffer = []
  endsBy : q.EndsBy limit

theorem endsBy_of_run_eq_none (hrun : q.run = none) : q.EndsBy limit := by
  intro run hflight
  rw [hrun] at hflight
  contradiction

/-- A run in flight does not come to take longer. -/
theorem Beat.endsBy (hb : Beat s q q') (hi : q.EndsBy limit) :
    q'.EndsBy limit ∨ ∃ b, q.phase = .dispatching b := by
  cases hb with
  | launch _ hphase => exact .inr ⟨_, hphase⟩
  | relax | retire => exact .inl nofun
  | begin _ hrun hstage | arrive _ hrun hstage | pass _ hrun hstage | sleep _ hrun hstage =>
    have hnot := hi _ hrun
    rw [hstage] at hnot
    exact hnot.elim
  | awake | finish =>
    refine .inl fun run hrun => ?_
    obtain rfl := Option.some.inj hrun
    exact trivial
  | _ => exact .inl hi

theorem Beat.buffer_eq_nil (hb : Beat s q q') (hbuffer : q.mailbox.buffer = []) :
    q'.mailbox.buffer = [] := by
  cases hb with
  | receive _ _ _ htake | drain _ _ htake =>
    rw [buffer_of_take htake] at hbuffer
    contradiction
  | _ => exact hbuffer

theorem Drift.buffer_eq_nil (hd : Drift s q q') (h : q.Tended s) (hbuffer : q.mailbox.buffer = []) :
    q'.mailbox.buffer = [] := by
  rcases hd.beat_or h with hb | ⟨line, now, -, rfl⟩
  · exact hb.buffer_eq_nil hbuffer
  · exact hbuffer

theorem Drifts.buffer_eq_nil (hd : Drifts s q q') (h : q.Tended s)
    (hbuffer : q.mailbox.buffer = []) : q'.mailbox.buffer = [] :=
  (hd.keeps (P := fun p => p.mailbox.buffer = []) h (fun ha hd hi => hd.buffer_eq_nil ha hi)
    hbuffer).2

theorem Drift.clearsBy (hd : Drift s q q') (h : q.Tended s) (hi : q.ClearsBy limit) :
    q'.ClearsBy limit := by
  rcases hi with hbuffer | hends
  · exact .inl (hd.buffer_eq_nil h hbuffer)
  · rcases hd.beat_or h with hb | ⟨line, now, -, rfl⟩
    · rcases hb.endsBy hends with hends | ⟨b, hphase⟩
      · exact .inr hends
      · have hall := h.takesAll
        rw [hphase] at hall
        exact .inl (hb.buffer_eq_nil hall)
    · exact .inr hends

theorem Drifts.clearsBy (hd : Drifts s q q') (h : q.Tended s) (hi : q.ClearsBy limit) :
    q'.ClearsBy limit := (hd.keeps h (fun ha hd hi => hd.clearsBy ha hi) hi).2

theorem Beat.taken_eq_nil (hb : Beat s q q') (htaken : q.phase.taken = [])
    (hnothing : q.isCancelled = true ∨ q.mailbox.buffer = []) : q'.phase.taken = [] := by
  cases hb with
  | receive _ _ hc htake =>
    rcases hnothing with hcancelled | hbuffer
    · rw [hc] at hcancelled
      contradiction
    · rw [buffer_of_take htake] at hbuffer
      contradiction
  | count _ hphase | drain _ hphase | engage _ hphase =>
    rw [hphase] at htaken
    simp [Phase.taken, Batch.toList] at htaken
  | start | heed | launch | report | relax | retire | leave | close => rfl
  | _ => exact htaken

theorem Drift.spent (hd : Drift s q q') (h : q.Tended s) (hi : q.Spent limit) : q'.Spent limit := by
  obtain ⟨htaken, hnothing, hends⟩ := hi
  have hnothing' : q'.isCancelled = true ∨ q'.mailbox.buffer = [] := by
    rw [(hd.undisturbed h).isCancelled_eq]
    exact hnothing.imp id (hd.buffer_eq_nil h)
  rcases hd.beat_or h with hb | ⟨line, now, -, rfl⟩
  · refine ⟨hb.taken_eq_nil htaken hnothing, hnothing', (hb.endsBy hends).resolve_right ?_⟩
    rintro ⟨b, hphase⟩
    rw [hphase] at htaken
    exact List.append_ne_nil_of_right_ne_nil _ (List.cons_ne_nil _ _) htaken
  · exact ⟨htaken, hnothing, hends⟩

theorem Drifts.spent (hd : Drifts s q q') (h : q.Tended s) (hi : q.Spent limit) : q'.Spent limit :=
  (hd.keeps h (fun ha hd hi => hd.spent ha hi) hi).2

end Queue
end CoalescingQueue
