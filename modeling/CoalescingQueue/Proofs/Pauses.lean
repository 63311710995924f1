import CoalescingQueue.Proofs.Drifting

/-!
# Where the program goes on

After its queue has come to rest, or the clock to a time, the program may go on: nobody has the
turn, and a run in flight sleeps. What is left when the clock has come to a time follows from how
long a run can still take. Once the queue is cancelled it stops as soon as the run in flight has
ended.
-/
namespace CoalescingQueue.Queue

open Console (Simulation)

variable {s : Simulation} {q q' : Queue} {limit time : Nat}

/-- Where the program may go on. -/
structure Steered (s : Simulation) (q : Queue) : Prop extends Tended s q where
  turn_eq : q.turn = none
  sleeps : ∀ run, q.run = some run → ∃ deadline, run.stage = .sleeping deadline

/-- The clock comes to a time, at which a run may be due, after what happens before that time. -/
inductive Comes (s : Simulation) (time : Nat) (q : Queue) : Queue → Prop
  | due {p : Queue} (hd : Drifts s q p) (hr : p.AtRest s.work) (hnow : p.now < time)
      (hdue : p.deadline? = some time) : Comes s time q (p.wakeRunAt time)
  | early {p : Queue} (hd : Drifts s q p) (hr : p.AtRest s.work) (hnow : p.now < time)
      (hlater : ∀ d, p.deadline? = some d → time < d) : Comes s time q (p.clockTo time)

/-! ## The clock stands still -/

theorem Beat.now_eq (hb : Beat s q q') : q'.now = q.now := by
  cases hb <;> rfl

theorem Tended.now_settle (h : q.Tended s) : (q.settle s.work).now = q.now := by
  have hkeeps {p p' : Queue} (hp : p.Tended s ∧ p.now = q.now) (hs : p.step? s.work = some p') :
      (p'.Tended s ∧ p'.now = q.now) ∧ p'.toil < p.toil :=
    ⟨⟨hp.1.step hs, (hp.1.beat hs).now_eq.trans hp.2⟩, (hp.1.beat hs).toil_lt⟩
  exact (atRest_of_measure hkeeps (toil_le_patience s.work q) ⟨h, rfl⟩).1.2

theorem Tended.sleeps (h : q.Tended s) (hr : q.AtRest s.work) :
    ∀ run, q.run = some run → ∃ deadline, run.stage = .sleeping deadline := by
  intro run hrun
  rcases h.lull hr with ⟨-, -, -, hnone⟩ | ⟨-, hrun', hstage, -⟩ | ⟨-, -, hnone⟩
  · rw [hrun] at hnone
    contradiction
  · obtain rfl := Option.some.inj (hrun.symm.trans hrun')
    exact ⟨_, hstage⟩
  · rw [hrun] at hnone
    contradiction

theorem Tended.steered (h : q.Tended s) (hr : q.AtRest s.work) : q.Steered s :=
  ⟨h, hr.isStill.turn_eq, h.sleeps hr⟩

theorem Tended.steered_settle (h : q.Tended s) : (q.settle s.work).Steered s :=
  h.settle.1.steered h.settle.2

section Steered

variable (h : q.Steered s)
include h

theorem Steered.isBusy_eq : q.phase.isBusy = false := by
  refine h.proper.isBusy_eq fun hturn => ?_
  rw [show q.scene.turn = q.turn from rfl, h.turn_eq] at hturn
  contradiction

theorem Steered.taken_eq : q.phase.taken = [] := by
  have hbusy := h.isBusy_eq
  cases hphase : q.phase <;> simp_all [Phase.isBusy, Phase.taken]

/-- A run that sleeps does not sleep longer than a run takes. -/
theorem Steered.endsBy : q.EndsBy (q.now + s.workMs) := by
  intro run hrun
  obtain ⟨deadline, hstage⟩ := h.sleeps run hrun
  rw [hstage]
  exact h.deadline_le run deadline hrun hstage

theorem Steered.clearsBy : q.ClearsBy (q.now + s.workMs) := .inr h.endsBy

theorem Steered.spent (hnothing : q.isCancelled = true ∨ q.mailbox.buffer = []) :
    q.Spent (q.now + s.workMs) := ⟨h.taken_eq, hnothing, h.endsBy⟩

end Steered

/-! ## The clock goes on -/

theorem Comes.of_drifts {p : Queue} (hd : Drifts s q p) (hc : Comes s time p q') :
    Comes s time q q' := by
  cases hc with
  | due hd' hr hnow hdue => exact .due (hd.trans hd') hr hnow hdue
  | early hd' hr hnow hlater => exact .early (hd.trans hd') hr hnow hlater

theorem Comes.drifts (hc : Comes s time q q') : Drifts s q q' := by
  cases hc with
  | due hd hr hnow hdue => exact hd.tail (.wake hr hdue)
  | early hd hr hnow hlater => exact hd.tail (.wait hr hlater)

theorem Comes.now_eq (hc : Comes s time q q') : q'.now = time := by
  cases hc with
  | due hd hr hnow hdue =>
    rw [wakeRunAt_eq_joined]
    exact Nat.max_eq_right hnow.le
  | early hd hr hnow hlater => exact Nat.max_eq_right hnow.le

/-- Only the line and the clock have changed since everything was at rest. -/
theorem Comes.exists_atRest (hc : Comes s time q q') (h : q.Tended s) :
    ∃ (p : Queue) (line : List Party), p.Tended s ∧ p.AtRest s.work ∧
      q' = { p with line, now := time } ∧ ∀ d, p.deadline? = some d → time ≤ d := by
  cases hc with
  | @due p hd hr hnow hdue =>
    refine ⟨p, joined p.line .run, hd.tended h, hr, ?_, fun d hd => ?_⟩
    · rw [wakeRunAt_eq_joined, Nat.max_eq_right hnow.le]
    · obtain rfl := Option.some.inj (hdue.symm.trans hd)
      exact le_rfl
  | @early p hd hr hnow hlater =>
    refine ⟨p, p.line, hd.tended h, hr, ?_, fun d hd => (hlater d hd).le⟩
    rw [clockTo]
    congr 1
    exact Nat.max_eq_right hnow.le

theorem Comes.steered (hc : Comes s time q q') (h : q.Tended s) : q'.Steered s := by
  have htended := hc.drifts.tended h
  obtain ⟨p, line, hp, hr, rfl, -⟩ := hc.exists_atRest h
  exact ⟨htended, hr.isStill.turn_eq, hp.sleeps hr⟩

theorem Tended.comes {n : Nat} (h : q.Tended s) (hlt : q.now < time) (hle : time ≤ q.now + n) :
    Comes s time q (q.advanceWithin s.work time n) := by
  induction n generalizing q with
  | zero => omega
  | succ n ih =>
    obtain ⟨hsettled, hr⟩ := h.settle
    have hnow := h.now_settle
    have hdrifts := drifts_settle s q
    cases hd : (q.settle s.work).deadline? with
    | none =>
      rw [advanceWithin_of_none hr hd]
      refine .early hdrifts hr (by omega) fun d hd' => ?_
      rw [hd] at hd'
      contradiction
    | some deadline =>
      have hlater := hsettled.lt_deadline hr hd
      have hwake : Drift s (q.settle s.work) ((q.settle s.work).wakeRunAt deadline) := .wake hr hd
      rw [advanceWithin_of_deadline hr hd]
      split
      · next hbefore =>
        have hcome : ((q.settle s.work).wakeRunAt deadline).now = deadline := by
          rw [wakeRunAt_eq_joined]
          exact Nat.max_eq_right hlater.le
        exact (ih (hwake.tended hsettled) (by omega) (by omega)).of_drifts (hdrifts.tail hwake)
      · split
        · next heq => exact .due hdrifts hr (by omega) (heq ▸ hd)
        · refine .early hdrifts hr (by omega) fun d hd' => ?_
          obtain rfl := Option.some.inj (hd.symm.trans hd')
          omega

/-- Settling first makes no difference to what happens until then. -/
theorem Tended.advanceWithin_settle (h : q.Tended s) (n : Nat) :
    (q.settle s.work).advanceWithin s.work time (n + 1) = q.advanceWithin s.work time (n + 1) := by
  rw [advanceWithin, advanceWithin, settle_of_atRest h.settle.2]

/-- What waited for a run that has ended meanwhile is not buffered any more. -/
theorem Comes.buffer_eq_nil (hc : Comes s time q q') (h : q.Tended s)
    (hgoing : q.isCancelled = false) (hclear : q.ClearsBy limit) (hlt : limit < time) :
    q'.mailbox.buffer = [] := by
  have hclear' := hc.drifts.clearsBy h hclear
  have hcancelled := (hc.drifts.undisturbed h).isCancelled_eq.trans hgoing
  obtain ⟨p, line, hp, hr, rfl, hlater⟩ := hc.exists_atRest h
  rcases hclear' with hbuffer | hends
  · exact hbuffer
  · rcases hp.lull hr with ⟨-, -, hbuffer, -⟩ | ⟨-, hrun, hstage, -⟩ | ⟨-, hover, -⟩
    · exact hbuffer
    · have hdue := hends _ hrun
      rw [hstage] at hdue
      have hdue : _ ≤ limit := hdue
      have hnot := hlater _ (deadline?_eq_some.mpr ⟨_, hrun, hstage⟩)
      omega
    · exact absurd (hcancelled.symm.trans hover) Bool.false_ne_true

/-- The last run has ended. -/
theorem Comes.run_eq_none (hc : Comes s time q q') (h : q.Tended s) (hspent : q.Spent limit)
    (hlt : limit < time) : q'.run = none := by
  have hends := (hc.drifts.spent h hspent).endsBy
  obtain ⟨p, line, hp, hr, rfl, hlater⟩ := hc.exists_atRest h
  rcases hp.lull hr with ⟨-, -, -, hnone⟩ | ⟨-, hrun, hstage, -⟩ | ⟨-, -, hnone⟩
  · exact hnone
  · have hdue := hends _ hrun
    rw [hstage] at hdue
    have hdue : _ ≤ limit := hdue
    have hnot := hlater _ (deadline?_eq_some.mpr ⟨_, hrun, hstage⟩)
    omega
  · exact hnone

/-! ## Actions of the program -/

/-- The line after the dispatcher was woken, if it rests in this phase. -/
def woken (phase : Phase) (line : List Party) : List Party :=
  match phase with
  | .listening => joined line .dispatcher
  | _ => line

theorem subset_woken (phase : Phase) (line : List Party) : line ⊆ woken phase line := by
  intro p hp
  unfold woken
  split
  · exact mem_joined.mpr (.inl hp)
  · exact hp

theorem of_mem_woken {phase : Phase} {line : List Party} {p : Party} (hp : p ∈ woken phase line) :
    p ∈ line ∨ p = .dispatcher := by
  unfold woken at hp
  split at hp
  · exact mem_joined.mp hp
  · exact .inl hp

theorem dispatcher_mem_woken (line : List Party) : .dispatcher ∈ woken .listening line :=
  mem_joined.mpr (.inr rfl)

theorem wakeDispatcher_eq_woken (hturn : q.turn = none) :
    q.wakeDispatcher = { q with line := woken q.phase q.line } := by
  unfold wakeDispatcher
  split
  · next hphase =>
    have hline : woken q.phase q.line = joined q.line .dispatcher := by
      rw [hphase]
      rfl
    rw [if_neg (by rw [hturn]; nofun), enqueue_eq_joined, hline]
  · next hphase =>
    have hline : woken q.phase q.line = q.line := by
      unfold woken
      split
      · next hlistens => exact absurd hlistens hphase
      · rfl
    rw [hline]

section Steered

variable (h : q.Steered s)
include h

/-- What the program does where it may go on: it changes nothing but the mailbox, the counters, the
journal and whether the queue is cancelled, and wakes the dispatcher if it finds something to do. -/
theorem Steered.act {mailbox : Mailbox} {isCancelled : Bool} {stats : Stats} {tickets : Nat}
    {journal : Array Fact} {line : List Party}
    (hcallers : ∀ w ∈ mailbox.waiting, w.caller = .foreground)
    (hflow : { q with mailbox, isCancelled, stats, tickets, journal, line }.flow.Reachable s.work)
    (hpacked : mailbox.isClosed = false → mailbox.Fits q.config.capacity)
    (hc : q.isCancelled = true → isCancelled = true) (hmore : q.line ⊆ line)
    (hline : ∀ p ∈ line, p ∈ q.line ∨ p = .dispatcher)
    (hwoken : q.phase = .listening → .dispatcher ∈ line ∨
      isCancelled = q.isCancelled ∧ mailbox.buffer = q.mailbox.buffer) :
    { q with mailbox, isCancelled, stats, tickets, journal, line }.Steered s := by
  have hbusy := h.isBusy_eq
  have hsuits := h.suits
  have hheld := h.held
  refine ⟨⟨h.hooks_eq, h.due_eq, h.errand_eq, h.closers_eq, h.held, hcallers, ?_, hflow, h.proper,
    hpacked, ?_, ?_, ?_, h.todo_eq, h.deadline_le⟩, h.turn_eq, h.sleeps⟩
  · rintro ticket (hturn | hmem)
    · exact h.unproduced ticket (.inl hturn)
    · rcases hline _ hmem with hold | hnew
      · exact h.unproduced ticket (.inr hold)
      · cases hnew
  · intro p hw
    have hold (hw : q.Wanted p) :
        { q with mailbox, isCancelled, stats, tickets, journal, line }.Awake p :=
      (h.alert p hw).imp id fun hmem => hmore hmem
    cases p with
    | producer ticket =>
      obtain ⟨w, hmem, -, htask, -⟩ := hw
      rw [hcallers w hmem] at htask
      contradiction
    | run => exact hold hw
    | dispatcher =>
      unfold Wanted at hw hold
      cases hphase : q.phase with
      | listening =>
        rcases hwoken hphase with hmem | ⟨hsame, hbuffer⟩
        · exact .inr hmem
        · refine hold ?_
          rw [hphase] at hw ⊢
          dsimp only at hw
          rw [hsame, hbuffer] at hw
          refine hw.imp_right (Or.imp_right fun habandoned => ?_)
          have hkept := isAbandoned_eq_false (q := { q with
            mailbox, isCancelled, stats, tickets, journal, line }) hheld
          exact absurd (hkept.symm.trans habandoned) Bool.false_ne_true
      | _ =>
        rw [hphase] at hw hold
        exact hold hw
  · cases hphase : q.phase <;> simp_all [Phase.isBusy, Phase.suits]
  · cases hphase : q.phase <;> simp_all [Phase.isBusy, Phase.TakesAll]

/-- The queue is cancelled. -/
theorem Steered.cancel : q.cancel.Steered s := by
  obtain ⟨capacity, hcourse⟩ := h.flow
  have hflow : q.cancel.flow.Reachable s.work := ⟨capacity, course_cancel hcourse⟩
  unfold Queue.cancel at hflow ⊢
  split
  · exact h
  · next hc =>
    rw [if_neg hc] at hflow
    have hwoken : ({ q with isCancelled := true }.wakeDispatcher).wakeProducers =
        { q with isCancelled := true, line := woken q.phase q.line } := by
      rw [wakeDispatcher_eq_woken (by exact h.turn_eq)]
      exact wakeProducers_of_foreground
        (q := { q with isCancelled := true, line := woken q.phase q.line }) h.callers
    rw [hwoken] at hflow ⊢
    refine h.act h.callers hflow h.packed (fun _ => rfl) (subset_woken _ _) (fun _ => of_mem_woken)
      fun hphase => .inl ?_
    rw [hphase]
    exact dispatcher_mem_woken _

end Steered

/-! ## The end -/

/-- At rest, a cancelled queue has stopped or waits for its last run. -/
theorem Tended.over_or (h : q.Tended s) (hr : q.AtRest s.work) (hc : q.isCancelled = true) :
    q.phase = .stopped ∨ ∃ deadline, q.deadline? = some deadline := by
  rcases h.lull hr with ⟨-, hgoing, -, -⟩ | ⟨-, hrun, hstage, -⟩ | ⟨hphase, -, -⟩
  · exact absurd (hgoing.symm.trans hc) Bool.false_ne_true
  · exact .inr ⟨_, deadline?_eq_some.mpr ⟨_, hrun, hstage⟩⟩
  · exact .inl hphase

/-- Once the last run is due, the queue stops. -/
theorem Spent.stops (hspent : q.Spent limit) (h : q.Tended s) (hc : q.isCancelled = true)
    (hdue : limit ≤ q.now) : (q.settle s.work).phase = .stopped := by
  obtain ⟨hsettled, hr⟩ := h.settle
  have hdrifts := drifts_settle s q
  have hends := (hdrifts.spent h hspent).endsBy
  have hcancelled := (hdrifts.undisturbed h).isCancelled_eq.trans hc
  rcases hsettled.over_or hr hcancelled with hphase | ⟨deadline, hd⟩
  · exact hphase
  · have hlater := hsettled.lt_deadline hr hd
    obtain ⟨run, hrun, hstage⟩ := deadline?_eq_some.mp hd
    have hearly := hends run hrun
    rw [hstage] at hearly
    have hearly : deadline ≤ limit := hearly
    rw [h.now_settle] at hlater
    omega

end CoalescingQueue.Queue
