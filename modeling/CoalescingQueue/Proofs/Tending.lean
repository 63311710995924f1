import CoalescingQueue.Proofs.Beats

/-!
# Queues that are driven by one program

Each beat leaves less to do, so a queue that is driven by one program comes to rest whenever it
settles, and it is still driven by that program alone. Whoever has something to do stands in line,
at every beat.
-/
namespace CoalescingQueue

/-- How far a phase is from the end of the dispatcher. -/
def Phase.remains : Phase → Nat
  | .listening | .retiring _ => 2
  | .closing => 1
  | _ => 0

theorem Phase.remains_le (p : Phase) : p.remains ≤ 2 := by
  cases p <;> simp [Phase.remains]

namespace Queue

open Console (Simulation)

variable {s : Simulation} {q q' : Queue}

/-! ## A beat leaves less to do -/

/-- What is left to do, the way to the end included. -/
def toil (q : Queue) : Nat := 3 * q.effort + q.phase.remains

theorem toil_le_patience (script : WorkScript) (q : Queue) : q.toil ≤ q.patience script := by
  have hload := q.effort_le_load
  have hpatience := load_le_patience script q
  have hremains := q.phase.remains_le
  unfold toil
  omega

theorem Beat.toil_lt (hb : Beat s q q') : q'.toil < q.toil := by
  have hless (h : q'.effort < q.effort) : q'.toil < q.toil := by
    have hremains := q'.phase.remains_le
    unfold toil
    omega
  have htick (h : Tick s.work q q') : q'.toil < q.toil := hless h.effort_lt
  have hleave (hsame : q'.effort = q.effort) (h : q'.phase.remains < q.phase.remains) :
      q'.toil < q.toil := by
    unfold toil
    omega
  have hline (p : Party) := length_joined_le q.line p
  cases hb with
  | call hturn hq => exact htick (.call hturn hq)
  | rest hturn => exact htick (.rest hturn)
  | start hturn hphase => exact htick (.start hturn hphase (grows_push _ rfl))
  | receive hturn hphase _ htake =>
    exact htick (.receive hturn hphase htake (Nat.le_succ _) (grows_push _ rfl))
  | count hturn hphase => exact htick (.count hturn hphase (grows_push _ rfl))
  | drain hturn hphase htake =>
    exact htick (.drain hturn hphase htake (Nat.le_succ _) (grows_push _ rfl))
  | engage hturn hphase hdone => exact htick (.drained hturn hphase hdone (grows_push _ rfl))
  | @launch b _ hturn hphase =>
    have hgrows : Grows q.journal ((q.journal.push (.dispatched b)).push (.launched (q.calls + 1)))
        [b] := Grows.push ⟨[.dispatched b], Array.toList_push, rfl⟩ rfl
    exact htick (.launch hturn hphase (s.call_work _) (hline .run) hgrows)
  | report hturn hphase hrun hended =>
    exact htick (.report hturn hphase hrun hended
      (grows_push _ (by unfold Flow.verdict; split <;> rfl)))
  | relax hturn hphase => exact htick (.conclude hturn hphase ((grows_push _ rfl).push rfl))
  | @retire _ ending elapsed stats hturn hphase =>
    -- it leaves as little to do as a dispatcher that listens again
    have hlisten : Tick s.work q { q with
        run := none
        stats
        phase := .listening
        journal := q.journal.push (.concluded ending.isSuccess elapsed) } :=
      .conclude hturn hphase (grows_push _ rfl)
    exact hless hlisten.effort_lt
  | begin hturn hrun hstage => exact htick (.begin hturn hrun hstage (grows_refl _))
  | arrive hturn hrun hstage => exact htick (.arrive hturn hrun hstage)
  | pass hturn hrun hstage =>
    refine hless ?_
    unfold effort runEffort
    simp only [hrun, hstage, Stage.effort]
    omega
  | sleep hturn hrun hstage hsome =>
    refine hless ?_
    unfold effort runEffort
    simp only [hturn, hrun, hstage, Stage.effort, Option.toList_some, Option.toList_none,
      List.length_cons, List.length_nil, if_neg (Nat.not_le_of_lt (Nat.lt_add_of_pos_right hsome))]
    omega
  | awake hturn hrun hstage hdue => exact htick (.awake hturn hrun hstage hdue)
  | finish hturn hrun hstage =>
    exact htick (.finish hturn hrun hstage (hline .dispatcher) (grows_push _ rfl))
  | heed hturn hphase | leave hturn hphase | close hturn hphase =>
    refine hleave ?_ ?_
    · unfold effort
      rw [hphase]
      rfl
    · rw [hphase]
      exact Nat.lt_succ_self _

/-! ## A queue that is driven by itself stays so -/

/-- A run that has not ended is waited for. -/
theorem Tended.awaiting (h : q.Tended s) {run : Run} (hrun : q.run = some run)
    (hstage : run.stage ≠ .ended) : ∃ b, q.phase = .awaiting b := by
  have hserial := h.flow.serial
  cases hr : q.phase.isRunning with
  | false =>
    have hnone : q.run = none := (hserial.idle hr).1
    rw [hrun] at hnone
    contradiction
  | true =>
    obtain ⟨run', hrun', -, -, ⟨hended, -⟩ | ⟨-, -, hphase⟩⟩ := hserial.running hr
    · obtain rfl := Option.some.inj (hrun.symm.trans hrun')
      exact absurd hended hstage
    · exact hphase

theorem Beat.callers (hb : Beat s q q') (h : q.Tended s) :
    ∀ w ∈ q'.mailbox.waiting, w.caller = .foreground := by
  cases hb with
  | receive _ _ _ htake | drain _ _ htake => exact h.callers_of_take htake
  | _ => exact h.callers

theorem Beat.unproduced (hb : Beat s q q') (h : q.Tended s) (ticket : Nat) :
    ¬ q'.Awake (.producer ticket) := by
  have hnot := h.unproduced ticket
  have hline : .producer ticket ∉ q.line := fun hmem => hnot (.inr hmem)
  cases hb with
  | @call p line _ hq =>
    rw [hq, List.mem_cons, not_or] at hline
    rintro (hturn | hmem)
    · exact hline.1 (Option.some.inj hturn).symm
    · exact hline.2 hmem
  | rest | sleep =>
    rintro (hturn | hmem)
    · contradiction
    · exact hline hmem
  | launch =>
    rintro (hturn | hmem)
    · contradiction
    · rcases mem_joined.mp hmem with hold | hnew
      · exact hline hold
      · cases hnew
  | finish hturn =>
    rintro (hhas | hmem)
    · exact hnot (.inl hhas)
    · rcases mem_joined.mp hmem with hold | hnew
      · exact hline hold
      · cases hnew
  | _ => exact hnot

theorem fits_of_take {r : Request} {mailbox : Mailbox} (h : q.Packed)
    (htake : q.mailbox.take? = some (r, mailbox)) (hopen : mailbox.release.2.isClosed = false) :
    mailbox.release.2.Fits q.config.capacity := by
  have hsame : q.mailbox.isClosed = mailbox.isClosed := by rw [Mailbox.eq_of_take? htake]
  have hfits := h (hsame.trans ((Mailbox.release_isClosed _).symm.trans hopen))
  have htaken := (hfits.take htake).release
  rwa [Nat.sub_add_cancel (hfits.pos_of_take htake)] at htaken

theorem Beat.packed (hb : Beat s q q') (h : q.Tended s) : q'.Packed := by
  cases hb with
  | receive _ _ _ htake | drain _ _ htake => exact fits_of_take (q := q) h.packed htake
  | close => exact packed_of_isClosed rfl
  | _ => exact h.packed

/-- The next in line gets the turn. -/
theorem Alert.call {p : Party} {line : List Party} (h : q.Alert) (hturn : q.turn = none)
    (hq : q.line = p :: line) : { q with turn := some p, line }.Alert := by
  intro p' hw
  rcases h p' hw with hhas | hmem
  · rw [hturn] at hhas
    contradiction
  · rw [hq] at hmem
    exact (List.mem_cons.mp hmem).imp (fun heq => congrArg some heq.symm) id

/-- Whoever has nothing to do gives up the turn. -/
theorem Alert.rest {p : Party} (h : q.Alert) (hturn : q.turn = some p) (hidle : ¬ q.Wanted p) :
    { q with turn := none }.Alert := by
  intro p' hw
  rcases h p' hw with hhas | hmem
  · obtain rfl := Option.some.inj (hhas.symm.trans hturn)
    exact absurd hw hidle
  · exact .inr hmem

/-- Nobody comes to be wanted without being in line. -/
theorem Beat.alert (hb : Beat s q q') (h : q.Tended s) : q'.Alert := by
  have hcallers := hb.callers h
  intro p hw
  cases p with
  | producer ticket =>
    obtain ⟨w, hmem, -, htask, -⟩ := hw
    rw [hcallers w hmem] at htask
    contradiction
  | dispatcher =>
    have hrunning {run : Run} {stage : Stage} (hrun : q.run = some run)
        (hstage : run.stage ≠ .ended) (hnext : stage ≠ .ended) :
        ¬ { q with run := some { run with stage } }.Wanted .dispatcher := by
      obtain ⟨b, hphase⟩ := h.awaiting hrun hstage
      unfold Wanted
      rw [hphase]
      rintro ⟨run', hrun', hended⟩
      obtain rfl := Option.some.inj hrun'
      exact hnext hended
    cases hb with
    | call hturn hq => exact h.alert.call hturn hq .dispatcher hw
    | rest hturn hidle => exact h.alert.rest hturn hidle .dispatcher hw
    | launch =>
      obtain ⟨run, hrun, hended⟩ := hw
      obtain rfl := Option.some.inj hrun
      contradiction
    | begin _ hrun hstage | arrive _ hrun hstage | pass _ hrun hstage | sleep _ hrun hstage
    | awake _ hrun hstage =>
      exact absurd hw (hrunning hrun (by rw [hstage]; nofun) nofun)
    | finish => exact .inr (mem_joined.mpr (.inr rfl))
    | start hturn | heed hturn | receive hturn | count hturn | drain hturn | engage hturn
    | report hturn | relax hturn | retire hturn | leave hturn | close hturn => exact .inl hturn
  | run =>
    cases hb with
    | call hturn hq => exact h.alert.call hturn hq .run hw
    | rest hturn hidle => exact h.alert.rest hturn hidle .run hw
    | launch => exact .inr (mem_joined.mpr (.inr rfl))
    | relax | retire =>
      obtain ⟨run, hrun, -⟩ := hw
      contradiction
    | sleep _ _ _ hsome =>
      obtain ⟨run, hrun, hgo⟩ := hw
      obtain rfl := Option.some.inj hrun
      exact absurd hgo (Nat.not_le_of_lt (Nat.lt_add_of_pos_right hsome))
    | begin hturn | arrive hturn | pass hturn | awake hturn | finish hturn => exact .inl hturn
    | _ => exact h.alert .run hw

theorem Beat.takesAll (hb : Beat s q q') (h : q.Tended s) :
    q'.phase.TakesAll q'.mailbox.buffer := by
  have hall := h.takesAll
  cases hb with
  | count => exact rfl
  | drain _ hphase htake =>
    rw [hphase, buffer_of_take htake] at hall
    exact Nat.succ.inj hall
  | @engage b left _ hphase hdone =>
    rw [hphase] at hall
    rcases hdone with rfl | hnone
    · exact List.length_eq_zero_iff.mp hall.symm
    · exact hnone
  | start | heed | receive | launch | report | relax | retire | leave | close => exact trivial
  | _ => exact hall

theorem Beat.suits (hb : Beat s q q') (h : q.Tended s) :
    q'.phase.suits q'.isCancelled = true := by
  have hsuits := h.suits
  cases hb with
  | start | relax | launch | report => exact rfl
  | heed _ _ hc | retire _ _ hc => exact hc
  | receive _ _ hc => exact congrArg not hc
  | count _ hphase | drain _ hphase | engage _ hphase | leave _ hphase | close _ hphase =>
    rw [hphase] at hsuits
    exact hsuits
  | _ => exact hsuits

theorem Beat.todo_eq (hb : Beat s q q') (h : q.Tended s) :
    ∀ run, q'.run = some run → run.stage.todo = [] := by
  cases hb with
  | relax | retire => nofun
  | launch | begin | arrive | pass | sleep | awake | finish =>
    intro run hrun
    obtain rfl := Option.some.inj hrun
    rfl
  | _ => exact h.todo_eq

theorem Beat.deadline_le (hb : Beat s q q') (h : q.Tended s) :
    ∀ run d, q'.run = some run → run.stage = .sleeping d → d ≤ q'.now + s.workMs := by
  cases hb with
  | relax | retire => nofun
  | launch | begin | arrive | pass | awake | finish =>
    intro run d hrun hstage
    obtain rfl := Option.some.inj hrun
    contradiction
  | sleep =>
    intro run d hrun hstage
    obtain rfl := Option.some.inj hrun
    obtain rfl := Stage.sleeping.inj hstage
    exact le_rfl
  | _ => exact h.deadline_le

theorem Tended.step (h : q.Tended s) (hs : q.step? s.work = some q') : q'.Tended s := by
  have hb := h.beat hs
  obtain ⟨capacity, hcourse⟩ := h.flow
  refine ⟨?_, ?_, ?_, ?_, ?_, hb.callers h, hb.unproduced h, ⟨capacity, course_step? hcourse hs⟩,
    proper_step? h.proper hs, hb.packed h, hb.alert h, hb.suits h, hb.takesAll h, hb.todo_eq h,
    hb.deadline_le h⟩
  · cases hb <;> exact h.hooks_eq
  · cases hb <;> exact h.due_eq
  · cases hb <;> exact h.errand_eq
  · cases hb <;> exact h.closers_eq
  · cases hb <;> exact h.held

/-- Whenever it settles, it comes to rest. -/
theorem Tended.settle (h : q.Tended s) :
    (q.settle s.work).Tended s ∧ (q.settle s.work).AtRest s.work :=
  atRest_of_measure (fun hp hs => ⟨hp.step hs, (hp.beat hs).toil_lt⟩)
    (toil_le_patience s.work q) h

end Queue
end CoalescingQueue
