import CoalescingQueue.Proofs.Tracks

/-!
# Who is performing an action

A run in flight is led on by its own steps only. An errand is run by whoever acts from outside, while
nobody has a turn, or by the run in flight, among its actions at the start or at the end. Hooked
actions that come up in the turn of a run come up before or after it waits at the gate. Which
actions these are does not matter here.
-/
namespace CoalescingQueue

/-- Whether a run is performing its actions. -/
def Stage.isActing : Stage → Bool
  | .opening _ | .closing _ => true
  | _ => false

namespace Queue

variable {script : WorkScript} {q q' : Queue}

/-! ## What leaves the run as it is -/

theorem run_leave (q : Queue) (w : Waiter) : (q.leave w).run = q.run := by
  obtain ⟨more, heq⟩ := q.leave_more w
  rw [heq]

theorem run_enter (q : Queue) (w : Waiter) : (q.enter w).run = q.run := by
  obtain ⟨more, heq⟩ := q.enter_more w
  rw [heq]

theorem run_settleWaiter (q : Queue) (w : Waiter) : (q.settleWaiter w).run = q.run := by
  unfold settleWaiter decide?
  split
  · next reply q' hd =>
    split at hd
    · obtain ⟨-, rfl⟩ := Prod.mk.inj (Option.some.inj hd)
      exact run_leave _ w
    · split at hd
      · obtain ⟨-, rfl⟩ := Prod.mk.inj (Option.some.inj hd)
        exact run_enter q w
      · contradiction
  · rfl

theorem run_settleThreads (q : Queue) : q.settleThreads.run = q.run := by
  unfold settleThreads
  generalize q.mailbox.waiting = ws
  induction ws generalizing q with
  | nil => rfl
  | cons w ws ih =>
    rw [List.foldl_cons, ih]
    split
    · exact run_settleWaiter q w
    · rfl

theorem run_emit (q : Queue) (e : Event) (span : Option Span) : (q.emit e span).run = q.run :=
  run_settleThreads _

theorem run_narrate (q : Queue) (run : Run) (e : Event) : (q.narrate run e).run = q.run := by
  unfold narrate
  split
  · exact run_emit q e q.span
  · rfl

theorem run_offer (q : Queue) (caller : Caller) (r : Request) :
    (q.offer caller r).2.run = q.run := by
  have ho := q.offered caller r
  generalize q.offer caller r = outcome at ho ⊢
  cases ho <;> rfl

theorem run_offerQuietly (q : Queue) (caller : Caller) (handle : Nat) (r : Request) :
    (q.offerQuietly caller handle r).2.run = q.run := by
  unfold offerQuietly
  split
  · rfl
  · split
    · rfl
    · exact run_offer q caller r

theorem run_offerAllQuietly (q : Queue) (handle : Nat) (requests : List Request) :
    (q.offerAllQuietly handle requests).2.run = q.run := by
  induction requests generalizing q with
  | nil => rfl
  | cons r rest ih => exact (ih _).trans (run_offerQuietly q .task handle r)

theorem run_cancel (q : Queue) : q.cancel.run = q.run := by
  unfold cancel
  split
  · rfl
  · obtain ⟨more, heq⟩ := wakeAll_more { q with isCancelled := true }
    rw [heq]

theorem run_perform (q : Queue) (a : Action) : (q.perform a).2.run = q.run := by
  unfold perform
  cases a with
  | add r handle => exact run_offerQuietly q .task handle r
  | blockingAdd r handle => exact run_offerQuietly q .thread handle r
  | burst rs handle => exact run_offerAllQuietly q handle rs
  | shutdown handle =>
    dsimp only
    unfold shutdown
    split
    · dsimp only
      split
      · exact run_cancel q
      · exact run_cancel q
    · rfl
  | cancel => exact run_cancel q
  | release n =>
    obtain ⟨more, heq⟩ := q.releasePermits_more n
    dsimp only
    rw [heq]
  | drop handle =>
    obtain ⟨more, heq⟩ := q.drop_more handle
    dsimp only
    split
    · rw [heq]
    · rfl
  | snapshot => rfl
  | clone | watch | describe =>
    dsimp only
    split
    · rfl
    · rfl

theorem run_noteAction (q : Queue) (a : Action) (reply : Reply) :
    (q.noteAction a reply).run = q.run := by
  unfold noteAction
  split
  · rfl
  · rfl

theorem run_performHooked (q : Queue) (a : Action) : (q.performHooked a).run = q.run :=
  (run_noteAction _ a _).trans (run_perform q a)

theorem run_answer (q : Queue) (a : Action) (reply : Reply) : (q.answer a reply).run = q.run := by
  unfold answer
  split
  · exact run_noteAction q a reply
  · rfl

theorem run_begin (q : Queue) (a : Action) : (q.begin a).run = q.run := by
  unfold begin
  split
  · rfl
  · rfl
  · rfl
  · exact (run_answer _ _ _).trans (run_perform q _)

theorem run_stepErrand (q : Queue) (e : Errand) : (q.stepErrand e).run = q.run := by
  unfold stepErrand
  split
  · exact run_answer _ _ _
  · next r rest _ =>
    split
    · dsimp only
      obtain ⟨line, heq⟩ := wakeIfAbandoned_eq { (q.offer e.caller r).2 with
        errand := some { e with
          todo := rest, isAnnounced := false, replies := e.replies ++ [(q.offer e.caller r).1] } }
      rw [heq]
      exact run_offer q e.caller r
    · split
      · rfl
      · split
        · rfl
        · exact run_emit _ _ _

/-! ## Whose action it is -/

/-- The run in flight has the turn and performs its actions. -/
structure RunActs (q : Queue) : Prop where
  turn_eq : q.turn = some .run
  isActing : ∃ run, q.run = some run ∧ run.stage.isActing = true

/-- An errand is run from outside or by the run in flight, and hooked actions do not come up while
a run that has the turn waits at the gate. -/
structure Conduct (q : Queue) : Prop where
  errand : q.errand ≠ none → q.turn = none ∨ q.RunActs
  past : q.due ≠ [] → q.IsPast

theorem RunActs.isPast (h : q.RunActs) : q.IsPast := by
  intro _ run hrun hwaiting
  obtain ⟨run', hrun', hacting⟩ := h.isActing
  obtain rfl := Option.some.inj (hrun.symm.trans hrun')
  rw [hwaiting] at hacting
  contradiction

/-- A dispatcher that has the turn runs no errand. -/
theorem IsActing.stepDispatcher_errand (h : q.IsActing) (script : WorkScript) :
    (q.stepDispatcher script).scene.errand = none ∧
    (q.stepDispatcher script).scene.turn ≠ some .run := by
  have hquiet {q : Queue} (h : q.IsActing) :
      q.scene.errand = none ∧ q.scene.turn ≠ some .run := by
    refine ⟨h.2, ?_⟩
    rw [h.1]
    decide
  have hyield : q.yieldTurn.scene.errand = none ∧ q.yieldTurn.scene.turn ≠ some .run := ⟨h.2, nofun⟩
  unfold Queue.stepDispatcher
  split
  · exact hquiet (acting_emit h)
  · unfold Queue.listen
    split
    · exact hquiet (acting_emit h)
    · split
      · next first q₁ hr =>
        have hacting := h.receive hr
        exact hquiet (acting_emit hacting)
      · split
        · exact hquiet (acting_emit h)
        · exact hyield
  · exact hquiet h
  · exact hquiet (h.drain _ _)
  · exact hquiet (acting_emit h)
  · next b _ =>
    unfold dispatch
    extract_lets call called
    split
    · have hclosed : (closeMailbox { called with phase := .dead b }).releaseClosers.scene.errand =
          none := by
        rw [scene_releaseClosers]
        change (wakeProducers _).scene.errand = none
        rw [scene_wakeProducers]
        exact h.2
      exact ⟨hclosed, nofun⟩
    · next plan _ =>
      let launched : Queue := { called with
        phase := .awaiting b
        run := some { call, plan, began := called.now } }
      have hlaunched : ((launched.note (.launched call)).enqueue .run).scene.errand = none := by
        rw [scene_enqueue]
        exact h.2
      exact ⟨hlaunched, nofun⟩
  · unfold await
    split
    · split
      · exact hquiet (acting_emit h)
      · exact hyield
    · exact hyield
  · unfold conclude
    extract_lets elapsed concluded
    split
    · exact hquiet (acting_emit h)
    · exact hquiet (acting_emit h)
  · exact hquiet (acting_emit h)
  · refine hquiet (acting_emit ?_)
    unfold IsActing
    rw [scene_releaseClosers]
    change (wakeProducers _).scene.turn = _ ∧ (wakeProducers _).scene.errand = _
    rw [scene_wakeProducers]
    exact h
  · exact hyield
  · exact hyield

/-- A run begins an errand among its actions. -/
theorem runActs_begin (run : Run) {stage : Stage} (hturn : q.turn = some .run)
    (hacting : stage.isActing = true) (a : Action) : ((q.setStage run stage).begin a).RunActs := by
  constructor
  · obtain ⟨errand, heq⟩ := scene_begin (q.setStage run stage) a
    exact (congrArg Scene.turn heq).trans hturn
  · exact ⟨{ run with stage }, run_begin _ a, hacting⟩

/-- After a step of the run an errand is its own, and what is due comes up before it waits at the
gate or after. -/
theorem runActs_stepRun (run : Run) (hturn : q.turn = some .run) (he : q.errand = none) :
    ((q.stepRun run).errand ≠ none → (q.stepRun run).RunActs) ∧
    ((q.stepRun run).due = q.due ∨ (q.stepRun run).IsPast) := by
  have hpast {q' : Queue} {stage : Stage} (hrun : q'.run = some { run with stage })
      (hstage : stage ≠ .waiting) : q'.IsPast := by
    intro _ run' hrun'
    obtain rfl := Option.some.inj (hrun.symm.trans hrun')
    exact hstage
  have hbegin {stage : Stage} (hacting : stage.isActing = true) (a : Action) :
      (((q.setStage run stage).begin a).errand ≠ none → ((q.setStage run stage).begin a).RunActs) ∧
      (((q.setStage run stage).begin a).due = q.due ∨ ((q.setStage run stage).begin a).IsPast) := by
    have hacts := runActs_begin run hturn hacting a
    exact ⟨fun _ => hacts, .inr hacts.isPast⟩
  unfold stepRun
  dsimp only
  split
  · obtain ⟨due, heq⟩ := scene_narrate (q.setStage run (.opening run.plan.atStart)) run
      (.workStarted run.call q.now)
    refine ⟨fun hne => absurd ((congrArg Scene.errand heq).trans he) hne, .inr ?_⟩
    exact hpast (run_narrate _ _ _) (by simp)
  · exact hbegin rfl _
  · exact ⟨fun hne => absurd he hne, .inl rfl⟩
  · split
    · exact ⟨fun hne => absurd he hne, .inl rfl⟩
    · split
      · refine ⟨fun hne => absurd he ?_, .inl ?_⟩
        · split at hne <;> exact hne
        · split <;> rfl
      · refine ⟨fun hne => absurd he ?_, .inl ?_⟩
        · split at hne <;> exact hne
        · split <;> rfl
  · split
    · exact ⟨fun hne => absurd he hne, .inl rfl⟩
    · exact ⟨fun hne => absurd he hne, .inl rfl⟩
  · exact hbegin rfl _
  · obtain ⟨due, heq⟩ := scene_narrate ((q.setStage run .ended).note (.returned run.call)) run
      (.workEnded run.call q.now)
    obtain ⟨line, hline⟩ := enqueue_eq (((q.setStage run .ended).note (.returned run.call)).narrate
      run (.workEnded run.call q.now)) .dispatcher
    rw [hline]
    refine ⟨fun hne => absurd ((congrArg Scene.errand heq).trans he) hne, .inr ?_⟩
    exact hpast (run_narrate _ _ _) (by simp)
  · exact ⟨fun hne => absurd he hne, .inl rfl⟩

/-- Someone who has a turn, or is given one, leaves an errand behind only as the run in flight. -/
theorem runActs_step? (hidle : q.attend? = none) (hs : q.step? script = some q') :
    (q'.errand ≠ none → q'.RunActs) ∧ (q'.due ≠ [] → q'.IsPast) := by
  obtain ⟨herrand, hdue⟩ := errand_of_attend? hidle
  have hyield {q₁ : Queue} (he : q₁.errand = none) :
      (q₁.yieldTurn.errand ≠ none → q₁.yieldTurn.RunActs) ∧
      (q₁.yieldTurn.due ≠ [] → q₁.yieldTurn.IsPast) :=
    ⟨fun hne => absurd he hne, fun _ hturn => nomatch hturn⟩
  unfold step? at hs
  rw [hidle] at hs
  dsimp only at hs
  split at hs
  · next p hturn =>
    obtain rfl := Option.some.inj hs
    cases p with
    | dispatcher =>
      have hacting : q.IsActing := ⟨hturn, herrand⟩
      obtain ⟨hnone, hne⟩ := hacting.stepDispatcher_errand script
      exact ⟨fun hsome => absurd hnone hsome, fun _ hrun => absurd hrun hne⟩
    | run =>
      unfold stepTurn
      dsimp only
      split
      · next run _ =>
        obtain ⟨hacts, hpast⟩ := runActs_stepRun run hturn herrand
        exact ⟨hacts, fun hne => hpast.resolve_left fun hsame => hne (hsame.trans hdue)⟩
      · exact hyield herrand
    | producer ticket =>
      unfold stepTurn
      dsimp only
      split
      · next w _ =>
        exact hyield ((congrArg Scene.errand (scene_settleWaiter q w)).trans herrand)
      · exact hyield herrand
  · unfold nextTurn? at hs
    split at hs
    · obtain rfl := Option.some.inj hs
      exact ⟨fun hne => absurd herrand hne, fun hne => absurd hdue hne⟩
    · split at hs
      · obtain rfl := Option.some.inj hs
        have hscene := scene_settleThreads q
        exact ⟨fun hne => absurd ((congrArg Scene.errand hscene).trans herrand) hne,
          fun hne => absurd ((congrArg Scene.due hscene).trans hdue) hne⟩
      · contradiction

/-- What goes before the turns does not change whose turn it is. -/
theorem attend?_keeps (ha : q.attend? = some q') :
    q'.turn = q.turn ∧ q'.run = q.run ∧ (q.errand = none → q'.errand = none) := by
  unfold attend? at ha
  split at ha
  · next a due _ =>
    obtain rfl := Option.some.inj ha
    have hscene := scene_performHooked { q with due } a
    exact ⟨congrArg Scene.turn hscene, run_performHooked _ a,
      fun he => (congrArg Scene.errand hscene).trans he⟩
  · next e _ he =>
    obtain rfl := Option.some.inj ha
    obtain ⟨errand, due, heq⟩ := scene_stepErrand q e
    refine ⟨congrArg Scene.turn heq, run_stepErrand q e, fun hnone => ?_⟩
    rw [he] at hnone
    contradiction
  · contradiction

theorem RunActs.congr (h : q.RunActs) (hturn : q'.turn = q.turn) (hrun : q'.run = q.run) :
    q'.RunActs := by
  obtain ⟨ht, run, hr, hacting⟩ := h
  exact ⟨hturn.trans ht, run, hrun.trans hr, hacting⟩

theorem Conduct.attend? (h : q.Conduct) (ha : q.attend? = some q') : q'.Conduct := by
  obtain ⟨hturn, hrun, herrand⟩ := attend?_keeps ha
  have hpast (hi : q.IsPast) : q'.IsPast := by
    unfold IsPast
    rw [hturn, hrun]
    exact hi
  constructor
  · intro hne
    have hbusy : q.errand ≠ none := fun hnone => hne (herrand hnone)
    rcases h.errand hbusy with hnone | hacts
    · exact .inl (hturn.trans hnone)
    · exact .inr (hacts.congr hturn hrun)
  · intro _
    by_cases hdue : q.due = []
    · -- what is due now was set off by the errand
      have hbusy : q.errand ≠ none := by
        intro hnone
        unfold Queue.attend? at ha
        rw [hdue, hnone] at ha
        contradiction
      apply hpast
      rcases h.errand hbusy with hnone | hacts
      · intro hturn'
        rw [hnone] at hturn'
        contradiction
      · exact hacts.isPast
    · exact hpast (h.past hdue)

theorem Move.conduct (hm : Move script q q') (h : q.Conduct) : q'.Conduct := by
  cases hm with
  | step hs =>
    cases ha : q.attend? with
    | some q₁ =>
      obtain rfl := Option.some.inj ((step?_of_attend? ha).symm.trans hs)
      exact h.attend? ha
    | none =>
      obtain ⟨hacts, hpast⟩ := runActs_step? ha hs
      exact ⟨fun hne => .inr (hacts hne), hpast⟩
  | act hf a =>
    obtain ⟨errand, heq⟩ := scene_begin { q with reply := .nothing } a
    have hturn : ({ q with reply := .nothing }.begin a).turn = none :=
      (congrArg Scene.turn heq).trans hf.turn_eq
    refine ⟨fun _ => .inl hturn, fun _ hrun => ?_⟩
    rw [hturn] at hrun
    contradiction
  | abandon hf ticket =>
    have hscene : (q.abandon ticket).scene = q.scene := by
      unfold Queue.abandon
      split
      · next w _ => exact scene_leave q w
      · rfl
    have hturn : (q.abandon ticket).turn = none := (congrArg Scene.turn hscene).trans hf.turn_eq
    refine ⟨fun _ => .inl hturn, fun _ hrun => ?_⟩
    rw [hturn] at hrun
    contradiction
  | wake hr ht =>
    have hturn : (q.enqueue .run).turn = none :=
      (congrArg Scene.turn (scene_enqueue q .run)).trans hr.isFree.turn_eq
    refine ⟨fun _ => .inl hturn, fun _ hrun => ?_⟩
    have hrun : (q.enqueue .run).turn = some .run := hrun
    rw [hturn] at hrun
    contradiction
  | wait hr ht => exact ⟨fun _ => .inl hr.isFree.turn_eq, h.past⟩

theorem Reachable.conduct (h : Reachable script q) : q.Conduct := by
  induction h with
  | opened hq =>
    unfold open? at hq
    split at hq
    · obtain rfl := Option.some.inj hq
      exact ⟨fun _ => .inl rfl, fun hne => absurd rfl hne⟩
    · contradiction
  | move _ hm ih => exact hm.conduct ih

end Queue
end CoalescingQueue
