import CoalescingQueue.Proofs.Guise
import CoalescingQueue.Proofs.Indifference

/-!
# Twins in lockstep

Twin queues with twin work functions take their steps together and stay twins, provided that
whenever an action comes to look at its handle, the two of them agree on it. So their whole
scenarios are twins, record by record.
-/
namespace CoalescingQueue

/-- The action that a run at this stage begins next. -/
def Stage.faced? : Stage → Option Action
  | .opening (a :: _) | .closing (a :: _) => some a
  | _ => none

namespace Queue

/-- The action that looks at its handle in the next step, if one does. -/
def faced? (q : Queue) : Option Action :=
  match q.due, q.errand with
  | a :: _, _ => some a
  | [], some e => if e.isAnnounced || e.todo.isEmpty then none else some e.action
  | [], none =>
    match q.turn with
    | some .run => q.run.bind (·.stage.faced?)
    | _ => none

theorem faced?_of_turn {q : Queue} {run : Run} (hdue : q.due = []) (herrand : q.errand = none)
    (hturn : q.turn = some .run) (hrun : q.run = some run) : q.faced? = run.stage.faced? := by
  simp [faced?, hdue, herrand, hturn, hrun]

/-- If two actions come to look at their handles, they agree on them. -/
def Agree (m : Guise) (b : Bond) (q q' : Queue) (faced faced' : Option Action) : Prop :=
  ∀ a ∈ faced, ∀ a' ∈ faced', a.Twin m a' → a.Agrees m b.Holds q.handles q'.handles a'

namespace Twin

variable {m : Guise} {b : Bond} {q q' : Queue} {script script' : WorkScript}

/-! ## Runs and errands -/

theorem answer (h : q.Twin m b q') {a a' : Action} (ha : a.Twin m a') (reply : Reply) :
    (q.answer a reply).Twin m b (q'.answer a' (reply.renumber m.handle)) := by
  unfold Queue.answer
  rw [h.turn_eq]
  split
  · exact h.noteAction ha reply
  · exact { h with turn_eq := rfl, reply_eq := fun _ => rfl }

theorem withErrand (h : q.Twin m b q') {e e' : Errand} (he : e.Twin m e') :
    { q with errand := some e }.Twin m b { q' with errand := some e' } :=
  { h with errand := .some he }

theorem begin (h : q.Twin m b q') {a a' : Action} (ha : a.Twin m a')
    (hag : a.Agrees m b.Holds q.handles q'.handles a') : (q.begin a).Twin m b (q'.begin a') := by
  have hperformed : ((q.perform a).2.answer a (q.perform a).1).Twin m b
      ((q'.perform a').2.answer a' (q'.perform a').1) := by
    obtain ⟨hreply, hq⟩ := h.perform ha hag
    rw [hreply]
    exact hq.answer ha _
  have hplain : ∀ reply ∈ ([] : List Reply), reply.renumber m.handle = reply :=
    List.forall_mem_nil _
  have htwin := ha
  cases ha with
  | add r | blockingAdd r | burst rs =>
    exact h.withErrand ⟨htwin, rfl, rfl, rfl, rfl, rfl, rfl, hplain⟩
  | _ => exact hperformed

theorem errandReply_eq {e e' : Errand} (he : e.Twin m e') :
    Errand.reply e' = (Errand.reply e).renumber m.handle := by
  have hhead : (e.replies.headD .nothing).renumber m.handle = e.replies.headD .nothing := by
    have hplain := he.isPlain
    generalize e.replies = replies at hplain
    cases replies with
    | nil => rfl
    | cons reply replies => exact hplain reply List.mem_cons_self
  unfold Errand.reply
  rw [he.replies_eq]
  have haction := he.action
  generalize e.action = a at haction
  generalize e'.action = a' at haction
  cases haction with
  | burst => rfl
  | _ => exact hhead.symm

theorem stepErrand (h : q.Twin m b q') {e e' : Errand} (he : e.Twin m e')
    (hag : Agree m b q q' (if e.isAnnounced || e.todo.isEmpty then none else some e.action)
      (if e'.isAnnounced || e'.todo.isEmpty then none else some e'.action)) :
    (q.stepErrand e).Twin m b (q'.stepErrand e') := by
  unfold Queue.stepErrand
  have htodo := he.todo_eq
  have hnext (rest : List Request) {reply : Reply} (hplain : reply.renumber m.handle = reply)
      {isAnnounced isAnnounced' : Bool} (hsame : isAnnounced' = isAnnounced) :
      { e with todo := rest, isAnnounced, replies := e.replies ++ [reply] }.Twin m { e' with
        todo := rest.map fun (r : Request) => r.rename m.id
        isAnnounced := isAnnounced'
        replies := e'.replies ++ [reply] } :=
    { he with
      todo_eq := rfl
      isAnnounced_eq := hsame
      replies_eq := congrArg (· ++ [reply]) he.replies_eq
      isPlain := List.forall_mem_append.mpr ⟨he.isPlain, List.forall_mem_singleton.mpr hplain⟩ }
  cases hr : e.todo with
  | nil =>
    rw [hr, List.map_nil] at htodo
    rw [htodo]
    dsimp only
    rw [errandReply_eq he]
    have hover : { q with errand := none }.Twin m b { q' with errand := none } :=
      { h with errand := .none }
    exact hover.answer he.action _
  | cons r rest =>
    rw [hr, List.map_cons] at htodo
    rw [htodo]
    dsimp only
    by_cases hannounced : e.isAnnounced = true
    · rw [if_pos hannounced, if_pos (he.isAnnounced_eq.trans hannounced)]
      obtain ⟨hreply, hq⟩ :
          (q'.offer e'.caller (r.rename m.id)).1 = (q.offer e.caller r).1 ∧
            (q.offer e.caller r).2.Twin m b (q'.offer e'.caller (r.rename m.id)).2 := by
        rw [he.caller_eq]
        exact h.offer e.caller r
      rw [hreply]
      exact (hq.withErrand (hnext rest (renumber_offer m.handle q e.caller r) rfl)).wakeIfAbandoned
    · have hannounced' : ¬e'.isAnnounced = true := he.isAnnounced_eq ▸ hannounced
      rw [if_neg hannounced, if_neg hannounced']
      have hheld : q'.holds e'.handle = q.holds e.handle := by
        refine holds_eq (hag e.action ?_ e'.action ?_ he.action) he.handle_eq he.handle_eq'
        · simp [hannounced, hr]
        · simp [hannounced', htodo]
      rw [hheld]
      split
      · exact h.withErrand (hnext rest rfl he.isAnnounced_eq)
      · by_cases hc : q.isCancelled = true
        · rw [if_pos hc, if_pos (h.isCancelled_eq.trans hc)]
          exact h.withErrand (hnext rest rfl he.isAnnounced_eq)
        · have hc' : ¬q'.isCancelled = true := h.isCancelled_eq ▸ hc
          have hspan : (if q'.turn = some .run then q'.span else none) =
              (if q.turn = some .run then q.span else none).map (·.rename m.id) := by
            rw [h.turn_eq, h.span_eq]
            split <;> rfl
          rw [if_neg hc, if_neg hc', hspan]
          have hnew : { e with todo := r :: rest, isAnnounced := true }.Twin m { e' with
              todo := r.rename m.id :: rest.map fun (r : Request) => r.rename m.id
              isAnnounced := true } :=
            { he with todo_eq := rfl, isAnnounced_eq := rfl }
          exact (h.withErrand hnew).emit (.offered r)

theorem withRun (h : q.Twin m b q') {run run' : Run} (hrun : run.Twin m run') :
    { q with run := some run }.Twin m b { q' with run := some run' } :=
  { h with run := .some hrun }

theorem setStage (h : q.Twin m b q') {run run' : Run} (hrun : run.Twin m run')
    {stage stage' : Stage} (hstage : stage.Twin m stage') :
    (q.setStage run stage).Twin m b (q'.setStage run' stage') :=
  h.withRun { hrun with stage := hstage }

theorem narrate (h : q.Twin m b q') {run run' : Run} (hrun : run.Twin m run') (e : Event) :
    (q.narrate run e).Twin m b (q'.narrate run' (e.rename m.id)) := by
  unfold Queue.narrate
  rw [hrun.plan.isNarrated_eq, h.span_eq]
  split
  · exact h.emit e
  · exact h

theorem stepRun (h : q.Twin m b q') {run run' : Run} (hrun : run.Twin m run')
    (hag : Agree m b q q' run.stage.faced? run'.stage.faced?) :
    (q.stepRun run).Twin m b (q'.stepRun run') := by
  unfold Queue.stepRun
  have hstage := hrun.stage
  have hplan := hrun.plan
  dsimp only
  generalize run.stage = stage at hstage hag
  generalize run'.stage = stage' at hstage hag
  cases hstage with
  | spawned =>
    rw [hrun.call_eq, h.now_eq]
    exact (h.setStage hrun (.opening hplan.atStart)).narrate hrun (.workStarted run.call q.now)
  | opening ha =>
    cases ha with
    | nil => exact h.setStage hrun .waiting
    | cons ha htodo => exact (h.setStage hrun (.opening htodo)).begin ha (hag _ rfl _ rfl ha)
  | waiting =>
    have hstuck : (run'.plan.isGated && decide (q'.permits = 0)) =
        (run.plan.isGated && decide (q.permits = 0)) := by
      rw [hplan.isGated_eq, h.permits_eq]
    have hpassed : (if run.plan.isGated then { q with permits := q.permits - 1 } else q).Twin m b
        (if run'.plan.isGated then { q' with permits := q'.permits - 1 } else q') := by
      rw [hplan.isGated_eq]
      split
      · exact { h with permits_eq := congrArg (· - 1) h.permits_eq }
      · exact h
    dsimp only
    rw [hstuck]
    split
    · exact h.yieldTurn
    · generalize (if run.plan.isGated then _ else q) = p at hpassed
      generalize (if run'.plan.isGated then _ else q') = p' at hpassed
      rw [hplan.duration_eq, hpassed.now_eq]
      split
      · exact hpassed.setStage hrun (.closing hplan.atEnd)
      · exact (hpassed.setStage hrun (.sleeping _)).yieldTurn
  | sleeping deadline =>
    dsimp only
    rw [h.now_eq]
    split
    · exact h.yieldTurn
    · exact h.setStage hrun (.closing hplan.atEnd)
  | closing ha =>
    cases ha with
    | nil =>
      dsimp only
      rw [hrun.call_eq, h.now_eq]
      exact (((h.setStage hrun .ended).note (.told rfl)).narrate hrun
        (.workEnded run.call q.now)).enqueue _
    | cons ha htodo => exact (h.setStage hrun (.closing htodo)).begin ha (hag _ rfl _ rfl ha)
  | ended => exact h.yieldTurn

/-! ## The dispatcher -/

theorem withPhase (h : q.Twin m b q') (phase : Phase) :
    { q with phase }.Twin m b { q' with phase := phase.rename m.id } :=
  { h with phase_eq := rfl }

theorem publish (h : q.Twin m b q') (before after : DispatchState) (phase : Phase) (span : Span) :
    (q.publish before after phase span).Twin m b
      (q'.publish before after (phase.rename m.id) (span.rename m.id)) := by
  have hq : { q with published := after, phase }.Twin m b
      { q' with published := after, phase := phase.rename m.id } :=
    { h with published_eq := rfl, phase_eq := rfl }
  exact hq.emit (.transition before after)

/-- Both take the same branch. -/
theorem branch {c c' : Bool} {p p' r r' : Queue} (hc : c' = c) (hp : p.Twin m b p')
    (hr : r.Twin m b r') : Queue.Twin m b (if c then p else r) (if c' then p' else r') := by
  rw [hc]
  split
  · exact hp
  · exact hr

theorem listen (h : q.Twin m b q') : q.listen.Twin m b q'.listen := by
  unfold Queue.listen
  refine branch h.isCancelled_eq ((h.withPhase .closing).emit .cancelled) ?_
  rcases rel_cases h.receive? with ⟨hr, hr'⟩ | ⟨taken, taken', hr, hr', hfirst, hq⟩
  · rw [hr, hr']
    exact branch h.isAbandoned_eq ((h.withPhase .closing).emit .abandoned) h.yieldTurn
  · rw [hr, hr']
    dsimp only
    rw [hfirst]
    exact hq.publish .idle .draining (.counting taken.1) {}

theorem countBacklog (h : q.Twin m b q') (first : Request) :
    (q.countBacklog first).Twin m b (q'.countBacklog (first.rename m.id)) := by
  have hbuffer : q'.mailbox.buffer = q.mailbox.buffer.map (·.rename m.id) := by
    rw [h.mailbox_eq]
    rfl
  have hfact : (Fact.counted first q.mailbox.buffer).Twin m
      (.counted (first.rename m.id) q'.mailbox.buffer) := by
    rw [hbuffer]
    exact .told rfl
  unfold Queue.countBacklog
  dsimp only
  have hlength : q'.mailbox.buffer.length = q.mailbox.buffer.length := by
    rw [hbuffer, List.length_map]
  rw [hlength]
  exact (h.withPhase (.draining { latest := first } q.mailbox.buffer.length)).note hfact

theorem finishDrain (h : q.Twin m b q') (batch : Batch) :
    (q.finishDrain batch).Twin m b (q'.finishDrain (batch.rename m.id)) := by
  have hfact : (Fact.discarded batch).Twin m (.discarded (batch.rename m.id)) := .told rfl
  have hpublished := h.publish .draining .executing (.dispatching batch) batch.span
  rw [← Batch.span_rename] at hpublished
  exact branch h.isCancelled_eq
    (((h.withPhase (.dropping batch)).note hfact).emit (.dropped batch.latest)) hpublished

theorem drain (h : q.Twin m b q') (batch : Batch) (left : Nat) :
    (q.drain batch left).Twin m b (q'.drain (batch.rename m.id) left) := by
  unfold Queue.drain
  cases left with
  | zero => exact h.finishDrain batch
  | succ left =>
    dsimp only
    rcases rel_cases h.receive? with ⟨hr, hr'⟩ | ⟨taken, taken', hr, hr', hnext, hq⟩
    · rw [hr, hr']
      exact h.finishDrain batch
    · rw [hr, hr']
      dsimp only
      rw [hnext, ← Batch.rename_push]
      exact (hq.withPhase (.draining (batch.push taken.1) left)).emit
        (.superseded batch.latest taken.1)

theorem closeMailbox (h : q.Twin m b q') : q.closeMailbox.Twin m b q'.closeMailbox := by
  have hclosed := h.withMailbox q.mailbox.close
  have hmailbox : q'.mailbox.close = q.mailbox.close.rename m.id := by
    rw [h.mailbox_eq]
    rfl
  rw [← hmailbox] at hclosed
  exact hclosed.wakeProducers

theorem dispatch (h : q.Twin m b q') (hs : script.Twin m script') (batch : Batch) :
    (q.dispatch script batch).Twin m b (q'.dispatch script' (batch.rename m.id)) := by
  unfold Queue.dispatch
  have hstats : q'.stats.countDispatch (batch.latest.rename m.id).id batch.superseded =
      (q.stats.countDispatch batch.latest.id batch.superseded).rename m.id := by
    rw [h.stats_eq]
    rfl
  have hfact : (Fact.dispatched batch).Twin m (.dispatched (batch.rename m.id)) := .told rfl
  have hcounted : { q with
      calls := q.calls + 1
      stats := q.stats.countDispatch batch.latest.id batch.superseded }.Twin m b { q' with
      calls := q'.calls + 1
      stats := q'.stats.countDispatch (batch.latest.rename m.id).id batch.superseded } :=
    { h with calls_eq := congrArg (· + 1) h.calls_eq, stats_eq := hstats }
  have hnoted := hcounted.note hfact
  have hcall : (script.call (q.calls + 1)).Twin m (script'.call (q'.calls + 1)) := by
    rw [h.calls_eq]
    exact hs.call _
  dsimp only
  rw [Batch.superseded_rename]
  generalize script.call (q.calls + 1) = work at hcall
  generalize script'.call (q'.calls + 1) = work' at hcall
  cases hcall with
  | breakdown => exact (hnoted.withPhase (.dead batch)).closeMailbox.releaseClosers.yieldTurn
  | @run plan plan' hplan =>
    have hrun : Run.Twin m { call := q.calls + 1, plan, began := q.now }
        { call := q'.calls + 1, plan := plan', began := q'.now } :=
      ⟨congrArg (· + 1) h.calls_eq, hplan, h.now_eq, .spawned⟩
    have hlaunched : (Fact.launched (q.calls + 1)).Twin m (.launched (q'.calls + 1)) := by
      rw [h.calls_eq]
      exact .told rfl
    have hstarted := (hnoted.withPhase (.awaiting batch)).withRun hrun
    exact ((hstarted.note hlaunched).enqueue .run).yieldTurn

theorem report (h : q.Twin m b q') (batch : Batch) {run run' : Run} (hrun : run.Twin m run') :
    (q.report batch run).Twin m b (q'.report (batch.rename m.id) run') := by
  unfold Queue.report
  have hphase := h.withPhase (.reported batch run.plan.ending)
  dsimp only
  have helapsed : q'.now - run'.began = q.now - run.began := by rw [h.now_eq, hrun.began_eq]
  rw [hrun.plan.ending_eq, helapsed, Batch.superseded_rename, Batch.span_rename]
  split
  · exact hphase.emit (.completed batch.latest batch.superseded (q.now - run.began))
  · exact hphase.emit (.failed batch.latest (q.now - run.began) run.plan.ending.reason)

theorem await (h : q.Twin m b q') (batch : Batch) :
    (q.await batch).Twin m b (q'.await (batch.rename m.id)) := by
  unfold Queue.await
  rcases rel_cases h.run with ⟨hr, hr'⟩ | ⟨run, run', hr, hr', hrun⟩
  · rw [hr, hr']
    exact h.yieldTurn
  · rw [hr, hr']
    have hstage := hrun.stage
    have hreport := h.report batch hrun
    dsimp only
    generalize run.stage = stage at hstage
    generalize run'.stage = stage' at hstage
    cases hstage with
    | ended => exact hreport
    | _ => exact h.yieldTurn

theorem concludeAfter (h : q.Twin m b q') (batch : Batch) (isSuccess : Bool) (elapsed : Nat) :
    (q.concludeAfter batch isSuccess elapsed).Twin m b
      (q'.concludeAfter (batch.rename m.id) isSuccess elapsed) := by
  have hstats : q'.stats.countOutcome isSuccess =
      (q.stats.countOutcome isSuccess).rename m.id := by
    rw [h.stats_eq]
    unfold Stats.countOutcome
    split <;> rfl
  have hcounted : { q with run := none, stats := q.stats.countOutcome isSuccess }.Twin m b
      { q' with run := none, stats := q'.stats.countOutcome isSuccess } :=
    { h with run := .none, stats_eq := hstats }
  have hfact : (Fact.concluded isSuccess elapsed).Twin m (.concluded isSuccess elapsed) :=
    .told rfl
  have hnoted := hcounted.note hfact
  have hpublished := hnoted.publish .executing .idle .listening batch.span
  rw [← Batch.span_rename] at hpublished
  exact branch h.isCancelled_eq ((hnoted.withPhase (.retiring batch)).emit .outlasted) hpublished

theorem conclude (h : q.Twin m b q') (batch : Batch) (ending : Ending) :
    (q.conclude batch ending).Twin m b (q'.conclude (batch.rename m.id) ending) := by
  have helapsed : (q'.run.elim 0 fun run => q'.now - run.began) =
      q.run.elim 0 fun run => q.now - run.began := by
    rcases rel_cases h.run with ⟨hr, hr'⟩ | ⟨run, run', hr, hr', hrun⟩
    · rw [hr, hr']
      rfl
    · rw [hr, hr', h.now_eq]
      exact congrArg (q.now - ·) hrun.began_eq
  rw [conclude_eq, conclude_eq, helapsed]
  exact h.concludeAfter batch _ _

theorem close (h : q.Twin m b q') : q.close.Twin m b q'.close := by
  have hq : { q.closeMailbox with published := .stopped, phase := .stopped }.Twin m b
      { q'.closeMailbox with published := .stopped, phase := .stopped } :=
    { h.closeMailbox with published_eq := rfl, phase_eq := rfl }
  exact hq.releaseClosers.emit .stopped

theorem stepDispatcher (h : q.Twin m b q') (hs : script.Twin m script') :
    (q.stepDispatcher script).Twin m b (q'.stepDispatcher script') := by
  have hexit (batch : Batch) (before : DispatchState) :
      ({ q with phase := .closing }.emit (.transition before .stopped) (some batch.span)).Twin m b
        ({ q' with phase := .closing }.emit (.transition before .stopped)
          (some (batch.rename m.id).span)) := by
    rw [Batch.span_rename]
    exact (h.withPhase .closing).emit (.transition before .stopped)
  unfold Queue.stepDispatcher
  rw [h.phase_eq]
  cases q.phase with
  | unstarted => exact (h.withPhase .listening).emit .started
  | listening => exact h.listen
  | counting first => exact h.countBacklog first
  | draining batch left => exact h.drain batch left
  | dropping batch => exact hexit batch .draining
  | dispatching batch => exact h.dispatch hs batch
  | awaiting batch => exact h.await batch
  | reported batch ending => exact h.conclude batch ending
  | retiring batch => exact hexit batch .executing
  | closing => exact h.close
  | stopped | dead batch => exact h.yieldTurn

/-! ## Steps -/

theorem attend? (h : q.Twin m b q') (hag : Agree m b q q' q.faced? q'.faced?) :
    Option.Rel (Queue.Twin m b) q.attend? q'.attend? := by
  unfold faced? at hag
  unfold Queue.attend?
  have hdue := h.due
  generalize hd : q.due = due at hdue hag
  generalize hd' : q'.due = due' at hdue hag
  cases hdue with
  | @cons _ _ rest rest' ha hrest =>
    have hq : { q with due := rest }.Twin m b { q' with due := rest' } := { h with due := hrest }
    exact .some (hq.performHooked ha (hag _ rfl _ rfl ha))
  | nil =>
    rcases rel_cases h.errand with ⟨he, he'⟩ | ⟨e, e', he, he', hee⟩
    · rw [he, he']
      exact .none
    · rw [he, he'] at hag
      rw [he, he']
      exact .some (h.stepErrand hee hag)

theorem stepTurn (h : q.Twin m b q') (hs : script.Twin m script') (hdue : q.due = [])
    (herrand : q.errand = none) {p : Party} (hturn : q.turn = some p)
    (hag : Agree m b q q' q.faced? q'.faced?) :
    (q.stepTurn script p).Twin m b (q'.stepTurn script' p) := by
  cases p with
  | dispatcher => exact h.stepDispatcher hs
  | run =>
    dsimp only [Queue.stepTurn]
    rcases rel_cases h.run with ⟨hr, hr'⟩ | ⟨run, run', hr, hr', hrun⟩
    · rw [hr, hr']
      exact h.yieldTurn
    · rw [hr, hr']
      have hdue' : q'.due = [] := by
        have hrel := h.due
        rw [hdue] at hrel
        exact List.forall₂_nil_left_iff.mp hrel
      have herrand' : q'.errand = none := by
        rcases rel_cases h.errand with ⟨-, he'⟩ | ⟨e, e', he, -, -⟩
        · exact he'
        · rw [herrand] at he
          contradiction
      rw [faced?_of_turn hdue herrand hturn hr,
        faced?_of_turn hdue' herrand' (h.turn_eq.trans hturn) hr'] at hag
      exact h.stepRun hrun hag
  | producer ticket =>
    dsimp only [Queue.stepTurn]
    rw [h.mailbox_eq, Mailbox.find?_rename]
    cases q.mailbox.find? ticket with
    | none => exact h.yieldTurn
    | some w => exact (h.settleWaiter w).yieldTurn

theorem nextTurn? (h : q.Twin m b q') : Option.Rel (Queue.Twin m b) q.nextTurn? q'.nextTurn? := by
  unfold Queue.nextTurn?
  have hline := h.line_eq
  rw [hline, h.hasDecidedThread_eq]
  split
  · exact .some { h with line_eq := rfl, turn_eq := rfl }
  · split
    · exact .some h.settleThreads
    · exact .none

theorem step? (h : q.Twin m b q') (hs : script.Twin m script')
    (hag : Agree m b q q' q.faced? q'.faced?) :
    Option.Rel (Queue.Twin m b) (q.step? script) (q'.step? script') := by
  unfold Queue.step?
  rcases rel_cases (h.attend? hag) with ⟨ha, ha'⟩ | ⟨p, p', ha, ha', hp⟩
  · rw [ha, ha', h.turn_eq]
    obtain ⟨herrand, hdue⟩ := errand_of_attend? ha
    cases hturn : q.turn with
    | none => exact h.nextTurn?
    | some party => exact .some (h.stepTurn hs hdue herrand hturn hag)
  · rw [ha, ha']
    exact .some hp

theorem patience_eq (h : q.Twin m b q') (hs : script.Twin m script') :
    q'.patience script' = q.patience script := by
  have hload : q'.load = q.load := by
    have hhooks {ks ks' : List Hook} (hks : List.Forall₂ (Hook.Twin m) ks ks') :
        ks'.foldr (fun k n => k.nth + Action.totalWeight k.actions + 1 + n) 0 =
          ks.foldr (fun k n => k.nth + Action.totalWeight k.actions + 1 + n) 0 := by
      induction hks with
      | nil => rfl
      | cons hk _ ih =>
        rw [List.foldr_cons, List.foldr_cons, ih, hk.nth_eq, Action.Twin.totalWeight_eq hk.actions]
    unfold load
    dsimp only
    rw [hhooks h.hooks, Action.Twin.totalWeight_eq h.due, h.mailbox_eq, h.line_eq, h.permits_eq]
    simp only [Mailbox.rename, List.length_map]
    rcases rel_cases h.errand with ⟨he, he'⟩ | ⟨e, e', he, he', hee⟩
    · rw [he, he']
    · rw [he, he']
      dsimp only
      rw [hee.todo_eq, List.length_map]
  unfold Queue.patience
  rw [hload, hs.listedWeight_eq, hs.otherWeight_eq]

theorem deadline_eq (h : q.Twin m b q') : q'.deadline? = q.deadline? := by
  unfold deadline?
  rcases rel_cases h.run with ⟨hr, hr'⟩ | ⟨run, run', hr, hr', hrun⟩
  · rw [hr, hr']
  · rw [hr, hr']
    have hstage := hrun.stage
    dsimp only
    generalize run.stage = stage at hstage
    generalize run'.stage = stage' at hstage
    cases hstage <;> rfl

theorem clockTo (h : q.Twin m b q') (time : Nat) : (q.clockTo time).Twin m b (q'.clockTo time) :=
  { h with now_eq := congrArg (Nat.max · time) h.now_eq }

theorem wakeRunAt (h : q.Twin m b q') (time : Nat) :
    (q.wakeRunAt time).Twin m b (q'.wakeRunAt time) :=
  (h.enqueue .run).clockTo time

end Twin
end Queue
end CoalescingQueue
