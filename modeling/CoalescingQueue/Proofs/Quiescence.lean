import CoalescingQueue.Proofs.Cancellation
import CoalescingQueue.Proofs.Conduct
import Mathlib.Data.Prod.Lex
import Mathlib.Order.WellFounded

/-!
# A cancelled queue comes to rest

Once a queue is cancelled its dispatcher only goes on towards its end, no action can offer
anything new, and the run in flight comes to where it ends or has to wait. So after some steps
nothing moves, while the clock stands still. What is left to do is measured in order of weight: what
counts less may grow as long as something that counts more shrinks. The statements do not say how
many steps it takes, and they do not hold of a queue that goes on.
-/
namespace CoalescingQueue

/-- How far the dispatcher of a cancelled queue is from its end. -/
def Phase.height : Phase → Nat
  | .unstarted => 9
  | .listening => 8
  | .counting _ => 7
  | .draining _ _ => 6
  | .dispatching _ => 5
  | .awaiting _ => 4
  | .reported _ _ => 3
  | .dropping _ | .retiring _ => 2
  | .closing => 1
  | .stopped | .dead _ => 0

/-- How far a run is from its end. -/
def Run.height (run : Run) : Nat :=
  match run.stage with
  | .spawned => run.plan.atStart.length + run.plan.atEnd.length + 6
  | .opening todo => todo.length + run.plan.atEnd.length + 5
  | .waiting => run.plan.atEnd.length + 4
  | .sleeping _ => run.plan.atEnd.length + 3
  | .closing todo => todo.length + 2
  | .ended => 1

namespace Queue

variable {script : WorkScript} {q q' : Queue}

def runHeight (q : Queue) : Nat :=
  match q.run with
  | some run => run.height
  | none => 0

def errandHeight (q : Queue) : Nat :=
  match q.errand with
  | some e => e.todo.length + 1
  | none => 0

/-- Those who stand in line, and whoever has the turn. -/
def lineHeight (q : Queue) : Nat := 2 * q.line.length + q.turn.toList.length

/-- What is left to do, the weightiest first. -/
def burden (q : Queue) : Nat ×ₗ Nat ×ₗ Nat ×ₗ Nat ×ₗ Nat ×ₗ Nat ×ₗ Nat :=
  toLex (q.phase.height, toLex (q.phase.left, toLex (q.runHeight, toLex (q.errandHeight,
    toLex (q.mailbox.tickets.length, toLex (q.due.length, q.lineHeight))))))

theorem burden_lt_iff : q'.burden < q.burden ↔
    q'.phase.height < q.phase.height ∨ q'.phase.height = q.phase.height ∧
    (q'.phase.left < q.phase.left ∨ q'.phase.left = q.phase.left ∧
    (q'.runHeight < q.runHeight ∨ q'.runHeight = q.runHeight ∧
    (q'.errandHeight < q.errandHeight ∨ q'.errandHeight = q.errandHeight ∧
    (q'.mailbox.tickets.length < q.mailbox.tickets.length ∨
      q'.mailbox.tickets.length = q.mailbox.tickets.length ∧
    (q'.due.length < q.due.length ∨ q'.due.length = q.due.length ∧
      q'.lineHeight < q.lineHeight))))) := by
  simp only [burden, Prod.Lex.toLex_lt_toLex]

theorem burden_lt_of_phase (h : q'.phase.height < q.phase.height) : q'.burden < q.burden :=
  burden_lt_iff.mpr (.inl h)

theorem burden_lt_of_run (hp : q'.phase = q.phase) (h : q'.runHeight < q.runHeight) :
    q'.burden < q.burden := by
  rw [burden_lt_iff, hp]
  exact .inr ⟨rfl, .inr ⟨rfl, .inl h⟩⟩

theorem burden_lt_of_errand (hp : q'.phase = q.phase) (hrun : q'.run = q.run)
    (h : q'.errandHeight < q.errandHeight) : q'.burden < q.burden := by
  have hheight : q'.runHeight = q.runHeight := by rw [runHeight, hrun, runHeight]
  rw [burden_lt_iff, hp]
  exact .inr ⟨rfl, .inr ⟨rfl, .inr ⟨hheight, .inl h⟩⟩⟩

/-- Nothing has begun, and a call that waited is gone or a hooked action was performed, or whoever
had a turn gave it back. -/
theorem burden_lt_of_rest (hp : q'.phase = q.phase) (hrun : q'.run = q.run)
    (herrand : q'.errand = q.errand)
    (h : q'.mailbox.tickets.length < q.mailbox.tickets.length ∨
      q'.mailbox.tickets.length = q.mailbox.tickets.length ∧
      (q'.due.length < q.due.length ∨ q'.due.length = q.due.length ∧
        q'.lineHeight < q.lineHeight)) : q'.burden < q.burden := by
  have hheight : q'.runHeight = q.runHeight := by rw [runHeight, hrun, runHeight]
  have hleft : q'.errandHeight = q.errandHeight := by rw [errandHeight, herrand, errandHeight]
  rw [burden_lt_iff, hp]
  exact .inr ⟨rfl, .inr ⟨rfl, .inr ⟨hheight, .inr ⟨hleft, h⟩⟩⟩⟩

/-! ## What events and calls leave alone -/

theorem phase_emit (q : Queue) (e : Event) (span : Option Span) :
    (q.emit e span).phase = q.phase :=
  congrArg Scene.phase (scene_emit q e span)

/-- A waiting call is as before, or it is off the list. -/
theorem settleWaiter_cases (q : Queue) (w : Waiter) : q.settleWaiter w = q ∨
    (q.settleWaiter w).mailbox.tickets = q.mailbox.tickets.filter (· ≠ w.ticket) := by
  unfold settleWaiter
  split
  · next reply q' hd =>
    right
    rw [← Mailbox.dismiss_tickets]
    show q'.mailbox.tickets = _
    exact tickets_decide hd
  · exact .inl rfl

theorem tickets_settleWaiter (q : Queue) (w : Waiter) :
    (q.settleWaiter w).mailbox.tickets.Sublist q.mailbox.tickets := by
  rcases q.settleWaiter_cases w with heq | heq
  · rw [heq]
  · rw [heq]
    exact List.filter_sublist

/-- What settling the calls of threads among these comes to. -/
theorem tickets_foldl_settle (ws : List Waiter) (q : Queue) :
    (ws.foldl (fun q w => if w.caller = .thread then q.settleWaiter w else q)
      q).mailbox.tickets.Sublist q.mailbox.tickets := by
  induction ws generalizing q with
  | nil => exact List.Sublist.refl _
  | cons w ws ih =>
    rw [List.foldl_cons]
    refine (ih _).trans ?_
    split
    · exact tickets_settleWaiter q w
    · exact List.Sublist.refl _

/-- A thread's call that is decided goes off the list. -/
theorem not_mem_settleWaiter {w : Waiter} (hthread : w.caller = .thread)
    (hdecided : (q.mailbox.isClosed || w.hasSlot) = true) :
    w.ticket ∉ (q.settleWaiter w).mailbox.tickets := by
  have hheeds : w.caller.heedsCancellation = false := by rw [hthread, Caller.heedsCancellation]
  unfold settleWaiter
  cases hd : q.decide? w with
  | some decided =>
    obtain ⟨reply, q'⟩ := decided
    show w.ticket ∉ q'.mailbox.tickets
    rw [tickets_decide hd, Mailbox.dismiss_tickets]
    simp
  | none =>
    unfold decide? at hd
    rw [hheeds, Bool.false_and, Bool.false_or] at hd
    by_cases hclosed : q.mailbox.isClosed = true
    · rw [if_pos hclosed] at hd
      contradiction
    · have hslot : w.hasSlot = true := by simpa [hclosed] using hdecided
      rw [if_neg hclosed, if_pos hslot] at hd
      contradiction

theorem isClosed_settleWaiter (q : Queue) (w : Waiter) :
    (q.settleWaiter w).mailbox.isClosed = q.mailbox.isClosed := by
  unfold settleWaiter decide?
  split
  · next reply q' hd =>
    show q'.mailbox.isClosed = _
    split at hd
    · obtain ⟨-, rfl⟩ := Prod.mk.inj (Option.some.inj hd)
      exact leave_isClosed _ w
    · split at hd
      · obtain ⟨-, rfl⟩ := Prod.mk.inj (Option.some.inj hd)
        obtain ⟨more, heq⟩ := q.enter_more w
        rw [heq]
        rfl
      · contradiction
  · rfl

theorem exists_not_mem_foldl_settle {ws : List Waiter} {w : Waiter} (hw : w ∈ ws)
    (hthread : w.caller = .thread) (hdecided : (q.mailbox.isClosed || w.hasSlot) = true) :
    ∃ v ∈ ws, v.ticket ∉ (ws.foldl
      (fun q w => if w.caller = .thread then q.settleWaiter w else q) q).mailbox.tickets := by
  induction ws generalizing q with
  | nil => exact absurd hw List.not_mem_nil
  | cons v ws ih =>
    rw [List.foldl_cons]
    rcases List.mem_cons.mp hw with rfl | hrest
    · refine ⟨w, List.mem_cons_self, fun hmem => ?_⟩
      rw [if_pos hthread] at hmem
      exact not_mem_settleWaiter hthread hdecided ((tickets_foldl_settle ws _).subset hmem)
    · obtain ⟨u, hu, hout⟩ := ih (q := if v.caller = .thread then q.settleWaiter v else q) hrest (by
        split
        · rw [isClosed_settleWaiter]
          exact hdecided
        · exact hdecided)
      exact ⟨u, List.mem_cons_of_mem v hu, hout⟩

/-- If a thread's call is decided, some call goes off the list. -/
theorem length_settleThreads (h : q.hasDecidedThread = true) :
    q.settleThreads.mailbox.tickets.length < q.mailbox.tickets.length := by
  unfold hasDecidedThread at h
  obtain ⟨w, hw, hdecided⟩ := List.any_eq_true.mp h
  rw [Bool.and_eq_true, decide_eq_true_eq] at hdecided
  obtain ⟨v, hv, hout⟩ := exists_not_mem_foldl_settle hw hdecided.1 hdecided.2
  have hsub : q.settleThreads.mailbox.tickets.Sublist q.mailbox.tickets := tickets_foldl_settle _ q
  by_contra hle
  have heq := hsub.eq_of_length_le (by omega)
  apply hout
  show v.ticket ∈ q.settleThreads.mailbox.tickets
  rw [heq]
  exact List.mem_map_of_mem hv

/-! ## Steps -/

/-- A party that gives its turn back leaves less to do. -/
theorem burden_yieldTurn {p : Party} (hturn : q.turn = some p) : q.yieldTurn.burden < q.burden := by
  apply burden_lt_of_rest
  · rfl
  · rfl
  · rfl
  · refine .inr ⟨rfl, .inr ⟨rfl, ?_⟩⟩
    show 2 * q.line.length + 0 < 2 * q.line.length + q.turn.toList.length
    rw [hturn]
    exact Nat.lt_succ_self _

theorem height_emit (q : Queue) (e : Event) (span : Option Span) :
    (q.emit e span).phase.height = q.phase.height := by
  rw [phase_emit]

/-- A drain that is over is dropped. -/
theorem height_finishDrain (hc : q.isCancelled = true) (b : Batch) :
    (q.finishDrain b).phase.height = 2 := by
  rw [finishDrain, if_pos hc, height_emit]
  rfl

theorem burden_drain (hc : q.isCancelled = true) {b : Batch} {left : Nat}
    (hp : q.phase = .draining b left) : (q.drain b left).burden < q.burden := by
  have hover : (q.finishDrain b).burden < q.burden := by
    apply burden_lt_of_phase
    rw [height_finishDrain hc, hp]
    show 2 < 6
    omega
  unfold drain
  split
  · exact hover
  · next left =>
    split
    · next r q₁ hr =>
      rw [burden_lt_iff, phase_emit, hp]
      refine .inr ⟨rfl, .inl ?_⟩
      show left < left + 1
      omega
    · exact hover

theorem phase_releaseClosers (q : Queue) : q.releaseClosers.phase = q.phase :=
  congrArg Scene.phase (scene_releaseClosers q)

/-- A dispatcher that has the turn comes nearer to its end or has nothing to do. -/
theorem burden_stepDispatcher (hc : q.isCancelled = true) (hturn : q.turn = some .dispatcher) :
    (q.stepDispatcher script).burden < q.burden := by
  unfold stepDispatcher
  split
  · next hp =>
    apply burden_lt_of_phase
    rw [height_emit, hp]
    show 8 < 9
    omega
  · next hp =>
    apply burden_lt_of_phase
    rw [listen, if_pos hc, height_emit, hp]
    show 1 < 8
    omega
  · next first hp =>
    apply burden_lt_of_phase
    rw [hp]
    show 6 < 7
    omega
  · next b left hp => exact burden_drain hc hp
  · next b hp =>
    apply burden_lt_of_phase
    rw [height_emit, hp]
    show 1 < 2
    omega
  · next b hp =>
    apply burden_lt_of_phase
    rw [hp]
    rcases q.phase_dispatch b with hnext | hnext
    · rw [hnext]
      show 0 < 5
      omega
    · rw [hnext]
      show 4 < 5
      omega
  · next b hp =>
    unfold await
    split
    · split
      · apply burden_lt_of_phase
        rw [report, height_emit, hp]
        show 3 < 4
        omega
      · exact burden_yieldTurn hturn
    · exact burden_yieldTurn hturn
  · next b ending hp =>
    apply burden_lt_of_phase
    unfold conclude
    extract_lets elapsed concluded
    have hc' : concluded.isCancelled = true := hc
    rw [if_pos hc', height_emit, hp]
    show 2 < 3
    omega
  · next b hp =>
    apply burden_lt_of_phase
    rw [height_emit, hp]
    show 1 < 2
    omega
  · next hp =>
    apply burden_lt_of_phase
    rw [close, height_emit, phase_releaseClosers, hp]
    show 0 < 1
    omega
  · exact burden_yieldTurn hturn
  · exact burden_yieldTurn hturn

/-! ## Actions of a cancelled queue -/

theorem offerQuietly_cancelled (hc : q.isCancelled = true) (caller : Caller) (handle : Nat)
    (r : Request) : (q.offerQuietly caller handle r).2 = q := by
  unfold offerQuietly
  rw [if_pos hc]
  split
  · rfl
  · rfl

theorem offerAllQuietly_cancelled (hc : q.isCancelled = true) (handle : Nat)
    (requests : List Request) : (q.offerAllQuietly handle requests).2 = q := by
  induction requests with
  | nil => rfl
  | cons r rest ih =>
    have hfirst := offerQuietly_cancelled hc .task handle r
    show (offerAllQuietly (q.offerQuietly .task handle r).2 handle rest).2 = q
    rw [hfirst]
    exact ih

/-- What is performed all at once offers nothing. -/
theorem mailbox_perform (hc : q.isCancelled = true) (a : Action) :
    (q.perform a).2.mailbox = q.mailbox := by
  unfold perform
  cases a with
  | add r handle => rw [offerQuietly_cancelled hc]
  | blockingAdd r handle => rw [offerQuietly_cancelled hc]
  | burst rs handle => exact congrArg Queue.mailbox (offerAllQuietly_cancelled hc handle rs)
  | shutdown handle =>
    dsimp only
    unfold shutdown
    rw [cancel, if_pos hc]
    split
    · dsimp only
      split
      · rfl
      · rfl
    · rfl
  | cancel =>
    dsimp only
    rw [cancel, if_pos hc]
  | release n =>
    obtain ⟨more, heq⟩ := q.releasePermits_more n
    dsimp only
    rw [heq]
  | drop handle =>
    obtain ⟨more, heq⟩ := q.drop_more handle
    dsimp only
    split
    · rw [heq]
    · rfl
  | snapshot => rfl
  | clone | watch | describe =>
    dsimp only
    split
    · rfl
    · rfl

theorem mailbox_noteAction (q : Queue) (a : Action) (reply : Reply) :
    (q.noteAction a reply).mailbox = q.mailbox := by
  unfold noteAction
  split
  · rfl
  · rfl

theorem phase_answer (q : Queue) (a : Action) (reply : Reply) :
    (q.answer a reply).phase = q.phase :=
  congrArg Scene.phase (scene_answer q a reply)

theorem errand_answer (q : Queue) (a : Action) (reply : Reply) :
    (q.answer a reply).errand = q.errand :=
  congrArg Scene.errand (scene_answer q a reply)

/-- A hooked action is one thing less to do. -/
theorem burden_performHooked (hc : q.isCancelled = true) {a : Action} {due : List Action}
    (hdue : q.due = a :: due) : ({ q with due }.performHooked a).burden < q.burden := by
  have hscene : ({ q with due }.performHooked a).scene = { q.scene with due } :=
    scene_performHooked _ a
  have hmailbox : ({ q with due }.performHooked a).mailbox = q.mailbox :=
    (mailbox_noteAction _ _ _).trans (mailbox_perform (q := { q with due }) hc a)
  have hdue' : ({ q with due }.performHooked a).due = due := congrArg Scene.due hscene
  apply burden_lt_of_rest
  · exact congrArg Scene.phase hscene
  · exact run_performHooked _ a
  · exact congrArg Scene.errand hscene
  · refine .inr ⟨by rw [hmailbox], .inl ?_⟩
    rw [hdue', hdue, List.length_cons]
    omega

/-- An errand that was announced offers, and any other goes on to its end. -/
theorem burden_stepErrand (hc : q.isCancelled = true) {e : Errand} (he : q.errand = some e) :
    (q.stepErrand e).burden < q.burden := by
  have hheight : q.errandHeight = e.todo.length + 1 := by rw [errandHeight, he]
  unfold stepErrand
  split
  · next htodo =>
    apply burden_lt_of_errand
    · exact phase_answer _ _ _
    · exact run_answer _ _ _
    · rw [hheight, errandHeight, errand_answer]
      exact Nat.succ_pos _
  · next r rest htodo =>
    rw [htodo, List.length_cons] at hheight
    split
    · dsimp only
      obtain ⟨line, heq⟩ := wakeIfAbandoned_eq { (q.offer e.caller r).2 with
        errand := some { e with
          todo := rest, isAnnounced := false, replies := e.replies ++ [(q.offer e.caller r).1] } }
      rw [heq]
      apply burden_lt_of_errand
      · exact congrArg Scene.phase (scene_offer q e.caller r)
      · exact run_offer q e.caller r
      · rw [hheight]
        show rest.length + 1 < _
        omega
    · split
      · apply burden_lt_of_errand
        · rfl
        · rfl
        · rw [hheight]
          show rest.length + 1 < _
          omega
      · apply burden_lt_of_errand
        · rfl
        · rfl
        · rw [hheight]
          show rest.length + 1 < _
          omega

/-! ## The run in flight -/

theorem phase_begin (q : Queue) (a : Action) : (q.begin a).phase = q.phase := by
  obtain ⟨errand, heq⟩ := scene_begin q a
  exact congrArg Scene.phase heq

/-- A run that comes further has less before it. -/
theorem burden_setStage {run : Run} {stage : Stage} (hrun : q.run = some run)
    (hp : q'.phase = q.phase) (hset : q'.run = some { run with stage })
    (h : ({ run with stage } : Run).height < run.height) : q'.burden < q.burden := by
  apply burden_lt_of_run hp
  rw [runHeight, runHeight, hset, hrun]
  exact h

theorem phase_narrate (q : Queue) (run : Run) (e : Event) : (q.narrate run e).phase = q.phase := by
  obtain ⟨due, heq⟩ := scene_narrate q run e
  exact congrArg Scene.phase heq

/-- A run that has the turn comes nearer to its end or gives the turn back. -/
theorem burden_stepRun {run : Run} (hturn : q.turn = some .run) (hrun : q.run = some run) :
    (q.stepRun run).burden < q.burden := by
  unfold stepRun
  dsimp only
  split
  · next hs =>
    apply burden_setStage hrun
    · exact phase_narrate _ _ _
    · exact run_narrate _ _ _
    · simp only [Run.height, hs]
      omega
  · next a todo hs =>
    apply burden_setStage hrun
    · exact phase_begin _ _
    · exact run_begin (q.setStage run (.opening todo)) a
    · simp only [Run.height, hs, List.length_cons]
      omega
  · next hs =>
    apply burden_setStage hrun
    · rfl
    · rfl
    · simp only [Run.height, hs, List.length_nil]
      omega
  · next hs =>
    split
    · exact burden_yieldTurn hturn
    · -- taking a permit is neither here nor there
      have hgate (q₁ : Queue) (hp : q₁.phase = q.phase) :
          (if run.plan.duration = 0 then q₁.setStage run (.closing run.plan.atEnd)
            else (q₁.setStage run (.sleeping (q₁.now + run.plan.duration))).yieldTurn).burden <
            q.burden := by
        split
        · apply burden_setStage hrun
          · exact hp
          · rfl
          · simp only [Run.height, hs]
            omega
        · apply burden_setStage hrun
          · exact hp
          · rfl
          · simp only [Run.height, hs]
            omega
      apply hgate
      split
      · rfl
      · rfl
  · next deadline hs =>
    split
    · exact burden_yieldTurn hturn
    · apply burden_setStage hrun
      · rfl
      · rfl
      · simp only [Run.height, hs]
        omega
  · next a todo hs =>
    apply burden_setStage hrun
    · exact phase_begin _ _
    · exact run_begin (q.setStage run (.closing todo)) a
    · simp only [Run.height, hs, List.length_cons]
      omega
  · next hs =>
    obtain ⟨line, heq⟩ := enqueue_eq (((q.setStage run .ended).note (.returned run.call)).narrate
      run (.workEnded run.call q.now)) .dispatcher
    rw [heq]
    apply burden_setStage hrun
    · exact phase_narrate _ _ _
    · exact run_narrate _ _ _
    · simp only [Run.height, hs, List.length_nil]
      omega
  · exact burden_yieldTurn hturn

/-! ## The other parties -/

/-- A producer that has the turn has its call decided, or it goes on waiting. -/
theorem burden_settleWaiter {w : Waiter} (hw : w ∈ q.mailbox.waiting) {p : Party}
    (hturn : q.turn = some p) : (q.settleWaiter w).yieldTurn.burden < q.burden := by
  rcases q.settleWaiter_cases w with heq | heq
  · rw [heq]
    exact burden_yieldTurn hturn
  · have hscene := scene_settleWaiter q w
    have hout : (q.mailbox.tickets.filter (· ≠ w.ticket)).length < q.mailbox.tickets.length := by
      apply List.length_filter_lt_length_iff_exists.mpr
      exact ⟨w.ticket, List.mem_map_of_mem hw, by simp⟩
    apply burden_lt_of_rest
    · exact congrArg Scene.phase hscene
    · exact run_settleWaiter q w
    · exact congrArg Scene.errand hscene
    · left
      show (q.settleWaiter w).mailbox.tickets.length < _
      rw [heq]
      exact hout

/-- Whoever has the turn makes use of it or gives it back. -/
theorem burden_stepTurn (hc : q.isCancelled = true) {p : Party} (hturn : q.turn = some p) :
    (q.stepTurn script p).burden < q.burden := by
  unfold stepTurn
  split
  · exact burden_stepDispatcher hc hturn
  · split
    · next run hrun => exact burden_stepRun hturn hrun
    · exact burden_yieldTurn hturn
  · split
    · next w hfind =>
      have hw : w ∈ q.mailbox.waiting := List.mem_of_find?_eq_some hfind
      exact burden_settleWaiter hw hturn
    · exact burden_yieldTurn hturn

theorem burden_nextTurn? (hturn : q.turn = none) (hn : q.nextTurn? = some q') :
    q'.burden < q.burden := by
  unfold nextTurn? at hn
  split at hn
  · next p line hline =>
    obtain rfl := Option.some.inj hn
    apply burden_lt_of_rest
    · rfl
    · rfl
    · rfl
    · refine .inr ⟨rfl, .inr ⟨rfl, ?_⟩⟩
      rw [lineHeight, lineHeight, hline, hturn, List.length_cons]
      show 2 * line.length + 1 < 2 * (line.length + 1) + 0
      omega
  · split at hn
    · next hthread =>
      obtain rfl := Option.some.inj hn
      have hscene := scene_settleThreads q
      apply burden_lt_of_rest
      · exact congrArg Scene.phase hscene
      · exact run_settleThreads q
      · exact congrArg Scene.errand hscene
      · exact .inl (length_settleThreads hthread)
    · contradiction

/-- Each step of a cancelled queue leaves less to do. -/
theorem burden_step? (hc : q.isCancelled = true) (hs : q.step? script = some q') :
    q'.burden < q.burden := by
  unfold step? at hs
  split at hs
  · next q₁ ha =>
    obtain rfl := Option.some.inj hs
    unfold attend? at ha
    split at ha
    · next a due hdue =>
      obtain rfl := Option.some.inj ha
      exact burden_performHooked hc hdue
    · next e _ he =>
      obtain rfl := Option.some.inj ha
      exact burden_stepErrand hc he
    · contradiction
  · split at hs
    · next p hturn =>
      obtain rfl := Option.some.inj hs
      exact burden_stepTurn hc hturn
    · next hturn => exact burden_nextTurn? hturn hs

/-- A cancelled queue comes to rest while the clock stands still. -/
theorem Reachable.exists_atRest (h : Reachable script q) (hc : q.isCancelled = true) :
    ∃ n, (Queue.iterate (step? script) n q).AtRest script := by
  induction hb : q.burden using WellFoundedLT.induction generalizing q with
  | ind b ih =>
    cases hs : q.step? script with
    | none => exact ⟨0, hs⟩
    | some q' =>
      have hm : Move script q q' := .step hs
      have hc' : q'.isCancelled = true := Later.isCancelled (.single hm) h hc
      have hlt : q'.burden < b := hb ▸ burden_step? hc hs
      obtain ⟨n, hrest⟩ := ih q'.burden hlt (h.move hm) hc' rfl
      refine ⟨n + 1, ?_⟩
      rw [Queue.iterate, hs]
      exact hrest

end Queue
end CoalescingQueue
