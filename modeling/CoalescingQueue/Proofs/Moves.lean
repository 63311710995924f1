import CoalescingQueue.Proofs.Flow
import CoalescingQueue.Queue.Reachable

/-!
# Moves are courses of the flow

Each operation of a queue is followed by its flow in steps: from whatever flow the queue was
reached before, it is reached by a course after. Who waits in line and who has the turn does not
matter here, so operations that only see to that leave the flow as it is.
-/
namespace CoalescingQueue.Queue

open CoalescingQueue.Flow

variable {script : WorkScript} {c : Flow} {q : Queue}

/-! ## Operations without consequence -/

@[simp] theorem flow_note (q : Queue) (f : Fact) : (q.note f).flow = q.flow.note f := by
  simp [flow, note, Flow.note]

@[simp] theorem flow_enqueue (q : Queue) (p : Party) : (q.enqueue p).flow = q.flow := by
  obtain ⟨line, h⟩ := enqueue_eq q p
  rw [h]
  rfl

@[simp] theorem flow_yieldTurn (q : Queue) : q.yieldTurn.flow = q.flow := rfl

@[simp] theorem flow_wakeDispatcher (q : Queue) : q.wakeDispatcher.flow = q.flow := by
  obtain ⟨line, h⟩ := wakeDispatcher_eq q
  rw [h]
  rfl

@[simp] theorem flow_wakeIfAbandoned (q : Queue) : q.wakeIfAbandoned.flow = q.flow := by
  obtain ⟨line, h⟩ := wakeIfAbandoned_eq q
  rw [h]
  rfl

@[simp] theorem flow_wakeProducers (q : Queue) : q.wakeProducers.flow = q.flow := by
  obtain ⟨line, h⟩ := wakeProducers_eq q
  rw [h]
  rfl

@[simp] theorem flow_releaseSlot (q : Queue) :
    q.releaseSlot.flow = { q.flow with mailbox := q.mailbox.release.2 } := by
  unfold releaseSlot
  split
  · next w mailbox h =>
    rw [h]
    dsimp only
    split
    · exact flow_enqueue _ _
    · rfl
  · next mailbox h =>
    rw [h]
    rfl

@[simp] theorem flow_releasePermits (q : Queue) (n : Nat) : (q.releasePermits n).flow = q.flow := by
  unfold releasePermits
  dsimp only
  split
  · split
    · exact flow_enqueue _ _
    · rfl
  · rfl

@[simp] theorem flow_drop (q : Queue) (handle : Nat) : (q.drop handle).flow = q.flow :=
  flow_wakeIfAbandoned _

/-- The end of all shutdown calls is told to those who made them. -/
theorem flow_releaseClosers (q : Queue) :
    ∃ told : History, (∀ f ∈ told, f.IsAside) ∧
      q.releaseClosers.flow = { q.flow with journal := q.flow.journal ++ told } := by
  unfold releaseClosers
  generalize q.closers = tickets
  induction tickets generalizing q with
  | nil => exact ⟨[], by simp, by simp [flow]⟩
  | cons ticket tickets ih =>
    obtain ⟨told, haside, heq⟩ := ih (q.note (.ended ticket .done q.now))
    refine ⟨.ended ticket .done q.now :: told, ?_, ?_⟩
    · simpa using ⟨.ended _ _ _, haside⟩
    · refine heq.trans ?_
      simp [Flow.note]

/-! ## Waiting offers -/

theorem flow_leave (q : Queue) (w : Waiter) :
    (q.leave w).flow = { q.flow with mailbox := q.mailbox.dismiss w.ticket } ∨
      (q.leave w).flow =
        { q.flow with mailbox := (q.mailbox.dismiss w.ticket).release.2 } := by
  unfold leave
  dsimp only
  rw [flow_wakeIfAbandoned]
  split
  · exact .inr (flow_releaseSlot _)
  · exact .inl rfl

theorem course_leave {w : Waiter}
    (h : Course script c { q.flow with mailbox := q.mailbox.dismiss w.ticket }) :
    Course script c (q.leave w).flow := by
  rcases flow_leave q w with heq | heq
  · exact heq ▸ h
  · exact heq ▸ h.step .release

theorem course_decide {w : Waiter} {reply : Reply} {q' : Queue} (h : Course script c q.flow)
    (hw : w ∈ q.mailbox.waiting) (hd : q.decide? w = some (reply, q')) :
    Course script c q'.flow := by
  unfold decide? at hd
  split at hd
  · next hr =>
    obtain ⟨-, rfl⟩ := Prod.mk.inj (Option.some.inj hd)
    have hrefused : q.isCancelled = true ∨ q.mailbox.isClosed = true := by
      simp only [Bool.or_eq_true, Bool.and_eq_true] at hr
      exact hr.imp And.right id
    exact course_leave (h.step (.withdraw hw hrefused))
  · next hr =>
    split at hd
    · next hslot =>
      obtain ⟨-, rfl⟩ := Prod.mk.inj (Option.some.inj hd)
      have hopen : q.mailbox.isClosed = false := by simp_all
      simp only [enter, flow_wakeDispatcher, flow_note]
      exact h.step (.join hopen hw hslot)
    · simp at hd

theorem course_settleWaiter {w : Waiter} (h : Course script c q.flow)
    (hw : w ∈ q.mailbox.waiting) : Course script c (q.settleWaiter w).flow := by
  unfold settleWaiter
  split
  · next reply q' hd =>
    rw [flow_note]
    exact (course_decide h hw hd).step (.remark (.ended _ _ _))
  · exact h

theorem course_abandon (h : Course script c q.flow) (ticket : Nat) :
    Course script c (q.abandon ticket).flow := by
  unfold abandon
  split
  · next w hw =>
    have hmem : w ∈ q.mailbox.waiting := List.mem_of_find?_eq_some hw
    have hticket : w.ticket = ticket := by simpa using List.find?_some hw
    have hgone := h.step (.forsake hmem)
    rw [flow_note, ← hticket]
    rcases flow_leave q w with heq | heq
    · exact heq ▸ hgone
    · exact heq ▸ hgone.step .release
  · exact h

/-- Deciding the call of a thread does not touch the other calls: a thread gives a slot back
only once the mailbox is closed, and then nobody is given one. -/
theorem waiting_decide_thread {w : Waiter} {reply : Reply} {q' : Queue}
    (hthread : w.caller = .thread) (hd : q.decide? w = some (reply, q')) :
    q'.flow.mailbox.waiting = (q.mailbox.dismiss w.ticket).waiting := by
  unfold decide? at hd
  split at hd
  · next hr =>
    obtain ⟨-, rfl⟩ := Prod.mk.inj (Option.some.inj hd)
    have hclosed : q.mailbox.isClosed = true := by
      simpa [hthread, Caller.heedsCancellation] using hr
    have hkept : ¬ (w.hasSlot && !(q.mailbox.dismiss w.ticket).isClosed) = true := by
      simp [Mailbox.dismiss, hclosed]
    unfold withdraw leave
    dsimp only
    rw [flow_wakeIfAbandoned, if_neg hkept]
    rfl
  · split at hd
    · obtain ⟨-, rfl⟩ := Prod.mk.inj (Option.some.inj hd)
      simp only [enter, flow_wakeDispatcher, flow_note]
      rfl
    · simp at hd

theorem mem_waiting_settleWaiter {v w : Waiter} (hthread : w.caller = .thread)
    (hv : v ∈ q.mailbox.waiting) (hne : v.ticket ≠ w.ticket) :
    v ∈ (q.settleWaiter w).mailbox.waiting := by
  unfold settleWaiter
  split
  · next reply q' hd =>
    change v ∈ q'.flow.mailbox.waiting
    rw [waiting_decide_thread hthread hd]
    simpa [Mailbox.dismiss] using ⟨hv, hne⟩
  · exact hv

theorem course_settleThreads (h : Course script c q.flow) :
    Course script c q.settleThreads.flow := by
  have hall (ws : List Waiter) (q : Queue) (h : Course script c q.flow)
      (hws : ∀ w ∈ ws, w ∈ q.mailbox.waiting) (hnodup : (ws.map (·.ticket)).Nodup) :
      Course script c (ws.foldl (fun q w => if w.caller = .thread then q.settleWaiter w else q)
        q).flow := by
    induction ws generalizing q with
    | nil => exact h
    | cons w ws ih =>
      rw [List.map_cons, List.nodup_cons] at hnodup
      rw [List.foldl_cons]
      split
      · next hthread =>
        refine ih _ (course_settleWaiter h (hws w List.mem_cons_self)) (fun v hv => ?_) hnodup.2
        have hne : v.ticket ≠ w.ticket := fun heq =>
          hnodup.1 (heq ▸ List.mem_map_of_mem hv)
        exact mem_waiting_settleWaiter hthread (hws v (List.mem_cons_of_mem w hv)) hne
      · exact ih q h (fun v hv => hws v (List.mem_cons_of_mem w hv)) hnodup.2
  exact hall q.mailbox.waiting q h (fun w hw => hw) h.tidy_last.nodup

/-- An event is logged, and then the threads settle. -/
theorem course_emit {e : Event} {span : Option Span} (h : Course script c (q.flow.log e span)) :
    Course script c (q.emit e span).flow := by
  unfold emit
  refine course_settleThreads ?_
  rw [flow_note]
  exact h

theorem course_emit_aside {e : Event} {span : Option Span} (h : Course script c q.flow)
    (he : e.isAside = true) : Course script c (q.emit e span).flow :=
  course_emit (h.step (.remark (.logged he)))

/-! ## Actions -/

theorem course_offer (h : Course script c q.flow) (caller : Caller) (r : Request) :
    Course script c (q.offer caller r).2.flow := by
  unfold offer
  split
  · exact h
  · next hopen =>
    have hopen : q.mailbox.isClosed = false := by simp_all
    dsimp only
    split
    · next mailbox hput =>
      simp only [flow_wakeDispatcher, flow_note]
      exact h.step (.put hopen hput)
    · next hput =>
      have hwait := h.step (.enlist (w := { ticket := q.tickets, request := r, caller })
        hopen hput rfl)
      split
      · rw [flow_enqueue]
        exact hwait
      · exact hwait

theorem course_offerQuietly (h : Course script c q.flow) (caller : Caller) (handle : Nat)
    (r : Request) : Course script c (q.offerQuietly caller handle r).2.flow := by
  unfold offerQuietly
  split
  · exact h
  · split
    · exact h
    · exact course_offer h caller r

theorem course_offerAllQuietly (h : Course script c q.flow) (handle : Nat)
    (requests : List Request) : Course script c (q.offerAllQuietly handle requests).2.flow := by
  induction requests generalizing q with
  | nil => exact h
  | cons r rest ih => exact ih (course_offerQuietly h .task handle r)

theorem course_cancel (h : Course script c q.flow) : Course script c q.cancel.flow := by
  unfold cancel
  split
  · exact h
  · rw [flow_wakeProducers, flow_wakeDispatcher]
    exact h.step .cancel

theorem course_shutdown (h : Course script c q.flow) : Course script c q.shutdown.2.flow := by
  have hc := course_cancel h
  unfold shutdown
  dsimp only
  split
  · exact hc
  · exact hc.step .draw

theorem course_perform (h : Course script c q.flow) (a : Action) :
    Course script c (q.perform a).2.flow := by
  unfold perform
  cases a with
  | add r handle => exact course_offerQuietly h .task handle r
  | blockingAdd r handle => exact course_offerQuietly h .thread handle r
  | burst rs handle => exact course_offerAllQuietly h handle rs
  | shutdown handle =>
    dsimp only
    split
    · exact course_shutdown h
    · exact h
  | cancel => exact course_cancel h
  | release n =>
    dsimp only
    rw [flow_releasePermits]
    exact h
  | drop handle =>
    dsimp only
    split
    · rw [flow_drop]
      exact h
    · exact h
  | snapshot =>
    dsimp only
    rw [flow_note]
    refine h.step (.observe fun stats hs => ?_)
    unfold observe at hs
    split at hs
    · exact (Option.some.inj hs).symm
    · simp at hs
  | clone | watch | describe =>
    dsimp only
    split
    · exact h
    · exact h

theorem course_noteAction (h : Course script c q.flow) (a : Action) (reply : Reply) :
    Course script c (q.noteAction a reply).flow := by
  unfold noteAction
  split
  · exact h
  · rw [flow_note]
    exact h.step (.remark (.performed _ _))

theorem course_performHooked (h : Course script c q.flow) (a : Action) :
    Course script c (q.performHooked a).flow :=
  course_noteAction (course_perform h a) a _

theorem course_answer (h : Course script c q.flow) (a : Action) (reply : Reply) :
    Course script c (q.answer a reply).flow := by
  unfold answer
  split
  · exact course_noteAction h a reply
  · exact h

theorem course_begin (h : Course script c q.flow) (a : Action) :
    Course script c (q.begin a).flow := by
  unfold begin
  split
  · exact h
  · exact h
  · exact h
  · exact course_answer (course_perform h _) _ _

theorem course_stepErrand (h : Course script c q.flow) (e : Errand) :
    Course script c (q.stepErrand e).flow := by
  unfold stepErrand
  split
  · exact course_answer (q := { q with errand := none }) h _ _
  · next r rest _ =>
    split
    · dsimp only
      rw [flow_wakeIfAbandoned]
      exact course_offer h e.caller r
    · split
      · exact h
      · split
        · exact h
        · exact course_emit_aside (q := { q with errand := _ }) h rfl

/-! ## The run in flight -/

theorem course_narrate {run : Run} {e : Event} (h : Course script c q.flow)
    (he : e.isAside = true) : Course script c (q.narrate run e).flow := by
  unfold narrate
  split
  · exact course_emit_aside h he
  · exact h

theorem course_setStage {run : Run} {stage : Stage} (h : Course script c q.flow)
    (hrun : q.run = some run) (hstage : run.stage ≠ .ended) (hnext : stage ≠ .ended) :
    Course script c (q.setStage run stage).flow :=
  h.step (.proceed hrun hstage hnext)

theorem course_stepRun {run : Run} (h : Course script c q.flow) (hrun : q.run = some run) :
    Course script c (q.stepRun run).flow := by
  unfold stepRun
  dsimp only
  split
  · next hs =>
    exact course_narrate (course_setStage h hrun (by simp [hs]) (by simp)) rfl
  · next hs => exact course_begin (course_setStage h hrun (by simp [hs]) (by simp)) _
  · next hs => exact course_setStage h hrun (by simp [hs]) (by simp)
  · next hs =>
    split
    · exact h
    · -- taking a permit leaves the run, and the flow, as they are
      have hgate (q' : Queue) (hq : q'.flow = q.flow) : Course script c
          (if run.plan.duration = 0 then q'.setStage run (.closing run.plan.atEnd)
            else (q'.setStage run (.sleeping (q'.now + run.plan.duration))).yieldTurn).flow := by
        have hrun' : q'.run = some run := (congrArg Flow.run hq).trans hrun
        have h' : Course script c q'.flow := hq ▸ h
        split
        · exact course_setStage h' hrun' (by simp [hs]) (by simp)
        · rw [flow_yieldTurn]
          exact course_setStage h' hrun' (by simp [hs]) (by simp)
      exact hgate _ (by split <;> rfl)
  · next hs =>
    split
    · exact h
    · exact course_setStage h hrun (by simp [hs]) (by simp)
  · next hs => exact course_begin (course_setStage h hrun (by simp [hs]) (by simp)) _
  · next hs =>
    rw [flow_enqueue]
    refine course_narrate ?_ rfl
    rw [flow_note]
    exact h.step (.finish hrun (by simp [hs]))
  · exact h

/-! ## The dispatcher -/

theorem course_receive {first : Request} {q' : Queue} (hr : q.receive? = some (first, q')) :
    ∃ mailbox, q.mailbox.take? = some (first, mailbox) ∧
      q' = { q with mailbox }.releaseSlot := by
  unfold receive? at hr
  split at hr
  · next r mailbox htake =>
    obtain ⟨rfl, rfl⟩ := Prod.mk.inj (Option.some.inj hr)
    exact ⟨mailbox, htake, rfl⟩
  · simp at hr

theorem buffer_of_receive?_eq_none (hr : q.receive? = none) : q.mailbox.buffer = [] := by
  unfold receive? at hr
  split at hr
  · simp at hr
  · next htake => exact Mailbox.buffer_of_take?_eq_none htake

theorem course_listen (h : Course script c q.flow) (hp : q.phase = .listening) :
    Course script c q.listen.flow := by
  unfold listen
  split
  · next hc => exact course_emit (h.step (.heed hp hc))
  · next hc =>
    have hc : q.isCancelled = false := by simpa using hc
    split
    · next first q' hr =>
      obtain ⟨mailbox, htake, rfl⟩ := course_receive hr
      refine course_emit ?_
      change Course script c ((Flow.enter (Queue.flow _) (.counting first) .draining).log _ _)
      rw [flow_releaseSlot]
      exact (h.step (.receive hp hc htake)).step .release
    · next hr =>
      split
      · exact course_emit (h.step (.abandon hp hc (buffer_of_receive?_eq_none hr)))
      · exact h

theorem course_finishDrain {b : Batch} {left : Nat} (h : Course script c q.flow)
    (hp : q.phase = .draining b left) (hleft : left = 0 ∨ q.mailbox.buffer = []) :
    Course script c (q.finishDrain b).flow := by
  unfold finishDrain
  split
  · next hc =>
    refine course_emit ?_
    rw [flow_note]
    exact h.step (.discard hp hleft hc)
  · next hc =>
    have hc : q.isCancelled = false := by simpa using hc
    exact course_emit (h.step (.engage hp hleft hc))

theorem course_drain {b : Batch} {left : Nat} (h : Course script c q.flow)
    (hp : q.phase = .draining b left) : Course script c (q.drain b left).flow := by
  unfold drain
  split
  · exact course_finishDrain h hp (.inl rfl)
  · next left =>
    split
    · next next q' hr =>
      obtain ⟨mailbox, htake, rfl⟩ := course_receive hr
      refine course_emit ?_
      change Course script c (({ Queue.flow _ with phase := .draining (b.push next) left }).log _ _)
      rw [flow_releaseSlot]
      exact (h.step (.drain hp htake)).step .release
    · next hr => exact course_finishDrain h hp (.inr (buffer_of_receive?_eq_none hr))

theorem course_dispatch {b : Batch} (h : Course script c q.flow) (hp : q.phase = .dispatching b) :
    Course script c (q.dispatch script b).flow := by
  unfold dispatch
  extract_lets call called
  split
  · next hwork =>
    have hdead := h.step (.breakDown hp hwork)
    obtain ⟨told, htold, heq⟩ := flow_releaseClosers { called with phase := .dead b }.closeMailbox
    rw [flow_yieldTurn, heq]
    refine Course.tell ?_ htold
    unfold closeMailbox
    rw [flow_wakeProducers]
    change Course script c { called.flow with phase := .dead b, mailbox := q.mailbox.close }
    rw [flow_note]
    exact hdead
  · next plan hwork =>
    have hlaunch := h.step (@Step.launch script q.flow b plan q.now hp hwork)
    rw [flow_yieldTurn, flow_enqueue, flow_note]
    change Course script c (Flow.note { called.flow with phase := _, run := _ } _)
    rw [flow_note]
    exact hlaunch

theorem course_await {b : Batch} (h : Course script c q.flow) (hp : q.phase = .awaiting b) :
    Course script c (q.await b).flow := by
  unfold await
  split
  · next run hrun =>
    split
    · next hs => exact course_emit (h.step (.report hp hrun hs))
    · exact h
  · exact h

theorem course_conclude {b : Batch} {ending : Ending} (h : Course script c q.flow)
    (hp : q.phase = .reported b ending) : Course script c (q.conclude b ending).flow := by
  unfold conclude
  extract_lets elapsed concluded
  have hflow : concluded.flow = q.flow.conclude ending.isSuccess elapsed := flow_note _ _
  split
  · next hc =>
    refine course_emit ?_
    change Course script c (Flow.log { concluded.flow with phase := .retiring b } _)
    rw [hflow]
    exact h.step (.retire hp hc)
  · next hc =>
    have hc : concluded.isCancelled = false := by simpa using hc
    refine course_emit ?_
    change Course script c ((concluded.flow.enter .listening .idle).log _ _)
    rw [hflow]
    exact h.step (.relax hp hc)

theorem course_close (h : Course script c q.flow) (hp : q.phase = .closing) :
    Course script c q.close.flow := by
  unfold close
  refine course_emit ?_
  obtain ⟨told, htold, heq⟩ := flow_releaseClosers
    { q.closeMailbox with published := .stopped, phase := .stopped }
  rw [heq]
  have hflow : q.closeMailbox.flow = { q.flow with mailbox := q.mailbox.close } :=
    flow_wakeProducers _
  have htell := (h.tell htold).step (.close hp)
  change Course script c (Flow.log { q.closeMailbox.flow with
    published := .stopped, phase := .stopped, journal := q.closeMailbox.flow.journal ++ told } _)
  rw [hflow]
  exact htell

theorem course_stepDispatcher (h : Course script c q.flow) :
    Course script c (q.stepDispatcher script).flow := by
  unfold stepDispatcher
  split
  · next hp => exact course_emit (h.step (.start hp))
  · next hp => exact course_listen h hp
  · next first hp =>
    unfold countBacklog
    rw [flow_note]
    exact h.step (.count hp)
  · next b left hp => exact course_drain h hp
  · next b hp => exact course_emit (h.step (.leaveDrain hp))
  · next b hp => exact course_dispatch h hp
  · next b hp => exact course_await h hp
  · next b ending hp => exact course_conclude h hp
  · next b hp => exact course_emit (h.step (.leaveRun hp))
  · next hp => exact course_close h hp
  · exact h
  · exact h

/-! ## Steps and moves -/

theorem course_attend? {q' : Queue} (h : Course script c q.flow) (ha : q.attend? = some q') :
    Course script c q'.flow := by
  unfold attend? at ha
  split at ha
  · next a due _ =>
    obtain rfl := Option.some.inj ha
    exact course_performHooked (q := { q with due }) h a
  · next e _ _ =>
    obtain rfl := Option.some.inj ha
    exact course_stepErrand h e
  · simp at ha

theorem course_stepTurn (h : Course script c q.flow) (p : Party) :
    Course script c (q.stepTurn script p).flow := by
  unfold stepTurn
  split
  · exact course_stepDispatcher h
  · split
    · next run hrun => exact course_stepRun h hrun
    · exact h
  · split
    · next w hw => exact course_settleWaiter h (List.mem_of_find?_eq_some hw)
    · exact h

theorem course_nextTurn? {q' : Queue} (h : Course script c q.flow)
    (hn : q.nextTurn? = some q') : Course script c q'.flow := by
  unfold nextTurn? at hn
  split at hn
  · obtain rfl := Option.some.inj hn
    exact h
  · split at hn
    · obtain rfl := Option.some.inj hn
      exact course_settleThreads h
    · simp at hn

theorem course_step? {q' : Queue} (h : Course script c q.flow) (hs : q.step? script = some q') :
    Course script c q'.flow := by
  unfold step? at hs
  split at hs
  · next q₁ ha =>
    obtain rfl := Option.some.inj hs
    exact course_attend? h ha
  · split at hs
    · next p _ =>
      obtain rfl := Option.some.inj hs
      exact course_stepTurn h p
    · exact course_nextTurn? h hs

theorem Move.course {q' : Queue} (hm : Move script q q') (h : Course script c q.flow) :
    Course script c q'.flow := by
  cases hm with
  | step hs => exact course_step? h hs
  | act hf a => exact course_begin (q := { q with reply := .nothing }) h a
  | abandon hf ticket => exact course_abandon h ticket
  | wake hr ht =>
    change Course script c (Queue.enqueue q .run).flow
    rw [flow_enqueue]
    exact h
  | wait hr ht => exact h

/-- A queue is reached with a flow that is reached. -/
theorem Reachable.flow (h : Reachable script q) : q.flow.Reachable script := by
  induction h with
  | @opened config hooks q hq =>
    unfold open? at hq
    split at hq
    · obtain rfl := Option.some.inj hq
      exact ⟨config.capacity, .refl (tidy_opened _)⟩
    · simp at hq
  | move _ hm ih =>
    obtain ⟨capacity, hc⟩ := ih
    exact ⟨capacity, hm.course hc⟩

theorem Later.course {q' : Queue} (hl : Later script q q') (h : Reachable script q) :
    Course script q.flow q'.flow := by
  obtain ⟨capacity, hc⟩ := h.flow
  induction hl with
  | refl => exact .refl hc.tidy_last
  | tail _ hm ih => exact hm.course ih

end CoalescingQueue.Queue
