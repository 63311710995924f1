import CoalescingQueue.Queue.Reachable

/-!
# Whose turn it is

The scene of a queue is what the order of its moves depends on: where the dispatcher stands, who
has the turn, and what comes before anybody's turn. Most operations leave it as it is. From the
moment the dispatcher takes a request until it calls the work function, or is back where it
rests, nobody else gets a turn. When a party comes to its turn is not said here.
-/
namespace CoalescingQueue

structure Scene where
  phase : Phase
  turn : Option Party
  errand : Option Errand
  due : List Action

/-- Whether the dispatcher goes on from this phase before anybody else. -/
def Phase.isBusy : Phase → Bool
  | .unstarted | .listening | .awaiting _ | .stopped | .dead _ => false
  | _ => true

namespace Scene

/-- A busy dispatcher has the turn, and no errand is run in a turn of the dispatcher. -/
structure Proper (s : Scene) : Prop where
  turn_eq : s.phase.isBusy = true → s.turn = some .dispatcher
  errand_eq : s.turn = some .dispatcher → s.errand = none

theorem Proper.isBusy_eq {s : Scene} (h : s.Proper) (ht : s.turn ≠ some .dispatcher) :
    s.phase.isBusy = false := by
  rw [Bool.eq_false_iff]
  intro hbusy
  exact ht (h.turn_eq hbusy)

/-- Without the dispatcher anything goes, as long as it stays where it rests. -/
theorem proper_of_turn_ne {s : Scene} (hp : s.phase.isBusy = false)
    (ht : s.turn ≠ some .dispatcher) : s.Proper :=
  ⟨fun h => by simp [hp] at h, fun h => absurd h ht⟩

end Scene

namespace Queue

variable {script : WorkScript} {q : Queue}

def scene (q : Queue) : Scene := ⟨q.phase, q.turn, q.errand, q.due⟩

/-! ## Operations that leave the scene as it is -/

@[simp] theorem scene_note (q : Queue) (f : Fact) : (q.note f).scene = q.scene := rfl

@[simp] theorem scene_enqueue (q : Queue) (p : Party) : (q.enqueue p).scene = q.scene := by
  obtain ⟨line, h⟩ := enqueue_eq q p
  rw [h]
  rfl

@[simp] theorem scene_wakeDispatcher (q : Queue) : q.wakeDispatcher.scene = q.scene := by
  obtain ⟨line, h⟩ := wakeDispatcher_eq q
  rw [h]
  rfl

@[simp] theorem scene_wakeIfAbandoned (q : Queue) : q.wakeIfAbandoned.scene = q.scene := by
  obtain ⟨line, h⟩ := wakeIfAbandoned_eq q
  rw [h]
  rfl

@[simp] theorem scene_wakeProducers (q : Queue) : q.wakeProducers.scene = q.scene := by
  obtain ⟨line, h⟩ := wakeProducers_eq q
  rw [h]
  rfl

/-- What each member of a list leaves as it is, all of them do. -/
theorem scene_foldl {α : Type} {f : Queue → α → Queue} (hf : ∀ q a, (f q a).scene = q.scene)
    (as : List α) (q : Queue) : (as.foldl f q).scene = q.scene := by
  induction as generalizing q with
  | nil => rfl
  | cons a as ih => rw [List.foldl_cons, ih, hf]

@[simp] theorem scene_releaseClosers (q : Queue) : q.releaseClosers.scene = q.scene :=
  scene_foldl (f := fun q ticket => q.note (.ended ticket .done q.now)) (fun _ _ => rfl) q.closers q

@[simp] theorem scene_releaseSlot (q : Queue) : q.releaseSlot.scene = q.scene := by
  unfold releaseSlot
  split
  · dsimp only
    split
    · exact scene_enqueue _ _
    · rfl
  · rfl

@[simp] theorem scene_leave (q : Queue) (w : Waiter) : (q.leave w).scene = q.scene := by
  unfold leave
  dsimp only
  rw [scene_wakeIfAbandoned]
  split
  · exact scene_releaseSlot _
  · rfl

theorem scene_settleWaiter (q : Queue) (w : Waiter) : (q.settleWaiter w).scene = q.scene := by
  unfold settleWaiter decide?
  split
  · next reply q' hd =>
    rw [scene_note]
    split at hd
    · obtain ⟨-, rfl⟩ := Prod.mk.inj (Option.some.inj hd)
      exact scene_leave _ _
    · split at hd
      · obtain ⟨-, rfl⟩ := Prod.mk.inj (Option.some.inj hd)
        exact scene_wakeDispatcher _
      · simp at hd
  · rfl

@[simp] theorem scene_settleThreads (q : Queue) : q.settleThreads.scene = q.scene := by
  refine scene_foldl (fun q w => ?_) _ q
  split
  · exact scene_settleWaiter q w
  · rfl

theorem scene_offer (q : Queue) (caller : Caller) (r : Request) :
    (q.offer caller r).2.scene = q.scene := by
  unfold offer
  split
  · rfl
  · dsimp only
    split
    · exact scene_wakeDispatcher _
    · split
      · exact scene_enqueue _ _
      · rfl

theorem scene_offerQuietly (q : Queue) (caller : Caller) (handle : Nat) (r : Request) :
    (q.offerQuietly caller handle r).2.scene = q.scene := by
  unfold offerQuietly
  split
  · rfl
  · split
    · rfl
    · exact scene_offer q caller r

theorem scene_offerAllQuietly (q : Queue) (handle : Nat) (requests : List Request) :
    (q.offerAllQuietly handle requests).2.scene = q.scene := by
  induction requests generalizing q with
  | nil => rfl
  | cons r rest ih => exact (ih _).trans (scene_offerQuietly q .task handle r)

theorem scene_cancel (q : Queue) : q.cancel.scene = q.scene := by
  unfold cancel
  split
  · rfl
  · rw [scene_wakeProducers, scene_wakeDispatcher]
    rfl

theorem scene_releasePermits (q : Queue) (n : Nat) : (q.releasePermits n).scene = q.scene := by
  unfold releasePermits
  dsimp only
  split
  · split
    · exact scene_enqueue _ _
    · rfl
  · rfl

theorem scene_shutdown (q : Queue) : q.shutdown.2.scene = q.scene := by
  have hc := scene_cancel q
  unfold shutdown
  dsimp only
  split
  · exact hc
  · exact hc

/-- Actions that are performed all at once. -/
theorem scene_perform (q : Queue) (a : Action) : (q.perform a).2.scene = q.scene := by
  unfold perform
  cases a with
  | add r handle => exact scene_offerQuietly q .task handle r
  | blockingAdd r handle => exact scene_offerQuietly q .thread handle r
  | burst rs handle => exact scene_offerAllQuietly q handle rs
  | shutdown handle =>
    dsimp only
    split
    · exact scene_shutdown q
    · rfl
  | cancel => exact scene_cancel q
  | release n => exact scene_releasePermits q n
  | drop handle =>
    dsimp only
    split
    · exact scene_wakeIfAbandoned _
    · rfl
  | snapshot => rfl
  | clone | watch | describe =>
    dsimp only
    split
    · rfl
    · rfl

theorem scene_noteAction (q : Queue) (a : Action) (reply : Reply) :
    (q.noteAction a reply).scene = q.scene := by
  unfold noteAction
  split
  · rfl
  · rfl

theorem scene_performHooked (q : Queue) (a : Action) : (q.performHooked a).scene = q.scene :=
  (scene_noteAction _ a _).trans (scene_perform q a)

theorem scene_answer (q : Queue) (a : Action) (reply : Reply) :
    (q.answer a reply).scene = q.scene := by
  unfold answer
  split
  · exact scene_noteAction q a reply
  · rfl

/-! ## Operations that change it -/

/-- An event sets off its hooks. -/
theorem scene_emit (q : Queue) (e : Event) (span : Option Span) :
    (q.emit e span).scene =
      { q.scene with due := q.due ++ q.hooks.flatMap fun (h : Hook) => h.due e } := by
  unfold emit
  rw [scene_settleThreads]
  rfl

theorem scene_begin (q : Queue) (a : Action) :
    ∃ errand, (q.begin a).scene = { q.scene with errand } := by
  unfold begin
  split
  · exact ⟨_, rfl⟩
  · exact ⟨_, rfl⟩
  · exact ⟨_, rfl⟩
  · exact ⟨q.errand, (scene_answer _ _ _).trans (scene_perform q _)⟩

theorem scene_stepErrand (q : Queue) (e : Errand) :
    ∃ errand due, (q.stepErrand e).scene = { q.scene with errand, due } := by
  unfold stepErrand
  split
  · exact ⟨none, q.due, scene_answer _ _ _⟩
  · next r rest _ =>
    split
    · dsimp only
      rw [scene_wakeIfAbandoned]
      have hoffer := scene_offer q e.caller r
      exact ⟨_, (q.offer e.caller r).2.due, congrArg (fun s => Scene.mk s.phase s.turn _ _) hoffer⟩
    · split
      · exact ⟨_, q.due, rfl⟩
      · split
        · exact ⟨_, q.due, rfl⟩
        · exact ⟨_, _, scene_emit _ _ _⟩

theorem scene_narrate (q : Queue) (run : Run) (e : Event) :
    ∃ due, (q.narrate run e).scene = { q.scene with due } := by
  unfold narrate
  split
  · exact ⟨_, scene_emit _ _ _⟩
  · exact ⟨q.due, rfl⟩

/-- A run keeps its turn or ends it, and it does not lead the dispatcher on. -/
theorem scene_stepRun (q : Queue) (run : Run) :
    ∃ turn errand due, (turn = q.turn ∨ turn = none) ∧
      (q.stepRun run).scene = { q.scene with turn, errand, due } := by
  unfold stepRun
  dsimp only
  split
  · obtain ⟨due, heq⟩ := scene_narrate (q.setStage run (.opening run.plan.atStart)) run
      (.workStarted run.call q.now)
    exact ⟨q.turn, q.errand, due, .inl rfl, heq⟩
  · next a todo _ =>
    obtain ⟨errand, heq⟩ := scene_begin (q.setStage run (.opening todo)) a
    exact ⟨q.turn, errand, q.due, .inl rfl, heq⟩
  · exact ⟨q.turn, q.errand, q.due, .inl rfl, rfl⟩
  · split
    · exact ⟨none, q.errand, q.due, .inr rfl, rfl⟩
    · split
      · refine ⟨q.turn, q.errand, q.due, .inl rfl, ?_⟩
        split <;> rfl
      · refine ⟨none, q.errand, q.due, .inr rfl, ?_⟩
        split <;> rfl
  · split
    · exact ⟨none, q.errand, q.due, .inr rfl, rfl⟩
    · exact ⟨q.turn, q.errand, q.due, .inl rfl, rfl⟩
  · next a todo _ =>
    obtain ⟨errand, heq⟩ := scene_begin (q.setStage run (.closing todo)) a
    exact ⟨q.turn, errand, q.due, .inl rfl, heq⟩
  · obtain ⟨due, heq⟩ := scene_narrate ((q.setStage run .ended).note (.returned run.call)) run
      (.workEnded run.call q.now)
    rw [scene_enqueue]
    exact ⟨q.turn, q.errand, due, .inl rfl, heq⟩
  · exact ⟨none, q.errand, q.due, .inr rfl, rfl⟩

/-- The dispatcher has the turn and nothing else is in progress. -/
def IsActing (q : Queue) : Prop := q.scene.turn = some .dispatcher ∧ q.scene.errand = none

theorem IsActing.proper (h : q.IsActing) : q.scene.Proper := ⟨fun _ => h.1, fun _ => h.2⟩

theorem acting_emit {e : Event} {span : Option Span} (h : q.IsActing) :
    (q.emit e span).IsActing := by
  unfold IsActing
  rw [scene_emit]
  exact h

theorem proper_emit {e : Event} {span : Option Span} (h : q.IsActing) :
    (q.emit e span).scene.Proper :=
  (acting_emit h).proper

/-- The dispatcher ends its turn where it may rest. -/
theorem proper_yieldTurn (hp : q.phase.isBusy = false) : q.yieldTurn.scene.Proper :=
  Scene.proper_of_turn_ne hp (by simp [scene, yieldTurn])

theorem scene_receive {r : Request} {q' : Queue} (h : q.receive? = some (r, q')) :
    q'.scene = q.scene := by
  unfold receive? at h
  split at h
  · obtain ⟨-, rfl⟩ := Prod.mk.inj (Option.some.inj h)
    exact scene_releaseSlot _
  · simp at h

theorem IsActing.receive (h : q.IsActing) {r : Request} {q' : Queue}
    (hr : q.receive? = some (r, q')) : q'.IsActing := by
  unfold IsActing
  rw [scene_receive hr]
  exact h

theorem IsActing.listen (h : q.IsActing) (hp : q.phase = .listening) :
    q.listen.scene.Proper := by
  unfold Queue.listen
  split
  · exact proper_emit h
  · split
    · next first q' hr =>
      have hacting := h.receive hr
      exact proper_emit hacting
    · split
      · exact proper_emit h
      · exact proper_yieldTurn (by rw [hp]; rfl)

theorem IsActing.finishDrain (h : q.IsActing) (b : Batch) : (q.finishDrain b).IsActing := by
  unfold Queue.finishDrain
  split
  · exact acting_emit h
  · exact acting_emit h

theorem IsActing.drain (h : q.IsActing) (b : Batch) (left : Nat) : (q.drain b left).IsActing := by
  unfold Queue.drain
  split
  · exact h.finishDrain b
  · split
    · next next q' hr =>
      have hacting := h.receive hr
      exact acting_emit hacting
    · exact h.finishDrain b

theorem phase_dispatch (q : Queue) (b : Batch) :
    (q.dispatch script b).phase = .dead b ∨ (q.dispatch script b).phase = .awaiting b := by
  unfold dispatch
  extract_lets call called
  split
  · left
    change (releaseClosers _).scene.phase = _
    rw [scene_releaseClosers]
    unfold closeMailbox
    rw [scene_wakeProducers]
    rfl
  · right
    change (enqueue _ _).scene.phase = _
    rw [scene_enqueue]
    rfl

theorem proper_dispatch (q : Queue) (b : Batch) : (q.dispatch script b).scene.Proper := by
  refine Scene.proper_of_turn_ne ?_ ?_
  · change (q.dispatch script b).phase.isBusy = false
    rcases q.phase_dispatch b with hp | hp
    · rw [hp, Phase.isBusy]
    · rw [hp, Phase.isBusy]
  · unfold dispatch
    extract_lets call called
    split
    · simp [scene, yieldTurn]
    · simp [scene, yieldTurn]

theorem IsActing.stepDispatcher (h : q.IsActing) :
    (q.stepDispatcher script).scene.Proper := by
  unfold Queue.stepDispatcher
  split
  · exact proper_emit h
  · next hp => exact h.listen hp
  · exact IsActing.proper h
  · exact (h.drain _ _).proper
  · exact proper_emit h
  · exact proper_dispatch _ _
  · next hp =>
    unfold await
    split
    · split
      · exact proper_emit h
      · exact proper_yieldTurn (by rw [hp]; rfl)
    · exact proper_yieldTurn (by rw [hp]; rfl)
  · unfold conclude
    extract_lets elapsed concluded
    split
    · exact proper_emit h
    · exact proper_emit h
  · exact proper_emit h
  · refine proper_emit ?_
    unfold IsActing
    rw [scene_releaseClosers]
    change (wakeProducers _).scene.turn = _ ∧ (wakeProducers _).scene.errand = _
    rw [scene_wakeProducers]
    exact h
  · next hp => exact proper_yieldTurn (by rw [hp]; rfl)
  · next hp => exact proper_yieldTurn (by rw [hp]; rfl)

/-! ## Steps and moves -/

theorem proper_attend? {q' : Queue} (h : q.scene.Proper) (ha : q.attend? = some q') :
    q'.scene.Proper := by
  unfold attend? at ha
  split at ha
  · obtain rfl := Option.some.inj ha
    rw [scene_performHooked]
    exact ⟨h.turn_eq, h.errand_eq⟩
  · next e _ he =>
    obtain rfl := Option.some.inj ha
    have hturn : q.scene.turn ≠ some .dispatcher := by
      intro ht
      have hnone : q.errand = none := h.errand_eq ht
      simp [hnone] at he
    obtain ⟨errand, due, heq⟩ := scene_stepErrand q e
    rw [heq]
    exact Scene.proper_of_turn_ne (h.isBusy_eq hturn) hturn
  · simp at ha

theorem proper_stepTurn {p : Party} (h : q.scene.Proper) (he : q.errand = none)
    (ht : q.turn = some p) : (q.stepTurn script p).scene.Proper := by
  unfold stepTurn
  cases p with
  | dispatcher => exact IsActing.stepDispatcher ⟨ht, he⟩
  | run =>
    have hturn : q.scene.turn ≠ some .dispatcher := by simp [scene, ht]
    have hrest := h.isBusy_eq hturn
    dsimp only
    split
    · next run _ =>
      obtain ⟨turn, errand, due, hkept, heq⟩ := scene_stepRun q run
      rw [heq]
      refine Scene.proper_of_turn_ne hrest ?_
      rcases hkept with rfl | rfl
      · exact hturn
      · simp
    · exact proper_yieldTurn hrest
  | producer ticket =>
    have hturn : q.scene.turn ≠ some .dispatcher := by simp [scene, ht]
    have hrest := h.isBusy_eq hturn
    dsimp only
    split
    · next w _ =>
      have hphase := congrArg Scene.phase (scene_settleWaiter q w)
      refine proper_yieldTurn ?_
      change (q.settleWaiter w).scene.phase.isBusy = false
      rw [hphase]
      exact hrest
    · exact proper_yieldTurn hrest

theorem proper_step? {q' : Queue} (h : q.scene.Proper) (hs : q.step? script = some q') :
    q'.scene.Proper := by
  unfold step? at hs
  split at hs
  · next q₁ ha =>
    obtain rfl := Option.some.inj hs
    exact proper_attend? h ha
  · next ha =>
    obtain ⟨herrand, -⟩ := errand_of_attend? ha
    split at hs
    · next p hturn =>
      obtain rfl := Option.some.inj hs
      exact proper_stepTurn h herrand hturn
    · next hturn =>
      have hrest := h.isBusy_eq (by simp [scene, hturn])
      unfold nextTurn? at hs
      split at hs
      · obtain rfl := Option.some.inj hs
        exact ⟨fun hbusy => absurd hbusy (Bool.eq_false_iff.mp hrest), fun _ => herrand⟩
      · split at hs
        · obtain rfl := Option.some.inj hs
          rw [scene_settleThreads]
          exact h
        · simp at hs

theorem Move.proper {q' : Queue} (hm : Move script q q') (h : q.scene.Proper) :
    q'.scene.Proper := by
  cases hm with
  | step hs => exact proper_step? h hs
  | act hf a =>
    have hturn : q.scene.turn ≠ some .dispatcher := by simp [scene, hf.turn_eq]
    obtain ⟨errand, heq⟩ := scene_begin { q with reply := .nothing } a
    rw [heq]
    exact Scene.proper_of_turn_ne (h.isBusy_eq hturn) hturn
  | abandon hf ticket =>
    unfold Queue.abandon
    split
    · rw [scene_note, scene_leave]
      exact h
    · exact h
  | wake hr ht =>
    change (Queue.enqueue q .run).scene.Proper
    rw [scene_enqueue]
    exact h
  | wait hr ht => exact h

theorem Reachable.proper (h : Reachable script q) : q.scene.Proper := by
  induction h with
  | opened hq =>
    unfold open? at hq
    split at hq
    · obtain rfl := Option.some.inj hq
      exact Scene.proper_of_turn_ne rfl (by simp [scene])
    · simp at hq
  | move _ hm ih => exact hm.proper ih

end Queue
end CoalescingQueue
