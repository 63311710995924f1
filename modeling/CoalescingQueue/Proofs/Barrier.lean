import CoalescingQueue.Proofs.Cancellation
import CoalescingQueue.Proofs.Resting

/-!
# Shutdown is a barrier

A shutdown call comes to its end only once the dispatcher has come to its own, be it the regular
end or a call of the work function that broke down. After that nothing is done any more and
nothing is taken in. The statements say what holds once a shutdown call has ended. That it ends
is said of a queue at rest only: whoever still waits then waits for the run in flight.
-/
namespace CoalescingQueue
namespace Flow

variable {script : WorkScript} {c c' : Flow}

/-- The flow has come to its end, and only waiting offers are still counted. -/
structure Ceased (calls : Nat) (stats : Stats) (c : Flow) : Prop where
  isOver_eq : c.phase.isOver = true
  isClosed_eq : c.mailbox.isClosed = true
  calls_eq : c.calls = calls
  stats_eq : c.stats = { stats with enqueued := c.stats.enqueued }

theorem Step.ceased {calls : Nat} {stats : Stats} (h : Step script c c')
    (hi : c.Ceased calls stats) : c'.Ceased calls stats := by
  obtain ⟨hover, hclosed, hcalls, hstats⟩ := hi
  cases h with
  | put hopen | enlist hopen | join hopen =>
    rw [hclosed] at hopen
    contradiction
  | withdraw =>
    refine ⟨hover, hclosed, hcalls, ?_⟩
    show c.stats.retractOffer = _
    rw [hstats]
    rfl
  | release => exact ⟨hover, (Mailbox.release_isClosed _).trans hclosed, hcalls, hstats⟩
  -- a dispatcher that has come to its end takes no step
  | start hp | heed hp | abandon hp | receive hp | count hp | drain hp | discard hp | engage hp
  | launch hp | breakDown hp | report hp | relax hp | retire hp | leaveDrain hp | leaveRun hp
  | close hp =>
    rw [hp] at hover
    contradiction
  | _ => exact ⟨hover, hclosed, hcalls, hstats⟩

end Flow

namespace Queue

variable {script : WorkScript} {terms : Terms} {q q' : Queue}

/-! ## When shutdown calls end -/

/-- No shutdown call comes to its end before the dispatcher. -/
def Released (q : Queue) : Prop :=
  ∀ f ∈ q.flow.journal, f.isRelease = true → q.isCancelled = true ∧ q.phase.isOver = true

theorem Released.congr (h : q.Released)
    (hj : ∀ f ∈ q'.flow.journal, f.isRelease = true → f ∈ q.flow.journal)
    (hc : q.isCancelled = true → q'.isCancelled = true)
    (hp : q.phase.isOver = true → q'.phase.isOver = true) : q'.Released := by
  intro f hmem hrelease
  obtain ⟨hcancelled, hover⟩ := h f (hj f hmem hrelease) hrelease
  exact ⟨hc hcancelled, hp hover⟩

/-- As long as the dispatcher goes on, no shutdown call has come to its end. -/
theorem Released.going (h : q.Released) (hgoing : q.phase.isOver = false)
    (hj : q'.flow.journal = q.flow.journal) : q'.Released := by
  intro f hmem hrelease
  rw [hj] at hmem
  rw [(h f hmem hrelease).2] at hgoing
  contradiction

theorem mem_note {f g : Fact} (h : g ∈ (q.note f).flow.journal) : g ∈ q.flow.journal ∨ g = f := by
  have hjournal : (q.note f).flow.journal = q.flow.journal ++ [f] := q.note_journal f
  rw [hjournal, List.mem_append, List.mem_singleton] at h
  exact h

theorem Released.note (h : q.Released) {f : Fact}
    (hf : f.isRelease = true → q.isCancelled = true ∧ q.phase.isOver = true) :
    (q.note f).Released := by
  intro g hmem hrelease
  rcases mem_note hmem with hold | rfl
  · exact h g hold hrelease
  · exact hf hrelease

theorem Released.line (h : q.Released) (line : List Party) : { q with line }.Released :=
  h.congr (fun _ hmem _ => hmem) id id

theorem Released.mailbox (h : q.Released) (mailbox : Mailbox) : { q with mailbox }.Released :=
  h.congr (fun _ hmem _ => hmem) id id

/-- At the end everybody may be told. -/
theorem Released.releaseClosers (h : q.Released) (hover : q.phase.isOver = true)
    (hawaited : q.closers ≠ [] → q.isCancelled = true) : q.releaseClosers.Released := by
  rw [releaseClosers_eq]
  intro f hmem hrelease
  have hjournal : f ∈ q.flow.journal ∨
      f ∈ q.closers.map fun ticket => Fact.ended ticket .done q.now := by
    simpa [Queue.flow] using hmem
  rcases hjournal with hold | hnew
  · exact h f hold hrelease
  · obtain ⟨closer, hcloser, -⟩ := List.mem_map.mp hnew
    exact ⟨hawaited (List.ne_nil_of_mem hcloser), hover⟩

theorem Shift.released (h : Shift terms q q') (hp : q.Parts) (hi : q.Released) :
    q'.Released := by
  cases h with
  | record | call | rest | tick | await | clone | prepare | announce | proceed =>
    exact hi.congr (fun _ hmem _ => hmem) id id
  | remark hf hadmitted hrelease => exact hi.note hrelease
  | wake =>
    obtain ⟨more, heq⟩ := q.enqueue_more .run
    rw [heq]
    exact hi.line _
  | @put r mailbox =>
    obtain ⟨more, heq⟩ := wakeDispatcher_more ({ q with mailbox }.note (.admitted r))
    rw [heq]
    exact ((hi.mailbox mailbox).note (f := .admitted r) nofun).line _
  | @enlist w =>
    obtain ⟨more, heq⟩ := q.lineUp_more w
    rw [heq]
    exact hi.congr (fun _ hmem _ => hmem) id id
  | @join w =>
    obtain ⟨more, heq⟩ := q.enter_more w
    refine Released.note ?_ nofun
    rw [heq]
    exact ((hi.mailbox ((q.mailbox.dismiss w.ticket).append w.request)).note
      (f := .admitted w.request) nofun).line _
  | @withdraw w | @forsake w =>
    obtain ⟨more, heq⟩ := q.leave_more w
    refine Released.note ?_ nofun
    rw [heq]
    exact hi.congr (fun _ hmem _ => hmem) id id
  | cancel =>
    obtain ⟨more, heq⟩ := wakeAll_more { q with isCancelled := true }
    rw [heq]
    exact hi.congr (fun _ hmem _ => hmem) (fun _ => rfl) id
  | permit n =>
    obtain ⟨more, heq⟩ := q.releasePermits_more n
    rw [heq]
    exact hi.congr (fun _ hmem _ => hmem) id id
  | drop handle =>
    obtain ⟨more, heq⟩ := q.drop_more handle
    rw [heq]
    exact hi.congr (fun _ hmem _ => hmem) id id
  | @offered e todo replies =>
    obtain ⟨more, heq⟩ := wakeIfAbandoned_more
      { q with errand := some { e with todo, isAnnounced := false, replies } }
    rw [heq]
    exact hi.congr (fun _ hmem _ => hmem) id id
  | @finish run =>
    obtain ⟨more, heq⟩ := (q.setStage run .ended).enqueue_more .dispatcher
    rw [heq]
    exact hi.congr (fun _ hmem _ => hmem) id id
  | go hturn hgoing | desert hturn hgoing => exact hi.going hgoing rfl
  | @take r mailbox phase hturn hgoing =>
    obtain ⟨more, heq⟩ := releaseSlot_more { q with mailbox }
    rw [heq]
    exact hi.going hgoing rfl
  | @launch b run hturn hgoing =>
    obtain ⟨more, heq⟩ := enqueue_more { q with phase := .awaiting b, run := some run } .run
    rw [heq]
    exact hi.going hgoing rfl
  | @breakDown b hturn hgoing =>
    obtain ⟨more, heq⟩ := closeMailbox_more { q with phase := .dead b }
    have hbroken : (closeMailbox { q with phase := .dead b }).Released := by
      rw [heq]
      exact hi.going hgoing rfl
    have hreleased : (closeMailbox { q with phase := .dead b }).releaseClosers.Released := by
      apply hbroken.releaseClosers
      · rw [heq]
        rfl
      · rw [heq]
        exact fun hne => (hp.awaited hne).1
    exact hreleased.congr (fun _ hmem _ => hmem) id id
  | close hturn hphase =>
    obtain ⟨more, heq⟩ := q.closeMailbox_more
    have hgoing : q.phase.isOver = false := by
      rw [hphase]
      rfl
    apply Released.releaseClosers
    · rw [heq]
      exact hi.going hgoing rfl
    · rfl
    · rw [heq]
      exact fun hne => (hp.awaited hne).1

theorem released_of_open? {config : QueueConfig} {hooks : List Hook}
    (h : open? config hooks = some q) : q.Released := by
  unfold open? at h
  split at h
  · obtain rfl := Option.some.inj h
    exact nofun
  · contradiction

theorem Reachable.released (h : Reachable script q) : q.Released := by
  have hboth : q.Parts ∧ q.Released :=
    h.keeps (P := fun q => q.Parts ∧ q.Released)
      (fun hq => ⟨parts_of_open? hq, released_of_open? hq⟩)
      fun _ hs hi => ⟨hs.parts hi.1, hs.released hi.1 hi.2⟩
  exact hboth.2

/-! ## After the end -/

/-- Nothing is done any more, and nothing is taken in. -/
structure Barred (script : WorkScript) (q : Queue) : Prop where
  isCancelled_eq : q.isCancelled = true
  isClosed_eq : q.mailbox.isClosed = true
  run_eq : q.run = none
  /-- The work function is never called again, and only waiting offers are still counted. -/
  lasting : ∀ q', Later script q q' → q'.calls = q.calls ∧ q'.run = none ∧
    q'.stats = { q.stats with enqueued := q'.stats.enqueued }
  /-- Every offer is refused, whoever makes it. -/
  refusing : ∀ q', Later script q q' → ∀ caller r, q'.offer caller r = (.refused, q') ∧
    ∀ handle, q'.holds handle = true → q'.offerQuietly caller handle r = (.refused, q')
  /-- So is every offer from outside. -/
  answered : ∀ q', Later script q q' → q'.IsFree → ∀ r handle, q'.holds handle = true →
    (q'.act script (.add r handle)).1 = .refused ∧
    (q'.act script (.blockingAdd r handle)).1 = .refused

theorem Reachable.run_of_isOver (h : Reachable script q) (hover : q.phase.isOver = true) :
    q.run = none := by
  have hrunning : q.phase.isRunning = false := by
    cases hp : q.phase <;> simp_all [Phase.isOver, Phase.isRunning]
  exact (h.flow.serial.idle hrunning).1

/-- The patience of a queue outlasts what it has to do. -/
theorem load_le_patience (script : WorkScript) (q : Queue) : 64 * q.load ≤ q.patience script := by
  unfold patience
  exact (Nat.mul_le_mul_left 64 (Nat.le_add_right _ _)).trans
    (Nat.le_mul_of_pos_right _ (Nat.succ_pos _))

/-- An action from outside may take eight steps at least. -/
theorem eight_le_patience (script : WorkScript) (q : Queue) : 8 ≤ q.patience script := by
  have hload : 8 ≤ q.load := Nat.le_add_left _ _
  have hpatience := load_le_patience script q
  omega

theorem iterate_succ {step? : Queue → Option Queue} {q q' : Queue} (h : step? q = some q')
    (n : Nat) : iterate step? (n + 1) q = iterate step? n q' := by
  rw [iterate, h]

theorem attend?_of_errand {e : Errand} (hdue : q.due = []) (he : q.errand = some e)
    (hs : q.stepErrand e = q') : q.attend? = some q' := by
  rw [attend?, hdue, he, ← hs]

/-- A cancelled queue refuses a request before it is announced. -/
theorem stepErrand_of_cancelled {e : Errand} {r : Request} {rest : List Request}
    (hc : q.isCancelled = true) (htodo : e.todo = r :: rest) (hnew : e.isAnnounced = false)
    (hholds : q.holds e.handle = true) : q.stepErrand e =
      { q with errand := some { e with todo := rest, replies := e.replies ++ [.refused] } } := by
  unfold stepErrand
  rw [htodo]
  dsimp only
  rw [hnew, hholds, hc]
  rfl

/-- An action that offers one request, and is answered as that offer is. -/
structure OffersOne (a : Action) (caller : Caller) (handle : Nat) (r : Request) : Prop where
  begin_eq : ∀ q : Queue,
    q.begin a = { q with errand := some { action := a, caller, handle, todo := [r] } }
  reply_eq : ∀ reply,
    Errand.reply { action := a, caller, handle, todo := [], replies := [reply] } = reply

theorem offersOne_add (r : Request) (handle : Nat) : OffersOne (.add r handle) .task handle r :=
  ⟨fun _ => rfl, fun _ => rfl⟩

theorem offersOne_blockingAdd (r : Request) (handle : Nat) :
    OffersOne (.blockingAdd r handle) .thread handle r :=
  ⟨fun _ => rfl, fun _ => rfl⟩

/-- So an offer of one request is refused, and nothing else happens. -/
theorem act_of_cancelled {a : Action} {caller : Caller} {handle : Nat} {r : Request}
    (ha : OffersOne a caller handle r) (hc : q.isCancelled = true) (hf : q.IsFree)
    (hholds : q.holds handle = true) :
    q.act script a = (.refused, { q with reply := .refused }) := by
  let e : Errand := { action := a, caller, handle, todo := [r] }
  let refused : Errand := { action := a, caller, handle, todo := [], replies := [.refused] }
  let begun : Queue := { q with reply := .nothing, errand := some e }
  let answered : Queue := { q with reply := .nothing, errand := some refused }
  have hrefused : begun.stepErrand e = answered :=
    stepErrand_of_cancelled (q := begun) (e := e) hc rfl rfl hholds
  have hfirst : begun.attend? = some answered := attend?_of_errand hf.due_eq rfl hrefused
  have hidle : { q with reply := .refused, errand := none } = { q with reply := .refused } := by
    rw [← hf.errand_eq]
  have hanswer : answered.stepErrand refused = { q with reply := .refused } := by
    show answer { q with reply := .nothing, errand := none } a (Errand.reply refused) = _
    have hturn : q.turn ≠ some .run := fun hrun => nomatch hf.turn_eq.symm.trans hrun
    rw [answer, if_neg hturn, ha.reply_eq]
    exact hidle
  have hsecond : answered.attend? = some { q with reply := .refused } :=
    attend?_of_errand hf.due_eq rfl hanswer
  have hlast : attend? { q with reply := .refused } = none :=
    IsFree.attend? ⟨hf.turn_eq, hf.errand_eq, hf.due_eq⟩
  unfold act
  dsimp only
  rw [ha.begin_eq]
  obtain ⟨n, hn⟩ := Nat.exists_eq_add_of_le' (eight_le_patience script begun)
  show ((iterate attend? (begun.patience script) begun).reply,
    iterate attend? (begun.patience script) begun) = _
  rw [hn, iterate_succ hfirst, iterate_succ hsecond, iterate_atRest hlast]

theorem barred_of_isOver (h : Reachable script q) (hc : q.isCancelled = true)
    (hover : q.phase.isOver = true) : q.Barred script := by
  have hclosed : q.mailbox.isClosed = true := h.parts.isClosed_eq.trans hover
  have hceased {q' : Queue} (hl : Later script q q') : q'.flow.Ceased q.calls q.stats :=
    (hl.course h).keeps Flow.Step.ceased ⟨hover, hclosed, rfl, rfl⟩
  constructor
  · exact hc
  · exact hclosed
  · exact h.run_of_isOver hover
  · intro q' hl
    obtain ⟨hover', -, hcalls, hstats⟩ := hceased hl
    exact ⟨hcalls, (h.later hl).run_of_isOver hover', hstats⟩
  · intro q' hl caller r
    have hclosed' : q'.mailbox.isClosed = true := (hceased hl).isClosed_eq
    have hoffer : q'.offer caller r = (.refused, q') := by
      rw [offer, hclosed', Bool.or_true, if_pos rfl]
    refine ⟨hoffer, fun handle hholds => ?_⟩
    simp only [offerQuietly, hholds, hl.isCancelled h hc, Bool.not_true, Bool.false_eq_true,
      if_false, if_true]
  · intro q' hl hf r handle hholds
    have hc' := hl.isCancelled h hc
    constructor
    · rw [act_of_cancelled (offersOne_add r handle) hc' hf hholds]
    · rw [act_of_cancelled (offersOne_blockingAdd r handle) hc' hf hholds]

/-- A shutdown call from outside that does not have to wait finds everything at its end. -/
theorem over_of_act_shutdown {handle : Nat} (hf : q.IsFree)
    (hdone : (q.act script (.shutdown handle)).1 = .done) :
    (q.act script (.shutdown handle)).2.isCancelled = true ∧
    (q.act script (.shutdown handle)).2.phase.isOver = true := by
  obtain ⟨hturn, herrand, hdue⟩ := hf
  let a : Action := .shutdown handle
  let performed : Reply × Queue := perform { q with reply := .nothing } a
  have hscene : performed.2.scene = q.scene := scene_perform { q with reply := .nothing } a
  have hturn' : performed.2.turn = none := (congrArg Scene.turn hscene).trans hturn
  have hbegin : { q with reply := .nothing }.begin a =
      { performed.2 with reply := performed.1 } := by
    show performed.2.answer a performed.1 = _
    show (if performed.2.turn = some .run then performed.2.noteAction a performed.1
      else { performed.2 with reply := performed.1 }) = _
    exact if_neg (by rw [hturn']; nofun)
  have hlast : attend? { performed.2 with reply := performed.1 } = none := by
    have hdue' : performed.2.due = [] := (congrArg Scene.due hscene).trans hdue
    have herrand' : performed.2.errand = none := (congrArg Scene.errand hscene).trans herrand
    exact IsFree.attend? ⟨hturn', herrand', hdue'⟩
  have hact : q.act script a = (performed.1, { performed.2 with reply := performed.1 }) := by
    unfold act
    dsimp only
    rw [hbegin, iterate_atRest hlast]
  rw [hact] at hdone ⊢
  have hrelease : (Fact.performed a performed.1).isRelease = true := by
    rw [show performed.1 = .done from hdone]
    rfl
  exact over_of_isRelease hrelease

/-! ## The barrier -/

/-- What callers of shutdown may rely on. -/
structure IsBarrier (script : WorkScript) (q : Queue) : Prop where
  /-- Once a shutdown call has come to its end, everything else has. -/
  released : ∀ f ∈ q.flow.journal, f.isRelease = true → q.Barred script
  /-- The same goes for a call from outside that does not have to wait. -/
  done_at_once : q.IsFree → ∀ handle, (q.act script (.shutdown handle)).1 = .done →
    (q.act script (.shutdown handle)).2.Barred script
  /-- When nothing moves, shutdown calls wait for the run in flight only. -/
  pending : q.AtRest script → q.closers ≠ [] → q.HasOneRun
  /-- A queue that is cancelled has one batch left to dispatch at most, and which one is settled. -/
  last_run : q.isCancelled = true → ∀ q', Later script q q' →
    q'.stats.executed ≤ q.stats.executed + 1 ∧
    q'.flow.journal.dispatched ++ q'.phase.committed =
      q.flow.journal.dispatched ++ q.phase.committed

/-- At most one run is owed or bound to be made. -/
theorem owed_add_committed_le (p : Phase) : p.owed + p.committed.length ≤ 1 := by
  cases p <;> simp [Phase.owed, Phase.committed]

theorem Later.executed_le (hl : Later script q q') (h : Reachable script q)
    (hc : q.isCancelled = true) : q'.stats.executed ≤ q.stats.executed + 1 := by
  have hcalls := hl.calls_eq h hc
  have hbefore : q.calls = q.flow.journal.outcomes.length + q.phase.owed :=
    h.flow.serial.calls_eq
  have hafter : q'.calls = q'.flow.journal.outcomes.length + q'.phase.owed :=
    (h.later hl).flow.serial.calls_eq
  have hcount : q.stats.executed = q.flow.journal.outcomes.length := h.flow.tally.executed_eq
  have hcount' : q'.stats.executed = q'.flow.journal.outcomes.length :=
    (h.later hl).flow.tally.executed_eq
  have hone := owed_add_committed_le q.phase
  omega

theorem Reachable.pending (h : Reachable script q) (hr : q.AtRest script)
    (hclosers : q.closers ≠ []) : q.HasOneRun := by
  have hc : q.isCancelled = true := (h.parts.awaited hclosers).1
  obtain ⟨shape, hshape⟩ := h.restsAs hr
  cases shape with
  | idle =>
    have hidle : q.RestsIdle script := hshape
    exact absurd (hidle.isCancelled_eq.symm.trans hc) Bool.false_ne_true
  | executing =>
    have hexecuting : q.RestsExecuting := hshape
    exact hexecuting.run_eq
  | finishing =>
    have hfinishing : q.RestsFinishing := hshape
    exact hfinishing.run_eq
  | stopped => exact absurd hshape.2.closers_eq hclosers
  | dead => exact absurd hshape.2.2.closers_eq hclosers

theorem isBarrier (h : Reachable script q) : q.IsBarrier script := by
  constructor
  · intro f hmem hrelease
    obtain ⟨hc, hover⟩ := h.released f hmem hrelease
    exact barred_of_isOver h hc hover
  · intro hf handle hdone
    obtain ⟨hc, hover⟩ := over_of_act_shutdown hf hdone
    exact barred_of_isOver (h.act hf (.shutdown handle)) hc hover
  · exact h.pending
  · intro hc q' hl
    exact ⟨hl.executed_le h hc, hl.dispatched_eq h hc⟩

/-- More requests than the mailbox holds, and two shutdown calls during the first run. -/
def dismissed : Queue :=
  let q := ((crowded patient).act patient (.shutdown 0)).2
  ((q.act patient (.shutdown 0)).2).advance patient 5

theorem reachable_dismissed : Reachable patient dismissed := by
  have hrest : (crowded patient).AtRest patient := isAtRest_iff.mp (by decide)
  have hfirst : Reachable patient ((crowded patient).act patient (.shutdown 0)).2 :=
    (reachable_crowded patient).act hrest.isFree _
  have hagain : ((crowded patient).act patient (.shutdown 0)).2.AtRest patient :=
    isAtRest_iff.mp (by decide)
  exact (hfirst.act hagain.isFree _).advance 5

/-- Both calls have ended, and what had not been taken from the mailbox is still there. -/
theorem isBarrier_dismissed : Reachable patient dismissed ∧
    dismissed.flow.journal.countP Fact.isRelease = 2 ∧ dismissed.mailbox.buffer = [⟨"c"⟩] ∧
    dismissed.IsBarrier patient :=
  ⟨reachable_dismissed, by decide, by decide, isBarrier reachable_dismissed⟩

end Queue
end CoalescingQueue
