import CoalescingQueue.Proofs.Shift

/-!
# Moves are made of shifts

Each operation of a queue is followed by shifts: from whatever queue it was reached before, it is
reached by a track after. So what a new queue has and each shift keeps, every reachable queue has.
An operation that ends a turn has to show that nothing is left to do for whoever had it, which is
why the turns come last.
-/
namespace CoalescingQueue.Queue

/-- A queue comes from an orderly one by shifts. -/
structure Track (terms : Terms) (q q' : Queue) : Prop where
  orderly : q.Orderly
  shifts : Relation.ReflTransGen (Shift terms) q q'

namespace Track

variable {terms : Terms} {q₀ q q' : Queue}

theorem refl (h : q.Orderly) : Track terms q q := ⟨h, .refl⟩

theorem shift (h : Track terms q₀ q) (hs : Shift terms q q') : Track terms q₀ q' :=
  ⟨h.orderly, h.shifts.tail hs⟩

/-- What holds at the start and is kept by each shift of an orderly queue holds at the end. -/
theorem keeps {P : Queue → Prop} (h : Track terms q₀ q)
    (hshift : ∀ {a b : Queue}, a.Orderly → Shift terms a b → P a → P b) (hq : P q₀) : P q := by
  obtain ⟨horderly, hshifts⟩ := h
  have hboth : q.Orderly ∧ P q := by
    induction hshifts with
    | refl => exact ⟨horderly, hq⟩
    | tail _ hs ih => exact ⟨hs.orderly ih.1, hshift ih.1 hs ih.2⟩
  exact hboth.2

theorem orderly_last (h : Track terms q₀ q) : q.Orderly :=
  h.keeps (fun _ hs hi => hs.orderly hi) h.orderly

end Track

variable {script : WorkScript} {terms : Terms} {q₀ q : Queue}

theorem hasHandle_of_holds {handle : Nat} (h : q.holds handle = true) : q.hasHandle = true := by
  unfold holds at h
  unfold hasHandle
  rw [List.getD_eq_getElem?_getD] at h
  rw [List.any_eq_true]
  cases hget : q.handles[handle]? with
  | none => simp [hget] at h
  | some held =>
    rw [hget] at h
    exact ⟨held, List.mem_of_getElem? hget, h⟩

theorem isOffering_eq {e : Errand} (he : q.errand = some e) : q.isOffering = e.isAnnounced := by
  rw [isOffering, he]

theorem isOffering_of_errand_eq_none (he : q.errand = none) : q.isOffering = false := by
  rw [isOffering, he]

/-! ## Offers -/

theorem track_record (h : Track terms q₀ q) (stats : Stats) (reply : Reply)
    (published : DispatchState) (calls : Nat) :
    Track terms q₀ { q with stats, reply, published, calls } :=
  h.shift (.record stats q.hooks q.due reply published calls)

theorem leave_now (q : Queue) (w : Waiter) : (q.leave w).now = q.now := by
  obtain ⟨more, heq⟩ := q.leave_more w
  rw [heq]

theorem enter_now (q : Queue) (w : Waiter) : (q.enter w).now = q.now := by
  obtain ⟨more, heq⟩ := q.enter_more w
  rw [heq]

theorem track_settleWaiter {w : Waiter} (h : Track terms q₀ q) (hw : w ∈ q.mailbox.waiting)
    (hturn : w.caller = .task → q.turn = some (.producer w.ticket)) :
    Track terms q₀ (q.settleWaiter w) := by
  unfold settleWaiter
  split
  · next reply q' hd =>
    unfold decide? at hd
    split at hd
    · next hr =>
      obtain ⟨rfl, rfl⟩ := Prod.mk.inj (Option.some.inj hd)
      have hrefused : q.isCancelled = true ∨ q.mailbox.isClosed = true := by
        simp only [Bool.or_eq_true, Bool.and_eq_true] at hr
        exact hr.imp And.right id
      have hbooks := track_record h q.stats.retractOffer q.reply q.published q.calls
      have htime : (q.withdraw w).now = q.now := leave_now _ w
      rw [htime]
      exact hbooks.shift (.withdraw hw hrefused)
    · next hr =>
      split at hd
      · next hslot =>
        obtain ⟨rfl, rfl⟩ := Prod.mk.inj (Option.some.inj hd)
        rw [Bool.or_eq_true, not_or, Bool.not_eq_true, Bool.not_eq_true] at hr
        have htask (htask : w.caller = .task) :
            q.isCancelled = false ∧ q.turn = some (.producer w.ticket) := by
          have hgoing := hr.1
          rw [htask] at hgoing
          exact ⟨hgoing, hturn htask⟩
        have htime : (q.enter w).now = q.now := q.enter_now w
        rw [htime]
        exact h.shift (.join hr.2 hw hslot htask)
      · simp at hd
  · exact h

theorem track_settleThreads (h : Track terms q₀ q) : Track terms q₀ q.settleThreads := by
  -- those who are left to be looked at still wait, since nobody has the ticket of another
  have hall (ws : List Waiter) (q : Queue) (h : Track terms q₀ q)
      (hws : ∀ w ∈ ws, w ∈ q.mailbox.waiting) (hnodup : (ws.map (·.ticket)).Nodup) :
      Track terms q₀ (ws.foldl (fun q w => if w.caller = .thread then q.settleWaiter w else q) q) := by
    induction ws generalizing q with
    | nil => exact h
    | cons w ws ih =>
      rw [List.map_cons, List.nodup_cons] at hnodup
      rw [List.foldl_cons]
      split
      · next hthread =>
        have hsettled := track_settleWaiter h (hws w List.mem_cons_self) fun htask => by
          rw [hthread] at htask
          contradiction
        refine ih _ hsettled (fun v hv => ?_) hnodup.2
        have hne : v.ticket ≠ w.ticket := fun heq =>
          hnodup.1 (heq ▸ List.mem_map_of_mem hv)
        exact mem_waiting_settleWaiter hthread (hws v (List.mem_cons_of_mem w hv)) hne
      · exact ih q h (fun v hv => hws v (List.mem_cons_of_mem w hv)) hnodup.2
  exact hall q.mailbox.waiting q h (fun w hw => hw) h.orderly_last.nodup

theorem track_emit {e : Event} {span : Option Span} (h : Track terms q₀ q)
    (hoffered : terms.isOffering = false → (Fact.logged ⟨e, span⟩).offered? = none) :
    Track terms q₀ (q.emit e span) := by
  have hhooked := h.shift (.record q.stats (q.hooks.map fun (h : Hook) => h.notice e)
    (q.due ++ q.hooks.flatMap fun (h : Hook) => h.due e) q.reply q.published q.calls)
  unfold emit
  exact track_settleThreads (hhooked.shift (.remark rfl rfl nofun hoffered))

theorem track_offer {caller : Caller} (h : Track terms q₀ q) (hcaller : caller ≠ .foreground)
    (hheld : q.hasHandle = true ∨ q.isOffering = true) (hoffering : terms.isOffering = true)
    (hclear : terms.isJostling = false → caller = .task → q.IsGoing → q.IsClear) (r : Request) :
    Track terms q₀ (q.offer caller r).2 := by
  unfold offer
  split
  · exact h
  · next hr =>
    have hopen : q.mailbox.isClosed = false := by simp_all
    have hcounted := track_record h q.stats.countOffer q.reply q.published q.calls
    dsimp only
    split
    · next mailbox hput => exact hcounted.shift (.put hheld hopen hput hoffering)
    · next hput =>
      have hgoing (htask : caller = .task) : q.isCancelled = false := by
        simp_all [Caller.heedsCancellation]
      have hfair (hterms : terms.isJostling = false) (htask : caller = .task) :
          { q with stats := q.stats.countOffer }.IsClear := by
        obtain ⟨hturn, hbehind⟩ := hclear hterms htask ⟨hgoing htask, hopen⟩
        exact ⟨hturn, hbehind⟩
      have hwait := hcounted.shift (.enlist (w := { ticket := q.tickets, request := r, caller })
        hheld hopen hput rfl rfl hcaller hgoing hfair hoffering)
      cases caller with
      | task | thread | foreground => exact hwait

theorem track_offerQuietly {caller : Caller} (h : Track terms q₀ q) (hcaller : caller ≠ .foreground)
    (hoffering : terms.isOffering = true) (hclear : terms.isJostling = false → caller ≠ .task)
    (handle : Nat) (r : Request) : Track terms q₀ (q.offerQuietly caller handle r).2 := by
  unfold offerQuietly
  split
  · exact h
  · next hholds =>
    have hheld : q.hasHandle = true := hasHandle_of_holds (by simpa using hholds)
    split
    · exact h
    · exact track_offer h hcaller (.inl hheld) hoffering
        (fun hterms htask => absurd htask (hclear hterms)) r

theorem track_offerAllQuietly (h : Track terms q₀ q) (hoffering : terms.isOffering = true)
    (hterms : terms.isJostling = true) (handle : Nat) (requests : List Request) :
    Track terms q₀ (q.offerAllQuietly handle requests).2 := by
  induction requests generalizing q with
  | nil => exact h
  | cons r rest ih =>
    refine ih (track_offerQuietly h (by decide) hoffering (fun hfair => ?_) handle r)
    rw [hterms] at hfair
    contradiction

/-! ## Actions -/

theorem track_cancel (h : Track terms q₀ q) : Track terms q₀ q.cancel := by
  unfold cancel
  split
  · exact h
  · next hc => exact h.shift (.cancel (by simpa using hc))

theorem isOver_eq (q : Queue) : q.isOver = q.phase.isOver := by
  unfold isOver
  cases q.phase <;> rfl

theorem track_shutdown (h : Track terms q₀ q) : Track terms q₀ q.shutdown.2 := by
  have hc := track_cancel h
  unfold shutdown
  dsimp only
  split
  · exact hc
  · next hover =>
    rw [isOver_eq] at hover
    exact hc.shift (.await (cancel_isCancelled q) (by simpa using hover))

theorem track_perform (h : Track terms q₀ q) {a : Action}
    (hoffers : terms.isOffering = false → a.isOffer = false)
    (hfair : terms.isJostling = false → a.isAsync = false)
    (hpast : terms.isJostling = false → q.IsPast) : Track terms q₀ (q.perform a).2 := by
  have hoffering (hoffer : a.isOffer = true) : terms.isOffering = true := by
    rw [← Bool.not_eq_false]
    exact fun hterms => Bool.false_ne_true ((hoffers hterms).symm.trans hoffer)
  unfold perform
  cases a with
  | add r handle =>
    exact track_offerQuietly h (by decide) (hoffering rfl) (fun hterms => nomatch hfair hterms)
      handle r
  | blockingAdd r handle =>
    exact track_offerQuietly h (by decide) (hoffering rfl) (fun _ => by decide) handle r
  | burst rs handle =>
    refine track_offerAllQuietly h (hoffering rfl) ?_ handle rs
    rw [← Bool.not_eq_false]
    exact fun hterms => nomatch hfair hterms
  | shutdown handle =>
    dsimp only
    split
    · exact track_shutdown h
    · exact h
  | cancel => exact track_cancel h
  | release n => exact h.shift (.permit n hpast)
  | clone handle =>
    dsimp only
    split
    · next hholds => exact h.shift (.clone (hasHandle_of_holds hholds))
    · exact h
  | drop handle =>
    dsimp only
    split
    · exact h.shift (.drop handle)
    · exact h
  | snapshot => exact h.shift (.remark rfl rfl nofun fun _ => rfl)
  | watch | describe =>
    dsimp only
    split
    · exact h
    · exact h

theorem track_noteAction (h : Track terms q₀ q) {a : Action} {reply : Reply}
    (hrelease : (Fact.performed a reply).isRelease = true →
      q.isCancelled = true ∧ q.phase.isOver = true) :
    Track terms q₀ (q.noteAction a reply) := by
  unfold noteAction
  split
  · exact h
  · exact h.shift (.remark rfl rfl hrelease fun _ => rfl)

/-- A shutdown call comes to its end at once only after the end. -/
theorem over_of_isRelease {a : Action}
    (hrelease : (Fact.performed a (q.perform a).1).isRelease = true) :
    (q.perform a).2.isCancelled = true ∧ (q.perform a).2.phase.isOver = true := by
  cases a with
  | shutdown handle =>
    unfold perform at hrelease ⊢
    dsimp only at hrelease ⊢
    split
    · next hholds =>
      rw [if_pos hholds] at hrelease
      unfold shutdown at hrelease ⊢
      dsimp only at hrelease ⊢
      split
      · next hover => exact ⟨cancel_isCancelled q, (isOver_eq q.cancel).symm.trans hover⟩
      · next hover =>
        rw [if_neg hover] at hrelease
        contradiction
    · next hholds =>
      rw [if_neg hholds] at hrelease
      contradiction
  | _ => contradiction

theorem track_performHooked (h : Track terms q₀ q) {a : Action}
    (hoffers : terms.isOffering = false → a.isOffer = false)
    (hfair : terms.isJostling = false → a.isAsync = false)
    (hpast : terms.isJostling = false → q.IsPast) : Track terms q₀ (q.performHooked a) :=
  track_noteAction (track_perform h hoffers hfair hpast) over_of_isRelease

theorem track_answer (h : Track terms q₀ q) {a : Action} {reply : Reply}
    (hrelease : (Fact.performed a reply).isRelease = true →
      q.isCancelled = true ∧ q.phase.isOver = true) :
    Track terms q₀ (q.answer a reply) := by
  unfold answer
  split
  · exact track_noteAction h hrelease
  · exact track_record h q.stats reply q.published q.calls

theorem track_begin (h : Track terms q₀ q) (he : q.errand = none)
    (hpast : terms.isJostling = false → q.IsPast) (a : Action) : Track terms q₀ (q.begin a) := by
  have hidle := isOffering_of_errand_eq_none he
  have hprepare {e : Errand} (hnew : e.isAnnounced = false) (hoffer : e.IsOffer) :
      Track terms q₀ { q with errand := some e } := by
    refine h.shift (.prepare hidle ?_)
    intro e' he'
    obtain rfl := Option.some.inj he'
    exact ⟨hnew, hoffer⟩
  unfold begin
  split
  · exact hprepare rfl ⟨nofun, nofun⟩
  · exact hprepare rfl ⟨nofun, nofun⟩
  · exact hprepare rfl ⟨nofun, nofun⟩
  · next hadd hblocking hburst =>
    have hquiet : a.isOffer = false := by
      cases a with
      | add r handle => exact (hadd r handle rfl).elim
      | blockingAdd r handle => exact (hblocking r handle rfl).elim
      | burst rs handle => exact (hburst rs handle rfl).elim
      | _ => rfl
    have hidle : a.isAsync = false := Action.isAsync_eq_false hquiet
    exact track_answer (track_perform h (fun _ => hquiet) (fun _ => hidle) hpast) over_of_isRelease

theorem track_stepErrand {e : Errand} (h : Track terms q₀ q) (he : q.errand = some e)
    (hoffering : terms.isOffering = true)
    (hclear : terms.isJostling = false → e.caller = .task → q.IsGoing → q.IsClear) :
    Track terms q₀ (q.stepErrand e) := by
  have horderly := h.orderly_last
  have hoffer : e.IsOffer := horderly.errand_offers e he
  have hannouncing := isOffering_eq he
  have hskip (todo : List Request) (replies : List Reply) (hnew : e.isAnnounced = false) :
      Track terms q₀ { q with errand := some { e with todo, replies } } := by
    refine h.shift (.prepare (hannouncing.trans hnew) ?_)
    intro e' he'
    obtain rfl := Option.some.inj he'
    exact ⟨hnew, hoffer.caller_ne, hoffer.action_ne⟩
  unfold stepErrand
  split
  · next htodo =>
    have hnew : e.isAnnounced = false := by
      rw [Bool.eq_false_iff]
      intro hannounced
      exact horderly.todo_ne e he hannounced htodo
    have hdone : Track terms q₀ { q with errand := none } :=
      h.shift (.prepare (hannouncing.trans hnew) (by simp))
    refine track_answer hdone fun hrelease => ?_
    cases haction : e.action with
    | shutdown handle => exact absurd haction (hoffer.action_ne handle)
    | _ =>
      rw [haction] at hrelease
      contradiction
  · next r rest htodo =>
    split
    · next hannounced =>
      have hoffered := track_offer h hoffer.caller_ne (.inr (hannouncing.trans hannounced))
        hoffering hclear r
      have herrand : (q.offer e.caller r).2.errand = some e :=
        (congrArg Scene.errand (scene_offer q e.caller r)).trans he
      exact hoffered.shift (.offered rest _ herrand hoffering)
    · next hnew =>
      have hnew : e.isAnnounced = false := by simpa using hnew
      split
      · exact hskip rest _ hnew
      · next hholds =>
        have hheld : q.hasHandle = true := hasHandle_of_holds (by simpa using hholds)
        split
        · exact hskip rest _ hnew
        · have htodo : e.todo ≠ [] := by
            rw [htodo]
            exact List.cons_ne_nil r rest
          refine track_emit (h.shift (.announce he htodo hheld hoffering)) fun hterms => ?_
          rw [hoffering] at hterms
          contradiction

/-! ## The run in flight -/

theorem track_narrate {run : Run} {e : Event} (h : Track terms q₀ q)
    (hoffered : ∀ span, (Fact.logged ⟨e, span⟩).offered? = none) :
    Track terms q₀ (q.narrate run e) := by
  unfold narrate
  split
  · exact track_emit h fun _ => hoffered q.span
  · exact h

theorem wakeDispatcher_of_ne (hp : q.phase ≠ .listening) : q.wakeDispatcher = q := by
  unfold wakeDispatcher
  split
  · next heq => exact absurd heq hp
  · rfl

theorem wakeIfAbandoned_of_ne (hp : q.phase ≠ .listening) : q.wakeIfAbandoned = q := by
  unfold wakeIfAbandoned
  split
  · exact wakeDispatcher_of_ne hp
  · rfl

/-- Unless the dispatcher rests, a thread settles without a look at the line. -/
theorem settleWaiter_line (hp : q.phase ≠ .listening) {w : Waiter} (hthread : w.caller = .thread) :
    ∃ stats mailbox journal, ∀ line : List Party,
      { q with line }.settleWaiter w = { q with stats, mailbox, journal, line } := by
  have hheeds : w.caller.heedsCancellation = false := by rw [hthread, Caller.heedsCancellation]
  by_cases hclosed : q.mailbox.isClosed = true
  · refine ⟨q.stats.retractOffer, q.mailbox.dismiss w.ticket,
      q.journal.push (.ended w.ticket .refused q.now), fun line => ?_⟩
    have hkept : (w.hasSlot && !(q.mailbox.dismiss w.ticket).isClosed) = false := by
      simp [Mailbox.dismiss, hclosed]
    have hleave : { q with line }.withdraw w =
        { q with stats := q.stats.retractOffer, mailbox := q.mailbox.dismiss w.ticket, line } := by
      simp only [withdraw, leave, hkept, Bool.false_eq_true, if_false]
      exact wakeIfAbandoned_of_ne hp
    simp only [settleWaiter, decide?, hclosed, Bool.or_true, if_true, hleave, note]
  · have hopen : q.mailbox.isClosed = false := by simpa using hclosed
    by_cases hslot : w.hasSlot = true
    · refine ⟨q.stats, (q.mailbox.dismiss w.ticket).append w.request,
        (q.journal.push (.admitted w.request)).push (.ended w.ticket .accepted q.now),
        fun line => ?_⟩
      have henter : { q with line }.enter w = { q with
          mailbox := (q.mailbox.dismiss w.ticket).append w.request
          journal := q.journal.push (.admitted w.request)
          line } := by
        unfold enter note
        exact wakeDispatcher_of_ne hp
      simp only [settleWaiter, decide?, hheeds, hopen, hslot, Bool.false_and, Bool.or_false,
        Bool.false_eq_true, if_false, if_true, henter, note]
    · refine ⟨q.stats, q.mailbox, q.journal, fun line => ?_⟩
      simp only [settleWaiter, decide?, hheeds, hopen, hslot, Bool.false_and, Bool.or_false,
        Bool.false_eq_true, if_false]

theorem settleThreads_line (hp : q.phase ≠ .listening) :
    ∃ stats mailbox journal, ∀ line : List Party,
      { q with line }.settleThreads = { q with stats, mailbox, journal, line } := by
  have hall (ws : List Waiter) (q : Queue) (hp : q.phase ≠ .listening) :
      ∃ stats mailbox journal, ∀ line : List Party,
        ws.foldl (fun q w => if w.caller = .thread then q.settleWaiter w else q) { q with line } =
          { q with stats, mailbox, journal, line } := by
    induction ws generalizing q with
    | nil => exact ⟨q.stats, q.mailbox, q.journal, fun line => rfl⟩
    | cons w ws ih =>
      by_cases hthread : w.caller = .thread
      · obtain ⟨stats, mailbox, journal, hfirst⟩ := settleWaiter_line hp hthread
        obtain ⟨stats', mailbox', journal', hrest⟩ := ih { q with stats, mailbox, journal } hp
        refine ⟨stats', mailbox', journal', fun line => ?_⟩
        rw [List.foldl_cons, if_pos hthread, hfirst line]
        exact hrest line
      · obtain ⟨stats, mailbox, journal, hrest⟩ := ih q hp
        refine ⟨stats, mailbox, journal, fun line => ?_⟩
        rw [List.foldl_cons, if_neg hthread]
        exact hrest line
  exact hall q.mailbox.waiting q hp

/-- Unless the dispatcher rests, it does not matter whether a party is put in line before or after
the run reports. -/
theorem enqueue_narrate (hp : q.phase ≠ .listening) (run : Run) (e : Event) (p : Party) :
    (q.narrate run e).enqueue p = (q.enqueue p).narrate run e := by
  have hnarrate : ∃ stats mailbox journal hooks due, ∀ line : List Party,
      { q with line }.narrate run e = { q with stats, mailbox, journal, hooks, due, line } := by
    by_cases hnarrated : run.plan.isNarrated = true
    · let hooks := q.hooks.map fun (h : Hook) => h.notice e
      let due := q.due ++ q.hooks.flatMap fun (h : Hook) => h.due e
      obtain ⟨stats, mailbox, journal, hline⟩ := settleThreads_line
        (q := { q with hooks, due, journal := q.journal.push (.logged ⟨e, q.span⟩) }) hp
      refine ⟨stats, mailbox, journal, hooks, due, fun line => ?_⟩
      rw [narrate, if_pos hnarrated]
      exact hline line
    · refine ⟨q.stats, q.mailbox, q.journal, q.hooks, q.due, fun line => ?_⟩
      rw [narrate, if_neg hnarrated]
  obtain ⟨stats, mailbox, journal, hooks, due, hline⟩ := hnarrate
  have hbefore : q.narrate run e = { q with stats, mailbox, journal, hooks, due } := hline q.line
  rw [hbefore]
  unfold enqueue
  by_cases hmem : p ∈ q.line
  · rw [if_pos hmem, if_pos hmem]
    exact hbefore.symm
  · rw [if_neg hmem, if_neg hmem]
    exact (hline (q.line ++ [p])).symm

theorem enqueue_note (q : Queue) (p : Party) (f : Fact) :
    (q.note f).enqueue p = (q.enqueue p).note f := by
  have hline : (q.note f).line = q.line := rfl
  unfold enqueue
  rw [hline]
  by_cases hmem : p ∈ q.line
  · rw [if_pos hmem, if_pos hmem]
  · rw [if_neg hmem, if_neg hmem]
    rfl

theorem track_stepRun {run : Run} (h : Track terms q₀ q) (hturn : q.turn = some .run)
    (herrand : q.errand = none) (hp : q.phase ≠ .listening) (hrun : q.run = some run) :
    Track terms q₀ (q.stepRun run) := by
  have hstage {stage : Stage} (hnext : stage ≠ .ended) (hlive : run.stage ≠ .ended) :
      Track terms q₀ (q.setStage run stage) := by
    have hshift : Shift terms q ({ q with permits := q.permits }.setStage run stage) :=
      .proceed hturn hrun hnext hlive
    exact h.shift hshift
  have hpast {stage : Stage} (hnext : stage ≠ .waiting) : (q.setStage run stage).IsPast := by
    intro _ run' hrun'
    obtain rfl := Option.some.inj hrun'
    exact hnext
  unfold stepRun
  dsimp only
  split
  · next hs => exact track_narrate (hstage (by simp) (by simp [hs])) fun _ => rfl
  · next hs =>
    exact track_begin (hstage (by simp) (by simp [hs])) herrand (fun _ => hpast (by simp)) _
  · next hs => exact hstage (by simp) (by simp [hs])
  · next hs =>
    split
    · next hblocked =>
      refine h.shift (.rest hturn ?_)
      rintro ⟨run', hrun', hcan⟩
      obtain rfl := Option.some.inj (hrun.symm.trans hrun')
      rw [Bool.and_eq_true, decide_eq_true_eq] at hblocked
      rw [Run.CanGoOn, hs] at hcan
      have hpermit := hcan hblocked.1
      omega
    · -- the permit is taken in the same turn
      have htaken (permits : Nat) {stage : Stage} (hnext : stage ≠ .ended) :
          Track terms q₀ ({ q with permits }.setStage run stage) :=
        h.shift (.proceed hturn hrun hnext (by simp [hs]))
      have hgate (permits : Nat) : Track terms q₀
          (if run.plan.duration = 0 then { q with permits }.setStage run (.closing run.plan.atEnd)
            else ({ q with permits }.setStage run
              (.sleeping (q.now + run.plan.duration))).yieldTurn) := by
        split
        · exact htaken permits (by simp)
        · next hduration =>
          refine (htaken permits (by simp)).shift (.rest hturn ?_)
          rintro ⟨run', hrun', hcan⟩
          obtain rfl := Option.some.inj hrun'
          have hlate : q.now + run.plan.duration ≤ q.now := hcan
          omega
      by_cases hgated : run.plan.isGated = true
      · rw [if_pos hgated]
        exact hgate (q.permits - 1)
      · rw [if_neg hgated]
        exact hgate q.permits
  · next deadline hs =>
    split
    · next hearly =>
      refine h.shift (.rest hturn ?_)
      rintro ⟨run', hrun', hcan⟩
      obtain rfl := Option.some.inj (hrun.symm.trans hrun')
      rw [Run.CanGoOn, hs] at hcan
      omega
    · exact hstage (by simp) (by simp [hs])
  · next hs =>
    exact track_begin (hstage (by simp) (by simp [hs])) herrand (fun _ => hpast (by simp)) _
  · have hended := h.shift (.finish hturn hrun)
    have hnote := hended.shift (.remark (f := .returned run.call) rfl rfl nofun fun _ => rfl)
    -- the run reports before the dispatcher is called, and a shift calls the dispatcher at once
    rw [enqueue_narrate (by exact hp), enqueue_note]
    exact track_narrate hnote fun _ => rfl
  · next hs =>
    refine h.shift (.rest hturn ?_)
    rintro ⟨run', hrun', hcan⟩
    obtain rfl := Option.some.inj (hrun.symm.trans hrun')
    rw [Run.CanGoOn, hs] at hcan
    exact hcan

/-! ## The dispatcher -/

theorem track_go {phase : Phase} (h : Track terms q₀ q) (hturn : q.turn = some .dispatcher)
    (hgoing : q.phase.isOver = false) (hnext : phase.isOver = false)
    (hexit : phase.isExit = true → q.phase.isExit = true ∨ q.isCancelled = true) :
    Track terms q₀ { q with phase } :=
  h.shift (.go hturn hgoing hnext (.inl rfl) hexit)

theorem track_publish {before after : DispatchState} {phase : Phase} {span : Span}
    (h : Track terms q₀ { q with phase }) : Track terms q₀ (q.publish before after phase span) := by
  unfold publish
  exact track_emit (track_record h q.stats q.reply after q.calls) fun _ => rfl

theorem track_listen (h : Track terms q₀ q) (hserial : q.IsSerial)
    (hturn : q.turn = some .dispatcher) (hp : q.phase = .listening) : Track terms q₀ q.listen := by
  have hgoing : q.phase.isOver = false := congrArg Phase.isOver hp
  have hidle : q.run = none := hserial.run_eq (congrArg Phase.isRunning hp)
  unfold listen
  split
  · next hc => exact track_emit (track_go h hturn hgoing rfl fun _ => .inr hc) fun _ => rfl
  · next hc =>
    have hc : q.isCancelled = false := by simpa using hc
    split
    · next first q' hr =>
      obtain ⟨mailbox, htake, rfl⟩ := course_receive hr
      exact track_publish (h.shift (.take hturn hgoing rfl rfl htake hidle))
    · next hr =>
      have hbuffer := buffer_of_receive?_eq_none hr
      split
      · next ha => exact track_emit (h.shift (.desert hturn hgoing ha hbuffer)) fun _ => rfl
      · next ha =>
        refine h.shift (.rest hturn ?_)
        rw [Wanted, hp]
        simp [hc, hbuffer, ha]

theorem track_finishDrain {b : Batch} {left : Nat} (h : Track terms q₀ q)
    (hturn : q.turn = some .dispatcher) (hp : q.phase = .draining b left) :
    Track terms q₀ (q.finishDrain b) := by
  have hgoing : q.phase.isOver = false := congrArg Phase.isOver hp
  unfold finishDrain
  split
  · next hc =>
    have hdropping : Track terms q₀ { q with phase := .dropping b } :=
      track_go h hturn hgoing rfl fun _ => .inr hc
    exact track_emit (hdropping.shift (.remark rfl rfl nofun fun _ => rfl)) fun _ => rfl
  · exact track_publish (track_go h hturn hgoing rfl (by simp [Phase.isExit]))

theorem track_drain {b : Batch} {left : Nat} (h : Track terms q₀ q) (hserial : q.IsSerial)
    (hturn : q.turn = some .dispatcher) (hp : q.phase = .draining b left) :
    Track terms q₀ (q.drain b left) := by
  have hgoing : q.phase.isOver = false := congrArg Phase.isOver hp
  have hidle : q.run = none := hserial.run_eq (congrArg Phase.isRunning hp)
  unfold drain
  split
  · exact track_finishDrain h hturn hp
  · split
    · next next q' hr =>
      obtain ⟨mailbox, htake, rfl⟩ := course_receive hr
      exact track_emit (h.shift (.take hturn hgoing rfl rfl htake hidle)) fun _ => rfl
    · exact track_finishDrain h hturn hp

theorem track_dispatch {b : Batch} (h : Track terms q₀ q) (hturn : q.turn = some .dispatcher)
    (hp : q.phase = .dispatching b) : Track terms q₀ (q.dispatch script b) := by
  have hgoing : q.phase.isOver = false := congrArg Phase.isOver hp
  unfold dispatch
  extract_lets call called
  have hcounted := track_record h (q.stats.countDispatch b.latest.id b.superseded) q.reply
    q.published call
  have hcalled : Track terms q₀ called := hcounted.shift (.remark rfl rfl nofun fun _ => rfl)
  split
  · exact hcalled.shift (.breakDown hturn hgoing)
  · next plan hwork =>
    have hlaunched := hcalled.shift (.remark (f := .launched call) rfl rfl nofun fun _ => rfl)
    exact hlaunched.shift (.launch hturn hgoing rfl)

theorem track_await {b : Batch} (h : Track terms q₀ q) (hturn : q.turn = some .dispatcher)
    (hp : q.phase = .awaiting b) : Track terms q₀ (q.await b) := by
  have hgoing : q.phase.isOver = false := congrArg Phase.isOver hp
  unfold await
  split
  · next run hrun =>
    split
    · exact track_emit (track_go h hturn hgoing rfl (by simp [Phase.isExit])) fun _ => by
        split
        · rfl
        · rfl
    · next hstage =>
      refine h.shift (.rest hturn ?_)
      rw [Wanted, hp]
      rintro ⟨run', hrun', hended⟩
      obtain rfl := Option.some.inj (hrun.symm.trans hrun')
      exact hstage hended
  · next hrun =>
    refine h.shift (.rest hturn ?_)
    rw [Wanted, hp]
    simp [hrun]

theorem track_conclude {b : Batch} {ending : Ending} (h : Track terms q₀ q) (hserial : q.IsSerial)
    (hturn : q.turn = some .dispatcher) (hp : q.phase = .reported b ending) :
    Track terms q₀ (q.conclude b ending) := by
  have hgoing : q.phase.isOver = false := congrArg Phase.isOver hp
  unfold conclude
  extract_lets elapsed concluded
  have hended : ∀ run, q.run = some run → run.stage = .ended :=
    hserial.ended fun b' hp' => nomatch hp.symm.trans hp'
  have hcounted := track_record h (q.stats.countOutcome ending.isSuccess) q.reply q.published
    q.calls
  have hnoted := hcounted.shift (.remark (f := .concluded ending.isSuccess elapsed) rfl rfl nofun
    fun _ => rfl)
  split
  · next hc =>
    exact track_emit (hnoted.shift (.go hturn hgoing rfl (.inr ⟨rfl, hended⟩) fun _ => .inr hc))
      fun _ => rfl
  · have hlistening : Track terms q₀ { concluded with phase := .listening } :=
      hnoted.shift (.go hturn hgoing rfl (.inr ⟨rfl, hended⟩) (by simp [Phase.isExit]))
    exact track_publish hlistening

theorem track_stepDispatcher (h : Track terms q₀ q) (hserial : q.IsSerial)
    (hturn : q.turn = some .dispatcher) : Track terms q₀ (q.stepDispatcher script) := by
  have hleave (hexit : q.phase.isExit = true) (hgoing : q.phase.isOver = false) :
      Track terms q₀ { q with phase := .closing } :=
    track_go h hturn hgoing rfl fun _ => .inl hexit
  unfold stepDispatcher
  split
  · next hp =>
    have hgoing : q.phase.isOver = false := congrArg Phase.isOver hp
    exact track_emit (track_go h hturn hgoing rfl (by simp [Phase.isExit])) fun _ => rfl
  · next hp => exact track_listen h hserial hturn hp
  · next first hp =>
    have hgoing : q.phase.isOver = false := congrArg Phase.isOver hp
    exact (track_go h hturn hgoing rfl (by simp [Phase.isExit])).shift (.remark rfl rfl nofun
      fun _ => rfl)
  · next b left hp => exact track_drain h hserial hturn hp
  · next b hp =>
    exact track_emit (hleave (congrArg Phase.isExit hp) (congrArg Phase.isOver hp)) fun _ => rfl
  · next b hp => exact track_dispatch h hturn hp
  · next b hp => exact track_await h hturn hp
  · next b ending hp => exact track_conclude h hserial hturn hp
  · next b hp =>
    exact track_emit (hleave (congrArg Phase.isExit hp) (congrArg Phase.isOver hp)) fun _ => rfl
  · next hp => exact track_emit (h.shift (.close hturn hp)) fun _ => rfl
  · next hp =>
    refine h.shift (.rest hturn ?_)
    rw [Wanted, hp]
    exact not_false
  · next b hp =>
    refine h.shift (.rest hturn ?_)
    rw [Wanted, hp]
    exact not_false

/-! ## Steps and moves -/

theorem track_attend? {q' : Queue} (h : Track terms q₀ q) (hoffering : terms.isOffering = true)
    (hfair : terms.isJostling = false → q.IsFair) (ha : q.attend? = some q') :
    Track terms q₀ q' := by
  unfold attend? at ha
  split at ha
  · next a due hdue =>
    obtain rfl := Option.some.inj ha
    have hrest := h.shift (.record q.stats q.hooks due q.reply q.published q.calls)
    refine track_performHooked hrest (fun hterms => ?_) (fun hterms => ?_) fun hterms => ?_
    · rw [hoffering] at hterms
      contradiction
    · exact (hfair hterms).due a (hdue ▸ List.mem_cons_self)
    · exact (hfair hterms).past (hdue ▸ List.cons_ne_nil a due)
  · next e _ he =>
    obtain rfl := Option.some.inj ha
    exact track_stepErrand h he hoffering fun hterms => (hfair hterms).errand e he
  · simp at ha

theorem tickets_decide {w : Waiter} {reply : Reply} {q' : Queue}
    (hd : q.decide? w = some (reply, q')) :
    q'.mailbox.tickets = (q.mailbox.dismiss w.ticket).tickets := by
  unfold decide? at hd
  split at hd
  · obtain ⟨-, rfl⟩ := Prod.mk.inj (Option.some.inj hd)
    obtain ⟨more, heq⟩ := leave_more { q with stats := q.stats.retractOffer } w
    have hmailbox := congrArg (fun q : Queue => q.mailbox.tickets) heq
    refine hmailbox.trans ?_
    dsimp only
    split
    · exact Mailbox.release_tickets _
    · rfl
  · split at hd
    · obtain ⟨-, rfl⟩ := Prod.mk.inj (Option.some.inj hd)
      obtain ⟨more, heq⟩ := q.enter_more w
      rw [heq]
      rfl
    · simp at hd

/-- A producer that had its turn is gone, or it has nothing to do. -/
theorem not_wanted_settleWaiter {ticket : Nat} {w : Waiter} (h : q.Orderly)
    (hw : q.mailbox.find? ticket = some w) :
    ¬ (q.settleWaiter w).Wanted (.producer ticket) := by
  have hmem : w ∈ q.mailbox.waiting := List.mem_of_find?_eq_some hw
  have hticket : w.ticket = ticket := by simpa using List.find?_some hw
  unfold settleWaiter
  cases hd : q.decide? w with
  | some decided =>
    obtain ⟨reply, q'⟩ := decided
    rintro ⟨v, hv, hvticket, -⟩
    have hin : ticket ∈ q'.mailbox.tickets := hvticket ▸ List.mem_map_of_mem hv
    rw [tickets_decide hd, Mailbox.dismiss_tickets, hticket] at hin
    simp at hin
  | none =>
    rintro ⟨v, hv, hvticket, htask, hdecided⟩
    have hvw : v = w :=
      List.inj_on_of_nodup_map h.nodup hv hmem (hvticket.trans hticket.symm)
    subst hvw
    unfold decide? at hd
    simp only [htask, Caller.heedsCancellation, Bool.true_and] at hd
    split at hd
    · simp at hd
    · next hundecided =>
      rw [Bool.or_eq_true, not_or] at hundecided
      split at hd
      · simp at hd
      · next hslot =>
        rcases hdecided with hgiven | hcancelled | hclosed
        · exact hslot hgiven
        · exact hundecided.1 hcancelled
        · exact hundecided.2 hclosed

/-- While a run is in flight, the dispatcher does not rest. -/
theorem IsSerial.phase_ne (h : q.IsSerial) {run : Run} (hrun : q.run = some run) :
    q.phase ≠ .listening := by
  intro hp
  have hnone := h.run_eq (congrArg Phase.isRunning hp)
  rw [hrun] at hnone
  contradiction

theorem track_stepTurn {p : Party} (h : Track terms q₀ q) (hserial : q.IsSerial)
    (hturn : q.turn = some p) (herrand : q.errand = none) :
    Track terms q₀ (q.stepTurn script p) := by
  unfold stepTurn
  split
  · exact track_stepDispatcher h hserial hturn
  · split
    · next run heq => exact track_stepRun h hturn herrand (hserial.phase_ne heq) heq
    · next heq =>
      refine h.shift (.rest hturn ?_)
      rintro ⟨run, hsome, -⟩
      simp [heq] at hsome
  · next ticket =>
    split
    · next w hw =>
      have hticket : w.ticket = ticket := by simpa using List.find?_some hw
      have hsettled := track_settleWaiter h (List.mem_of_find?_eq_some hw) fun _ => hticket ▸ hturn
      have hkept : (q.settleWaiter w).turn = some (.producer ticket) :=
        (congrArg Scene.turn (scene_settleWaiter q w)).trans hturn
      exact hsettled.shift (.rest hkept (not_wanted_settleWaiter h.orderly_last hw))
    · next hnone =>
      refine h.shift (.rest hturn ?_)
      rintro ⟨w, hw, hticket, -⟩
      unfold Mailbox.find? at hnone
      rw [List.find?_eq_none] at hnone
      exact hnone w hw (by simpa using hticket)

theorem track_step? {q' : Queue} (h : Track terms q₀ q) (hserial : q.IsSerial)
    (hturning : terms.isTurning = true) (hoffering : q.attend? = none ∨ terms.isOffering = true)
    (hfair : terms.isJostling = false → q.IsFair) (hs : q.step? script = some q') :
    Track terms q₀ q' := by
  unfold step? at hs
  split at hs
  · next q₁ ha =>
    obtain rfl := Option.some.inj hs
    refine track_attend? h (hoffering.resolve_left fun hnone => ?_) hfair ha
    rw [hnone] at ha
    contradiction
  · next ha =>
    obtain ⟨herrand, -⟩ := errand_of_attend? ha
    split at hs
    · next p hturn =>
      obtain rfl := Option.some.inj hs
      exact track_stepTurn h hserial hturn herrand
    · next hturn =>
      unfold nextTurn? at hs
      split at hs
      · next p line hline =>
        obtain rfl := Option.some.inj hs
        exact h.shift (.call hturning hturn hline)
      · split at hs
        · obtain rfl := Option.some.inj hs
          exact track_settleThreads h
        · simp at hs

theorem Reachable.isSerial (h : Reachable script q) : q.IsSerial := by
  have hserial := h.flow.serial
  refine ⟨fun hp => (hserial.idle hp).1, fun hp run hrun => ?_⟩
  have hrunning : q.phase.isRunning = true := by
    rw [← Bool.not_eq_false]
    intro hidle
    have hnone : q.run = none := (hserial.idle hidle).1
    rw [hrun] at hnone
    contradiction
  obtain ⟨run', hrun', -, -, ⟨hended, -⟩ | ⟨-, -, b, hawaiting⟩⟩ := hserial.running hrunning
  · obtain rfl := Option.some.inj (hrun.symm.trans hrun')
    exact hended
  · exact absurd hawaiting (hp b)

/-- The clock comes to the time at which the run wakes up, and the run is called. -/
theorem track_wakeRunAt {time : Nat} (h : Track terms q₀ q) (hticking : terms.isTicking = true)
    (hturn : q.turn = none) (ht : q.deadline? = some time) :
    Track terms q₀ (q.wakeRunAt time) := by
  refine (h.shift (.wake hturn ht)).shift (.tick hticking fun d _ => .inr ?_)
  unfold enqueue
  split
  · assumption
  · exact List.mem_append_right _ (List.mem_singleton_self _)

theorem track_clockTo {time : Nat} (h : Track terms q₀ q) (hticking : terms.isTicking = true)
    (ht : ∀ d, q.deadline? = some d → time < d) : Track terms q₀ (q.clockTo time) :=
  h.shift (.tick hticking fun d hd => .inl (ht d hd))

/-- If it may, the caller of a call that waits goes away. -/
theorem track_abandon (h : Track terms q₀ q) (hlossy : terms.isLossy = true) (ticket : Nat) :
    Track terms q₀ (q.abandon ticket) := by
  unfold abandon
  split
  · next w hw =>
    have hmem : w ∈ q.mailbox.waiting := List.mem_of_find?_eq_some hw
    have hticket : w.ticket = ticket := by simpa using List.find?_some hw
    rw [← hticket]
    exact h.shift (.forsake hlossy hmem)
  · exact h

/-- A move is made of shifts. Unless callers go away, nobody is lost, and unless everything is at
rest, the clock stands still. -/
theorem Move.track {q' : Queue} {lossy ticking : Bool} (hm : Move script q q')
    (h : Reachable script q) (ho : q.Orderly)
    (hstays : lossy = true ∨ ∀ w ∈ q.mailbox.waiting, q' ≠ q.abandon w.ticket)
    (hticking : ticking = true ∨ ¬ q.AtRest script) :
    Track { isLossy := lossy, isTicking := ticking } q q' := by
  have hrefl : Track { isLossy := lossy, isTicking := ticking } q q := Track.refl ho
  cases hm with
  | step hs => exact track_step? hrefl h.isSerial rfl (.inr rfl) nofun hs
  | act hf a =>
    exact track_begin (track_record hrefl q.stats .nothing q.published q.calls) hf.errand_eq nofun a
  | abandon hf ticket =>
    rcases hstays with hlossy | hstays
    · exact track_abandon hrefl hlossy ticket
    · cases hw : q.mailbox.find? ticket with
      | some w =>
        have hticket : w.ticket = ticket := by simpa using List.find?_some hw
        exact absurd (congrArg q.abandon hticket.symm)
          (hstays w (List.mem_of_find?_eq_some hw))
      | none =>
        rw [Queue.abandon, hw]
        exact hrefl
  | wake hr ht =>
    exact track_wakeRunAt hrefl (hticking.resolve_right fun hnot => hnot hr) hr.isFree.turn_eq ht
  | wait hr ht => exact track_clockTo hrefl (hticking.resolve_right fun hnot => hnot hr) ht

theorem orderly_of_open? {config : QueueConfig} {hooks : List Hook} (h : open? config hooks = some q) :
    q.Orderly := by
  unfold open? at h
  split at h
  · obtain rfl := Option.some.inj h
    exact ⟨.nil, nofun, nofun, nofun⟩
  · simp at h

theorem Reachable.orderly (h : Reachable script q) : q.Orderly := by
  induction h with
  | opened hq => exact orderly_of_open? hq
  | @move q q' hr hm ih =>
    have htrack : Track {} q q' := hm.track hr ih (.inl rfl) (.inl rfl)
    exact htrack.orderly_last

/-- What a new queue has and each shift of an orderly queue keeps, every reachable queue has. -/
theorem Reachable.keeps {P : Queue → Prop} (h : Reachable script q)
    (hopened : ∀ {config : QueueConfig} {hooks : List Hook} {q : Queue},
      open? config hooks = some q → P q)
    (hshift : ∀ {a b : Queue}, a.Orderly → Shift {} a b → P a → P b) : P q := by
  induction h with
  | opened hq => exact hopened hq
  | move hr hm ih => exact (hm.track hr hr.orderly (.inl rfl) (.inl rfl)).keeps hshift ih

theorem Attended.forsaken_eq (h : Attended script q) : q.flow.journal.forsaken = [] := by
  induction h with
  | opened hq =>
    unfold open? at hq
    split at hq
    · obtain rfl := Option.some.inj hq
      rfl
    · contradiction
  | @move q q' ha hm hstays ih =>
    have htrack : Track { isLossy := false } q q' :=
      hm.track ha.reachable ha.reachable.orderly (.inr hstays) (.inl rfl)
    exact htrack.keeps (P := fun q => q.flow.journal.forsaken = [])
      (fun _ hs hnone => (hs.forsaken_eq rfl).trans hnone) ih

end CoalescingQueue.Queue
