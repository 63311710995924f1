import CoalescingQueue.Metrics
import CoalescingQueue.Proofs.Backpressure
import CoalescingQueue.Proofs.Barrier

/-!
# What a producer is told

A call from outside that offers one request is answered at once: it is refused if the queue has
stopped, it waits if no slot is free, and otherwise its request is the last in the buffer. While the
queue is paused nobody who waits has a slot, so announcing the offer settles nothing. All this is
said where nobody listens to the log, and calls that are made by a run are not looked at.
-/
namespace CoalescingQueue

/-! ## What offers leave behind -/

/-- Everything in which an offer can leave something. -/
structure Ledger where
  name : String
  mailbox : Mailbox
  stats : Stats
  samples : List Sample
  entries : List (Option Nat × Request)

def Queue.ledger (q : Queue) : Ledger where
  name := q.config.name
  mailbox := q.mailbox
  stats := q.stats
  samples := q.samples
  entries := q.flow.journal.entries

/-- What an offer leaves behind, for each answer to it. -/
inductive Ledger.Books (caller : Caller) (r : Request) (l : Ledger) : Reply → Ledger → Prop
  | noHandle : Books caller r l .noHandle l
  | refused : Books caller r l .refused l
  /-- The call is the last of those that wait, and it is counted. -/
  | pending (ticket : Nat) : Books caller r l (.pending ticket) { l with
      mailbox := l.mailbox.enlist { ticket, request := r, caller }
      stats := { l.stats with enqueued := l.stats.enqueued + 1 } }
  /-- The request is the last in the mailbox, and it is counted. -/
  | accepted : Books caller r l .accepted { l with
      mailbox := { l.mailbox with
        buffer := l.mailbox.buffer ++ [r]
        free := l.mailbox.free - 1 }
      stats := { l.stats with enqueued := l.stats.enqueued + 1 }
      samples := l.samples ++ [⟨l.name, .enqueued⟩]
      entries := l.entries ++ [(none, r)] }

namespace Queue

variable {script : WorkScript} {terms : Terms} {q q' : Queue} {a b : Bool × Queue}

theorem samples_append (q q' : Queue) {facts : History} (hname : q'.config.name = q.config.name)
    (hjournal : q'.flow.journal = q.flow.journal ++ facts) : q'.samples =
      q.samples ++ (facts.gather Fact.measurement?).map (⟨q.config.name, ·⟩) := by
  show (q'.flow.journal.gather Fact.measurement?).map _ = _
  rw [hjournal, History.gather_append, List.map_append, hname]
  rfl

/-- A ledger is not changed by facts that are neither of an entry nor measured. -/
theorem ledger_push (q : Queue) {f : Fact}
    (hf : f.admitted? = none ∧ f.accepted? = none ∧ f.measurement? = none) :
    { q with journal := q.journal.push f }.ledger = q.ledger := by
  let q' : Queue := { q with journal := q.journal.push f }
  have hjournal : q'.flow.journal = q.flow.journal ++ [f] := Array.toList_push ..
  have hsamples : q'.samples = q.samples := by
    rw [samples_append q q' rfl hjournal, History.gather_cons, hf.2.2]
    exact List.append_nil _
  have hentries : q'.flow.journal.entries = q.flow.journal.entries := by
    rw [hjournal]
    exact History.entries_append_unrelated _ (by simpa using ⟨hf.1, hf.2.1⟩)
  show Ledger.mk _ _ _ q'.samples q'.flow.journal.entries = _
  rw [hsamples, hentries]
  rfl

theorem Offered.books {caller : Caller} {r : Request} {outcome : Reply × Queue}
    (h : Offered q caller r outcome) : q.ledger.Books caller r outcome.1 outcome.2.ledger := by
  cases h with
  | refused => exact .refused
  | accepted line =>
    let q' : Queue := { q with journal := q.journal.push (.admitted r) }
    have hjournal : q'.flow.journal = q.flow.journal ++ [.admitted r] := Array.toList_push ..
    have hsamples : q'.samples = q.samples ++ [⟨q.config.name, .enqueued⟩] :=
      samples_append q q' rfl hjournal
    have hentries : q'.flow.journal.entries = q.flow.journal.entries ++ [(none, r)] := by
      rw [hjournal]
      exact History.entries_concat _ rfl
    show q.ledger.Books caller r .accepted (Ledger.mk _ _ _ q'.samples q'.flow.journal.entries)
    rw [hsamples, hentries]
    exact .accepted
  | pending line => exact .pending _

theorem hasHandle_offer (q : Queue) (caller : Caller) (r : Request) :
    (q.offer caller r).2.hasHandle = q.hasHandle := by
  have ho := q.offered caller r
  generalize q.offer caller r = outcome at ho ⊢
  cases ho <;> rfl

theorem wakeIfAbandoned_of_hasHandle (h : q.hasHandle = true) : q.wakeIfAbandoned = q := by
  have hheld : q.isAbandoned ≠ true := by simp [isAbandoned, h]
  rw [Queue.wakeIfAbandoned, if_neg hheld]

theorem isStopped_iff :
    q.isStopped = true ↔ q.isCancelled = true ∨ q.mailbox.isClosed = true := by
  rw [isStopped, Bool.or_eq_true]

theorem isStopped_eq_false_iff : q.isStopped = false ↔ q.IsGoing := by
  rw [isStopped, Bool.or_eq_false_iff]
  exact ⟨fun h => ⟨h.1, h.2⟩, fun h => ⟨h.1, h.2⟩⟩

/-! ## While the queue is paused -/

/-- Nobody has a turn, and whoever waits has no slot and waits at an open mailbox. -/
structure IsPaused (q : Queue) : Prop where
  turn_eq : q.turn = none
  hasSlot_eq : ∀ w ∈ q.mailbox.waiting, w.hasSlot = false
  isClosed_eq : ∀ w ∈ q.mailbox.waiting, q.mailbox.isClosed = false

theorem IsPaused.congr (h : q.IsPaused) (hturn : q'.turn = q.turn)
    (hclosed : q'.mailbox.isClosed = q.mailbox.isClosed)
    (hwaiting : ∀ w ∈ q'.mailbox.waiting, w ∈ q.mailbox.waiting) : q'.IsPaused :=
  ⟨hturn.trans h.turn_eq, fun w hw => h.hasSlot_eq w (hwaiting w hw),
    fun w hw => hclosed.trans (h.isClosed_eq w (hwaiting w hw))⟩

/-- Whoever goes away has no slot to pass on. -/
theorem IsPaused.leave (h : q.IsPaused) {w : Waiter} (hw : w ∈ q.mailbox.waiting) (f : Fact) :
    ((q.leave w).note f).IsPaused := by
  obtain ⟨more, heq⟩ := q.leave_more w
  rw [h.hasSlot_eq w hw, Bool.false_and, if_neg Bool.false_ne_true] at heq
  rw [heq]
  exact h.congr rfl rfl fun v hv => (Mailbox.mem_of_mem_dismiss hv).1

/-- Unless somebody is given a turn, the queue stays paused. -/
theorem Shift.isPaused (h : Shift terms q q') (hturning : terms.isTurning = false)
    (hi : q.IsPaused) : q'.IsPaused := by
  have hsame : ∀ w ∈ q.mailbox.waiting, w ∈ q.mailbox.waiting := fun _ hw => hw
  have hnobody {p : Party} (hturn : q.turn = some p) : False := nomatch hi.turn_eq.symm.trans hturn
  cases h with
  | record | remark | tick | await | clone | prepare | announce => exact hi.congr rfl rfl hsame
  | call hterms =>
    rw [hturning] at hterms
    contradiction
  | rest hturn | proceed hturn | finish hturn | go hturn | desert hturn | take hturn | launch hturn
  | breakDown hturn | close hturn => exact (hnobody hturn).elim
  | wake =>
    obtain ⟨more, heq⟩ := q.enqueue_more .run
    rw [heq]
    exact hi.congr rfl rfl hsame
  | @put r mailbox hheld hopen hput =>
    obtain ⟨more, heq⟩ := wakeDispatcher_more ({ q with mailbox }.note (.admitted r))
    obtain rfl := Mailbox.eq_of_put? hput
    rw [heq]
    exact hi.congr rfl rfl hsame
  | @enlist w hheld hopen hput hticket hslot =>
    obtain ⟨more, heq⟩ := q.lineUp_more w
    rw [heq]
    refine ⟨hi.turn_eq, fun v hv => ?_, fun _ _ => hopen⟩
    rcases List.mem_append.mp hv with hold | hnew
    · exact hi.hasSlot_eq v hold
    · rw [List.mem_singleton.mp hnew]
      exact hslot
  | @join w hopen hw hslot =>
    rw [hi.hasSlot_eq w hw] at hslot
    contradiction
  | withdraw hw | forsake _ hw => exact hi.leave hw _
  | cancel =>
    obtain ⟨more, heq⟩ := wakeAll_more { q with isCancelled := true }
    rw [heq]
    exact hi.congr rfl rfl hsame
  | permit n =>
    obtain ⟨more, heq⟩ := q.releasePermits_more n
    rw [heq]
    exact hi.congr rfl rfl hsame
  | drop handle =>
    obtain ⟨more, heq⟩ := q.drop_more handle
    rw [heq]
    exact hi.congr rfl rfl hsame
  | @offered e todo replies =>
    obtain ⟨more, heq⟩ := wakeIfAbandoned_more
      { q with errand := some { e with todo, isAnnounced := false, replies } }
    rw [heq]
    exact hi.congr rfl rfl hsame

theorem Reachable.isPaused (h : Reachable script q) (hr : q.AtRest script) : q.IsPaused :=
  ⟨hr.isStill.turn_eq, fun _ hw => (h.isStuck hr hw).hasSlot_eq,
    fun _ hw => (h.isStuck hr hw).isClosed_eq⟩

theorem Drive.isPaused (h : Drive script a b) (hr : Reachable script a.2)
    (hi : a.1 = true → a.2.IsPaused) (hpaused : b.1 = true) : b.2.IsPaused := by
  have hrefl : Track { isTurning := false } a.2 a.2 := .refl hr.orderly
  have hkeeps {q : Queue} (htrack : Track { isTurning := false } a.2 q) (hi : a.2.IsPaused) :
      q.IsPaused := htrack.keeps (fun _ hs hi => hs.isPaused rfl hi) hi
  cases h with
  | @act q hf a =>
    refine hkeeps ?_ (hi rfl)
    exact track_begin (track_record hrefl q.stats .nothing q.published q.calls) hf.errand_eq nofun a
  | abandon hf ticket => exact hkeeps (track_abandon hrefl rfl ticket) (hi rfl)
  | attend ha => exact hkeeps (track_attend? hrefl rfl nofun ha) (hi hpaused)
  | pause hrest => exact hr.isPaused hrest
  | turn | wake | wait => contradiction

theorem DrivenFromNew.isPaused {P : Queue → Prop} (h : DrivenFromNew script P b)
    (hpaused : b.1 = true) : b.2.IsPaused := by
  obtain ⟨config, hooks, q₀, hq₀, hrun⟩ := h
  induction hrun with
  | refl =>
    unfold open? at hq₀
    split at hq₀
    · obtain rfl := Option.some.inj hq₀
      exact ⟨rfl, nofun, nofun⟩
    · contradiction
  | tail hrun hd ih => exact hd.2.isPaused (.later (.opened hq₀) (Driven.later hrun)) ih hpaused

/-- Where no thread's call is decided, threads have nothing to settle. -/
theorem settleThreads_of_undecided
    (h : ∀ w ∈ q.mailbox.waiting, w.caller = .thread → q.decide? w = none) :
    q.settleThreads = q := by
  unfold settleThreads
  generalize q.mailbox.waiting = ws at h
  induction ws with
  | nil => rfl
  | cons w ws ih =>
    rw [List.forall_mem_cons] at h
    have hstill : (if w.caller = .thread then q.settleWaiter w else q) = q := by
      split
      · next hthread => rw [settleWaiter, h.1 hthread]
      · rfl
    rw [List.foldl_cons, hstill]
    exact ih h.2

theorem IsPaused.settleThreads (h : q.IsPaused) : q.settleThreads = q := by
  refine settleThreads_of_undecided fun w hw hthread => ?_
  unfold decide?
  rw [hthread, h.isClosed_eq w hw, h.hasSlot_eq w hw]
  rfl

/-- Where nobody listens and threads have nothing to settle, the log grows and nothing else
happens. -/
theorem emit_of_settled {e : Event} {span : Option Span} (hhooks : q.hooks = [])
    (hsettled : (q.note (.logged ⟨e, span⟩)).settleThreads = q.note (.logged ⟨e, span⟩)) :
    q.emit e span = q.note (.logged ⟨e, span⟩) := by
  have hsame : { q with
      hooks := q.hooks.map (·.notice e)
      due := q.due ++ q.hooks.flatMap (·.due e) } = q := by
    rw [hhooks, List.map_nil, List.flatMap_nil, List.append_nil, ← hhooks]
  unfold Queue.emit
  dsimp only
  rw [hsame]
  exact hsettled

theorem IsPaused.emit (h : q.IsPaused) (hhooks : q.hooks = []) (e : Event) (span : Option Span) :
    q.emit e span = q.note (.logged ⟨e, span⟩) :=
  emit_of_settled hhooks (IsPaused.settleThreads (h.congr rfl rfl fun _ hw => hw))

/-! ## Calls from outside -/

/-- A request is announced, and nothing else happens. -/
theorem stepErrand_announce {e : Errand} {r : Request} {rest : List Request} (hp : q.IsPaused)
    (hhooks : q.hooks = []) (hc : q.isCancelled = false) (hholds : q.holds e.handle = true)
    (htodo : e.todo = r :: rest) (hnew : e.isAnnounced = false) : q.stepErrand e =
      { q with errand := some { e with isAnnounced := true } }.note
        (.logged ⟨.offered r, none⟩) := by
  have hturn : q.turn ≠ some .run := fun hrun => nomatch hp.turn_eq.symm.trans hrun
  unfold stepErrand
  rw [htodo]
  dsimp only
  rw [if_neg (by simp [hnew]), if_neg (by simp [hholds]), if_neg (by simp [hc]), if_neg hturn]
  have hp' : { q with errand := some { e with todo := r :: rest, isAnnounced := true } }.IsPaused :=
    hp.congr rfl rfl fun _ hw => hw
  exact hp'.emit hhooks _ none

/-- A request that was announced is offered, while somebody holds a handle. -/
theorem stepErrand_offer {e : Errand} {r : Request} {rest : List Request} {reply : Reply}
    (htodo : e.todo = r :: rest) (hannounced : e.isAnnounced = true)
    (hheld : q.hasHandle = true) (hoffer : q.offer e.caller r = (reply, q')) :
    q.stepErrand e = { q' with errand := some { e with
      todo := rest
      isAnnounced := false
      replies := e.replies ++ [reply] } } := by
  have hkept : q'.hasHandle = q.hasHandle := by
    rw [← q.hasHandle_offer e.caller r, hoffer]
  unfold stepErrand
  rw [htodo]
  dsimp only
  rw [if_pos hannounced, hoffer]
  exact wakeIfAbandoned_of_hasHandle (hkept.trans hheld)

/-- From outside, the reply goes back to the caller. -/
theorem stepErrand_answer {e : Errand} (hturn : q.turn = none) (htodo : e.todo = []) :
    q.stepErrand e = { q with errand := none, reply := Errand.reply e } := by
  have hrun : q.turn ≠ some .run := fun hrun => nomatch hturn.symm.trans hrun
  unfold stepErrand
  rw [htodo]
  dsimp only
  rw [answer, if_neg hrun]

variable (script) in
/-- A request that is offered from outside is announced, offered and answered. -/
theorem act_of_going {a : Action} {caller : Caller} {handle : Nat} {r : Request}
    (ha : OffersOne a caller handle r) (hp : q.IsPaused) (hf : q.IsFree) (hhooks : q.hooks = [])
    (hc : q.isCancelled = false) (hholds : q.holds handle = true) :
    ∃ errand reply q', Offered { q with
        reply := .nothing
        errand
        journal := q.journal.push (.logged ⟨.offered r, none⟩) } caller r (reply, q') ∧
      q.act script a = (reply, { q' with reply, errand := none }) := by
  let e : Errand := { action := a, caller, handle, todo := [r] }
  let begun : Queue := { q with reply := .nothing, errand := some e }
  let announced : Queue := { q with
    reply := .nothing
    errand := some { e with isAnnounced := true }
    journal := q.journal.push (.logged ⟨.offered r, none⟩) }
  obtain ⟨reply, q', hoffer⟩ : ∃ reply q', announced.offer caller r = (reply, q') := ⟨_, _, rfl⟩
  let done : Errand := { e with todo := [], replies := [reply] }
  have hscene : q'.scene = announced.scene := by
    rw [← scene_offer announced caller r, hoffer]
  have hturn : q'.turn = none := (congrArg Scene.turn hscene).trans hf.turn_eq
  have hdue : q'.due = [] := (congrArg Scene.due hscene).trans hf.due_eq
  have hpaused : begun.IsPaused := hp.congr rfl rfl fun _ hw => hw
  have hheld : announced.hasHandle = true := hasHandle_of_holds (q := q) hholds
  have hfirst : begun.attend? = some announced :=
    attend?_of_errand (e := e) hf.due_eq rfl
      (stepErrand_announce (e := e) hpaused hhooks hc hholds rfl rfl)
  have hsecond : announced.attend? = some { q' with errand := some done } :=
    attend?_of_errand hf.due_eq rfl (stepErrand_offer rfl rfl hheld hoffer)
  have hanswer : stepErrand { q' with errand := some done } done =
      { q' with reply, errand := none } :=
    (stepErrand_answer (e := done) hturn rfl).trans (by rw [ha.reply_eq])
  have hthird : attend? { q' with errand := some done } =
      some { q' with reply, errand := none } := attend?_of_errand hdue rfl hanswer
  have hlast : attend? { q' with reply, errand := none } = none :=
    IsFree.attend? ⟨hturn, rfl, hdue⟩
  refine ⟨_, reply, q', hoffer ▸ announced.offered caller r, ?_⟩
  unfold act
  dsimp only
  rw [ha.begin_eq]
  obtain ⟨n, hn⟩ := Nat.exists_eq_add_of_le' (eight_le_patience script begun)
  show ((iterate attend? (begun.patience script) begun).reply,
    iterate attend? (begun.patience script) begun) = _
  rw [hn, iterate_succ hfirst, iterate_succ hsecond, iterate_succ hthird, iterate_atRest hlast]

/-- What a call from outside that offers one request is told, and what it leaves behind. -/
structure Answered (q : Queue) (caller : Caller) (r : Request) (reply : Reply) (q' : Queue) :
    Prop where
  refused_iff : reply = .refused ↔ q.isStopped = true
  pending_iff : (∃ ticket, reply = .pending ticket) ↔ q.isStopped = false ∧ q.mailbox.free = 0
  accepted_iff : reply = .accepted ↔ q.isStopped = false ∧ 0 < q.mailbox.free
  books : q.ledger.Books caller r reply q'.ledger
  /-- A call that is refused changes nothing but the log. -/
  refused : reply = .refused → q' = { q with reply := .refused, journal := q'.journal }

theorem answered_refused {caller : Caller} {r : Request} (journal : Array Fact)
    (hstopped : q.isStopped = true)
    (hledger : { q with reply := .refused, journal }.ledger = q.ledger) :
    Answered q caller r .refused { q with reply := .refused, journal } := by
  have hgone {P : Prop} (h : q.isStopped = false ∧ P) : False :=
    Bool.false_ne_true (h.1.symm.trans hstopped)
  refine ⟨⟨fun _ => hstopped, fun _ => rfl⟩, ⟨nofun, fun h => (hgone h).elim⟩,
    ⟨nofun, fun h => (hgone h).elim⟩, ?_, fun _ => rfl⟩
  rw [hledger]
  exact .refused

/-- A producer is told what becomes of its request. -/
theorem answered {a : Action} {caller : Caller} {handle : Nat} {r : Request}
    (ha : OffersOne a caller handle r) (hp : q.IsPaused) (hf : q.IsFree) (hhooks : q.hooks = [])
    (hholds : q.holds handle = true) :
    Answered q caller r (q.act script a).1 (q.act script a).2 := by
  cases hc : q.isCancelled with
  | true =>
    rw [act_of_cancelled ha hc hf hholds]
    exact answered_refused q.journal (isStopped_iff.mpr (.inl hc)) rfl
  | false =>
    obtain ⟨errand, reply, q', hoffered, hact⟩ := act_of_going script ha hp hf hhooks hc hholds
    have hlogged := q.ledger_push (f := .logged ⟨.offered r, none⟩) ⟨rfl, rfl, rfl⟩
    have hbooks : q.ledger.Books caller r reply q'.ledger := hlogged ▸ hoffered.books
    have hopen (hgoing : ¬ q.Refuses caller) : q.isStopped = false :=
      isStopped_eq_false_iff.mpr ⟨hc, Bool.eq_false_iff.mpr fun hclosed => hgoing (.inr hclosed)⟩
    rw [hact]
    cases hoffered with
    | refused hrefused =>
      have hclosed : q.mailbox.isClosed = true :=
        hrefused.resolve_left fun h => Bool.false_ne_true (hc.symm.trans h.2)
      have hidle (journal : Array Fact) : { q with reply := .refused, journal, errand := none } =
          { q with reply := .refused, journal } := by
        rw [← hf.errand_eq]
      dsimp only
      rw [hidle]
      exact answered_refused _ (isStopped_iff.mpr (.inr hclosed)) hlogged
    | accepted line hgoing hroom =>
      have hstopped := hopen hgoing
      refine ⟨⟨nofun, fun h => ?_⟩, ⟨nofun, fun h => ?_⟩,
        ⟨fun _ => ⟨hstopped, hroom⟩, fun _ => rfl⟩, hbooks, nofun⟩
      · exact absurd (hstopped.symm.trans h) Bool.false_ne_true
      · exact absurd h.2 (Nat.pos_iff_ne_zero.mp hroom)
    | pending line hgoing hfull =>
      have hstopped := hopen hgoing
      refine ⟨⟨nofun, fun h => ?_⟩, ⟨fun _ => ⟨hstopped, hfull⟩, fun _ => ⟨_, rfl⟩⟩,
        ⟨nofun, fun h => ?_⟩, hbooks, nofun⟩
      · exact absurd (hstopped.symm.trans h) Bool.false_ne_true
      · exact absurd hfull (Nat.pos_iff_ne_zero.mp h.2)

end Queue
end CoalescingQueue
