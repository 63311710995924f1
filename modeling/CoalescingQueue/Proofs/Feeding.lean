import CoalescingQueue.Console.Foreground
import CoalescingQueue.Proofs.Pauses

/-!
# What a program feeds to its queue

Whatever a program offers to a queue that it drives by itself is taken: at once while there is room,
and otherwise as soon as the run in flight has ended, because then the dispatcher takes all that is
buffered. So the program comes through every row of requests, and the queue has then been offered,
and has taken in, what was in the row, each request once and in order. Letting some time pass loses
nothing either, and after a cancellation the queue comes to its end with the run in flight.
-/
namespace CoalescingQueue
namespace Queue

open Console (Simulation)

variable {s : Simulation} {q q' : Queue} {announced submitted : List Request} {limit : Nat}

/-- Where the program may go on after it has announced some requests and submitted some. -/
structure Fed (s : Simulation) (announced submitted : List Request) (q : Queue) : Prop
    extends Steered s q where
  going : q.isCancelled = false
  offered_eq : q.flow.journal.offered = announced
  /-- They have entered, apart from the call that waits. -/
  submitted_eq : q.flow.journal.arrivals ++ q.requests = submitted
  forsaken_eq : q.flow.journal.forsaken = []

/-- These requests, and no others, were offered to the queue, and all of them have entered. -/
structure Submitted (rs : List Request) (q : Queue) : Prop where
  offered_eq : q.flow.journal.offered = rs
  arrivals_eq : q.flow.journal.arrivals = rs
  enqueued_eq : q.stats.enqueued = rs.length

/-- A request enters at once. -/
def accept (q : Queue) (r : Request) : Queue :=
  { q with
    stats := q.stats.countOffer
    mailbox := { q.mailbox.append r with free := q.mailbox.free - 1 }
    journal := q.journal.push (.admitted r)
    line := woken q.phase q.line }

/-- The program waits for room. -/
def defer (q : Queue) (r : Request) : Queue :=
  { q with
    stats := q.stats.countOffer
    tickets := q.tickets + 1
    mailbox := q.mailbox.enlist { ticket := q.tickets, request := r, caller := .foreground } }

theorem eq_of_open? {config : QueueConfig} (h : open? config = some q) :
    q = { config, mailbox := { free := config.capacity } } := by
  unfold open? at h
  split at h
  · exact (Option.some.inj h).symm
  · contradiction

theorem steered_of_open? {config : QueueConfig} (h : open? config = some q) : q.Steered s := by
  have hpacked := packed_of_open? h
  have halert := alert_of_open? h
  obtain rfl := eq_of_open? h
  refine ⟨⟨rfl, rfl, rfl, rfl, rfl, fun _ hw => absurd hw List.not_mem_nil, ?_,
    ⟨config.capacity, .refl (Flow.tidy_opened _)⟩, ⟨nofun, fun _ => rfl⟩, hpacked, halert, rfl,
    trivial, nofun, nofun⟩, rfl, nofun⟩
  rintro ticket (hturn | hmem)
  · contradiction
  · cases List.mem_singleton.mp hmem

theorem fed_of_open? {config : QueueConfig} (h : open? config = some q) : q.Fed s [] [] := by
  have hsteered := steered_of_open? (s := s) h
  obtain rfl := eq_of_open? h
  exact ⟨hsteered, rfl, rfl, rfl, rfl⟩

/-- As long as it is not cancelled, it takes requests. -/
theorem Tended.isClosed_eq (h : q.Tended s) (hc : q.isCancelled = false) :
    q.mailbox.isClosed = false := by
  have hclosed := h.flow.posture.isClosed_eq
  have hsuits := h.suits
  rw [hc] at hsuits
  refine hclosed.trans ?_
  show q.phase.isOver = false
  cases hphase : q.phase <;> simp_all [Phase.suits, Phase.isOver]

theorem requests_eq_of_undisturbed (h : q.Undisturbed q') : q'.requests = q.requests := by
  rw [requests, requests, h.calls_eq]

theorem waiting_eq_nil_iff : q.mailbox.waiting = [] ↔ q.mailbox.calls = [] :=
  List.map_eq_nil_iff.symm

/-- What happens by itself takes nothing away and adds nothing. -/
theorem Fed.of_drifts (h : q.Fed s announced submitted) (hd : Drifts s q q') (hs : q'.Steered s) :
    q'.Fed s announced submitted := by
  have hsame := hd.undisturbed h.toTended
  refine ⟨hs, hsame.isCancelled_eq.trans h.going, hsame.offered_eq.trans h.offered_eq, ?_,
    hsame.forsaken_eq.trans h.forsaken_eq⟩
  rw [hsame.arrivals_eq, requests_eq_of_undisturbed hsame]
  exact h.submitted_eq

theorem Drifts.waiting_eq_nil (hd : Drifts s q q') (h : q.Tended s) (hw : q.mailbox.waiting = []) :
    q'.mailbox.waiting = [] := by
  rw [waiting_eq_nil_iff, (hd.undisturbed h).calls_eq, ← waiting_eq_nil_iff]
  exact hw

/-! ## What the program does -/

theorem Steered.emit_aside (h : q.Steered s) {e : Event} (he : e.isAside = true) :
    (q.emit e).Steered s := by
  obtain ⟨capacity, hcourse⟩ := h.flow
  have hflow : (q.emit e).flow.Reachable s.work := ⟨capacity, course_emit_aside hcourse he⟩
  rw [h.emit] at hflow ⊢
  exact h.act h.callers hflow h.packed id (List.Subset.refl _) (fun _ => .inl)
    fun _ => .inr ⟨rfl, rfl⟩

section Fed

variable (h : q.Fed s announced submitted)
include h

theorem Fed.emit_aside {e : Event} (he : e.isAside = true) :
    (q.emit e).Fed s (announced ++ (Fact.logged ⟨e, none⟩).offered?.toList) submitted := by
  have hsteered := h.toSteered.emit_aside he
  rw [h.emit] at hsteered ⊢
  have hnone {α : Type} (kind : Fact → Option α) (hkind : kind (.logged ⟨e, none⟩) = none) :
      (q.logged e).flow.journal.gather kind = q.flow.journal.gather kind :=
    (congrArg _ Array.toList_push).trans (History.gather_concat_of_eq_none _ hkind)
  refine ⟨hsteered, h.going, ?_, ?_, (hnone _ rfl).trans h.forsaken_eq⟩
  · rw [← h.offered_eq]
    show History.gather _ (q.journal.push _).toList = _
    rw [Array.toList_push, History.gather_append, History.gather_cons, History.gather_nil,
      List.append_nil]
    rfl
  · refine (congrArg (· ++ q.requests) (hnone _ rfl)).trans h.submitted_eq

theorem Fed.announce (r : Request) : (q.emit (.offered r)).Fed s (announced ++ [r]) submitted :=
  h.emit_aside (e := .offered r) rfl

theorem Fed.submitting (ids : List String) :
    (q.emit (.submitting ids)).Fed s announced submitted := by
  have hemit := h.emit_aside (e := .submitting ids) rfl
  rwa [show (Fact.logged ⟨.submitting ids, none⟩).offered?.toList = [] from rfl,
    List.append_nil] at hemit

theorem Fed.offer_of_pos (hfree : 0 < q.mailbox.free) (r : Request) :
    q.offer .foreground r = (.accepted, q.accept r) := by
  have hopen := h.isClosed_eq h.going
  unfold offer Mailbox.put?
  rw [if_neg (by simp [h.going, hopen])]
  dsimp only
  rw [if_pos hfree]
  dsimp only
  rw [wakeDispatcher_eq_woken (by exact h.turn_eq)]
  rfl

theorem Fed.offer_of_eq_zero (hfull : q.mailbox.free = 0) (r : Request) :
    q.offer .foreground r = (.pending q.tickets, q.defer r) := by
  have hopen := h.isClosed_eq h.going
  unfold offer Mailbox.put?
  rw [if_neg (by simp [h.going, hopen])]
  dsimp only
  rw [if_neg (by omega)]
  rfl

theorem Fed.accept (hfree : 0 < q.mailbox.free) (hw : q.mailbox.waiting = []) (r : Request) :
    (q.accept r).Fed s announced (submitted ++ [r]) := by
  obtain ⟨capacity, hcourse⟩ := h.flow
  have hflow : (q.offer .foreground r).2.flow.Reachable s.work :=
    ⟨capacity, course_offer hcourse .foreground r⟩
  rw [h.offer_of_pos hfree] at hflow
  have hput : q.mailbox.put? r = some { q.mailbox.append r with free := q.mailbox.free - 1 } :=
    if_pos hfree
  have hsteered : (q.accept r).Steered s := by
    refine h.act h.callers hflow (fun hopen => (h.packed hopen).put hput) id (subset_woken _ _)
      (fun _ => of_mem_woken) fun hphase => .inl ?_
    rw [hphase]
    exact dispatcher_mem_woken _
  have hnone : q.requests = [] := requests_eq_nil hw
  refine ⟨hsteered, h.going, ?_, ?_, ?_⟩
  · rw [← h.offered_eq]
    simp [Queue.accept, flow]
  · rw [← h.submitted_eq, hnone, List.append_nil,
      requests_eq_nil (q := q.accept r) hw]
    simp [Queue.accept, flow]
  · rw [← h.forsaken_eq]
    simp [Queue.accept, flow]

theorem Fed.defer (hfull : q.mailbox.free = 0) (r : Request) :
    (q.defer r).Fed s announced (submitted ++ [r]) := by
  obtain ⟨capacity, hcourse⟩ := h.flow
  have hflow : (q.offer .foreground r).2.flow.Reachable s.work :=
    ⟨capacity, course_offer hcourse .foreground r⟩
  rw [h.offer_of_eq_zero hfull] at hflow
  have hput : q.mailbox.put? r = none := if_neg (by omega)
  have hcallers : ∀ w ∈ (q.defer r).mailbox.waiting, w.caller = .foreground := by
    intro w hmem
    rcases List.mem_append.mp hmem with hold | hnew
    · exact h.callers w hold
    · rw [List.mem_singleton.mp hnew]
  have hsteered : (q.defer r).Steered s :=
    h.act hcallers hflow (fun hopen => (h.packed hopen).enlist hput rfl) id (List.Subset.refl _)
      (fun _ => .inl) fun _ => .inr ⟨rfl, rfl⟩
  refine ⟨hsteered, h.going, h.offered_eq, ?_, h.forsaken_eq⟩
  rw [← h.submitted_eq]
  simp [Queue.defer, flow, requests, Mailbox.calls, Mailbox.enlist]

/-- The call that has waited goes on. -/
theorem Fed.enter {w : Waiter} (hw : q.mailbox.waiting = [w]) (hslot : w.hasSlot = true) :
    q.decide? w = some (.accepted, q.enter w) ∧ (q.enter w).Fed s announced submitted ∧
      (q.enter w).mailbox.waiting = [] := by
  have hopen := h.isClosed_eq h.going
  have hdecide : q.decide? w = some (.accepted, q.enter w) := by
    unfold decide?
    rw [if_neg (by simp [h.going, hopen]), if_pos hslot]
  have hmem : w ∈ q.mailbox.waiting := hw ▸ List.mem_singleton_self w
  have hgone : (q.mailbox.dismiss w.ticket).waiting = [] := by
    simp [Mailbox.dismiss, hw]
  obtain ⟨capacity, hcourse⟩ := h.flow
  have hflow : (q.enter w).flow.Reachable s.work := ⟨capacity, course_decide hcourse hmem hdecide⟩
  have henter : q.enter w = { q with
      mailbox := (q.mailbox.dismiss w.ticket).append w.request
      journal := q.journal.push (.admitted w.request)
      line := woken q.phase q.line } := by
    unfold Queue.enter
    rw [wakeDispatcher_eq_woken (by exact h.turn_eq)]
    rfl
  have hfits (hclosed : q.mailbox.isClosed = false) :
      ((q.mailbox.dismiss w.ticket).append w.request).Fits q.config.capacity := by
    have hpacked := h.packed hclosed
    have hjoined := (hpacked.dismiss (h.flow.tidy.nodup) hmem).append (r := w.request)
    rwa [hslot, if_pos rfl, Nat.sub_add_cancel (hpacked.pos_of_mem hmem hslot)] at hjoined
  rw [henter] at hflow
  have hsteered : (q.enter w).Steered s := by
    rw [henter]
    refine h.act (fun v hv => ?_) hflow hfits id (subset_woken _ _) (fun _ => of_mem_woken)
      fun hphase => .inl ?_
    · exact absurd (hgone ▸ hv : v ∈ []) List.not_mem_nil
    · rw [hphase]
      exact dispatcher_mem_woken _
  refine ⟨hdecide, ?_, by rw [henter]; exact hgone⟩
  rw [henter] at hsteered ⊢
  refine ⟨hsteered, h.going, ?_, ?_, ?_⟩
  · rw [← h.offered_eq]
    simp [flow]
  · rw [← h.submitted_eq, requests_eq_nil (by exact hgone)]
    simp [flow, requests, Mailbox.calls, hw]
  · rw [← h.forsaken_eq]
    simp [flow]

end Fed

/-- Once the run in flight has ended, nothing is left in the buffer of a queue that goes on. -/
theorem Tended.buffer_eq_nil (h : q.Tended s) (hr : q.AtRest s.work)
    (hgoing : q.isCancelled = false) (hclear : q.ClearsBy q.now) : q.mailbox.buffer = [] := by
  rcases hclear with hbuffer | hends
  · exact hbuffer
  · rcases h.lull hr with ⟨-, -, hbuffer, -⟩ | ⟨-, hrun, hstage, hlater⟩ | ⟨-, hover, -⟩
    · exact hbuffer
    · have hdue := hends _ hrun
      rw [hstage] at hdue
      exact absurd hlater (Nat.not_lt_of_le hdue)
    · exact absurd (hgoing.symm.trans hover) Bool.false_ne_true

/-- The run that sleeps ends once it wakes up. -/
theorem endsBy_of_deadline? {deadline : Nat} (hd : q.deadline? = some deadline) :
    q.EndsBy deadline := by
  intro run hrun
  obtain ⟨run', hrun', hstage⟩ := deadline?_eq_some.mp hd
  obtain rfl := Option.some.inj (hrun.symm.trans hrun')
  rw [hstage]
  exact le_rfl

/-- The clock jumps to the time at which the run wakes up, and everything settles. -/
theorem Tended.jump (h : q.Tended s) (hr : q.AtRest s.work) {deadline : Nat}
    (hd : q.deadline? = some deadline) :
    Drifts s q ((q.wakeRunAt deadline).settle s.work) ∧
      (q.wakeRunAt deadline).Tended s ∧ (q.wakeRunAt deadline).now = deadline := by
  have hwake : Drift s q (q.wakeRunAt deadline) := .wake hr hd
  refine ⟨.head hwake (drifts_settle s _), hwake.tended h, ?_⟩
  rw [wakeRunAt_eq_joined]
  exact Nat.max_eq_right (h.lt_deadline hr hd).le

theorem Drifts.exists_waiting (hd : Drifts s q q') (h : q.Tended s) {w : Waiter}
    (hw : q.mailbox.waiting = [w]) : ∃ v, q'.mailbox.waiting = [v] ∧ v.ticket = w.ticket := by
  have hcalls := (hd.undisturbed h).calls_eq
  rw [Mailbox.calls, Mailbox.calls, hw] at hcalls
  obtain ⟨v, hv, hsame⟩ := List.map_eq_singleton_iff.mp hcalls
  exact ⟨v, hv, (Waiter.mk.inj hsame).1⟩

/-- Whoever waits while nothing is buffered was given a slot. -/
theorem Fed.hasSlot_eq (h : q.Fed s announced submitted) {w : Waiter}
    (hw : q.mailbox.waiting = [w]) (hbuffer : q.mailbox.buffer = []) : w.hasSlot = true := by
  obtain ⟨hslots, hfree⟩ := h.packed (h.isClosed_eq h.going)
  by_contra hslot
  have hslot : w.hasSlot = false := Bool.eq_false_iff.mpr hslot
  have hnone := hfree w (hw ▸ List.mem_singleton_self w) hslot
  have hpromised : q.mailbox.promised = 0 := by
    rw [Mailbox.promised, hw]
    exact List.countP_eq_zero.mpr (by simpa using hslot)
  have hpos := q.config.capacity_pos
  rw [hbuffer, List.length_nil] at hslots
  omega

/-- A cancellation wakes whoever may have something to do now, and is nothing else. -/
theorem cancel_eq (q : Queue) : ∃ line, q.cancel = { q with isCancelled := true, line } := by
  unfold cancel
  split
  · next hc => exact ⟨q.line, by rw [← hc]⟩
  · obtain ⟨line, hline⟩ := wakeDispatcher_eq { q with isCancelled := true }
    obtain ⟨line', hline'⟩ := wakeProducers_eq { q with isCancelled := true, line }
    rw [hline, hline']
    exact ⟨line', rfl⟩

/-- Where nobody waits, all that was fed has entered. -/
theorem Tended.submitted_of (h : q.Tended s) {fed : List Request}
    (hoffered : q.flow.journal.offered = fed) (harrivals : q.flow.journal.arrivals = fed)
    (hforsaken : q.flow.journal.forsaken = []) (hw : q.mailbox.waiting = []) : q.Submitted fed := by
  have hcounted : q.stats.enqueued = _ := h.flow.counted
  rw [Flow.undecided, hforsaken, show q.flow.mailbox.waiting = [] from hw, harrivals] at hcounted
  exact ⟨hoffered, harrivals, hcounted⟩

theorem Fed.submitted_all {fed : List Request} (h : q.Fed s fed fed) (hw : q.mailbox.waiting = []) :
    q.Submitted fed := by
  have harrivals := h.submitted_eq
  rw [requests_eq_nil hw, List.append_nil] at harrivals
  exact h.toTended.submitted_of h.offered_eq harrivals h.forsaken_eq hw

/-- It stays so while a cancelled queue comes to its end. -/
theorem Fed.submitted_of_cancel {fed : List Request} (h : q.Fed s fed fed)
    (hw : q.mailbox.waiting = []) (hd : Drifts s q.cancel q') : q'.Submitted fed := by
  obtain ⟨line, hcancel⟩ := q.cancel_eq
  have hcancelled := h.cancel.toTended
  have hsame := hd.undisturbed hcancelled
  have hnobody : q'.mailbox.waiting = [] :=
    hd.waiting_eq_nil hcancelled (by rw [hcancel]; exact hw)
  obtain ⟨hoffered, harrivals, -⟩ := h.submitted_all hw
  refine (hd.tended hcancelled).submitted_of ?_ ?_ ?_ hnobody
  · rw [hsame.offered_eq, hcancel]
    exact hoffered
  · rw [hsame.arrivals_eq, hcancel]
    exact harrivals
  · rw [hsame.forsaken_eq, hcancel]
    exact h.forsaken_eq

theorem Spent.cancel (h : q.Spent limit) : q.cancel.Spent limit := by
  obtain ⟨line, heq⟩ := q.cancel_eq
  rw [heq]
  exact ⟨h.taken_eq, .inl rfl, h.endsBy⟩

end Queue

namespace Console

open Queue

variable {s : Simulation} {f : Foreground} {fed todo : List Request} {p : Progress} {limit : Nat}

/-- How far a row of requests comes with a queue that takes them all: to its end, or to a call that
waits for room. -/
inductive Serves (s : Simulation) (fed todo : List Request) : Progress → Prop
  | through {f : Foreground} (hf : f.queue.Fed s (fed ++ todo) (fed ++ todo))
      (hw : f.queue.mailbox.waiting = []) : Serves s fed todo (.through f)
  | waits {f : Foreground} {w : Waiter} {done rest : List Request} (htodo : todo = done ++ rest)
      (hlt : rest.length < todo.length) (hf : f.queue.Fed s (fed ++ done) (fed ++ done))
      (hw : f.queue.mailbox.waiting = [w]) : Serves s fed todo (.waits f w.ticket rest)

/-- Some requests of the row have been taken before. -/
theorem Serves.append {done rest : List Request} (h : Serves s (fed ++ done) rest p) :
    Serves s fed (done ++ rest) p := by
  cases h with
  | through hf hw => exact .through (by rwa [← List.append_assoc]) hw
  | @waits f w done' rest' htodo hlt hf hw =>
    have hsplit : done ++ rest = (done ++ done') ++ rest' := by rw [htodo, List.append_assoc]
    refine .waits hsplit ?_ (by rwa [← List.append_assoc]) hw
    rw [List.length_append]
    omega

namespace Foreground

theorem drifts_refresh (s : Simulation) (f : Foreground) :
    Drifts s f.queue (f.refresh s.work).queue := by
  unfold refresh
  split
  · exact drifts_settle s f.queue
  · exact .refl

theorem steered_refresh (h : f.queue.Steered s) : (f.refresh s.work).queue.Steered s := by
  unfold refresh
  split
  · exact h.steered_settle
  · exact h

/-- As long as nobody waits, each request is taken or waits. -/
theorem serves_feed (hf : f.queue.Fed s fed fed) (hw : f.queue.mailbox.waiting = [])
    (todo : List Request) : Serves s fed todo (f.feed s.work todo) := by
  induction todo generalizing f fed with
  | nil =>
    rw [feed]
    exact .through (by rwa [List.append_nil]) hw
  | cons r rest ih =>
    have hannounced := hf.announce r
    have hdrifts := drifts_refresh s (f.announce r)
    have hready : ((f.announce r).refresh s.work).queue.Fed s (fed ++ [r]) fed :=
      hannounced.of_drifts hdrifts (steered_refresh hannounced.toSteered)
    have hnobody : (f.announce r).queue.mailbox.waiting = [] := by
      show (f.queue.emit _).mailbox.waiting = []
      rw [hf.emit]
      exact hw
    have hnobody := hdrifts.waiting_eq_nil hannounced.toTended hnobody
    rw [feed, if_neg (by simp [hf.going])]
    generalize (f.announce r).refresh s.work = g at hready hnobody
    dsimp only
    cases hfree : g.queue.mailbox.free with
    | zero =>
      rw [hready.offer_of_eq_zero hfree]
      have hcalls : (g.queue.defer r).mailbox.waiting =
          [{ ticket := g.queue.tickets, request := r, caller := .foreground }] := by
        show g.queue.mailbox.waiting ++ _ = _
        rw [hnobody, List.nil_append]
      have hsplit : r :: rest = [r] ++ rest := rfl
      exact .waits (f := ⟨g.queue.defer r, g.credit⟩) hsplit (Nat.lt_succ_self _)
        (hready.defer hfree r) hcalls
    | succ n =>
      have hpos := Nat.lt_of_lt_of_eq (Nat.succ_pos n) hfree.symm
      rw [hready.offer_of_pos hpos]
      have haccepted := hready.accept hpos hnobody r
      exact (ih (f := ⟨g.queue.accept r, g.credit - 1⟩) haccepted hnobody).append

theorem jump_of_deadline? {deadline : Nat} (hd : f.queue.deadline? = some deadline) :
    f.jump s.work = ⟨(f.queue.wakeRunAt deadline).settle s.work, turnCredit⟩ := by
  rw [jump, hd]

/-- A call that waits is decided once it has a slot. -/
theorem decide?_of_waiting (hf : f.queue.Fed s fed fed) {w : Waiter}
    (hw : f.queue.mailbox.waiting = [w]) :
    f.decide? w.ticket = if w.hasSlot then some (.accepted, f.queue.enter w) else none := by
  have hfind : f.queue.mailbox.find? w.ticket = some w := by
    rw [Mailbox.find?, hw, List.find?_cons_of_pos (by simp)]
  rw [decide?, hfind, Option.bind_some]
  cases hslot : w.hasSlot with
  | true => exact (hf.enter hw hslot).1
  | false =>
    unfold Queue.decide?
    rw [if_neg (by simp [hf.going, hf.isClosed_eq hf.going]), hslot]

/-- While something is buffered at rest a run sleeps, and once it has ended the dispatcher takes all
that is buffered. -/
theorem fed_jump (hf : f.queue.Fed s fed fed) (hr : f.queue.AtRest s.work)
    (hmore : f.queue.mailbox.buffer ≠ []) : Drifts s f.queue (f.jump s.work).queue ∧
      (f.jump s.work).queue.Fed s fed fed ∧ (f.jump s.work).queue.mailbox.buffer = [] := by
  rcases hf.toTended.lull hr with ⟨-, -, hbuffer, -⟩ | ⟨-, hrun, hstage, -⟩ | ⟨-, hover, -⟩
  · exact absurd hbuffer hmore
  · have hd := deadline?_eq_some.mpr ⟨_, hrun, hstage⟩
    obtain ⟨hjump, hawake, hnow⟩ := hf.toTended.jump hr hd
    obtain ⟨hlater, hrest⟩ := hawake.settle
    have hfed := hf.of_drifts hjump (hlater.steered hrest)
    have hcleared := hjump.clearsBy hf.toTended (.inr (endsBy_of_deadline? hd))
    rw [jump_of_deadline? hd]
    exact ⟨hjump, hfed, hlater.buffer_eq_nil hrest hfed.going (by rwa [hawake.now_settle, hnow])⟩
  · exact absurd (hf.going.symm.trans hover) Bool.false_ne_true

theorem fed_relent (hf : f.queue.Fed s fed fed) :
    (f.relent s.work).queue.Fed s fed fed ∧ (f.relent s.work).queue.AtRest s.work :=
  ⟨hf.of_drifts (drifts_settle s f.queue) hf.toTended.steered_settle, hf.toTended.settle.2⟩

/-- Waiting until a call is decided ends with a slot for it. -/
theorem fed_await {w : Waiter} (hf : f.queue.Fed s fed fed) (hw : f.queue.mailbox.waiting = [w]) :
    (f.await s.work w.ticket).queue.Fed s fed fed ∧ ∃ v,
      (f.await s.work w.ticket).queue.mailbox.waiting = [v] ∧ v.ticket = w.ticket ∧
        v.hasSlot = true := by
  obtain ⟨hrested, hr⟩ := fed_relent hf
  obtain ⟨v, hv, hticket⟩ := (drifts_settle s f.queue).exists_waiting hf.toTended hw
  unfold await
  dsimp only
  rw [← hticket, decide?_of_waiting hrested hv]
  cases hslot : v.hasSlot with
  | true => exact ⟨hrested, v, hv, rfl, hslot⟩
  | false =>
    have hmore : (f.relent s.work).queue.mailbox.buffer ≠ [] := fun hbuffer => by
      rw [hrested.hasSlot_eq hv hbuffer] at hslot
      contradiction
    obtain ⟨hdrifts, hfed, hbuffer⟩ := fed_jump hrested hr hmore
    obtain ⟨u, hu, hsame⟩ := hdrifts.exists_waiting hrested.toTended hv
    exact ⟨hfed, u, hu, hsame, hfed.hasSlot_eq hu hbuffer⟩

/-- The call that has waited is taken, and the row goes on. -/
theorem serves_resume {w : Waiter} (hf : f.queue.Fed s fed fed) (hw : f.queue.mailbox.waiting = [w])
    (hslot : w.hasSlot = true) (rest : List Request) :
    Serves s fed rest (f.resume s.work w.ticket rest) := by
  obtain ⟨-, hentered, hnobody⟩ := hf.enter hw hslot
  unfold resume
  rw [decide?_of_waiting hf hw, hslot]
  exact serves_feed (f := ⟨f.queue.enter w, turnCredit - 1⟩) hentered hnobody rest

end Foreground

/-- With as much patience as there are requests, a row comes to its end. -/
theorem Serves.persist {n : Nat} (h : Serves s fed todo p) (hn : todo.length ≤ n) :
    ∃ f, Foreground.persist s.work n p = .through f ∧
      f.queue.Fed s (fed ++ todo) (fed ++ todo) ∧ f.queue.mailbox.waiting = [] := by
  induction n generalizing fed todo p with
  | zero =>
    cases h with
    | through hf hw => exact ⟨_, rfl, hf, hw⟩
    | waits _ hlt => exact absurd (Nat.lt_of_lt_of_le hlt hn) (Nat.not_lt_zero _)
  | succ n ih =>
    cases h with
    | through hf hw => exact ⟨_, rfl, hf, hw⟩
    | @waits f w done rest htodo hlt hf hw =>
      obtain ⟨hawaited, v, hv, hticket, hslot⟩ := Foreground.fed_await hf hw
      have hresumed := Foreground.serves_resume hawaited hv hslot rest
      rw [hticket] at hresumed
      obtain ⟨f', hthrough, hfed, hnobody⟩ := ih hresumed (by omega)
      rw [List.append_assoc, ← htodo] at hfed
      exact ⟨f', hthrough, hfed, hnobody⟩

namespace Foreground

/-- A program comes through every row of requests. -/
theorem fed_feedThrough (hf : f.queue.Fed s fed fed) (hw : f.queue.mailbox.waiting = [])
    (todo : List Request) : ∃ f', f.feedThrough s.work todo = .through f' ∧
      f'.queue.Fed s (fed ++ todo) (fed ++ todo) ∧ f'.queue.mailbox.waiting = [] :=
  (serves_feed hf hw todo).persist le_rfl

/-! ## Time passes -/

theorem now_refresh (h : f.queue.Tended s) : (f.refresh s.work).queue.now = f.queue.now := by
  unfold refresh
  split
  · exact h.now_settle
  · rfl

/-- During a pause everything settles, and then the clock comes to the end of the pause. -/
theorem comes_pause (h : f.queue.Steered s) {ms : Nat} (hms : 0 < ms) :
    Comes s (f.queue.now + ms) (f.queue.settle s.work) (f.pause s.work ms).queue := by
  obtain ⟨hsettled, hr⟩ := h.toTended.settle
  have hnow := h.toTended.now_settle
  obtain ⟨n, rfl⟩ := Nat.exists_eq_succ_of_ne_zero hms.ne'
  have hpause : (f.pause s.work (n + 1)).queue =
      (f.queue.settle s.work).advanceWithin s.work (f.queue.now + (n + 1)) (n + 1) := by
    unfold pause refresh relent advanceTo
    dsimp only
    rw [if_neg (Nat.succ_ne_zero n)]
    split
    · rw [hnow, Nat.add_sub_cancel_left]
    · rw [Nat.add_sub_cancel_left, h.toTended.advanceWithin_settle]
  rw [hpause]
  exact hsettled.comes (by omega) (by omega)

theorem drifts_pause (h : f.queue.Steered s) (ms : Nat) :
    Drifts s f.queue (f.pause s.work ms).queue ∧ (f.pause s.work ms).queue.Steered s ∧
      (f.pause s.work ms).queue.now = f.queue.now + ms := by
  rcases Nat.eq_zero_or_pos ms with rfl | hms
  · have hpause : (f.pause s.work 0).queue = (f.refresh s.work).queue := by
      rw [pause]
      rfl
    rw [hpause]
    exact ⟨drifts_refresh s f, steered_refresh h, now_refresh h.toTended⟩
  · have hcomes := comes_pause h hms
    exact ⟨(drifts_settle s f.queue).trans hcomes.drifts, hcomes.steered h.toTended.settle.1,
      hcomes.now_eq⟩

/-! ## The end -/

/-- After the end the queue has stopped. -/
theorem stopped_finish (h : f.queue.Steered s) :
    (f.finish s.work).phase = .stopped ∧ Drifts s f.queue.cancel (f.finish s.work) := by
  have hcancelled := h.cancel
  have hc := f.queue.cancel_isCancelled
  obtain ⟨hsettled, hr⟩ := hcancelled.toTended.settle
  have hdrifts := drifts_settle s f.queue.cancel
  have hgone := (hdrifts.undisturbed hcancelled.toTended).isCancelled_eq.trans hc
  unfold finish relent
  dsimp only
  generalize f.queue.cancel.settle s.work = q at *
  rcases hsettled.lull hr with ⟨-, hgoing, -, -⟩ | @⟨b, run, deadline, hphase, hrun, hstage, -⟩ |
    ⟨hphase, -, -⟩
  · exact absurd (hgoing.symm.trans hgone) Bool.false_ne_true
  · -- the run in flight is the last one
    have hd := deadline?_eq_some.mpr ⟨_, hrun, hstage⟩
    have hnot : ¬ q.isOver = true := by
      rw [isOver_eq, hphase]
      exact Bool.false_ne_true
    rw [if_neg hnot, jump_of_deadline? (by exact hd)]
    obtain ⟨hjump, hawake, hnow⟩ := hsettled.jump hr hd
    have hspent : q.Spent deadline :=
      ⟨(hsettled.steered hr).taken_eq, .inl hgone, endsBy_of_deadline? hd⟩
    have hwoken : Drift s q (q.wakeRunAt deadline) := .wake hr hd
    refine ⟨(hwoken.spent hsettled hspent).stops hawake ?_ hnow.ge, hdrifts.trans hjump⟩
    exact (hwoken.undisturbed hsettled).isCancelled_eq.trans hgone
  · rw [if_pos (by rw [isOver_eq, hphase]; rfl)]
    exact ⟨hphase, hdrifts⟩

/-- If the run in flight is due before, or there is none, the end takes no time. -/
theorem now_finish (h : f.queue.Steered s) (hspent : f.queue.Spent limit)
    (hdue : limit ≤ f.queue.now) : (f.finish s.work).now = f.queue.now := by
  obtain ⟨line, heq⟩ := f.queue.cancel_eq
  have hnow : f.queue.cancel.now = f.queue.now := by rw [heq]
  have hphase := hspent.cancel.stops h.cancel.toTended f.queue.cancel_isCancelled (hnow ▸ hdue)
  unfold finish relent
  dsimp only
  rw [if_pos (by rw [isOver_eq, hphase]; rfl)]
  exact h.cancel.toTended.now_settle.trans hnow

end Foreground

end Console
end CoalescingQueue
