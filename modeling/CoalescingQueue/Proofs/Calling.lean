import CoalescingQueue.Proofs.Joining

/-!
# Requests enter in the order of the calls

Where only tasks call, and hooks set nothing off, the requests that have entered, those of the calls
that wait and the one that is about to be offered are all that were announced, in this order, as long
as requests are taken in and nobody goes away by itself. A request enters at once only if nobody
waits: a slot that is free, or about to be filled, belongs to whoever waits for one.
-/
namespace CoalescingQueue

namespace Mailbox

theorem calls_enlist (m : Mailbox) (w : Waiter) :
    (m.enlist w).calls = m.calls ++ [{ w with hasSlot := false }] := by
  simp [calls, enlist]

theorem calls_dismiss (m : Mailbox) (ticket : Nat) :
    (m.dismiss ticket).calls = m.calls.filter (·.ticket ≠ ticket) := by
  unfold calls dismiss
  rw [List.filter_map]
  rfl

end Mailbox

namespace History

/-- What was announced is what has entered and then what is left, but for what went away. -/
structure Leaves (h : History) (left : List Request) : Prop where
  sublist : (h.arrivals ++ left).Sublist h.offered
  length_le : h.offered.length ≤ h.arrivals.length + left.length + h.forsaken.length

variable {h : History} {left : List Request}

theorem Leaves.append (hl : h.Leaves left) {facts : History}
    (hfacts : ∀ f ∈ facts, f.admitted? = none ∧ f.forsaken? = none ∧ f.offered? = none) :
    (h ++ facts).Leaves left := by
  have hnone {α : Type} (kind : Fact → Option α) (hkind : ∀ f ∈ facts, kind f = none) :
      (h ++ facts).gather kind = h.gather kind := by
    rw [gather_append]
    exact (congrArg _ (List.filterMap_eq_nil_iff.mpr hkind)).trans (List.append_nil _)
  obtain ⟨hsublist, hlength⟩ := hl
  have harrivals : (h ++ facts).arrivals = h.arrivals := hnone _ fun f hf => (hfacts f hf).1
  have hoffered : (h ++ facts).offered = h.offered := hnone _ fun f hf => (hfacts f hf).2.2
  have hforsaken : (h ++ facts).forsaken = h.forsaken := hnone _ fun f hf => (hfacts f hf).2.1
  constructor
  · rwa [harrivals, hoffered]
  · rwa [harrivals, hoffered, hforsaken]

/-- The first of what is left enters. -/
theorem Leaves.admitted {r : Request} (hl : h.Leaves (r :: left)) :
    (h ++ [Fact.admitted r]).Leaves left := by
  obtain ⟨hsublist, hlength⟩ := hl
  have harrivals : (h ++ [Fact.admitted r]).arrivals = h.arrivals ++ [r] := gather_append _ _ _
  have hoffered : (h ++ [Fact.admitted r]).offered = h.offered := gather_concat_of_eq_none _ rfl
  have hforsaken : (h ++ [Fact.admitted r]).forsaken = h.forsaken := gather_concat_of_eq_none _ rfl
  constructor
  · rwa [harrivals, hoffered, List.append_assoc, List.singleton_append]
  · rw [harrivals, hoffered, hforsaken, List.length_append, List.length_singleton]
    rw [List.length_cons] at hlength
    omega

theorem Leaves.announced (hl : h.Leaves left) (r : Request) (span : Option Span) :
    (h ++ [Fact.logged ⟨.offered r, span⟩]).Leaves (left ++ [r]) := by
  obtain ⟨hsublist, hlength⟩ := hl
  have harrivals : (h ++ [Fact.logged ⟨.offered r, span⟩]).arrivals = h.arrivals :=
    gather_concat_of_eq_none _ rfl
  have hoffered : (h ++ [Fact.logged ⟨.offered r, span⟩]).offered = h.offered ++ [r] :=
    gather_append _ _ _
  have hforsaken : (h ++ [Fact.logged ⟨.offered r, span⟩]).forsaken = h.forsaken :=
    gather_concat_of_eq_none _ rfl
  constructor
  · rw [harrivals, hoffered, ← List.append_assoc]
    exact hsublist.append_right [r]
  · rw [harrivals, hoffered, hforsaken, List.length_append, List.length_append,
      List.length_singleton]
    omega

/-- A call goes away, and its request with it if it was left. -/
theorem Leaves.forsake (hl : h.Leaves left) (ticket : Nat) {left' : List Request}
    (hsub : left'.Sublist left) (hlen : left.length ≤ left'.length + 1) :
    (h ++ [Fact.forsaken ticket]).Leaves left' := by
  obtain ⟨hsublist, hlength⟩ := hl
  have harrivals : (h ++ [Fact.forsaken ticket]).arrivals = h.arrivals :=
    gather_concat_of_eq_none _ rfl
  have hoffered : (h ++ [Fact.forsaken ticket]).offered = h.offered :=
    gather_concat_of_eq_none _ rfl
  have hforsaken : (h ++ [Fact.forsaken ticket]).forsaken = h.forsaken ++ [ticket] :=
    gather_append _ _ _
  constructor
  · rw [harrivals, hoffered]
    exact (hsub.append_left _).trans hsublist
  · rw [harrivals, hoffered, hforsaken, List.length_append, List.length_singleton]
    omega

end History

namespace Queue

variable {script : WorkScript} {q q' : Queue} {a b : Bool × Queue} {paused : Bool}

/-- Hooks set nothing off, and no thread calls. -/
structure IsPlain (q : Queue) : Prop where
  due_eq : q.due = []
  caller_eq : ∀ e, q.errand = some e → e.caller = .task

theorem IsPlain.isUnprompted (h : q.IsPlain) : q.IsUnprompted := isUnprompted_of_due_eq h.due_eq

/-- The requests of the calls that wait. -/
def requests (q : Queue) : List Request := q.mailbox.calls.map (·.request)

theorem requests_eq_nil (h : q.mailbox.waiting = []) : q.requests = [] := by
  rw [requests, Mailbox.calls, h]
  rfl

/-- Where only tasks call, and as long as requests are taken in, what is left of what was announced
are the calls that wait and the one to come. -/
structure InOrder (q : Queue) : Prop where
  caller_eq : ∀ w ∈ q.mailbox.calls, w.caller = .task
  exists_left : ∃ left : List Request, q.flow.journal.Leaves left ∧
    (q.IsGoing → left = q.requests ++ q.announced)

theorem InOrder.caller_of_mem (h : q.InOrder) {w : Waiter} (hw : w ∈ q.mailbox.waiting) :
    w.caller = .task :=
  h.caller_eq { w with hasSlot := false } (List.mem_map_of_mem hw)

/-- Nobody comes or goes, and no request enters or is announced. -/
theorem InOrder.append (h : q.InOrder) (facts : History) (hgoing : q'.IsGoing → q.IsGoing)
    (hcalls : q'.mailbox.calls = q.mailbox.calls) (hannounced : q'.announced = q.announced)
    (hjournal : q'.flow.journal = q.flow.journal ++ facts)
    (hfacts : ∀ f ∈ facts, f.admitted? = none ∧ f.forsaken? = none ∧ f.offered? = none) :
    q'.InOrder := by
  obtain ⟨hcaller, left, hl, hleft⟩ := h
  refine ⟨hcalls ▸ hcaller, left, hjournal ▸ hl.append hfacts, fun hg => ?_⟩
  rw [requests, hcalls, hannounced]
  exact hleft (hgoing hg)

theorem InOrder.congr (h : q.InOrder) (hgoing : q'.IsGoing → q.IsGoing)
    (hcalls : q'.mailbox.calls = q.mailbox.calls) (hannounced : q'.announced = q.announced)
    (hjournal : q'.flow.journal = q.flow.journal) : q'.InOrder :=
  h.append [] hgoing hcalls hannounced (hjournal.trans (List.append_nil _).symm) nofun

/-- Where all that wait are tasks, the one that joins is the first. -/
theorem Poised.waiting_eq (h : q.Poised paused) (ho : q.Orderly)
    (hcaller : ∀ v ∈ q.mailbox.waiting, v.caller = .task) {w : Waiter}
    (hw : w ∈ q.mailbox.waiting) (hslot : w.hasSlot = true) (hgoing : q.IsGoing)
    (hturn : q.turn = some (.producer w.ticket)) :
    q.mailbox.waiting = w :: (q.mailbox.dismiss w.ticket).waiting := by
  have htasks := h.tasks_eq hw hslot (hcaller w hw) hgoing hturn
  have hnodup := ho.nodup
  unfold Mailbox.tickets at hnodup
  unfold Mailbox.tasks at htasks
  unfold Mailbox.dismiss at htasks ⊢
  dsimp only at htasks ⊢
  cases hwaiting : q.mailbox.waiting with
  | nil =>
    rw [hwaiting] at hw
    contradiction
  | cons v ws =>
    have hv : v ∈ q.mailbox.waiting := hwaiting ▸ List.mem_cons_self
    rw [hwaiting, List.filter_cons_of_pos (by simp [hcaller v hv]), List.map_cons] at htasks
    have hvw : v = w := List.inj_on_of_nodup_map hnodup hv hw (List.cons.inj htasks).1
    rw [hwaiting, List.map_cons, List.nodup_cons, hvw] at hnodup
    have hothers : ws.filter (fun u => decide (u.ticket ≠ w.ticket)) = ws := by
      refine List.filter_eq_self.mpr fun u hu => decide_eq_true fun heq => ?_
      exact hnodup.1 (heq ▸ List.mem_map_of_mem hu)
    rw [hvw, List.filter_cons_of_neg (by simp), hothers]

/-- Whatever happens without an offer leaves the requests in their order. -/
theorem Shift.inOrder (h : Shift (driving paused false) q q') (ho : q.Orderly)
    (hp : q.Poised paused) (hi : q.InOrder) : q'.InOrder := by
  obtain ⟨hgoing, hannounced, hpassage⟩ := h.traffic
  have hannounced := hannounced rfl
  obtain ⟨hcaller, left, hl, hleft⟩ := id hi
  have hfewer (ticket : Nat) (hcalls : q'.mailbox.calls = (q.mailbox.dismiss ticket).calls) :
      ∀ w ∈ q'.mailbox.calls, w.caller = .task := by
    rw [hcalls, Mailbox.calls_dismiss]
    exact fun w hw => hcaller w (List.mem_filter.mp hw).1
  cases hpassage with
  | still facts hcalls hjournal hfacts =>
    refine hi.append facts hgoing hcalls hannounced hjournal fun f hf => ?_
    obtain ⟨hadmitted, -, hforsaken, hoffered⟩ := hfacts f hf
    exact ⟨hadmitted, hforsaken, hoffered rfl⟩
  | put r hoffering => contradiction
  | enlist hoffering => contradiction
  | @join w hopen hw hslot htask hcalls hjournal =>
    obtain ⟨hc, hturn⟩ := htask (hi.caller_of_mem hw)
    have hwaiting := hp.waiting_eq ho (fun _ => hi.caller_of_mem) hw hslot ⟨hc, hopen⟩ hturn
    have hfirst : q.requests = w.request :: q'.requests := by
      rw [requests, requests, hcalls, Mailbox.calls, hwaiting]
      rfl
    rw [hleft ⟨hc, hopen⟩, hfirst, List.cons_append] at hl
    refine ⟨hfewer w.ticket hcalls, q'.requests ++ q.announced, ?_, fun _ => by rw [hannounced]⟩
    rw [hjournal]
    exact hl.admitted.append (by simp)
  | @refuse w hw hnot hcalls hjournal =>
    refine ⟨hfewer w.ticket hcalls, left, ?_, fun hg => absurd (hgoing hg) hnot⟩
    rw [hjournal]
    exact hl.append (by simp)
  | @forsake w hlossy hw hcalls hjournal =>
    by_cases hg : q.IsGoing
    · -- the request of the call that went away is left out
      have hrequests : q'.requests.Sublist q.requests := by
        rw [requests, requests, hcalls, Mailbox.calls_dismiss]
        exact List.filter_sublist.map _
      have hcount : q.requests.length = q'.requests.length + 1 := by
        have hperm := (Mailbox.perm_dismiss ho.nodup hw).length_eq
        rw [requests, requests, hcalls, Mailbox.calls, Mailbox.calls]
        simpa using hperm
      rw [hleft hg] at hl
      refine ⟨hfewer w.ticket hcalls, q'.requests ++ q.announced, ?_, fun _ => by rw [hannounced]⟩
      rw [hjournal]
      refine hl.forsake w.ticket (hrequests.append_right _) ?_
      rw [List.length_append, List.length_append]
      omega
    · refine ⟨hfewer w.ticket hcalls, left, ?_, fun hg' => absurd (hgoing hg') hg⟩
      rw [hjournal]
      exact hl.forsake w.ticket (List.Sublist.refl _) (Nat.le_succ _)

/-! ## Offers -/

theorem settleThreads_of_caller_eq (h : ∀ w ∈ q.mailbox.waiting, w.caller = .task) :
    q.settleThreads = q := by
  unfold settleThreads
  generalize q.mailbox.waiting = ws at h
  induction ws with
  | nil => rfl
  | cons w ws ih =>
    rw [List.forall_mem_cons] at h
    rw [List.foldl_cons, if_neg (by simp [h.1])]
    exact ih h.2

/-- What an offer of a task comes to while nobody who waits has a slot: it enters if nobody waits,
and gets behind the others if somebody does, as long as requests are taken in. -/
theorem journal_offer (hk : q.Packed) (hslot : q.IsGoing → ∀ w ∈ q.mailbox.waiting, w.hasSlot = false)
    (r : Request) :
    q.IsGoing ∧ q.mailbox.calls = [] ∧ (q.offer .task r).2.mailbox.calls = [] ∧
      (q.offer .task r).2.flow.journal = q.flow.journal ++ [.admitted r] ∨
    q.IsGoing ∧
      (q.offer .task r).2.mailbox.calls =
        q.mailbox.calls ++ [{ ticket := q.tickets, request := r, caller := .task }] ∧
      (q.offer .task r).2.flow.journal = q.flow.journal ∨
    ¬ q.IsGoing ∧ (q.offer .task r).2 = q := by
  have ho := q.offered .task r
  generalize q.offer .task r = outcome at ho ⊢
  have hopen (hgoing : ¬ q.Refuses .task) : q.IsGoing := by
    simp only [Refuses, Caller.heedsCancellation, true_and, not_or, Bool.not_eq_true] at hgoing
    exact ⟨hgoing.1, hgoing.2⟩
  cases ho with
  | refused hrefused =>
    exact .inr (.inr ⟨fun hg => hg.not_refused (hrefused.imp_left And.right), rfl⟩)
  | accepted line hgoing hroom =>
    have hgoing := hopen hgoing
    have hnone : q.mailbox.waiting = [] :=
      (hk hgoing.isClosed_eq).waiting_eq_nil (hslot hgoing) hroom
    have hcalls : q.mailbox.calls = [] := List.map_eq_nil_iff.mpr hnone
    exact .inl ⟨hgoing, hcalls, hcalls, Array.toList_push ..⟩
  | pending line hgoing hfull => exact .inr (.inl ⟨hopen hgoing, Mailbox.calls_enlist _ _, rfl⟩)

theorem InOrder.answer (h : q.InOrder) (a : Action) (reply : Reply) : (q.answer a reply).InOrder := by
  unfold Queue.answer noteAction
  split
  · split
    · exact h
    · exact h.append [.performed a reply] (fun hg => ⟨hg.1, hg.2⟩) rfl rfl (q.note_journal _) (by simp)
  · exact h.congr (fun hg => ⟨hg.1, hg.2⟩) rfl rfl rfl

theorem InOrder.wakeIfAbandoned (h : q.InOrder) : q.wakeIfAbandoned.InOrder := by
  obtain ⟨more, heq⟩ := q.wakeIfAbandoned_more
  rw [heq]
  exact h.congr (fun hg => ⟨hg.1, hg.2⟩) rfl rfl rfl

/-- The request that was announced is offered. -/
theorem InOrder.offer {errand : Option Errand} {r : Request} (h : q.InOrder) (hk : q.Packed)
    (hslot : q.IsGoing → ∀ w ∈ q.mailbox.waiting, w.hasSlot = false) (hannounced : q.announced = [r])
    (hnew : ∀ e, errand = some e → e.isAnnounced = false) :
    { (q.offer .task r).2 with errand }.InOrder := by
  obtain ⟨hcaller, left, hl, hleft⟩ := h
  have hnone : { (q.offer .task r).2 with errand }.announced = [] := announced_errand hnew
  rcases journal_offer hk hslot r with
    ⟨hgoing, hcalls, hcalls', hjournal⟩ | ⟨hgoing, hcalls, hjournal⟩ | ⟨hgoing, hsame⟩
  · -- nobody waits, so it is the next to enter
    have hcallers : ∀ w ∈ (q.offer .task r).2.mailbox.calls, w.caller = .task := by
      rw [hcalls']
      nofun
    rw [hleft hgoing, requests, hcalls, hannounced] at hl
    refine ⟨hcallers, [], ?_, fun _ => ?_⟩
    · show (q.offer .task r).2.flow.journal.Leaves []
      rw [hjournal]
      exact hl.admitted
    · rw [hnone, List.append_nil]
      show [] = (q.offer .task r).2.mailbox.calls.map (·.request)
      rw [hcalls', List.map_nil]
  · have hcallers : ∀ w ∈ (q.offer .task r).2.mailbox.calls, w.caller = .task := by
      rw [hcalls, List.forall_mem_append]
      exact ⟨hcaller, by simp⟩
    rw [hleft hgoing, hannounced] at hl
    refine ⟨hcallers, q.requests ++ [r], ?_, fun _ => ?_⟩
    · show (q.offer .task r).2.flow.journal.Leaves _
      rw [hjournal]
      exact hl
    · rw [hnone, List.append_nil]
      show _ = (q.offer .task r).2.mailbox.calls.map (·.request)
      rw [hcalls, List.map_append]
      rfl
  · rw [hsame]
    exact ⟨hcaller, left, hl, fun hg => absurd ⟨hg.1, hg.2⟩ hgoing⟩

/-- The next request is announced. -/
theorem InOrder.announce {e : Errand} {r : Request} {rest : List Request} (h : q.InOrder)
    (hannounced : q.announced = []) (htodo : e.todo = r :: rest) (span : Option Span) :
    ({ q with errand := some { e with isAnnounced := true } }.emit (.offered r) span).InOrder := by
  have hall : ∀ w ∈ q.mailbox.waiting, w.caller = .task := fun w hw => h.caller_of_mem hw
  obtain ⟨hcaller, left, hl, hleft⟩ := h
  unfold emit
  dsimp only
  rw [settleThreads_of_caller_eq (by exact hall)]
  refine ⟨hcaller, left ++ [r], ?_, fun hg => ?_⟩
  · rw [show Flow.journal _ = _ from note_journal _ _]
    exact hl.announced r span
  · have hgoing : q.IsGoing := ⟨hg.1, hg.2⟩
    rw [hleft hgoing, hannounced, List.append_nil]
    show q.requests ++ [r] = q.requests ++ e.todo.take 1
    rw [htodo]
    rfl

/-- An action that offers requests for a task goes one step further. -/
theorem InOrder.stepErrand {e : Errand} (h : q.InOrder) (ho : q.Orderly) (hk : q.Packed)
    (hslot : q.IsGoing → ∀ w ∈ q.mailbox.waiting, w.hasSlot = false) (he : q.errand = some e)
    (htask : e.caller = .task) : (q.stepErrand e).InOrder := by
  have hskip (errand : Option Errand) (hold : e.isAnnounced = false)
      (hnew : ∀ e', errand = some e' → e'.isAnnounced = false) : { q with errand }.InOrder := by
    refine h.congr (fun hg => ⟨hg.1, hg.2⟩) rfl ?_ rfl
    rw [announced_errand hnew, announced_eq_nil ((isOffering_eq he).trans hold)]
  have hnext (e' : Errand) (hold : e'.isAnnounced = false) :
      ∀ e'', some e' = some e'' → e''.isAnnounced = false := by
    intro e'' heq
    obtain rfl := Option.some.inj heq
    exact hold
  unfold Queue.stepErrand
  split
  · next htodo =>
    have hnew : e.isAnnounced = false := by
      rw [Bool.eq_false_iff]
      exact fun hannounced => ho.todo_ne e he hannounced htodo
    exact (hskip none hnew nofun).answer _ _
  · next r rest htodo =>
    split
    · next hmade =>
      have hannounced : q.announced = [r] := by
        rw [announced, he]
        dsimp only
        rw [if_pos hmade, htodo]
        rfl
      have hoffer : q.offer e.caller r = q.offer .task r := by rw [htask]
      rw [hoffer]
      exact (h.offer hk hslot hannounced (hnext _ rfl)).wakeIfAbandoned
    · next hnew =>
      have hnew : e.isAnnounced = false := by simpa using hnew
      split
      · exact hskip _ hnew (hnext _ hnew)
      · split
        · exact hskip _ hnew (hnext _ hnew)
        · exact h.announce (announced_eq_nil ((isOffering_eq he).trans hnew)) htodo _

/-! ## Runs -/

/-- Whoever offers a request finds nobody in the way who has a slot. -/
theorem Steady.hasSlot_eq (h : q.Steady paused) (hi : q.InOrder) (hbusy : q.errand ≠ none)
    (hgoing : q.IsGoing) : ∀ w ∈ q.mailbox.waiting, w.hasSlot = false := by
  cases hpaused : paused with
  | true => exact (h.calm hpaused).hasSlot_eq hgoing
  | false =>
    have hnone := (h.lined hgoing).given_eq (h.solo hpaused hbusy)
    intro w hw
    rw [Bool.eq_false_iff]
    intro hslot
    have hgiven : w.ticket ∈ q.mailbox.given :=
      Mailbox.mem_given.mpr ⟨w, hw, hi.caller_of_mem hw, hslot, rfl⟩
    rw [hnone] at hgiven
    contradiction

theorem Drive.inOrder (h : Drive script a b) (hr : Reachable script a.2) (hplain : a.2.IsPlain)
    (hi : a.2.Steady a.1) (ho : a.2.InOrder) : b.2.InOrder := by
  have hquiet (hnone : a.2.attend? = none) : b.2.InOrder :=
    (h.keeps hr hplain.isUnprompted hi (.inl hnone) (fun ho hp hs hc => hs.inOrder ho hp hc) ho).2
  cases h with
  | act hf => exact hquiet hf.attend?
  | abandon hf => exact hquiet hf.attend?
  | @attend _ q q' ha =>
    unfold Queue.attend? at ha
    split at ha
    · next a due hdue => exact nomatch hplain.due_eq.symm.trans hdue
    · next e _ he =>
      obtain rfl := Option.some.inj ha
      have hbusy : q.errand ≠ none := by simp [he]
      exact ho.stepErrand hr.orderly hr.packed (hi.hasSlot_eq ho hbusy) he (hplain.caller_eq e he)
    · contradiction
  | turn ha => exact hquiet ha
  | wake hrest => exact hquiet hrest.isFree.attend?
  | wait hrest => exact hquiet hrest.isFree.attend?
  | pause => exact ho

theorem inOrder_of_open? {config : QueueConfig} {hooks : List Hook}
    (h : open? config hooks = some q) : q.InOrder := by
  unfold open? at h
  split at h
  · obtain rfl := Option.some.inj h
    exact ⟨nofun, [], ⟨List.Sublist.refl _, le_rfl⟩, fun _ => rfl⟩
  · contradiction

theorem Driven.inOrder (h : Driven script IsPlain a b) (hr : Reachable script a.2)
    (hi : a.2.Steady a.1) (ho : a.2.InOrder) : b.2.InOrder := by
  induction h with
  | refl => exact ho
  | tail hrun hd ih =>
    have hsteady := Driven.steady hrun hr (fun hp => hp.isUnprompted) hi
    exact hd.2.inOrder (hr.later (Driven.later hrun)) hd.1 hsteady ih

/-- What has entered was announced before what has not, but for the calls that went away. -/
theorem InOrder.arrivals (h : q.InOrder) :
    q.flow.journal.arrivals.Sublist q.flow.journal.offered ∧
    (q.flow.journal.forsaken = [] → q.flow.journal.arrivals <+: q.flow.journal.offered) := by
  obtain ⟨-, left, ⟨hsublist, hlength⟩, -⟩ := h
  refine ⟨(List.sublist_append_left _ left).trans hsublist, fun hnone => ?_⟩
  have hall : q.flow.journal.arrivals ++ left = q.flow.journal.offered := by
    refine hsublist.eq_of_length_le ?_
    rw [hnone, List.length_nil] at hlength
    rw [List.length_append]
    exact hlength
  rw [← hall]
  exact List.prefix_append _ _

end Queue
end CoalescingQueue
