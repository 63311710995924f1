import CoalescingQueue.Proofs.Entries
import CoalescingQueue.Proofs.Quiescence
import CoalescingQueue.Proofs.Resting

/-!
# Waiting producers are released

A task that waits for room when the queue is cancelled is refused before the clock moves on, be it
with a slot in its hands or without, and its request never enters the mailbox. A thread does not
notice the cancellation, and it is refused when the mailbox is closed, unless it has got in before.
Whoever goes away by itself is not answered.
-/
namespace CoalescingQueue
namespace Mailbox

/-- Whoever waits goes on waiting when a slot is passed on. -/
theorem exists_mem_grantFirst {ws ws' : List Waiter} {g w : Waiter}
    (h : grantFirst ws = some (g, ws')) (hw : w ∈ ws) :
    ∃ v ∈ ws', v.ticket = w.ticket ∧ v.caller = w.caller := by
  induction ws generalizing g ws' with
  | nil => contradiction
  | cons u rest ih =>
    unfold grantFirst at h
    split at h
    · obtain ⟨⟨granted, tail⟩, hrest, heq⟩ := Option.map_eq_some_iff.mp h
      obtain ⟨rfl, rfl⟩ := Prod.mk.inj heq
      rcases List.mem_cons.mp hw with rfl | hmem
      · exact ⟨w, List.mem_cons_self, rfl, rfl⟩
      · obtain ⟨v, hv, hsame⟩ := ih hrest hmem
        exact ⟨v, List.mem_cons_of_mem u hv, hsame⟩
    · obtain ⟨rfl, rfl⟩ := Prod.mk.inj (Option.some.inj h)
      rcases List.mem_cons.mp hw with rfl | hmem
      · exact ⟨_, List.mem_cons_self, rfl, rfl⟩
      · exact ⟨w, List.mem_cons_of_mem _ hmem, rfl, rfl⟩

theorem exists_mem_release {m : Mailbox} {w : Waiter} (hw : w ∈ m.waiting) :
    ∃ v ∈ m.release.2.waiting, v.ticket = w.ticket ∧ v.caller = w.caller := by
  unfold release
  split
  · next h => exact exists_mem_grantFirst h hw
  · exact ⟨w, hw, rfl, rfl⟩

end Mailbox

namespace Flow

variable {script : WorkScript} {c c' : Flow}

end Flow

namespace Queue

variable {script : WorkScript} {terms : Terms} {q q' : Queue}

/-! ## A call that has to go -/

/-- Nothing is forgotten, and the clock stands still unless it may move on. -/
theorem Shift.lasts (h : Shift terms q q') : q.flow.journal <+: q'.flow.journal ∧
    (terms.isTicking = false → q'.now = q.now) := by
  have hsame : q.flow.journal <+: q.flow.journal := List.prefix_rfl
  have hnote (q : Queue) (f : Fact) : q.flow.journal <+: (q.note f).flow.journal := by
    have hjournal : (q.note f).flow.journal = q.flow.journal ++ [f] := q.note_journal f
    rw [hjournal]
    exact List.prefix_append _ _
  have hclosers (q : Queue) : q.flow.journal <+: q.releaseClosers.flow.journal := by
    rw [releaseClosers_eq]
    show q.journal.toList <+: (q.journal ++ _).toList
    rw [Array.toList_append]
    exact List.prefix_append _ _
  cases h with
  | record | call | rest | await | clone | prepare | announce | proceed | go | desert =>
    exact ⟨hsame, fun _ => rfl⟩
  | remark => exact ⟨hnote q _, fun _ => rfl⟩
  | tick hticking =>
    refine ⟨hsame, fun hstill => ?_⟩
    rw [hstill] at hticking
    contradiction
  | wake =>
    obtain ⟨more, heq⟩ := q.enqueue_more .run
    rw [heq]
    exact ⟨hsame, fun _ => rfl⟩
  | @put r mailbox =>
    obtain ⟨more, heq⟩ := wakeDispatcher_more ({ q with mailbox }.note (.admitted r))
    rw [heq]
    exact ⟨hnote { q with mailbox } _, fun _ => rfl⟩
  | @enlist w =>
    obtain ⟨more, heq⟩ := q.lineUp_more w
    rw [heq]
    exact ⟨hsame, fun _ => rfl⟩
  | @join w =>
    refine ⟨List.IsPrefix.trans ?_ (hnote (q.enter w) _), fun _ => q.enter_now w⟩
    obtain ⟨more, heq⟩ := q.enter_more w
    rw [heq]
    exact hnote q (.admitted w.request)
  | @withdraw w | @forsake w =>
    refine ⟨List.IsPrefix.trans ?_ (hnote (q.leave w) _), fun _ => q.leave_now w⟩
    obtain ⟨more, heq⟩ := q.leave_more w
    rw [heq]
    exact hsame
  | cancel =>
    obtain ⟨more, heq⟩ := wakeAll_more { q with isCancelled := true }
    rw [heq]
    exact ⟨hsame, fun _ => rfl⟩
  | permit n =>
    obtain ⟨more, heq⟩ := q.releasePermits_more n
    rw [heq]
    exact ⟨hsame, fun _ => rfl⟩
  | drop handle =>
    obtain ⟨more, heq⟩ := q.drop_more handle
    rw [heq]
    exact ⟨hsame, fun _ => rfl⟩
  | @offered e todo replies =>
    obtain ⟨more, heq⟩ := wakeIfAbandoned_more
      { q with errand := some { e with todo, isAnnounced := false, replies } }
    rw [heq]
    exact ⟨hsame, fun _ => rfl⟩
  | @finish run =>
    obtain ⟨more, heq⟩ := (q.setStage run .ended).enqueue_more .dispatcher
    rw [heq]
    exact ⟨hsame, fun _ => rfl⟩
  | @take r mailbox =>
    obtain ⟨more, heq⟩ := releaseSlot_more { q with mailbox }
    rw [heq]
    exact ⟨hsame, fun _ => rfl⟩
  | @launch b run =>
    obtain ⟨more, heq⟩ := enqueue_more { q with phase := .awaiting b, run := some run } .run
    rw [heq]
    exact ⟨hsame, fun _ => rfl⟩
  | @breakDown b =>
    obtain ⟨more, heq⟩ := closeMailbox_more { q with phase := .dead b }
    have hnow : (closeMailbox { q with phase := .dead b }).now = q.now := by rw [heq]
    refine ⟨List.IsPrefix.trans ?_ (hclosers _), fun _ => ?_⟩
    · rw [heq]
      exact hsame
    · rw [releaseClosers_eq]
      exact hnow
  | close =>
    obtain ⟨more, heq⟩ := q.closeMailbox_more
    refine ⟨List.IsPrefix.trans ?_ (hclosers _), fun _ => ?_⟩
    · rw [heq]
      exact hsame
    · rw [releaseClosers_eq, heq]

/-- A waiting call of this caller will be refused when its turn comes. -/
def MustGo (q : Queue) (caller : Caller) : Prop :=
  caller = .task ∧ q.isCancelled = true ∨ q.mailbox.isClosed = true

/-- What has become of a waiting call that had to go at this time. -/
inductive Goes (q : Queue) (ticket : Nat) (caller : Caller) (time : Nat) : Prop
  | refused (h : .ended ticket .refused time ∈ q.flow.journal)
  | forsaken (h : .forsaken ticket ∈ q.flow.journal)
  | waits {w : Waiter} (hw : w ∈ q.mailbox.waiting) (hticket : w.ticket = ticket)
      (hcaller : w.caller = caller) (hgo : q.MustGo caller) (hnow : q.now = time)

variable {ticket time : Nat} {caller : Caller}

theorem MustGo.mono (h : q.MustGo caller) (hc : q.isCancelled = true → q'.isCancelled = true)
    (hclosed : q.mailbox.isClosed = true → q'.mailbox.isClosed = true) : q'.MustGo caller := by
  rcases h with ⟨htask, hcancelled⟩ | hold
  · exact .inl ⟨htask, hc hcancelled⟩
  · exact .inr (hclosed hold)

/-- A call that has to go is not accepted. -/
theorem MustGo.absurd {w : Waiter} (h : q.MustGo w.caller) (hopen : q.mailbox.isClosed = false)
    (htask : w.caller = .task → q.isCancelled = false ∧ q.turn = some (.producer w.ticket)) :
    False := by
  rcases h with ⟨hcaller, hc⟩ | hclosed
  · exact Bool.false_ne_true ((htask hcaller).1.symm.trans hc)
  · exact Bool.false_ne_true (hopen.symm.trans hclosed)

theorem mem_waiting_leave_of_ne {v w : Waiter} (hv : v ∈ q.mailbox.waiting)
    (hne : v.ticket ≠ w.ticket) :
    ∃ u ∈ (q.leave w).mailbox.waiting, u.ticket = v.ticket ∧ u.caller = v.caller := by
  have hkept : v ∈ (q.mailbox.dismiss w.ticket).waiting := by
    simpa [Mailbox.dismiss] using ⟨hv, hne⟩
  obtain ⟨more, heq⟩ := q.leave_more w
  rw [heq]
  dsimp only
  split
  · exact Mailbox.exists_mem_release hkept
  · exact ⟨v, hkept, rfl, rfl⟩

theorem isCancelled_leave (q : Queue) (w : Waiter) : (q.leave w).isCancelled = q.isCancelled := by
  obtain ⟨more, heq⟩ := q.leave_more w
  rw [heq]

theorem mem_journal_note (q : Queue) (f : Fact) : f ∈ (q.note f).flow.journal := by
  have hjournal : (q.note f).flow.journal = q.flow.journal ++ [f] := q.note_journal f
  rw [hjournal]
  exact List.mem_append_right _ (List.mem_singleton_self f)

/-- A call that has to go waits until it is refused or its caller goes away, at the same time. -/
theorem Shift.goes (h : Shift terms q q') (ho : q.Orderly) (hstill : terms.isTicking = false)
    (hi : q.Goes ticket caller time) : q'.Goes ticket caller time := by
  obtain ⟨hjournal, hsame⟩ := h.lasts
  cases hi with
  | refused hmem => exact .refused (hjournal.subset hmem)
  | forsaken hmem => exact .forsaken (hjournal.subset hmem)
  | @waits v hv hticket hcaller hgo hnow =>
    have hnow' : q'.now = time := (hsame hstill).trans hnow
    have hone {w : Waiter} (hw : w ∈ q.mailbox.waiting) (heq : v.ticket = w.ticket) : v = w :=
      List.inj_on_of_nodup_map ho.nodup hv hw heq
    -- the call of another goes off the list
    have hleave {w : Waiter} {f : Fact} (hne : v.ticket ≠ w.ticket) :
        ((q.leave w).note f).Goes ticket caller time := by
      obtain ⟨u, hu, hticket', hcaller'⟩ := mem_waiting_leave_of_ne hv hne
      refine .waits hu (hticket'.trans hticket) (hcaller'.trans hcaller) ?_
        ((q.leave_now w).trans hnow)
      exact hgo.mono (q.isCancelled_leave w).trans (q.leave_isClosed w).trans
    cases h with
    | record | remark | call | rest | tick | await | clone | prepare | announce | proceed | go
    | desert => exact .waits hv hticket hcaller hgo hnow'
    | wake =>
      obtain ⟨more, heq⟩ := q.enqueue_more .run
      rw [heq]
      exact .waits hv hticket hcaller hgo hnow
    | @put r mailbox hheld hopen hput =>
      obtain ⟨more, heq⟩ := wakeDispatcher_more ({ q with mailbox }.note (.admitted r))
      obtain rfl := Mailbox.eq_of_put? hput
      rw [heq]
      exact .waits hv hticket hcaller hgo hnow
    | @enlist w =>
      obtain ⟨more, heq⟩ := q.lineUp_more w
      rw [heq]
      exact .waits (List.mem_append_left [w] hv) hticket hcaller hgo hnow
    | @join w hopen hw hslot htask =>
      have hne : v.ticket ≠ w.ticket := by
        intro heq
        obtain rfl := hone hw heq
        exact (hcaller ▸ hgo).absurd hopen htask
      have hkept : v ∈ (q.mailbox.dismiss w.ticket).waiting := by
        simpa [Mailbox.dismiss] using ⟨hv, hne⟩
      obtain ⟨more, heq⟩ := q.enter_more w
      rw [heq]
      exact .waits hkept hticket hcaller hgo hnow
    | @withdraw w hw =>
      by_cases hne : v.ticket = w.ticket
      · rw [← hne, hticket, hnow]
        exact .refused (mem_journal_note _ _)
      · exact hleave hne
    | @forsake w hlossy hw =>
      by_cases hne : v.ticket = w.ticket
      · rw [← hne, hticket]
        exact .forsaken (mem_journal_note _ _)
      · exact hleave hne
    | cancel =>
      obtain ⟨more, heq⟩ := wakeAll_more { q with isCancelled := true }
      rw [heq]
      exact .waits hv hticket hcaller (hgo.mono (fun _ => rfl) id) hnow
    | permit n =>
      obtain ⟨more, heq⟩ := q.releasePermits_more n
      rw [heq]
      exact .waits hv hticket hcaller hgo hnow
    | drop handle =>
      obtain ⟨more, heq⟩ := q.drop_more handle
      rw [heq]
      exact .waits hv hticket hcaller hgo hnow
    | @offered e todo replies =>
      obtain ⟨more, heq⟩ := wakeIfAbandoned_more
        { q with errand := some { e with todo, isAnnounced := false, replies } }
      rw [heq]
      exact .waits hv hticket hcaller hgo hnow
    | @finish run =>
      obtain ⟨more, heq⟩ := (q.setStage run .ended).enqueue_more .dispatcher
      rw [heq]
      exact .waits hv hticket hcaller hgo hnow
    | @take r mailbox phase hturn hgoing hnext hexit htake =>
      obtain ⟨more, heq⟩ := releaseSlot_more { q with mailbox }
      have hmem : v ∈ mailbox.waiting := by
        rw [Mailbox.eq_of_take? htake] at hv
        exact hv
      obtain ⟨u, hu, hticket', hcaller'⟩ := Mailbox.exists_mem_release hmem
      rw [heq]
      have hclosed : mailbox.release.2.isClosed = q.mailbox.isClosed := by
        rw [Mailbox.release_isClosed, Mailbox.eq_of_take? htake]
      exact .waits hu (hticket'.trans hticket) (hcaller'.trans hcaller)
        (hgo.mono id hclosed.trans) hnow
    | @launch b run =>
      obtain ⟨more, heq⟩ := enqueue_more { q with phase := .awaiting b, run := some run } .run
      rw [heq]
      exact .waits hv hticket hcaller hgo hnow
    | @breakDown b =>
      obtain ⟨more, heq⟩ := closeMailbox_more { q with phase := .dead b }
      rw [releaseClosers_eq, heq]
      exact .waits hv hticket hcaller (hgo.mono id fun _ => rfl) hnow
    | close =>
      obtain ⟨more, heq⟩ := q.closeMailbox_more
      rw [releaseClosers_eq, heq]
      exact .waits hv hticket hcaller (hgo.mono id fun _ => rfl) hnow

/-- Whoever has to go and still waits can move. -/
theorem Reachable.not_atRest (h : Reachable script q) {w : Waiter} (hw : w ∈ q.mailbox.waiting)
    (hgo : q.MustGo w.caller) : ¬ q.AtRest script := by
  intro hr
  obtain ⟨hopen, -, hthread⟩ := h.isStuck hr hw
  rcases hgo with ⟨htask, hc⟩ | hclosed
  · have hcaller := hthread hc
    rw [htask] at hcaller
    contradiction
  · exact Bool.false_ne_true (hopen.symm.trans hclosed)

theorem Move.goes (hm : Move script q q') (h : Reachable script q)
    (hi : q.Goes ticket caller time) : q'.Goes ticket caller time := by
  have hjournal : q.flow.journal <+: q'.flow.journal := by
    have htrack : Track {} q q' := hm.track h h.orderly (.inl rfl) (.inl rfl)
    exact htrack.keeps (P := fun a => q.flow.journal <+: a.flow.journal)
      (fun _ hs hle => hle.trans hs.lasts.1) List.prefix_rfl
  cases hi with
  | refused hmem => exact .refused (hjournal.subset hmem)
  | forsaken hmem => exact .forsaken (hjournal.subset hmem)
  | @waits v hv hticket hcaller hgo hnow =>
    -- while it waits something can move, so the clock stands still
    have hmoving := h.not_atRest hv (hcaller ▸ hgo)
    have htrack : Track { isTicking := false } q q' :=
      hm.track h h.orderly (.inl rfl) (.inr hmoving)
    exact htrack.keeps (fun ho hs hi => hs.goes ho rfl hi) (.waits hv hticket hcaller hgo hnow)

theorem Later.goes (hl : Later script q q') (h : Reachable script q)
    (hi : q.Goes ticket caller time) : q'.Goes ticket caller time := by
  induction hl with
  | refl => exact hi
  | tail hl hm ih => exact hm.goes (h.later hl) ih

/-! ## What has ended and what has not -/

end Queue
end CoalescingQueue
