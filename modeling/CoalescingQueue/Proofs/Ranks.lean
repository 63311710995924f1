import CoalescingQueue.Proofs.Parting
import CoalescingQueue.Proofs.Slots

/-!
# Who waits longest

The calls that wait are listed in the order of their tickets, and slots go down that list: whoever
has one was before everybody without. A slot stays with its call as long as that waits, and no more
slots are filled and promised than there are, also once the mailbox is closed. In which order the
calls enter is not said here.
-/
namespace CoalescingQueue

/-- One call waits longer than another, and has a slot if the other has. -/
structure Waiter.Precedes (v w : Waiter) : Prop where
  ticket_lt : v.ticket < w.ticket
  hasSlot : w.hasSlot = true → v.hasSlot = true

namespace Mailbox

/-- A slot goes to the first that has none. -/
theorem exists_of_grantFirst {ws ws' : List Waiter} {g : Waiter}
    (h : grantFirst ws = some (g, ws')) : ∃ before rest, ws = before ++ g :: rest ∧
      ws' = before ++ { g with hasSlot := true } :: rest ∧ g.hasSlot = false ∧
      ∀ w ∈ before, w.hasSlot = true := by
  induction ws generalizing g ws' with
  | nil => contradiction
  | cons v rest ih =>
    unfold grantFirst at h
    split at h
    · next hv =>
      obtain ⟨⟨granted, tail⟩, hrest, heq⟩ := Option.map_eq_some_iff.mp h
      obtain ⟨rfl, rfl⟩ := Prod.mk.inj heq
      obtain ⟨before, behind, rfl, rfl, hslot, hall⟩ := ih hrest
      exact ⟨v :: before, behind, rfl, rfl, hslot, List.forall_mem_cons.mpr ⟨hv, hall⟩⟩
    · next hv =>
      obtain ⟨rfl, rfl⟩ := Prod.mk.inj (Option.some.inj h)
      exact ⟨[], rest, rfl, rfl, by simpa using hv, List.forall_mem_nil _⟩

/-- One change of the number of tickets that were drawn and the list of those who wait. -/
inductive Turnover (tickets : Nat) (ws : List Waiter) : Nat × List Waiter → Prop
  | enlist {w : Waiter} (hticket : w.ticket = tickets) (hslot : w.hasSlot = false) :
      Turnover tickets ws (tickets + 1, ws ++ [w])
  /-- A ticket is drawn by somebody who does not wait for room. -/
  | draw : Turnover tickets ws (tickets + 1, ws)
  | dismiss (ticket : Nat) : Turnover tickets ws (tickets, ws.filter (·.ticket ≠ ticket))
  | grant {g : Waiter} {ws' : List Waiter} (h : grantFirst ws = some (g, ws')) :
      Turnover tickets ws (tickets, ws')

/-- Any number of such changes. -/
abbrev Turnovers : Nat × List Waiter → Nat × List Waiter → Prop :=
  Relation.ReflTransGen fun p => Turnover p.1 p.2

/-- Those who wait do so in the order of their tickets, all of which were drawn. -/
structure Ranked (p : Nat × List Waiter) : Prop where
  ticket_lt : ∀ w ∈ p.2, w.ticket < p.1
  precedes : p.2.Pairwise Waiter.Precedes

/-- A call that has a slot keeps it. -/
structure Keeps (ticket : Nat) (p : Nat × List Waiter) : Prop where
  ticket_lt : ticket < p.1
  hasSlot : ∀ w ∈ p.2, w.ticket = ticket → w.hasSlot = true

variable {tickets : Nat} {ws : List Waiter} {p p' : Nat × List Waiter}

theorem Turnover.ranked (h : Turnover tickets ws p) (hi : Ranked (tickets, ws)) : Ranked p := by
  obtain ⟨hlt, hprecedes⟩ := hi
  cases h with
  | @enlist w hnew hslot =>
    constructor
    · intro v hv
      show v.ticket < tickets + 1
      rcases List.mem_append.mp hv with hold | hlast
      · exact Nat.lt_succ_of_lt (hlt v hold)
      · rw [List.mem_singleton.mp hlast]
        omega
    · refine List.pairwise_append.mpr ⟨hprecedes, List.pairwise_singleton _ _, fun v hv u hu => ?_⟩
      rw [List.mem_singleton.mp hu]
      refine ⟨hnew ▸ hlt v hv, fun hgiven => ?_⟩
      rw [hslot] at hgiven
      contradiction
  | draw => exact ⟨fun v hv => Nat.lt_succ_of_lt (hlt v hv), hprecedes⟩
  | dismiss => exact ⟨fun v hv => hlt v (List.mem_filter.mp hv).1, hprecedes.filter _⟩
  | @grant g ws' h =>
    obtain ⟨before, rest, rfl, rfl, -, hall⟩ := exists_of_grantFirst h
    constructor
    · intro v hv
      rcases mem_grantFirst h hv with hold | ⟨hg, -, rfl⟩
      · exact hlt v hold
      · exact hlt g hg
    · rw [List.pairwise_append, List.pairwise_cons] at hprecedes ⊢
      obtain ⟨hbefore, ⟨hg, hrest⟩, hacross⟩ := hprecedes
      refine ⟨hbefore, ⟨fun v hv => ⟨(hg v hv).ticket_lt, fun _ => rfl⟩, hrest⟩, fun v hv u hu => ?_⟩
      rcases List.mem_cons.mp hu with rfl | hmem
      · exact ⟨(hacross v hv g List.mem_cons_self).ticket_lt, fun _ => hall v hv⟩
      · exact hacross v hv u (List.mem_cons_of_mem g hmem)

theorem Turnover.keeps {ticket : Nat} (h : Turnover tickets ws p)
    (hi : Keeps ticket (tickets, ws)) : Keeps ticket p := by
  obtain ⟨hlt, hslot⟩ := hi
  have hlt : ticket < tickets := hlt
  cases h with
  | @enlist w hnew hfresh =>
    refine ⟨Nat.lt_succ_of_lt hlt, fun v hv hticket => ?_⟩
    rcases List.mem_append.mp hv with hold | hlast
    · exact hslot v hold hticket
    · rw [List.mem_singleton.mp hlast] at hticket
      omega
  | draw => exact ⟨Nat.lt_succ_of_lt hlt, hslot⟩
  | dismiss => exact ⟨hlt, fun v hv => hslot v (List.mem_filter.mp hv).1⟩
  | @grant g ws' h =>
    refine ⟨hlt, fun v hv hticket => ?_⟩
    rcases mem_grantFirst h hv with hold | ⟨hg, -, rfl⟩
    · exact hslot v hold hticket
    · rfl

/-- What each change keeps, all of them keep. -/
theorem Turnovers.keeps {P : Nat × List Waiter → Prop} (h : Turnovers p p')
    (hstep : ∀ {a b : Nat × List Waiter}, Turnover a.1 a.2 b → P a → P b) (hp : P p) : P p' := by
  induction h with
  | refl => exact hp
  | tail _ ht ih => exact hstep ht ih

theorem turnovers_release (m : Mailbox) (tickets : Nat) :
    Turnovers (tickets, m.waiting) (tickets, m.release.2.waiting) := by
  unfold release
  split
  · next h => exact .single (.grant h)
  · exact .refl

theorem promised_dismiss_le (m : Mailbox) (ticket : Nat) :
    (m.dismiss ticket).promised ≤ m.promised :=
  List.Sublist.countP_le List.filter_sublist

end Mailbox

namespace Queue

open Mailbox (Turnover Turnovers)

variable {script : WorkScript} {terms : Terms} {q q' : Queue}

/-- How many tickets were drawn, and who waits. -/
def desk (q : Queue) : Nat × List Waiter := (q.tickets, q.mailbox.waiting)

theorem turnovers_leave (q : Queue) (w : Waiter) : Turnovers q.desk (q.leave w).desk := by
  have hdismiss : Turnover q.tickets q.mailbox.waiting
      (q.tickets, (q.mailbox.dismiss w.ticket).waiting) := .dismiss w.ticket
  obtain ⟨more, heq⟩ := q.leave_more w
  rw [heq]
  show Turnovers q.desk (q.tickets, Mailbox.waiting (if _ then _ else _))
  split
  · exact .head hdismiss (Mailbox.turnovers_release _ _)
  · exact .single hdismiss

/-- What a shift does to those who wait. -/
theorem Shift.turnovers (h : Shift terms q q') : Turnovers q.desk q'.desk := by
  cases h with
  | record | remark | call | rest | tick | clone | prepare | announce | proceed | go | desert =>
    exact .refl
  | wake =>
    obtain ⟨more, heq⟩ := q.enqueue_more .run
    rw [heq]
    exact .refl
  | @put r mailbox hheld hopen hput =>
    obtain ⟨more, heq⟩ := wakeDispatcher_more ({ q with mailbox }.note (.admitted r))
    obtain rfl := Mailbox.eq_of_put? hput
    rw [heq]
    exact .refl
  | @enlist w hheld hopen hput hticket hslot =>
    obtain ⟨more, heq⟩ := q.lineUp_more w
    rw [heq]
    exact .single (.enlist hticket hslot)
  | @join w =>
    have hdesk : ((q.enter w).note (.ended w.ticket .accepted q.now)).desk =
        (q.tickets, q.mailbox.waiting.filter (·.ticket ≠ w.ticket)) := by
      obtain ⟨more, heq⟩ := q.enter_more w
      show (q.enter w).desk = _
      rw [heq]
      rfl
    rw [hdesk]
    exact .single (.dismiss w.ticket)
  | @withdraw w | @forsake w => exact turnovers_leave q w
  | cancel =>
    obtain ⟨more, heq⟩ := wakeAll_more { q with isCancelled := true }
    rw [heq]
    exact .refl
  | await => exact .single .draw
  | permit n =>
    obtain ⟨more, heq⟩ := q.releasePermits_more n
    rw [heq]
    exact .refl
  | drop handle =>
    obtain ⟨more, heq⟩ := q.drop_more handle
    rw [heq]
    exact .refl
  | @offered e todo replies =>
    obtain ⟨more, heq⟩ := wakeIfAbandoned_more
      { q with errand := some { e with todo, isAnnounced := false, replies } }
    rw [heq]
    exact .refl
  | @finish run =>
    obtain ⟨more, heq⟩ := (q.setStage run .ended).enqueue_more .dispatcher
    rw [heq]
    exact .refl
  | @take r mailbox phase hturn hgoing hnext hexit htake =>
    obtain ⟨more, heq⟩ := releaseSlot_more { q with mailbox }
    have hdesk : q.desk = (q.tickets, mailbox.waiting) := by
      rw [desk, Mailbox.eq_of_take? htake]
    rw [heq, hdesk]
    exact mailbox.turnovers_release q.tickets
  | @launch b run =>
    obtain ⟨more, heq⟩ := enqueue_more { q with phase := .awaiting b, run := some run } .run
    rw [heq]
    exact .refl
  | @breakDown b =>
    obtain ⟨more, heq⟩ := closeMailbox_more { q with phase := .dead b }
    rw [releaseClosers_eq, heq]
    exact .refl
  | close =>
    obtain ⟨more, heq⟩ := q.closeMailbox_more
    rw [releaseClosers_eq, heq]
    exact .refl

/-- Those who wait do so in the order of their tickets, and of their slots. -/
def Ranked (q : Queue) : Prop := Mailbox.Ranked q.desk

theorem Shift.ranked (h : Shift terms q q') (hi : q.Ranked) : q'.Ranked :=
  h.turnovers.keeps Turnover.ranked hi

theorem ranked_of_open? {config : QueueConfig} {hooks : List Hook}
    (h : open? config hooks = some q) : q.Ranked := by
  unfold open? at h
  split at h
  · obtain rfl := Option.some.inj h
    exact ⟨nofun, .nil⟩
  · contradiction

theorem Reachable.ranked (h : Reachable script q) : q.Ranked :=
  h.keeps ranked_of_open? fun _ hs hi => hs.ranked hi

theorem Later.turnovers (hl : Later script q q') (h : Reachable script q) :
    Turnovers q.desk q'.desk := by
  induction hl with
  | refl => exact .refl
  | @tail a b hl hm ih =>
    have htrack : Track {} a b :=
      hm.track (h.later hl) (h.later hl).orderly (.inl rfl) (.inl rfl)
    exact htrack.keeps (P := fun c => Turnovers q.desk c.desk)
      (fun _ hs hle => hle.trans hs.turnovers) ih

/-! ## How many slots are taken -/

/-- No more requests are buffered, and no more slots promised, than there is room for. -/
def Bounded (q : Queue) : Prop :=
  q.mailbox.buffer.length + q.mailbox.promised ≤ q.config.capacity

theorem Packed.bounded (h : q.Packed) (hopen : q.mailbox.isClosed = false) : q.Bounded := by
  have hslots := (h hopen).slots_eq
  unfold Bounded
  omega

/-- Slots of a closed mailbox are not passed on. -/
theorem bounded_leave {w : Waiter} (hclosed : q.mailbox.isClosed = true) (hi : q.Bounded) :
    (q.leave w).Bounded := by
  obtain ⟨more, heq⟩ := q.leave_more w
  have hkept : ¬ (w.hasSlot && !q.mailbox.isClosed) = true := by simp [hclosed]
  rw [if_neg hkept] at heq
  have hpromised := q.mailbox.promised_dismiss_le w.ticket
  rw [heq]
  show q.mailbox.buffer.length + (q.mailbox.dismiss w.ticket).promised ≤ q.config.capacity
  unfold Bounded at hi
  omega

theorem Shift.bounded_of_isClosed (h : Shift terms q q') (hp : q.Parts) (hi : q.Bounded)
    (hclosed : q'.mailbox.isClosed = true) : q'.Bounded := by
  cases h with
  | record | remark | call | rest | tick | await | clone | prepare | announce | proceed | go
  | desert => exact hi
  | wake =>
    obtain ⟨more, heq⟩ := q.enqueue_more .run
    rw [heq]
    exact hi
  | @put r mailbox hheld hopen hput =>
    obtain ⟨more, heq⟩ := wakeDispatcher_more ({ q with mailbox }.note (.admitted r))
    obtain rfl := Mailbox.eq_of_put? hput
    rw [heq] at hclosed
    exact absurd (hopen.symm.trans hclosed) Bool.false_ne_true
  | @enlist w hheld hopen =>
    obtain ⟨more, heq⟩ := q.lineUp_more w
    rw [heq] at hclosed
    exact absurd (hopen.symm.trans hclosed) Bool.false_ne_true
  | @join w hopen =>
    obtain ⟨more, heq⟩ := q.enter_more w
    have hclosed : (q.enter w).mailbox.isClosed = true := hclosed
    rw [heq] at hclosed
    exact absurd (hopen.symm.trans hclosed) Bool.false_ne_true
  | @withdraw w | @forsake w =>
    have hold : q.mailbox.isClosed = true := (q.leave_isClosed w).symm.trans hclosed
    have hleft : (q.leave w).Bounded := bounded_leave hold hi
    exact hleft
  | cancel =>
    obtain ⟨more, heq⟩ := wakeAll_more { q with isCancelled := true }
    rw [heq]
    exact hi
  | permit n =>
    obtain ⟨more, heq⟩ := q.releasePermits_more n
    rw [heq]
    exact hi
  | drop handle =>
    obtain ⟨more, heq⟩ := q.drop_more handle
    rw [heq]
    exact hi
  | @offered e todo replies =>
    obtain ⟨more, heq⟩ := wakeIfAbandoned_more
      { q with errand := some { e with todo, isAnnounced := false, replies } }
    rw [heq]
    exact hi
  | @finish run =>
    obtain ⟨more, heq⟩ := (q.setStage run .ended).enqueue_more .dispatcher
    rw [heq]
    exact hi
  | @take r mailbox phase hturn hgoing hnext hexit htake =>
    obtain ⟨more, heq⟩ := releaseSlot_more { q with mailbox }
    have hopen : q.mailbox.isClosed = false := hp.isClosed_eq.trans hgoing
    have hsame : mailbox.isClosed = q.mailbox.isClosed := by rw [Mailbox.eq_of_take? htake]
    rw [heq] at hclosed
    have hclosed : mailbox.release.2.isClosed = true := hclosed
    rw [Mailbox.release_isClosed, hsame, hopen] at hclosed
    contradiction
  | @launch b run =>
    obtain ⟨more, heq⟩ := enqueue_more { q with phase := .awaiting b, run := some run } .run
    rw [heq]
    exact hi
  | @breakDown b =>
    obtain ⟨more, heq⟩ := closeMailbox_more { q with phase := .dead b }
    rw [releaseClosers_eq, heq]
    exact hi
  | close =>
    obtain ⟨more, heq⟩ := q.closeMailbox_more
    rw [releaseClosers_eq, heq]
    exact hi

theorem Shift.bounded (h : Shift terms q q') (ho : q.Orderly) (hp : q.Parts) (hk : q.Packed)
    (hi : q.Bounded) : q'.Bounded := by
  cases hclosed : q'.mailbox.isClosed with
  | false => exact (h.packed ho hk).bounded hclosed
  | true => exact h.bounded_of_isClosed hp hi hclosed

theorem Reachable.bounded (h : Reachable script q) : q.Bounded := by
  have hall : q.Parts ∧ q.Packed ∧ q.Bounded :=
    h.keeps (P := fun q => q.Parts ∧ q.Packed ∧ q.Bounded)
      (fun hq => by
        have hpacked := packed_of_open? hq
        refine ⟨parts_of_open? hq, hpacked, hpacked.bounded ?_⟩
        unfold open? at hq
        split at hq
        · obtain rfl := Option.some.inj hq
          rfl
        · contradiction)
      fun ho hs hi => ⟨hs.parts hi.1, hs.packed ho hi.2.1, hs.bounded ho hi.1 hi.2.1 hi.2.2⟩
  exact hall.2.2

end Queue
end CoalescingQueue
