import CoalescingQueue.Proofs.Conservation
import CoalescingQueue.Proofs.Ranks
import CoalescingQueue.Proofs.Slots

/-!
# Calls that are given up

The caller of a waiting call may go away without an answer. Its place among those who wait is then
free, and the slot it was given goes on to the next. What it counted stays counted, since nobody
is left to take it back, so from then on the count of offers is ahead of what entered or waits.
Where callers stay that does not happen. The statements say by how much the count is ahead and do
not mend it.
-/
namespace CoalescingQueue

/-- The history only grows. -/
theorem Flow.Step.journal_prefix {script : WorkScript} {c c' : Flow} (h : Step script c c') :
    c.journal <+: c'.journal := by
  have hnote (c : Flow) (f : Fact) : c.journal <+: (c.note f).journal := List.prefix_append _ _
  cases h with
  | enlist | withdraw | release | draw | cancel | proceed => exact List.prefix_rfl
  | discard => exact (hnote _ _).trans (hnote _ _)
  | launch | relax | retire => exact (hnote _ _).trans (hnote _ _)
  | _ => exact hnote _ _

namespace Queue

variable {script : WorkScript} {q q' : Queue} {w : Waiter}

theorem Move.forsaken_prefix (hm : Move script q q') (h : Reachable script q) :
    q.flow.journal.forsaken <+: q'.flow.journal.forsaken := by
  have hcourse := (Later.course (.single hm) h).keeps
    (P := fun c => q.flow.journal <+: c.journal) (fun hs hp => hp.trans hs.journal_prefix)
    List.prefix_rfl
  exact hcourse.filterMap _

theorem find?_of_mem (h : q.mailbox.tickets.Nodup) (hw : w ∈ q.mailbox.waiting) :
    q.mailbox.find? w.ticket = some w := by
  cases hfound : q.mailbox.find? w.ticket with
  | none =>
    have hdiffer := List.find?_eq_none.mp hfound w hw
    simp at hdiffer
  | some v =>
    have hticket : v.ticket = w.ticket := by simpa using List.find?_some hfound
    have hv : v ∈ q.mailbox.waiting := List.mem_of_find?_eq_some hfound
    rw [List.inj_on_of_nodup_map h hv hw hticket]

theorem abandon_eq (h : q.mailbox.tickets.Nodup) (hw : w ∈ q.mailbox.waiting) :
    q.abandon w.ticket = (q.leave w).note (.forsaken w.ticket) := by
  unfold abandon
  rw [find?_of_mem h hw]

theorem forsaken_abandon (h : q.mailbox.tickets.Nodup) (hw : w ∈ q.mailbox.waiting) :
    (q.abandon w.ticket).flow.journal.forsaken = q.flow.journal.forsaken ++ [w.ticket] := by
  obtain ⟨more, hleave⟩ := q.leave_more w
  rw [abandon_eq h hw, flow_note, hleave]
  exact History.gather_append _ _ _

/-- Callers stay exactly as long as nobody went away without an answer. -/
theorem attended_iff : Attended script q ↔ Reachable script q ∧ q.flow.journal.forsaken = [] := by
  constructor
  · exact fun h => ⟨h.reachable, h.forsaken_eq⟩
  · rintro ⟨h, hnone⟩
    induction h with
    | opened hq => exact .opened hq
    | @move q q' hr hm ih =>
      have hgrows := hm.forsaken_prefix hr
      rw [hnone] at hgrows
      refine .move (ih (List.prefix_nil.mp hgrows)) hm fun w hw heq => ?_
      rw [heq, forsaken_abandon hr.orderly.nodup hw] at hnone
      simp at hnone

/-- What it takes to give up a waiting call: its place and its slot are for others to have, and
what it counted is for nobody to take back. -/
structure Relinquishes (q : Queue) (w : Waiter) : Prop where
  stats_eq : (q.abandon w.ticket).stats = q.stats
  buffer_eq : (q.abandon w.ticket).mailbox.buffer = q.mailbox.buffer
  forsaken_eq : (q.abandon w.ticket).flow.journal.forsaken = q.flow.journal.forsaken ++ [w.ticket]
  /-- All others keep their places. -/
  tickets_eq : (q.abandon w.ticket).mailbox.tickets = q.mailbox.tickets.filter (· ≠ w.ticket)
  /-- A call that had no slot, or none that meant anything, leaves the slots alone. -/
  mailbox_eq : (w.hasSlot = false ∨ q.mailbox.isClosed = true) →
    (q.abandon w.ticket).mailbox = q.mailbox.dismiss w.ticket
  /-- A slot goes to the first of the others that has none, and is free if all of them have one. -/
  passes : w.hasSlot = true → q.mailbox.isClosed = false →
    (∃ before v rest, (q.mailbox.dismiss w.ticket).waiting = before ++ v :: rest ∧
      (∀ u ∈ before, u.hasSlot = true) ∧ v.hasSlot = false ∧
      (q.abandon w.ticket).mailbox = { q.mailbox with
        waiting := before ++ { v with hasSlot := true } :: rest }) ∨
    (∀ u ∈ (q.mailbox.dismiss w.ticket).waiting, u.hasSlot = true) ∧
      (q.abandon w.ticket).mailbox =
        { q.mailbox.dismiss w.ticket with free := q.mailbox.free + 1 }

theorem relinquishes (h : q.mailbox.tickets.Nodup) (hw : w ∈ q.mailbox.waiting) :
    q.Relinquishes w := by
  have hforsaken := forsaken_abandon h hw
  obtain ⟨more, hleave⟩ := q.leave_more w
  have hmailbox : (q.abandon w.ticket).mailbox =
      if w.hasSlot && !q.mailbox.isClosed then (q.mailbox.dismiss w.ticket).release.2
      else q.mailbox.dismiss w.ticket := by
    rw [abandon_eq h hw, hleave]
    rfl
  refine ⟨?_, ?_, hforsaken, ?_, ?_, ?_⟩
  · rw [abandon_eq h hw, hleave]
    rfl
  · rw [hmailbox]
    split
    · exact Mailbox.release_buffer _
    · rfl
  · rw [hmailbox, ← Mailbox.dismiss_tickets]
    split
    · exact Mailbox.release_tickets _
    · rfl
  · intro hidle
    rw [hmailbox, if_neg]
    rcases hidle with hslot | hclosed <;> simp [*]
  · intro hslot hopen
    rw [hmailbox, if_pos (by rw [hslot, hopen]; rfl)]
    unfold Mailbox.release
    split
    · next v ws hgrant =>
      obtain ⟨before, rest, hwaiting, rfl, hv, hall⟩ := Mailbox.exists_of_grantFirst hgrant
      exact .inl ⟨before, v, rest, hwaiting, hall, hv, rfl⟩
    · next hgrant =>
      exact .inr ⟨fun u hu => Mailbox.hasSlot_of_grantFirst_eq_none hgrant u hu, rfl⟩

/-- Each call that was given up while it waited stays counted, and nothing else is out of count.
-/
theorem given_up_stays_counted (h : Reachable script q) :
    q.stats.enqueued = q.flow.journal.arrivals.length + q.mailbox.waiting.length +
      q.flow.journal.forsaken.length ∧
    (q.stats.enqueued = q.flow.journal.arrivals.length + q.mailbox.waiting.length ↔
      Attended script q) ∧
    ∀ w ∈ q.mailbox.waiting, q.Relinquishes w := by
  have hcounted : q.stats.enqueued = q.flow.journal.arrivals.length +
      (q.mailbox.waiting.length + q.flow.journal.forsaken.length) :=
    Flow.counted_iff.mp h.flow.counted
  have hattended : Attended script q ↔ q.flow.journal.forsaken.length = 0 := by
    rw [attended_iff, List.length_eq_zero_iff, and_iff_right h]
  refine ⟨by omega, ?_, fun w hw => relinquishes h.orderly.nodup hw⟩
  rw [hattended]
  omega

/-- One request is with the work function and one is buffered, and the first of the two callers that
wait for room goes away. -/
def neglected : Queue :=
  let q : Queue :=
    { config := { capacity := 1, capacity_pos := Nat.one_pos }, mailbox := { free := 1 } }
  let busy := (q.act patient (.add ⟨"a"⟩ 0)).2.settle patient
  let full := (busy.act patient (.burst [⟨"b"⟩, ⟨"c"⟩, ⟨"d"⟩] 0)).2.settle patient
  full.abandon 0

theorem reachable_neglected : Reachable patient neglected := by
  have hcapacity : (1 : Nat) ≤ QueueConfig.maxCapacity := by decide
  unfold neglected
  extract_lets q busy full
  have hbusy : Reachable patient busy := ((Reachable.new hcapacity []).act ⟨rfl, rfl, rfl⟩ _).settle
  have hrest : busy.AtRest patient := isAtRest_iff.mp (by decide)
  have hfull : Reachable patient full := (hbusy.act hrest.isFree _).settle
  have hrest' : full.AtRest patient := isAtRest_iff.mp (by decide)
  exact hfull.move (.abandon hrest'.isFree 0)

theorem given_up_stays_counted_neglected : Reachable patient neglected ∧
    neglected.flow.journal.forsaken = [0] ∧
    (neglected.stats.enqueued = neglected.flow.journal.arrivals.length +
      neglected.mailbox.waiting.length + neglected.flow.journal.forsaken.length ∧
    (neglected.stats.enqueued = neglected.flow.journal.arrivals.length +
      neglected.mailbox.waiting.length ↔ Attended patient neglected) ∧
    ∀ w ∈ neglected.mailbox.waiting, neglected.Relinquishes w) :=
  ⟨reachable_neglected, by decide, given_up_stays_counted reachable_neglected⟩

/-- Four requests are counted, where two entered and one waits. -/
theorem neglected_overcounted : Reachable patient neglected ∧
    neglected.flow.journal.arrivals = [⟨"a"⟩, ⟨"b"⟩] ∧ neglected.mailbox.tickets = [1] ∧
    neglected.stats.enqueued = 4 ∧
    neglected.stats.enqueued ≠
      neglected.flow.journal.arrivals.length + neglected.mailbox.waiting.length :=
  ⟨reachable_neglected, by decide, by decide, by decide, by decide⟩

end Queue
end CoalescingQueue
