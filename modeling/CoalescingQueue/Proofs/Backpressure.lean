import CoalescingQueue.Proofs.Calling

/-!
# Backpressure

The buffered requests and the slots that were given away and not used yet never exceed the capacity,
and a call waits without a slot only where they reach it. Slots go down the list of those who wait,
which is in the order of their tickets. Tasks enter in this order, too, unless an action that is hooked
to an event makes a call of a task: such a call gets in line while the dispatcher is at work, before
others that have waited longer. Where only tasks call and hooks set nothing off, requests enter in the
order of the calls.
-/
namespace CoalescingQueue.Queue

variable {script : WorkScript} {P : Queue → Prop} {q : Queue} {paused : Bool} {b : Bool × Queue}

/-- A queue that was driven like this from new on. -/
def DrivenFromNew (script : WorkScript) (P : Queue → Prop) (b : Bool × Queue) : Prop :=
  ∃ (config : QueueConfig) (hooks : List Hook) (q₀ : Queue),
    open? config hooks = some q₀ ∧ Driven script P (true, q₀) b

theorem DrivenFromNew.steady (h : DrivenFromNew script P b) (hp : ∀ {q : Queue}, P q → q.IsUnprompted) :
    b.2.Steady b.1 := by
  obtain ⟨config, hooks, q₀, hq₀, hrun⟩ := h
  exact Driven.steady hrun (.opened hq₀) hp (steady_of_open? hq₀)

theorem DrivenFromNew.inOrder (h : DrivenFromNew script IsPlain b) : b.2.InOrder := by
  obtain ⟨config, hooks, q₀, hq₀, hrun⟩ := h
  exact Driven.inOrder hrun (.opened hq₀) (steady_of_open? hq₀) (inOrder_of_open? hq₀)

/-- First come, first served, as long as there is room. -/
structure Backpressure (script : WorkScript) (q : Queue) : Prop where
  le_capacity : q.mailbox.buffer.length + q.mailbox.promised ≤ q.config.capacity
  /-- A call waits without a slot only where there is no room left. -/
  eq_capacity : q.isStopped = false → ∀ w ∈ q.mailbox.waiting, w.hasSlot = false →
    q.mailbox.buffer.length + q.mailbox.promised = q.config.capacity
  /-- Those who wait are listed in the order of their tickets, those with a slot before the others. -/
  precedes : q.mailbox.waiting.Pairwise Waiter.Precedes
  /-- A slot stays with the call it was given to as long as that waits. -/
  kept : ∀ w ∈ q.mailbox.waiting, w.hasSlot = true → ∀ q', Later script q q' →
    ∀ v ∈ q'.mailbox.waiting, v.ticket = w.ticket → v.hasSlot = true
  /-- Unless a hooked action makes a call of a task, those of the tasks that wait now that have
  entered later are the first of them in the order of their tickets, but for those that went away
  by themselves. -/
  entering : ∀ paused, DrivenFromNew script IsUnprompted (paused, q) →
    ∀ paused' q', Driven script IsUnprompted (paused, q) (paused', q') →
      q.mailbox.tasks.Pairwise (· < ·) ∧
      q'.flow.journal.entered.filter (· ∈ q.mailbox.tasks) <+:
        q.mailbox.tasks.filter (· ∉ q'.flow.journal.forsaken)
  /-- Where only tasks call and hooks set nothing off, the requests that have entered come in the order
  of the calls, and unless somebody went away by itself, before those of all other calls. -/
  calling : ∀ paused, DrivenFromNew script IsPlain (paused, q) →
    q.flow.journal.arrivals.Sublist q.flow.journal.offered ∧
    (q.flow.journal.forsaken = [] → q.flow.journal.arrivals <+: q.flow.journal.offered)

theorem backpressure (h : Reachable script q) : q.Backpressure script := by
  constructor
  · exact h.bounded
  · intro hgoing w hw hslot
    unfold isStopped at hgoing
    rw [Bool.or_eq_false_iff] at hgoing
    obtain ⟨hslots, hnone⟩ := h.packed hgoing.2
    have hfree := hnone w hw hslot
    omega
  · exact h.ranked.precedes
  · intro w hw hslot q' hl v hv hticket
    have hkeeps : Mailbox.Keeps w.ticket q.desk := by
      refine ⟨h.ranked.ticket_lt w hw, fun u hu heq => ?_⟩
      obtain rfl := List.inj_on_of_nodup_map h.orderly.nodup hu hw heq
      exact hslot
    exact ((hl.turnovers h).keeps Mailbox.Turnover.keeps hkeeps).hasSlot v hv hticket
  · intro paused hnew paused' q' hrun
    exact ⟨h.ranked.tasks_sorted, (Driven.trails hrun h (hnew.steady id)).entered⟩
  · intro paused hnew
    exact hnew.inOrder.arrivals

instance : Decidable q.IsPlain :=
  decidable_of_iff (q.due.isEmpty = true ∧ q.errand.all (·.caller = .task) = true) <| by
    constructor
    · rintro ⟨hdue, hcaller⟩
      refine ⟨List.isEmpty_iff.mp hdue, fun e he => ?_⟩
      rw [he] at hcaller
      exact of_decide_eq_true hcaller
    · rintro ⟨hdue, hcaller⟩
      refine ⟨List.isEmpty_iff.mpr hdue, ?_⟩
      cases he : q.errand with
      | none => rfl
      | some e => exact decide_eq_true (hcaller e he)

/-- A run that adds a request at its end, and runs that do nothing. -/
def inviting : WorkScript :=
  .ofList [.run { atEnd := [.add ⟨"e"⟩ 0] }] (.run {})

/-- More requests at once than the mailbox holds, before the dispatcher has its first turn. -/
def thronged : Queue :=
  let q : Queue := { config := { capacity := 1, capacity_pos := Nat.one_pos }, mailbox := { free := 1 } }
  iterate attend? 9 ({ q with reply := .nothing }.begin (.burst [⟨"a"⟩, ⟨"b"⟩, ⟨"c"⟩, ⟨"d"⟩] 0))

theorem drivenFromNew_thronged : DrivenFromNew inviting IsPlain (true, thronged) := by
  let q : Queue := { config := { capacity := 1 }, mailbox := { free := 1 } }
  have hfree : q.IsFree := ⟨rfl, rfl, rfl⟩
  have hplain : q.IsPlain := by decide
  have hacted : Driven inviting IsPlain (true, q) (true, { q with reply := .nothing }.begin
      (.burst [⟨"a"⟩, ⟨"b"⟩, ⟨"c"⟩, ⟨"d"⟩] 0)) := .single ⟨hplain, .act hfree _⟩
  refine ⟨{ capacity := 1 }, [], q, if_pos (by decide), hacted.trans ?_⟩
  exact driven_attend true _ 9 (by decide)

/-- Two of those that waited have entered when the request that the run has added waits. -/
theorem backpressure_thronged : Reachable inviting thronged ∧
    thronged.mailbox.waiting.map (fun w => (w.ticket, w.hasSlot)) =
      [(0, false), (1, false), (2, false)] ∧
    thronged.Backpressure inviting ∧
    DrivenFromNew inviting IsPlain (true, thronged) ∧
    ∃ paused, Driven inviting IsUnprompted (true, thronged)
        (paused, iterate (step? inviting) 40 thronged) ∧
      (iterate (step? inviting) 40 thronged).flow.journal.entered = [0, 1] := by
  have hreach : Reachable inviting thronged := by
    obtain ⟨config, hooks, q₀, hq₀, hrun⟩ := drivenFromNew_thronged
    exact Reachable.later (.opened hq₀) (Driven.later hrun)
  have hplain : ∀ i < 40, (iterate (step? inviting) i thronged).IsPlain := by decide
  obtain ⟨paused, hrun⟩ := driven_step true thronged 40 hplain
  exact ⟨hreach, by decide, backpressure hreach, drivenFromNew_thronged, paused,
    Driven.mono hrun IsPlain.isUnprompted, by decide⟩

/-- A hooked action gets a task in line before one that has waited longer. -/
def overtaking : Queue :=
  let late : Hook := { message := "execution completed", actions := [.add ⟨"w1"⟩ 0] }
  let q : Queue := {
    config := { capacity := 2, capacity_pos := Nat.two_pos }
    mailbox := { free := 2 }
    hooks := [late] }
  let busy := (q.act patient (.add ⟨"a"⟩ 0)).2.settle patient
  let full := (busy.act patient (.burst [⟨"b"⟩, ⟨"c"⟩, ⟨"w0"⟩] 0)).2.settle patient
  iterate (step? patient) 7 (full.wakeRunAt 5)

theorem reachable_overtaking : Reachable patient overtaking := by
  have hcapacity : (2 : Nat) ≤ QueueConfig.maxCapacity := by decide
  unfold overtaking
  extract_lets late q busy full
  have hbusy : Reachable patient busy := ((Reachable.new hcapacity _).act ⟨rfl, rfl, rfl⟩ _).settle
  have hrest : busy.AtRest patient := isAtRest_iff.mp (by decide)
  have hfull : Reachable patient full := (hbusy.act hrest.isFree _).settle
  have hrest' : full.AtRest patient := isAtRest_iff.mp (by decide)
  have hdeadline : full.deadline? = some 5 := by decide
  exact (hfull.move (.wake hrest' hdeadline)).iterate .step 7

/-- So it enters first. -/
theorem entered_overtaking : Reachable patient overtaking ∧
    overtaking.mailbox.waiting.map (fun w => (w.ticket, w.caller)) = [(0, .task), (1, .task)] ∧
    Later patient overtaking (overtaking.settle patient) ∧
    (overtaking.settle patient).flow.journal.entered = [1, 0] :=
  ⟨reachable_overtaking, by decide, later_settle _ _, by decide⟩

end CoalescingQueue.Queue
