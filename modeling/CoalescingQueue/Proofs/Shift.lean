import CoalescingQueue.Proofs.SingleFlight
import CoalescingQueue.Proofs.Turns

/-!
# Shifts

The flow of a queue leaves out who waits for what and who stands in line. A shift is the smallest
change of a whole queue after which everybody is looked after: a call that is over is off the
list, and whoever was given something to do has been put in line. The moves of a queue are made
of shifts. That is shown apart, and what shifts keep is not said here, except for the tickets,
each of which belongs to one call.
-/
namespace CoalescingQueue

/-- The ticket of a call that is over. -/
@[simp] def Fact.over? : Fact → Option Nat
  | .ended ticket _ _ => some ticket
  | .forsaken ticket => some ticket
  | _ => none

/-- A shutdown call that came to its end. -/
@[simp] def Fact.isRelease : Fact → Bool
  | .ended _ .done _ | .performed (.shutdown _) .done => true
  | _ => false

/-- A request that was announced to be offered. -/
@[simp] def Fact.offered? : Fact → Option Request
  | .logged ⟨.offered r, _⟩ => some r
  | _ => none

/-- The tickets of all calls that waited and are over. -/
abbrev History.over (h : History) : List Nat := h.gather Fact.over?

/-- The requests of all calls that were made to offer them, in the order of the calls. -/
abbrev History.offered (h : History) : List Request := h.gather Fact.offered?

namespace Phase

/-- Whether the dispatcher is on its way to the regular end, or there. -/
def isExit : Phase → Bool
  | .dropping _ | .retiring _ | .closing | .stopped => true
  | _ => false

end Phase

/-- Whether a run goes on by itself, given the permits at the gate and the time. -/
def Run.CanGoOn (run : Run) (permits now : Nat) : Prop :=
  match run.stage with
  | .spawned | .opening _ | .closing _ => True
  | .waiting => run.plan.isGated = true → 0 < permits
  | .sleeping deadline => deadline ≤ now
  | .ended => False

/-- Whether an action offers requests as a task. -/
def Action.isAsync : Action → Bool
  | .add _ _ | .burst _ _ => true
  | _ => false

/-- Whether an action offers requests. -/
def Action.isOffer : Action → Bool
  | .add _ _ | .blockingAdd _ _ | .burst _ _ => true
  | _ => false

theorem Action.isAsync_eq_false {a : Action} (h : a.isOffer = false) : a.isAsync = false := by
  cases a <;> first | rfl | contradiction

/-- An errand offers requests, for a task or a thread. -/
structure Errand.IsOffer (e : Errand) : Prop where
  caller_ne : e.caller ≠ .foreground
  action_ne : ∀ handle, e.action ≠ .shutdown handle

namespace Queue

/-- Whether there is something that this party has to do. -/
def Wanted (q : Queue) : Party → Prop
  | .dispatcher =>
    match q.phase with
    | .listening => q.isCancelled = true ∨ q.mailbox.buffer ≠ [] ∨ q.isAbandoned = true
    | .awaiting _ => ∃ run, q.run = some run ∧ run.stage = .ended
    | .stopped | .dead _ => False
    | _ => True
  | .run => ∃ run, q.run = some run ∧ run.CanGoOn q.permits q.now
  | .producer ticket => ∃ w ∈ q.mailbox.waiting, w.ticket = ticket ∧ w.caller = .task ∧
      (w.hasSlot = true ∨ q.isCancelled = true ∨ q.mailbox.isClosed = true)

/-- Whether a party has the turn or stands in line for it. -/
def Awake (q : Queue) (p : Party) : Prop := q.turn = some p ∨ p ∈ q.line

/-- Those in line after a party. -/
def after (p : Party) (line : List Party) : List Party := (line.dropWhile (· ≠ p)).tail

/-- Those who come to their turn after the dispatcher, if it has the turn or stands in line. -/
def behind (q : Queue) : List Party :=
  if q.turn = some .dispatcher then q.line else after .dispatcher q.line

/-- Requests are still taken in. -/
structure IsGoing (q : Queue) : Prop where
  isCancelled_eq : q.isCancelled = false
  isClosed_eq : q.mailbox.isClosed = false

/-- A dispatcher in line comes before every task that waits. -/
structure IsClear (q : Queue) : Prop where
  turn_eq : q.turn = none ∨ q.turn = some .run
  behind : .dispatcher ∈ q.line → ∀ w ∈ q.mailbox.waiting, w.caller = .task →
    .producer w.ticket ∈ q.behind

/-- A run that has the turn does not wait at the gate. -/
def IsPast (q : Queue) : Prop :=
  q.turn = some .run → ∀ run, q.run = some run → run.stage ≠ .waiting

/-- No hooked action offers requests as a task, and an errand that does finds the queue clear. -/
structure IsFair (q : Queue) : Prop where
  due : ∀ a ∈ q.due, a.isAsync = false
  past : q.due ≠ [] → q.IsPast
  errand : ∀ e, q.errand = some e → e.caller = .task → q.IsGoing → q.IsClear

/-- A run ends before the dispatcher counts its outcome, and it is in flight only until then. -/
structure IsSerial (q : Queue) : Prop where
  run_eq : q.phase.isRunning = false → q.run = none
  ended : (∀ b, q.phase ≠ .awaiting b) → ∀ run, q.run = some run → run.stage = .ended

/-- A call begins to wait. A task gets in line at once. -/
def lineUp (q : Queue) (w : Waiter) : Queue :=
  let q := { q with mailbox := q.mailbox.enlist w, tickets := q.tickets + 1 }
  if w.caller = .task then q.enqueue (.producer w.ticket) else q

/-- What may happen for a while. -/
structure Terms where
  /-- The caller of a waiting offer may go away. -/
  isLossy : Bool := true
  /-- The clock may move on. -/
  isTicking : Bool := true
  /-- A party may be given a turn. -/
  isTurning : Bool := true
  /-- A task may get in line behind a dispatcher that other tasks are not behind. -/
  isJostling : Bool := true
  /-- An offer may be announced and made. -/
  isOffering : Bool := true

/-- One change of a queue. -/
inductive Shift (terms : Terms) (q : Queue) : Queue → Prop
  /-- Something is written down that nobody waits for. -/
  | record (stats : Stats) (hooks : List Hook) (due : List Action) (reply : Reply)
      (published : DispatchState) (calls : Nat) :
      Shift terms q { q with stats, hooks, due, reply, published, calls }
  | remark {f : Fact} (hf : f.over? = none) (hadmitted : f.admitted? = none)
      (hrelease : f.isRelease = true → q.isCancelled = true ∧ q.phase.isOver = true)
      (hoffered : terms.isOffering = false → f.offered? = none) :
      Shift terms q (q.note f)
  /-- A run that sleeps is called. -/
  | wake {time : Nat} (hturn : q.turn = none) (ht : q.deadline? = some time) :
      Shift terms q (q.enqueue .run)
  | call {p : Party} {line : List Party} (hturning : terms.isTurning = true)
      (hturn : q.turn = none) (hline : q.line = p :: line) :
      Shift terms q { q with line, turn := some p }
  /-- Whoever has the turn and nothing to do gives it back. -/
  | rest {p : Party} (hturn : q.turn = some p) (hidle : ¬ q.Wanted p) : Shift terms q q.yieldTurn
  /-- The clock moves on, but not past the time at which the run wakes up. -/
  | tick {time : Nat} (hticking : terms.isTicking = true)
      (ht : ∀ d, q.deadline? = some d → time < d ∨ .run ∈ q.line) :
      Shift terms q (q.clockTo time)
  /-- An offer finds a free slot. -/
  | put {r : Request} {mailbox : Mailbox} (hheld : q.hasHandle = true ∨ q.isOffering = true)
      (hopen : q.mailbox.isClosed = false) (hput : q.mailbox.put? r = some mailbox)
      (hoffering : terms.isOffering = true) :
      Shift terms q ({ q with mailbox }.note (.admitted r)).wakeDispatcher
  /-- An offer has to wait. -/
  | enlist {w : Waiter} (hheld : q.hasHandle = true ∨ q.isOffering = true)
      (hopen : q.mailbox.isClosed = false) (hput : q.mailbox.put? w.request = none)
      (hticket : w.ticket = q.tickets) (hslot : w.hasSlot = false)
      (hcaller : w.caller ≠ .foreground) (hcancelled : w.caller = .task → q.isCancelled = false)
      (hclear : terms.isJostling = false → w.caller = .task → q.IsClear)
      (hoffering : terms.isOffering = true) : Shift terms q (q.lineUp w)
  /-- A waiting offer uses its slot. A task does so in its own turn. -/
  | join {w : Waiter} (hopen : q.mailbox.isClosed = false) (hw : w ∈ q.mailbox.waiting)
      (hslot : w.hasSlot = true)
      (htask : w.caller = .task → q.isCancelled = false ∧ q.turn = some (.producer w.ticket)) :
      Shift terms q ((q.enter w).note (.ended w.ticket .accepted q.now))
  /-- A waiting offer is refused. -/
  | withdraw {w : Waiter} (hw : w ∈ q.mailbox.waiting)
      (hrefused : q.isCancelled = true ∨ q.mailbox.isClosed = true) :
      Shift terms q ((q.leave w).note (.ended w.ticket .refused q.now))
  /-- The caller of a waiting offer goes away. -/
  | forsake {w : Waiter} (hlossy : terms.isLossy = true) (hw : w ∈ q.mailbox.waiting) :
      Shift terms q ((q.leave w).note (.forsaken w.ticket))
  | cancel (hc : q.isCancelled = false) :
      Shift terms q { q with isCancelled := true }.wakeDispatcher.wakeProducers
  /-- A shutdown call waits for the dispatcher to stop. -/
  | await (hc : q.isCancelled = true) (hover : q.phase.isOver = false) :
      Shift terms q { q with tickets := q.tickets + 1, closers := q.closers ++ [q.tickets] }
  | permit (n : Nat) (hpast : terms.isJostling = false → q.IsPast) :
      Shift terms q (q.releasePermits n)
  | clone (hheld : q.hasHandle = true) : Shift terms q { q with handles := q.handles ++ [true] }
  | drop (handle : Nat) : Shift terms q (q.drop handle)
  /-- While no offer is being made, the next one is prepared, or there is none left. -/
  | prepare {errand : Option Errand} (hidle : q.isOffering = false)
      (hnew : ∀ e, errand = some e → e.isAnnounced = false ∧ e.IsOffer) :
      Shift terms q { q with errand }
  | announce {e : Errand} (he : q.errand = some e) (htodo : e.todo ≠ [])
      (hheld : q.hasHandle = true) (hoffering : terms.isOffering = true) :
      Shift terms q { q with errand := some { e with isAnnounced := true } }
  /-- The offer that was announced has been made. -/
  | offered {e : Errand} (todo : List Request) (replies : List Reply) (he : q.errand = some e)
      (hoffering : terms.isOffering = true) :
      Shift terms q { q with errand := some { e with todo, isAnnounced := false, replies } }.wakeIfAbandoned
  /-- The run in flight comes further, and keeps its turn. -/
  | proceed {run : Run} {stage : Stage} {permits : Nat} (hturn : q.turn = some .run)
      (hrun : q.run = some run) (hnext : stage ≠ .ended) (hstage : run.stage ≠ .ended) :
      Shift terms q ({ q with permits }.setStage run stage)
  /-- The run in flight comes to its end. -/
  | finish {run : Run} (hturn : q.turn = some .run) (hrun : q.run = some run) :
      Shift terms q ((q.setStage run .ended).enqueue .dispatcher)
  /-- The dispatcher goes on to another phase, and keeps its turn. -/
  | go {phase : Phase} {run : Option Run} (hturn : q.turn = some .dispatcher)
      (hgoing : q.phase.isOver = false) (hnext : phase.isOver = false)
      (hrun : run = q.run ∨ run = none ∧ ∀ r, q.run = some r → r.stage = .ended)
      (hexit : phase.isExit = true → q.phase.isExit = true ∨ q.isCancelled = true) :
      Shift terms q { q with phase, run }
  /-- The dispatcher finds that nobody is left. -/
  | desert (hturn : q.turn = some .dispatcher) (hgoing : q.phase.isOver = false)
      (habandoned : q.isAbandoned = true) (hbuffer : q.mailbox.buffer = []) :
      Shift terms q { q with phase := .closing }
  /-- The dispatcher takes a request out of the mailbox. -/
  | take {r : Request} {mailbox : Mailbox} {phase : Phase} (hturn : q.turn = some .dispatcher)
      (hgoing : q.phase.isOver = false) (hnext : phase.isOver = false)
      (hexit : phase.isExit = false) (htake : q.mailbox.take? = some (r, mailbox))
      (hidle : q.run = none) :
      Shift terms q { { q with mailbox }.releaseSlot with phase }
  /-- The call of the work function makes a run. -/
  | launch {b : Batch} {run : Run} (hturn : q.turn = some .dispatcher)
      (hgoing : q.phase.isOver = false) (hstage : run.stage = .spawned) :
      Shift terms q ({ q with phase := .awaiting b, run := some run }.enqueue .run).yieldTurn
  /-- The call of the work function breaks down. -/
  | breakDown {b : Batch} (hturn : q.turn = some .dispatcher) (hgoing : q.phase.isOver = false) :
      Shift terms q { q with phase := .dead b }.closeMailbox.releaseClosers.yieldTurn
  | close (hturn : q.turn = some .dispatcher) (hp : q.phase = .closing) :
      Shift terms q { q.closeMailbox with published := .stopped, phase := .stopped }.releaseClosers

/-! ## What each operation changes -/

theorem enqueue_more (q : Queue) (p : Party) :
    ∃ more, q.enqueue p = { q with line := q.line ++ more } := by
  unfold enqueue
  split
  · exact ⟨[], by rw [List.append_nil]⟩
  · exact ⟨[p], rfl⟩

theorem wakeDispatcher_more (q : Queue) :
    ∃ more, q.wakeDispatcher = { q with line := q.line ++ more } := by
  have hsame : q = { q with line := q.line ++ [] } := by rw [List.append_nil]
  unfold wakeDispatcher
  split
  · split
    · exact ⟨[], hsame⟩
    · exact q.enqueue_more .dispatcher
  · exact ⟨[], hsame⟩

theorem wakeIfAbandoned_more (q : Queue) :
    ∃ more, q.wakeIfAbandoned = { q with line := q.line ++ more } := by
  unfold wakeIfAbandoned
  split
  · exact q.wakeDispatcher_more
  · exact ⟨[], by rw [List.append_nil]⟩

theorem wakeProducers_more (q : Queue) :
    ∃ more, q.wakeProducers = { q with line := q.line ++ more } := by
  unfold wakeProducers
  generalize q.mailbox.waiting = ws
  induction ws generalizing q with
  | nil => exact ⟨[], by rw [List.append_nil]; rfl⟩
  | cons w ws ih =>
    rw [List.foldl_cons]
    split
    · obtain ⟨more, h⟩ := q.enqueue_more (.producer w.ticket)
      obtain ⟨more', h'⟩ := ih (q.enqueue (.producer w.ticket))
      refine ⟨more ++ more', ?_⟩
      rw [h', h, List.append_assoc]
    · exact ih q

/-- The dispatcher is woken and then the producers. -/
theorem wakeAll_more (q : Queue) :
    ∃ more, q.wakeDispatcher.wakeProducers = { q with line := q.line ++ more } := by
  obtain ⟨more, heq⟩ := q.wakeDispatcher_more
  obtain ⟨more', heq'⟩ := q.wakeDispatcher.wakeProducers_more
  refine ⟨more ++ more', ?_⟩
  rw [heq', heq, List.append_assoc]

theorem drop_more (q : Queue) (handle : Nat) : ∃ more, q.drop handle =
    { q with handles := q.handles.set handle false, line := q.line ++ more } :=
  wakeIfAbandoned_more { q with handles := q.handles.set handle false }

theorem releaseSlot_more (q : Queue) : ∃ more, q.releaseSlot =
    { q with mailbox := q.mailbox.release.2, line := q.line ++ more } := by
  unfold releaseSlot
  split
  · next w mailbox h =>
    rw [h]
    dsimp only
    split
    · obtain ⟨more, heq⟩ := enqueue_more { q with mailbox } (.producer w.ticket)
      exact ⟨more, heq⟩
    · exact ⟨[], by rw [List.append_nil]⟩
  · next mailbox h =>
    rw [h]
    exact ⟨[], by rw [List.append_nil]⟩

theorem enter_more (q : Queue) (w : Waiter) : ∃ more, q.enter w =
    { q with
      mailbox := (q.mailbox.dismiss w.ticket).append w.request
      journal := q.journal.push (.admitted w.request)
      line := q.line ++ more } := by
  unfold enter note
  exact wakeDispatcher_more _

/-- A call that goes away gives its slot back, unless the mailbox is closed. -/
theorem leave_more (q : Queue) (w : Waiter) : ∃ more, q.leave w =
    { q with
      mailbox := if w.hasSlot && !q.mailbox.isClosed then (q.mailbox.dismiss w.ticket).release.2
        else q.mailbox.dismiss w.ticket
      line := q.line ++ more } := by
  have hsame : (q.mailbox.dismiss w.ticket).isClosed = q.mailbox.isClosed := rfl
  unfold leave
  dsimp only
  rw [hsame]
  split
  · next hslot =>
    obtain ⟨more, h⟩ := releaseSlot_more { q with mailbox := q.mailbox.dismiss w.ticket }
    obtain ⟨more', h'⟩ := wakeIfAbandoned_more
      (releaseSlot { q with mailbox := q.mailbox.dismiss w.ticket })
    refine ⟨more ++ more', ?_⟩
    rw [h', h, List.append_assoc]
  · exact wakeIfAbandoned_more { q with mailbox := q.mailbox.dismiss w.ticket }

theorem leave_isClosed (q : Queue) (w : Waiter) :
    (q.leave w).mailbox.isClosed = q.mailbox.isClosed := by
  obtain ⟨more, heq⟩ := q.leave_more w
  rw [heq]
  dsimp only
  split
  · exact Mailbox.release_isClosed _
  · rfl

theorem lineUp_more (q : Queue) (w : Waiter) : ∃ more, q.lineUp w =
    { q with
      mailbox := q.mailbox.enlist w
      tickets := q.tickets + 1
      line := q.line ++ more } := by
  unfold lineUp
  dsimp only
  split
  · exact enqueue_more { q with mailbox := q.mailbox.enlist w, tickets := q.tickets + 1 } _
  · exact ⟨[], by rw [List.append_nil]⟩

theorem releasePermits_more (q : Queue) (n : Nat) : ∃ more, q.releasePermits n =
    { q with permits := q.permits + n, line := q.line ++ more } := by
  have hsame : ∃ more, { q with permits := q.permits + n } =
      { q with permits := q.permits + n, line := q.line ++ more } :=
    ⟨[], by rw [List.append_nil]⟩
  unfold releasePermits
  dsimp only
  split
  · split
    · exact enqueue_more { q with permits := q.permits + n } .run
    · exact hsame
  · exact hsame

theorem closeMailbox_more (q : Queue) : ∃ more, q.closeMailbox =
    { q with mailbox := q.mailbox.close, line := q.line ++ more } :=
  wakeProducers_more { q with mailbox := q.mailbox.close }

/-- Everybody who waits for the end is told at the same time. -/
theorem releaseClosers_eq (q : Queue) : q.releaseClosers = { q with
    closers := []
    journal := q.journal ++ (q.closers.map fun ticket => Fact.ended ticket .done q.now).toArray } := by
  have hall (tickets : List Nat) (q : Queue) :
      tickets.foldl (fun q ticket => q.note (.ended ticket .done q.now)) q = { q with
        journal := q.journal ++
          (tickets.map fun ticket => Fact.ended ticket .done q.now).toArray } := by
    induction tickets generalizing q with
    | nil => simp
    | cons ticket tickets ih =>
      rw [List.foldl_cons, ih]
      simp [note]
  unfold releaseClosers
  rw [hall]

/-! ## Offers -/

/-- Whether a call that is made now by such a caller is refused. -/
def Refuses (q : Queue) (caller : Caller) : Prop :=
  caller.heedsCancellation = true ∧ q.isCancelled = true ∨ q.mailbox.isClosed = true

/-- What an offer comes to. -/
inductive Offered (q : Queue) (caller : Caller) (r : Request) : Reply × Queue → Prop
  | refused (hrefused : q.Refuses caller) : Offered q caller r (.refused, q)
  | accepted (line : List Party) (hgoing : ¬ q.Refuses caller) (hroom : 0 < q.mailbox.free) :
      Offered q caller r (.accepted, { q with
        stats := q.stats.countOffer
        mailbox := { q.mailbox.append r with free := q.mailbox.free - 1 }
        journal := q.journal.push (.admitted r)
        line })
  | pending (line : List Party) (hgoing : ¬ q.Refuses caller) (hfull : q.mailbox.free = 0) :
      Offered q caller r (.pending q.tickets, { q with
        stats := q.stats.countOffer
        mailbox := q.mailbox.enlist { ticket := q.tickets, request := r, caller }
        tickets := q.tickets + 1
        line })

theorem offered (q : Queue) (caller : Caller) (r : Request) :
    Offered q caller r (q.offer caller r) := by
  have hrefuses : ((caller.heedsCancellation && q.isCancelled) || q.mailbox.isClosed) = true ↔
      q.Refuses caller := by
    rw [Bool.or_eq_true, Bool.and_eq_true, Refuses]
  unfold offer
  split
  · next hr => exact .refused (hrefuses.mp hr)
  · next hr =>
    have hgoing : ¬ q.Refuses caller := fun h => hr (hrefuses.mpr h)
    dsimp only
    split
    · next mailbox hput =>
      have hroom : 0 < q.mailbox.free := by
        by_contra hnone
        rw [Mailbox.put?, if_neg hnone] at hput
        contradiction
      obtain rfl := Mailbox.eq_of_put? hput
      obtain ⟨line, heq⟩ := wakeDispatcher_eq ({ q with
        stats := q.stats.countOffer
        mailbox := { q.mailbox.append r with free := q.mailbox.free - 1 } }.note (.admitted r))
      rw [heq]
      exact .accepted line hgoing hroom
    · next hput =>
      have hfull : q.mailbox.free = 0 := by
        by_contra hroom
        rw [Mailbox.put?, if_pos (Nat.pos_of_ne_zero hroom)] at hput
        contradiction
      split
      · obtain ⟨line, heq⟩ := enqueue_eq { q with
          stats := q.stats.countOffer
          tickets := q.tickets + 1
          mailbox := q.mailbox.enlist { ticket := q.tickets, request := r, caller := .task } }
          (.producer q.tickets)
        rw [heq]
        exact .pending line hgoing hfull
      · exact .pending q.line hgoing hfull

/-! ## Tickets -/

end Queue

namespace Mailbox

theorem perm_dismiss {m : Mailbox} {w : Waiter} (hm : m.tickets.Nodup) (hw : w ∈ m.waiting) :
    m.waiting.Perm (w :: (m.dismiss w.ticket).waiting) := by
  unfold tickets at hm
  unfold dismiss
  dsimp only
  generalize m.waiting = ws at hm hw
  induction ws with
  | nil => exact absurd hw List.not_mem_nil
  | cons v rest ih =>
    rw [List.map_cons, List.nodup_cons] at hm
    by_cases hv : v.ticket = w.ticket
    · have hne : ∀ u ∈ rest, u.ticket ≠ w.ticket := by
        intro u hu heq
        exact hm.1 (hv.trans heq.symm ▸ List.mem_map_of_mem hu)
      have hwv : w = v := by
        rcases List.mem_cons.mp hw with heq | hmem
        · exact heq
        · exact absurd rfl (hne w hmem)
      have hrest : rest.filter (fun u => decide (u.ticket ≠ w.ticket)) = rest :=
        List.filter_eq_self.mpr fun u hu => by simpa using hne u hu
      rw [List.filter_cons_of_neg (by simp [hv]), hrest, hwv]
    · have hmem : w ∈ rest := by
        rcases List.mem_cons.mp hw with heq | hmem
        · exact absurd (heq ▸ rfl) hv
        · exact hmem
      rw [List.filter_cons_of_pos (by simp [hv])]
      exact ((ih hm.2 hmem).cons v).trans (.swap w v _)

/-- A slot that is passed on goes to one producer that had none. -/
theorem mem_grantFirst {ws ws' : List Waiter} {g w : Waiter} (h : grantFirst ws = some (g, ws'))
    (hw : w ∈ ws') : w ∈ ws ∨ g ∈ ws ∧ g.hasSlot = false ∧ w = { g with hasSlot := true } := by
  induction ws generalizing g ws' with
  | nil => simp [grantFirst] at h
  | cons v rest ih =>
    unfold grantFirst at h
    split at h
    · obtain ⟨⟨granted, tail⟩, hrest, heq⟩ := Option.map_eq_some_iff.mp h
      obtain ⟨rfl, rfl⟩ := Prod.mk.inj heq
      rcases List.mem_cons.mp hw with rfl | hmem
      · exact .inl List.mem_cons_self
      · rcases ih hrest hmem with hold | ⟨hg, hslot, hnew⟩
        · exact .inl (List.mem_cons_of_mem v hold)
        · exact .inr ⟨List.mem_cons_of_mem v hg, hslot, hnew⟩
    · next hv =>
      obtain ⟨rfl, rfl⟩ := Prod.mk.inj (Option.some.inj h)
      rcases List.mem_cons.mp hw with rfl | hmem
      · exact .inr ⟨List.mem_cons_self, by simpa using hv, rfl⟩
      · exact .inl (List.mem_cons_of_mem _ hmem)

theorem mem_release {m : Mailbox} {w : Waiter} (hw : w ∈ m.release.2.waiting) :
    w ∈ m.waiting ∨
      ∃ g ∈ m.waiting, g.hasSlot = false ∧ w = { g with hasSlot := true } ∧
        m.release.1 = some g := by
  unfold release at hw ⊢
  split at hw
  · next g ws' h =>
    rcases mem_grantFirst h hw with hold | ⟨hg, hslot, hnew⟩
    · exact .inl hold
    · exact .inr ⟨g, hg, hslot, hnew, rfl⟩
  · exact .inl hw

/-- Whoever waits after a slot was passed on has waited before, as the same caller. -/
theorem exists_of_mem_release {m : Mailbox} {w : Waiter} (hw : w ∈ m.release.2.waiting) :
    ∃ v ∈ m.waiting, v.caller = w.caller := by
  rcases mem_release hw with hold | ⟨g, hg, -, rfl, -⟩
  · exact ⟨w, hold, rfl⟩
  · exact ⟨g, hg, rfl⟩

theorem mem_of_mem_dismiss {m : Mailbox} {w : Waiter} {ticket : Nat}
    (hw : w ∈ (m.dismiss ticket).waiting) : w ∈ m.waiting ∧ w.ticket ≠ ticket := by
  simpa [dismiss] using hw

theorem tickets_dismiss {m : Mailbox} {w : Waiter} (hm : m.tickets.Nodup) (hw : w ∈ m.waiting) :
    m.tickets.Perm (w.ticket :: (m.dismiss w.ticket).tickets) :=
  (perm_dismiss hm hw).map _

end Mailbox

namespace Queue

/-- Each ticket that was drawn belongs to one call that waits or is over. A call that was announced
has a request to offer, and all callers are tasks or threads. -/
structure Orderly (q : Queue) : Prop where
  tickets_perm :
    (q.mailbox.tickets ++ q.closers ++ q.flow.journal.over).Perm (List.range q.tickets)
  todo_ne : ∀ e, q.errand = some e → e.isAnnounced = true → e.todo ≠ []
  errand_offers : ∀ e, q.errand = some e → e.IsOffer
  waiting_ne : ∀ w ∈ q.mailbox.waiting, w.caller ≠ .foreground

variable {terms : Terms} {q q' : Queue}

theorem Orderly.tickets_nodup (h : q.Orderly) :
    (q.mailbox.tickets ++ q.closers ++ q.flow.journal.over).Nodup :=
  h.tickets_perm.nodup_iff.mpr List.nodup_range

theorem Orderly.nodup (h : q.Orderly) : q.mailbox.tickets.Nodup := by
  have hall := h.tickets_nodup
  rw [List.append_assoc] at hall
  exact hall.of_append_left

/-- A call that waits is not over. -/
theorem Orderly.notMem_over (h : q.Orderly) {w : Waiter} (hw : w ∈ q.mailbox.waiting) :
    w.ticket ∉ q.flow.journal.over := by
  intro hover
  have hticket : w.ticket ∈ q.mailbox.tickets ++ q.closers :=
    List.mem_append_left _ (List.mem_map_of_mem hw)
  exact (List.nodup_append.mp h.tickets_nodup).2.2 _ hticket _ hover rfl

/-- Requests that are refused are not taken in any more. -/
theorem IsGoing.not_refused (h : q.IsGoing) :
    ¬ (q.isCancelled = true ∨ q.mailbox.isClosed = true) := by
  rintro (hcancelled | hclosed)
  · exact Bool.false_ne_true (h.isCancelled_eq.symm.trans hcancelled)
  · exact Bool.false_ne_true (h.isClosed_eq.symm.trans hclosed)

theorem Orderly.congr (h : q.Orderly) (hm : q'.mailbox.tickets = q.mailbox.tickets)
    (hw : ∀ w ∈ q'.mailbox.waiting, ∃ v ∈ q.mailbox.waiting, v.caller = w.caller)
    (hclosers : q'.closers = q.closers) (hover : q'.flow.journal.over = q.flow.journal.over)
    (ht : q'.tickets = q.tickets) (he : q'.errand = q.errand) : q'.Orderly := by
  obtain ⟨hperm, htodo, herrand, hwaiting⟩ := h
  refine ⟨?_, ?_, ?_, ?_⟩
  · rw [hm, hclosers, hover, ht]
    exact hperm
  · rwa [he]
  · rwa [he]
  · intro w hmem
    obtain ⟨v, hv, heq⟩ := hw w hmem
    exact heq ▸ hwaiting v hv

/-- A call that goes off the list leaves its ticket to those that are over. -/
theorem Orderly.gone (h : q.Orderly) {w : Waiter} (hw : w ∈ q.mailbox.waiting)
    (hm : q'.mailbox.tickets = (q.mailbox.dismiss w.ticket).tickets)
    (hcallers : ∀ u ∈ q'.mailbox.waiting, ∃ v ∈ q.mailbox.waiting, v.caller = u.caller)
    (hclosers : q'.closers = q.closers)
    (hover : q'.flow.journal.over = q.flow.journal.over ++ [w.ticket])
    (ht : q'.tickets = q.tickets) (he : q'.errand = q.errand) : q'.Orderly := by
  have hnodup := h.nodup
  obtain ⟨hperm, htodo, herrand, hwaiting⟩ := h
  refine ⟨?_, ?_, ?_, ?_⟩
  · refine List.Perm.trans ?_ (ht ▸ hperm)
    have hout := Mailbox.tickets_dismiss hnodup hw
    rw [hm, hclosers, hover, ← List.append_assoc]
    refine List.Perm.trans List.perm_append_comm ?_
    rw [List.singleton_append, ← List.cons_append, ← List.cons_append]
    exact (hout.symm.append_right _).append_right _
  · rwa [he]
  · rwa [he]
  · intro u hu
    obtain ⟨v, hv, heq⟩ := hcallers u hu
    exact heq ▸ hwaiting v hv

theorem over_note (q : Queue) (f : Fact) :
    (q.note f).flow.journal.over = q.flow.journal.over ++ f.over?.toList := by
  simp [Flow.note]

theorem Orderly.left (h : q.Orderly) {w : Waiter} (hw : w ∈ q.mailbox.waiting) {f : Fact}
    (hf : f.over? = some w.ticket) : ((q.leave w).note f).Orderly := by
  obtain ⟨more, heq⟩ := q.leave_more w
  have hover : ((q.leave w).note f).flow.journal.over = q.flow.journal.over ++ [w.ticket] := by
    rw [over_note, hf, heq]
    rfl
  rw [heq] at hover ⊢
  refine h.gone hw ?_ ?_ rfl hover rfl rfl
  · show Mailbox.tickets (if _ then _ else _) = _
    split
    · exact Mailbox.release_tickets _
    · rfl
  · intro u hu
    change u ∈ Mailbox.waiting (if _ then _ else _) at hu
    split at hu
    · obtain ⟨v, hv, hcaller⟩ := Mailbox.exists_of_mem_release hu
      exact ⟨v, (Mailbox.mem_of_mem_dismiss hv).1, hcaller⟩
    · exact ⟨u, (Mailbox.mem_of_mem_dismiss hu).1, rfl⟩

/-- The calls for the end are told that it has come. -/
theorem over_releaseClosers (q : Queue) :
    q.releaseClosers.flow.journal.over = q.flow.journal.over ++ q.closers := by
  have hall : (q.closers.map fun ticket => Fact.ended ticket .done q.now).filterMap Fact.over? =
      q.closers := by
    rw [List.filterMap_map]
    exact List.filterMap_some
  rw [releaseClosers_eq]
  show ((q.journal ++ _).toList).filterMap Fact.over? = _
  rw [Array.toList_append, List.filterMap_append, List.toList_toArray, hall]
  rfl

theorem Orderly.releaseClosers (h : q.Orderly) : q.releaseClosers.Orderly := by
  obtain ⟨hperm, htodo, herrand, hwaiting⟩ := h
  have hover := over_releaseClosers q
  have heq := releaseClosers_eq q
  refine ⟨?_, ?_, ?_, ?_⟩
  · rw [hover, heq]
    show (q.mailbox.tickets ++ [] ++ (q.flow.journal.over ++ q.closers)).Perm _
    rw [List.append_nil]
    refine List.Perm.trans ?_ hperm
    rw [List.append_assoc]
    exact List.Perm.append_left _ List.perm_append_comm
  · rwa [heq]
  · rwa [heq]
  · rwa [heq]

theorem Shift.orderly (h : Shift terms q q') (hi : q.Orderly) : q'.Orderly := by
  have hsame : ∀ w ∈ q.mailbox.waiting, ∃ v ∈ q.mailbox.waiting, v.caller = w.caller :=
    fun w hw => ⟨w, hw, rfl⟩
  have hmore (more : List Party) : { q with line := q.line ++ more }.Orderly :=
    hi.congr rfl hsame rfl rfl rfl rfl
  cases h with
  | record | call | rest | tick | clone | go | desert | proceed =>
    exact hi.congr rfl hsame rfl rfl rfl rfl
  | @remark f hf =>
    refine hi.congr rfl hsame rfl ?_ rfl rfl
    rw [over_note, hf, Option.toList_none, List.append_nil]
  | wake =>
    obtain ⟨more, heq⟩ := q.enqueue_more .run
    rw [heq]
    exact hmore more
  | @put r mailbox hheld hopen hput =>
    obtain ⟨more, heq⟩ := wakeDispatcher_more ({ q with mailbox }.note (.admitted r))
    obtain rfl := Mailbox.eq_of_put? hput
    rw [heq]
    refine hi.congr rfl hsame rfl ?_ rfl rfl
    exact (over_note { q with mailbox := _ } (.admitted r)).trans (List.append_nil _)
  | @enlist w hheld hopen hput hticket hslot hcaller =>
    obtain ⟨more, heq⟩ := q.lineUp_more w
    rw [heq]
    refine ⟨?_, hi.todo_ne, hi.errand_offers, ?_⟩
    · have happ : (q.mailbox.enlist w).tickets = q.mailbox.tickets ++ [w.ticket] := by
        simp [Mailbox.tickets, Mailbox.enlist]
      show ((q.mailbox.enlist w).tickets ++ q.closers ++ q.flow.journal.over).Perm
        (List.range (q.tickets + 1))
      rw [happ, List.range_succ, hticket, List.append_assoc, List.append_assoc]
      refine List.Perm.trans (List.Perm.append_left _ List.perm_append_comm) ?_
      rw [← List.append_assoc, ← List.append_assoc]
      exact hi.tickets_perm.append_right _
    · intro v hv
      rcases List.mem_append.mp hv with hold | hnew
      · exact hi.waiting_ne v hold
      · rw [List.mem_singleton.mp hnew]
        exact hcaller
  | @join w hopen hw hslot =>
    obtain ⟨more, heq⟩ := q.enter_more w
    refine hi.gone hw ?_ ?_ ?_ ?_ ?_ ?_
    · rw [heq]
      rfl
    · rw [heq]
      exact fun u hu => ⟨u, (Mailbox.mem_of_mem_dismiss hu).1, rfl⟩
    · rw [heq]
      rfl
    · rw [over_note, heq]
      exact congrArg (· ++ [w.ticket])
        ((over_note q (.admitted w.request)).trans (List.append_nil _))
    · rw [heq]
      rfl
    · rw [heq]
      rfl
  | @withdraw w hw =>
    exact hi.left hw rfl
  | @forsake w hlossy hw => exact hi.left hw rfl
  | cancel hc =>
    obtain ⟨more, heq⟩ := wakeAll_more { q with isCancelled := true }
    rw [heq]
    exact hi.congr rfl hsame rfl rfl rfl rfl
  | await =>
    refine ⟨?_, hi.todo_ne, hi.errand_offers, hi.waiting_ne⟩
    show (q.mailbox.tickets ++ (q.closers ++ [q.tickets]) ++ q.flow.journal.over).Perm
      (List.range (q.tickets + 1))
    rw [List.range_succ, ← List.append_assoc, List.append_assoc]
    refine List.Perm.trans (List.Perm.append_left _ List.perm_append_comm) ?_
    rw [← List.append_assoc]
    exact hi.tickets_perm.append_right _
  | permit n =>
    obtain ⟨more, heq⟩ := q.releasePermits_more n
    rw [heq]
    exact hi.congr rfl hsame rfl rfl rfl rfl
  | drop handle =>
    obtain ⟨more, heq⟩ := q.drop_more handle
    rw [heq]
    exact hi.congr rfl hsame rfl rfl rfl rfl
  | prepare hidle hnew =>
    refine ⟨hi.tickets_perm, ?_, fun e he => (hnew e he).2, hi.waiting_ne⟩
    intro e he hannounced
    rw [(hnew e he).1] at hannounced
    contradiction
  | @announce e he htodo =>
    refine ⟨hi.tickets_perm, ?_, ?_, hi.waiting_ne⟩
    · intro e' he' _
      obtain rfl := Option.some.inj he'
      exact htodo
    · intro e' he'
      obtain rfl := Option.some.inj he'
      obtain ⟨hcaller, haction⟩ := hi.errand_offers e he
      exact ⟨hcaller, haction⟩
  | @offered e todo replies he =>
    obtain ⟨more, heq⟩ := wakeIfAbandoned_more
      { q with errand := some { e with todo, isAnnounced := false, replies } }
    rw [heq]
    refine ⟨hi.tickets_perm, ?_, ?_, hi.waiting_ne⟩
    · intro e' he' hannounced
      obtain rfl := Option.some.inj he'
      contradiction
    · intro e' he'
      obtain rfl := Option.some.inj he'
      obtain ⟨hcaller, haction⟩ := hi.errand_offers e he
      exact ⟨hcaller, haction⟩
  | @finish run hturn hrun =>
    obtain ⟨more, heq⟩ := (q.setStage run .ended).enqueue_more .dispatcher
    rw [heq]
    exact hi.congr rfl hsame rfl rfl rfl rfl
  | @take r mailbox phase hturn hgoing hnext hexit htake =>
    obtain ⟨more, heq⟩ := releaseSlot_more { q with mailbox }
    have hwaiting : mailbox.waiting = q.mailbox.waiting := by
      rw [Mailbox.eq_of_take? htake]
    have htickets : mailbox.release.2.tickets = q.mailbox.tickets := by
      rw [Mailbox.release_tickets]
      exact congrArg (List.map _) hwaiting
    rw [heq]
    refine hi.congr htickets ?_ rfl rfl rfl rfl
    intro u hu
    rw [← hwaiting]
    exact Mailbox.exists_of_mem_release hu
  | @launch b run =>
    obtain ⟨more, heq⟩ := enqueue_more { q with phase := .awaiting b, run := some run } .run
    rw [heq]
    exact hi.congr rfl hsame rfl rfl rfl rfl
  | @breakDown b =>
    obtain ⟨more, heq⟩ := closeMailbox_more { q with phase := .dead b }
    have hclosed : closeMailbox { q with phase := .dead b } |>.Orderly := by
      rw [heq]
      exact hi.congr rfl hsame rfl rfl rfl rfl
    exact hclosed.releaseClosers.congr rfl (fun w hw => ⟨w, hw, rfl⟩) rfl rfl rfl rfl
  | close hturn hp =>
    obtain ⟨more, heq⟩ := q.closeMailbox_more
    have hclosed : { q.closeMailbox with published := .stopped, phase := .stopped }.Orderly := by
      rw [heq]
      exact hi.congr rfl hsame rfl rfl rfl rfl
    exact hclosed.releaseClosers

theorem forsaken_releaseClosers (q : Queue) :
    q.releaseClosers.flow.journal.forsaken = q.flow.journal.forsaken := by
  have hnone : (q.closers.map fun ticket => Fact.ended ticket .done q.now).filterMap
      Fact.forsaken? = [] := by
    rw [List.filterMap_map]
    exact List.filterMap_eq_nil_iff.mpr fun _ _ => rfl
  rw [releaseClosers_eq]
  show ((q.journal ++ _).toList).filterMap Fact.forsaken? = _
  rw [Array.toList_append, List.filterMap_append, List.toList_toArray, hnone, List.append_nil]
  rfl

/-- As long as callers stay, no waiting call goes away without an answer. -/
theorem Shift.forsaken_eq (h : Shift terms q q') (hstays : terms.isLossy = false) :
    q'.flow.journal.forsaken = q.flow.journal.forsaken := by
  have hnote (q : Queue) {f : Fact} (hf : f.forsaken? = none) :
      (q.note f).flow.journal.forsaken = q.flow.journal.forsaken := by
    have hjournal : (q.note f).flow.journal = q.flow.journal ++ [f] := q.note_journal f
    rw [hjournal]
    exact History.gather_concat_of_eq_none q.flow.journal hf
  cases h with
  | record | call | rest | tick | await | clone | prepare | announce | proceed | go
  | desert => rfl
  | @remark f hf =>
    refine hnote q ?_
    cases f <;> first | rfl | contradiction
  | wake =>
    obtain ⟨more, heq⟩ := q.enqueue_more .run
    rw [heq]
    rfl
  | @put r mailbox =>
    obtain ⟨more, heq⟩ := wakeDispatcher_more ({ q with mailbox }.note (.admitted r))
    rw [heq]
    exact hnote { q with mailbox } rfl
  | @join w =>
    obtain ⟨more, heq⟩ := q.enter_more w
    refine (hnote (q.enter w) rfl).trans ?_
    rw [heq]
    exact hnote q (f := .admitted w.request) rfl
  | @withdraw w =>
    obtain ⟨more, heq⟩ := q.leave_more w
    refine (hnote (q.leave w) rfl).trans ?_
    rw [heq]
    rfl
  | forsake hlossy =>
    rw [hstays] at hlossy
    contradiction
  | @enlist w =>
    obtain ⟨more, heq⟩ := q.lineUp_more w
    rw [heq]
    rfl
  | cancel =>
    obtain ⟨more, heq⟩ := wakeAll_more { q with isCancelled := true }
    rw [heq]
    rfl
  | permit n =>
    obtain ⟨more, heq⟩ := q.releasePermits_more n
    rw [heq]
    rfl
  | drop handle =>
    obtain ⟨more, heq⟩ := q.drop_more handle
    rw [heq]
    rfl
  | @offered e todo replies =>
    obtain ⟨more, heq⟩ := wakeIfAbandoned_more
      { q with errand := some { e with todo, isAnnounced := false, replies } }
    rw [heq]
    rfl
  | @finish run =>
    obtain ⟨more, heq⟩ := (q.setStage run .ended).enqueue_more .dispatcher
    rw [heq]
    rfl
  | @take r mailbox =>
    obtain ⟨more, heq⟩ := releaseSlot_more { q with mailbox }
    rw [heq]
    rfl
  | @launch b run =>
    obtain ⟨more, heq⟩ := enqueue_more { q with phase := .awaiting b, run := some run } .run
    rw [heq]
    rfl
  | @breakDown b =>
    obtain ⟨more, heq⟩ := closeMailbox_more { q with phase := .dead b }
    refine (forsaken_releaseClosers _).trans ?_
    rw [heq]
    rfl
  | close =>
    obtain ⟨more, heq⟩ := q.closeMailbox_more
    refine (forsaken_releaseClosers _).trans ?_
    rw [heq]
    rfl

end Queue
end CoalescingQueue
