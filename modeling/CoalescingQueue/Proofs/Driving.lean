import CoalescingQueue.Proofs.Conduct
import CoalescingQueue.Proofs.Lines
import CoalescingQueue.Proofs.Resting

/-!
# Queues that are driven

Whoever drives a queue from outside lets everything come to rest before it acts, and while it acts
nobody is given a turn. In between, the queue moves by itself, and its run acts. A task that gets in
line, be it called from outside or by the run, then never gets in line behind a dispatcher that others
are not behind, unless an action that is hooked to an event brings it there. So those who wait stay
in the order of their tickets.
-/
namespace CoalescingQueue.Queue

variable {script : WorkScript} {terms : Terms} {q q' : Queue}

/-- One move of a queue that is driven, and whether it is paused for actions from outside. -/
inductive Drive (script : WorkScript) : Bool × Queue → Bool × Queue → Prop
  | act {q : Queue} (h : q.IsFree) (a : Action) :
      Drive script (true, q) (true, { q with reply := .nothing }.begin a)
  | abandon {q : Queue} (h : q.IsFree) (ticket : Nat) :
      Drive script (true, q) (true, q.abandon ticket)
  | attend {paused : Bool} {q q' : Queue} (ha : q.attend? = some q') :
      Drive script (paused, q) (paused, q')
  | turn {paused : Bool} {q q' : Queue} (ha : q.attend? = none) (hs : q.step? script = some q') :
      Drive script (paused, q) (false, q')
  | wake {paused : Bool} {q : Queue} (hr : q.AtRest script) {time : Nat}
      (ht : q.deadline? = some time) : Drive script (paused, q) (false, q.wakeRunAt time)
  | wait {paused : Bool} {q : Queue} (hr : q.AtRest script) {time : Nat}
      (ht : ∀ d, q.deadline? = some d → time < d) : Drive script (paused, q) (false, q.clockTo time)
  | pause {paused : Bool} {q : Queue} (hr : q.AtRest script) : Drive script (paused, q) (true, q)

/-- A run of such moves, each from a queue of a certain kind. -/
abbrev Driven (script : WorkScript) (P : Queue → Prop) : Bool × Queue → Bool × Queue → Prop :=
  Relation.ReflTransGen fun a b => P a.2 ∧ Drive script a b

/-- No hooked action that is due makes a call of a task. -/
def IsUnprompted (q : Queue) : Prop := ∀ a ∈ q.due, a.isAsync = false

theorem isUnprompted_of_due_eq (h : q.due = []) : q.IsUnprompted := by
  intro a ha
  rw [h] at ha
  contradiction

variable {a b : Bool × Queue}

theorem Drive.later (h : Drive script a b) : Later script a.2 b.2 := by
  cases h with
  | act hf a => exact .single (.act hf a)
  | abandon hf ticket => exact .single (.abandon hf ticket)
  | attend ha => exact .single (.step (step?_of_attend? ha))
  | turn _ hs => exact .single (.step hs)
  | wake hr ht => exact .single (.wake hr ht)
  | wait hr ht => exact .single (.wait hr ht)
  | pause => exact .refl

theorem Driven.later {P : Queue → Prop} (h : Driven script P a b) : Later script a.2 b.2 := by
  induction h with
  | refl => exact .refl
  | tail _ hd ih => exact ih.trans hd.2.later

theorem Driven.mono {P R : Queue → Prop} (h : Driven script P a b) (hp : ∀ {q : Queue}, P q → R q) :
    Driven script R a b :=
  Relation.ReflTransGen.mono (fun _ _ hd => ⟨hp hd.1, hd.2⟩) _ _ h

/-- Nobody is given a turn while an action is performed. -/
theorem driven_attend {P : Queue → Prop} (paused : Bool) (q : Queue) (n : Nat)
    (hp : ∀ i < n, P (iterate attend? i q)) :
    Driven script P (paused, q) (paused, iterate attend? n q) := by
  induction n with
  | zero => exact .refl
  | succ n ih =>
    have hrun := ih fun i hi => hp i (Nat.lt_succ_of_lt hi)
    have hlast := hp n (Nat.lt_succ_self n)
    rw [iterate_add attend? n 1]
    unfold iterate
    split
    · next ha => exact hrun.tail ⟨hlast, .attend ha⟩
    · exact hrun

theorem driven_step {P : Queue → Prop} (paused : Bool) (q : Queue) (n : Nat)
    (hp : ∀ i < n, P (iterate (step? script) i q)) :
    ∃ paused', Driven script P (paused, q) (paused', iterate (step? script) n q) := by
  induction n with
  | zero => exact ⟨paused, .refl⟩
  | succ n ih =>
    obtain ⟨paused', hrun⟩ := ih fun i hi => hp i (Nat.lt_succ_of_lt hi)
    have hlast := hp n (Nat.lt_succ_self n)
    rw [iterate_add (step? script) n 1]
    unfold iterate
    split
    · next q' hs =>
      cases ha : (iterate (step? script) n q).attend? with
      | some q₁ =>
        obtain rfl := Option.some.inj ((step?_of_attend? ha).symm.trans hs)
        exact ⟨paused', hrun.tail ⟨hlast, .attend ha⟩⟩
      | none => exact ⟨false, hrun.tail ⟨hlast, .turn ha hs⟩⟩
    · exact ⟨paused', hrun⟩

/-! ## While it is paused -/

/-- Nobody has a turn and nobody who waits has a slot, and whoever gets in line is behind the
others. -/
structure Calm (q : Queue) : Prop where
  turn_eq : q.turn = none
  hasSlot_eq : q.IsGoing → ∀ w ∈ q.mailbox.waiting, w.hasSlot = false
  isClear : q.IsGoing → q.IsClear

theorem Calm.congr (h : q.Calm) (hturn : q'.turn = q.turn) (hline : q'.line = q.line)
    (hgoing : q'.IsGoing → q.IsGoing)
    (hwaiting : ∀ w ∈ q'.mailbox.waiting, w ∈ q.mailbox.waiting) : q'.Calm := by
  have hbehind : q'.behind = q.behind := by rw [behind, hturn, hline, behind]
  refine ⟨hturn.trans h.turn_eq, fun hg w hw => ?_, fun hg => ⟨.inl (hturn.trans h.turn_eq), ?_⟩⟩
  · exact h.hasSlot_eq (hgoing hg) w (hwaiting w hw)
  · rw [hline, hbehind]
    exact fun hmem w hw => (h.isClear (hgoing hg)).behind hmem w (hwaiting w hw)

/-- Where nobody waits, nobody is in the way. -/
theorem calm_of_waiting_eq_nil (hturn : q.turn = none) (hnone : q.mailbox.waiting = []) :
    q.Calm := by
  have hall {P : Waiter → Prop} : ∀ w ∈ q.mailbox.waiting, P w := by
    rw [hnone]
    nofun
  exact ⟨hturn, fun _ => hall, fun _ => ⟨.inl hturn, fun _ => hall⟩⟩

theorem calm_of_not_isGoing (hturn : q.turn = none) (hgoing : ¬ q.IsGoing) : q.Calm :=
  ⟨hturn, fun h => absurd h hgoing, fun h => absurd h hgoing⟩

theorem Calm.enqueue {p : Party} (h : q.Calm) (hp : p ≠ .dispatcher) : (q.enqueue p).Calm := by
  unfold Queue.enqueue
  split
  · exact h
  · obtain ⟨hturn, hslot, hclear⟩ := h
    refine ⟨hturn, fun hg => hslot ⟨hg.1, hg.2⟩, fun hg => ⟨.inl hturn, fun hmem w hw htask => ?_⟩⟩
    have hclear : q.IsClear := hclear ⟨hg.1, hg.2⟩
    rcases List.mem_append.mp hmem with hold | hnew
    · exact mem_behind_concat.mpr ⟨.inr hold, .inl (hclear.behind hold w hw htask)⟩
    · exact absurd (List.mem_singleton.mp hnew).symm hp

theorem Calm.wakeIfAbandoned (h : q.Calm) : q.wakeIfAbandoned.Calm := by
  unfold Queue.wakeIfAbandoned
  split
  · next ha =>
    obtain ⟨more, heq⟩ := q.wakeDispatcher_more
    unfold isAbandoned at ha
    simp only [Bool.and_eq_true, List.isEmpty_iff] at ha
    refine calm_of_waiting_eq_nil ?_ ?_
    · rw [heq]
      exact h.turn_eq
    · rw [heq]
      exact ha.1.1.2
  · exact h

theorem Calm.lineUp {w : Waiter} (h : q.Calm) (hl : q.IsGoing → q.Lined)
    (hticket : w.ticket = q.tickets) (hslot : w.hasSlot = false) : (q.lineUp w).Calm := by
  obtain ⟨hturn, hslots, hclear⟩ := h
  have hslots' (hgoing : q.IsGoing) : ∀ v ∈ (q.mailbox.enlist w).waiting, v.hasSlot = false := by
    intro v hv
    rcases List.mem_append.mp hv with hold | hnew
    · exact hslots hgoing v hold
    · rw [List.mem_singleton.mp hnew]
      exact hslot
  have hbehind (hgoing : q.IsGoing) (hmem : .dispatcher ∈ q.line) {v : Waiter}
      (hv : v ∈ (q.mailbox.enlist w).waiting) (htask : v.caller = .task) :
      .producer v.ticket ∈ q.behind ∨ v = w := by
    rcases List.mem_append.mp hv with hold | hnew
    · exact .inl ((hclear hgoing).behind hmem v hold htask)
    · exact .inr (List.mem_singleton.mp hnew)
  unfold Queue.lineUp
  by_cases htask : w.caller = .task
  · dsimp only
    rw [if_pos htask, Queue.enqueue]
    split
    · next hline =>
      refine ⟨hturn, fun hgoing => hslots' ⟨hgoing.1, hgoing.2⟩, fun hgoing => ?_⟩
      -- nobody but the call itself gets in line under its ticket
      have hdrawn := (hl ⟨hgoing.1, hgoing.2⟩).drawn _ hline
      omega
    · refine ⟨hturn, fun hgoing => hslots' ⟨hgoing.1, hgoing.2⟩, fun hgoing => ⟨.inl hturn, ?_⟩⟩
      intro hmem v hv hvtask
      have hline : .dispatcher ∈ q.line := by
        rcases List.mem_append.mp hmem with hold | hnew
        · exact hold
        · cases List.mem_singleton.mp hnew
      refine mem_behind_concat.mpr ⟨.inr hline, ?_⟩
      refine (hbehind ⟨hgoing.1, hgoing.2⟩ hline hv hvtask).imp_right fun heq => ?_
      rw [heq]
  · dsimp only
    rw [if_neg htask]
    refine ⟨hturn, fun hgoing => hslots' ⟨hgoing.1, hgoing.2⟩, fun hgoing => ⟨.inl hturn, ?_⟩⟩
    intro hmem v hv hvtask
    refine (hbehind ⟨hgoing.1, hgoing.2⟩ hmem hv hvtask).resolve_right fun heq => ?_
    exact htask (heq ▸ hvtask)

/-- Whatever happens while nobody is given a turn leaves the queue calm. -/
theorem Shift.calm (h : Shift terms q q') (hk : q.Packed) (hl : q.IsGoing → q.Lined)
    (hturning : terms.isTurning = false) (hi : q.Calm) : q'.Calm := by
  have hsame : ∀ w ∈ q.mailbox.waiting, w ∈ q.mailbox.waiting := fun _ hw => hw
  have hnobody {p : Party} (hturn : q.turn = some p) : False := nomatch hi.turn_eq.symm.trans hturn
  have hturn := hi.turn_eq
  have hgoing := h.traffic.isGoing
  cases h with
  | record | remark | tick | clone | prepare | announce => exact hi.congr rfl rfl hgoing hsame
  | call hterms =>
    rw [hturning] at hterms
    contradiction
  | rest hturn | proceed hturn | finish hturn | go hturn | desert hturn | take hturn | launch hturn
  | breakDown hturn | close hturn => exact (hnobody hturn).elim
  | await hc => exact calm_of_not_isGoing hturn fun hg => (hgoing hg).not_refused (.inl hc)
  | wake => exact hi.enqueue nofun
  | @permit n =>
    have hgate : { q with permits := q.permits + n }.Calm :=
      hi.congr rfl rfl (fun hg => ⟨hg.1, hg.2⟩) hsame
    unfold releasePermits
    dsimp only
    split
    · split
      · exact hgate.enqueue nofun
      · exact hgate
    · exact hgate
  | @put r mailbox hheld hopen hput =>
    obtain ⟨more, heq⟩ := wakeDispatcher_more ({ q with mailbox }.note (.admitted r))
    have hkept : mailbox.waiting = q.mailbox.waiting := by rw [Mailbox.eq_of_put? hput]; rfl
    by_cases hg : q.IsGoing
    · -- a slot is free only if nobody waits
      have hnone : q.mailbox.waiting = [] :=
        (hk hopen).waiting_eq_nil (hi.hasSlot_eq hg) (Mailbox.free_of_put?_eq_some hput)
      refine calm_of_waiting_eq_nil ?_ ?_
      · rw [heq]
        exact hturn
      · rw [heq]
        exact hkept.trans hnone
    · refine calm_of_not_isGoing ?_ fun hg' => hg (hgoing hg')
      rw [heq]
      exact hturn
  | @enlist w hheld hopen hput hticket hslot => exact hi.lineUp hl hticket hslot
  | @join w hopen hw hslot htask =>
    obtain ⟨more, heq⟩ := q.enter_more w
    refine calm_of_not_isGoing ?_ fun hg => ?_
    · show (q.enter w).turn = none
      rw [heq]
      exact hturn
    · have hnot := hi.hasSlot_eq (hgoing hg) w hw
      rw [hslot] at hnot
      contradiction
  | @withdraw w hw hrefused =>
    obtain ⟨more, heq⟩ := q.leave_more w
    refine calm_of_not_isGoing ?_ fun hg => (hgoing hg).not_refused hrefused
    show (q.leave w).turn = none
    rw [heq]
    exact hturn
  | @forsake w hlossy hw =>
    by_cases hg : q.IsGoing
    · have hleft : (q.leave w).Calm := by
        unfold leave
        dsimp only
        rw [hi.hasSlot_eq hg w hw, Bool.false_and, if_neg Bool.false_ne_true]
        refine Calm.wakeIfAbandoned ?_
        exact hi.congr rfl rfl (fun hg => ⟨hg.1, hg.2⟩) fun v hv => (Mailbox.mem_of_mem_dismiss hv).1
      exact hleft.congr rfl rfl (fun hg => ⟨hg.1, hg.2⟩) fun v hv => hv
    · refine calm_of_not_isGoing ?_ fun hg' => hg (hgoing hg')
      obtain ⟨more, heq⟩ := q.leave_more w
      show (q.leave w).turn = none
      rw [heq]
      exact hturn
  | cancel =>
    obtain ⟨more, heq⟩ := wakeAll_more { q with isCancelled := true }
    rw [heq]
    exact calm_of_not_isGoing hturn fun hg => Bool.false_ne_true hg.isCancelled_eq.symm
  | drop handle =>
    refine Calm.wakeIfAbandoned ?_
    exact hi.congr rfl rfl (fun hg => ⟨hg.1, hg.2⟩) hsame
  | offered =>
    refine Calm.wakeIfAbandoned ?_
    exact hi.congr rfl rfl (fun hg => ⟨hg.1, hg.2⟩) hsame

/-- Where everything is at rest, nobody who waits has a slot. -/
theorem Reachable.calm (h : Reachable script q) (hr : q.AtRest script) : q.Calm := by
  have hstill := hr.isStill
  refine ⟨hstill.turn_eq, fun _ w hw => (h.isStuck hr hw).hasSlot_eq, fun _ => ?_⟩
  refine ⟨.inl hstill.turn_eq, fun hmem => ?_⟩
  rw [hstill.line_eq] at hmem
  contradiction

/-! ## At every moment -/

/-- While it is paused nobody is given a turn, and otherwise nobody goes away. -/
def driving (paused offering : Bool) : Terms :=
  { isLossy := paused, isTurning := !paused, isJostling := false, isOffering := offering }

/-- What holds between any two moves. -/
structure Steady (paused : Bool) (q : Queue) : Prop where
  calm : paused = true → q.Calm
  /-- An errand that is not run from outside is run by the run in flight. -/
  solo : paused = false → q.errand ≠ none → q.turn = some .run
  lined : q.IsGoing → q.Lined

/-- What holds at every moment of a move. -/
structure Poised (paused : Bool) (q : Queue) : Prop where
  ranked : q.Ranked
  alert : q.Alert
  packed : q.Packed
  calm : paused = true → q.Calm
  lined : q.IsGoing → q.Lined

variable {paused offering : Bool}

theorem Shift.poised (h : Shift (driving paused offering) q q') (ho : q.Orderly)
    (hi : q.Poised paused) : q'.Poised paused := by
  obtain ⟨hranked, halert, hpacked, hcalm, hlined⟩ := hi
  refine ⟨h.ranked hranked, h.alert halert, h.packed ho hpacked, fun hp => ?_, fun hg => ?_⟩
  · refine h.calm hpacked hlined ?_ (hcalm hp)
    rw [hp]
    rfl
  · have hgoing := h.traffic.isGoing hg
    exact h.lined hranked halert (fun hp => (hcalm hp).hasSlot_eq hgoing) rfl hg (hlined hgoing)

/-- No task that offers a request finds a dispatcher in line before it that others are not behind. -/
theorem Steady.isFair (h : q.Steady paused) (hr : Reachable script q) (hp : q.IsUnprompted) :
    q.IsFair := by
  refine ⟨hp, hr.conduct.past, fun e he htask hgoing => ?_⟩
  cases hpaused : paused with
  | true => exact (h.calm hpaused).isClear hgoing
  | false =>
    have hbusy : q.errand ≠ none := by simp [he]
    have hturn := h.solo hpaused hbusy
    refine ⟨.inr hturn, fun hmem => ?_⟩
    -- the dispatcher does not stand in line while the run performs its actions
    have hacts : q.RunActs := by
      refine (hr.conduct.errand hbusy).resolve_left fun hnone => ?_
      rw [hnone] at hturn
      contradiction
    obtain ⟨-, run, hrun, hacting⟩ := hacts
    have hended : run.stage = .ended := by
      by_cases hawaiting : ∃ b, q.phase = .awaiting b
      · obtain ⟨b, hb⟩ := hawaiting
        obtain ⟨run', hrun', hend⟩ := (h.lined hgoing).ended hmem b hb
        obtain rfl := Option.some.inj (hrun.symm.trans hrun')
        exact hend
      · rw [not_exists] at hawaiting
        exact hr.isSerial.ended hawaiting run hrun
    rw [hended] at hacting
    contradiction

theorem isFair_of_attend? (ha : q.attend? = none) : q.IsFair := by
  obtain ⟨herrand, hdue⟩ := errand_of_attend? ha
  refine ⟨isUnprompted_of_due_eq hdue, fun hne => absurd hdue hne, fun e he => ?_⟩
  rw [herrand] at he
  contradiction

/-- A move of a queue that is driven is made of shifts. -/
theorem Drive.track (h : Drive script a b) (hr : Reachable script a.2) (hp : a.2.IsUnprompted)
    (hi : a.2.Steady a.1) (hoffering : a.2.attend? = none ∨ offering = true) :
    Track (driving b.1 offering) a.2 b.2 := by
  have hrefl {terms : Terms} : Track terms a.2 a.2 := .refl hr.orderly
  cases h with
  | @act q hf a =>
    have hpast : q.IsPast := fun hturn => nomatch hf.turn_eq.symm.trans hturn
    exact track_begin (track_record hrefl q.stats .nothing q.published q.calls) hf.errand_eq
      (fun _ => hpast) a
  | abandon hf ticket => exact track_abandon hrefl rfl ticket
  | attend ha =>
    refine track_attend? hrefl (hoffering.resolve_left fun hnone => ?_) (fun _ => hi.isFair hr hp) ha
    rw [hnone] at ha
    contradiction
  | turn ha hs => exact track_step? hrefl hr.isSerial rfl (.inl ha) (fun _ => isFair_of_attend? ha) hs
  | wake hrest ht => exact track_wakeRunAt hrefl rfl hrest.isFree.turn_eq ht
  | wait hrest ht => exact track_clockTo hrefl rfl ht
  | pause => exact hrefl

theorem Drive.poised (h : Drive script a b) (hr : Reachable script a.2) (hi : a.2.Steady a.1) :
    a.2.Poised b.1 := by
  refine ⟨hr.ranked, hr.alert, hr.packed, fun hp => ?_, hi.lined⟩
  cases h with
  | act | abandon => exact hi.calm rfl
  | attend => exact hi.calm hp
  | turn | wake | wait => contradiction
  | pause hrest => exact hr.calm hrest

/-- What each shift keeps that finds the queue in good order, a move keeps. -/
theorem Drive.keeps {P : Queue → Prop} (h : Drive script a b) (hr : Reachable script a.2)
    (hp : a.2.IsUnprompted) (hi : a.2.Steady a.1) (hoffering : a.2.attend? = none ∨ offering = true)
    (hshift : ∀ {c d : Queue}, c.Orderly → c.Poised b.1 → Shift (driving b.1 offering) c d →
      P c → P d) (ha : P a.2) : b.2.Poised b.1 ∧ P b.2 :=
  (h.track hr hp hi hoffering).keeps (P := fun c => c.Poised b.1 ∧ P c)
    (fun ho hs hc => ⟨hs.poised ho hc.1, hshift ho hc.1 hs hc.2⟩) ⟨h.poised hr hi, ha⟩

theorem Drive.steady (h : Drive script a b) (hr : Reachable script a.2) (hp : a.2.IsUnprompted)
    (hi : a.2.Steady a.1) : b.2.Steady b.1 := by
  obtain ⟨hpoised, -⟩ := h.keeps (P := fun _ => True) hr hp hi (.inr rfl)
    (fun _ _ _ _ => trivial) trivial
  refine ⟨hpoised.calm, fun hpaused hbusy => ?_, hpoised.lined⟩
  cases h with
  | act | abandon | pause => contradiction
  | attend ha =>
    obtain ⟨hturn, -, hnone⟩ := attend?_keeps ha
    exact hturn.trans (hi.solo hpaused fun he => hbusy (hnone he))
  | turn ha hs => exact ((runActs_step? ha hs).1 hbusy).turn_eq
  | @wake _ q hrest time ht =>
    have hkept : (q.wakeRunAt time).errand = q.errand :=
      congrArg Scene.errand (scene_enqueue q .run)
    exact absurd (hkept.trans hrest.isFree.errand_eq) hbusy
  | wait hrest => exact absurd hrest.isFree.errand_eq hbusy

/-- A new queue may be acted on. -/
theorem steady_of_open? {config : QueueConfig} {hooks : List Hook}
    (h : open? config hooks = some q) : q.Steady true := by
  unfold open? at h
  split at h
  · obtain rfl := Option.some.inj h
    refine ⟨fun _ => calm_of_waiting_eq_nil rfl rfl, nofun, fun _ => ?_⟩
    constructor
    · exact List.nodup_singleton _
    · exact fun t ht => nomatch List.mem_singleton.mp ht
    · exact .nil
    · nofun
    · nofun
    · exact fun _ b hb => nomatch hb
    · exact fun hmem => nomatch List.mem_singleton.mp hmem
    · nofun
    · nofun
  · contradiction

theorem Driven.steady {P : Queue → Prop} (h : Driven script P a b) (hr : Reachable script a.2)
    (hp : ∀ {q : Queue}, P q → q.IsUnprompted) (hi : a.2.Steady a.1) : b.2.Steady b.1 := by
  induction h with
  | refl => exact hi
  | tail hrun hd ih => exact hd.2.steady (hr.later (Driven.later hrun)) (hp hd.1) ih

end CoalescingQueue.Queue
