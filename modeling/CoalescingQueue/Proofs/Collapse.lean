import CoalescingQueue.Proofs.Filling
import Mathlib.Algebra.Order.Floor.Div

/-!
# A burst collapses

Requests are offered to an idle queue while nobody has a turn, and then nobody does anything but to
let the clock run. The queue comes to rest again, and it has made as many calls of the work function
as it takes to empty a full mailbox again and again: each for the last of as many requests as the
mailbox holds, and the last one for the last of all. All this holds where the runs end by themselves
and nothing is hooked to any event.
-/
namespace CoalescingQueue

/-- Whether a step from outside does nothing but let things happen. -/
def ScenarioStep.isWait : ScenarioStep → Bool
  | .settle | .advance _ => true
  | .act _ => false

/-! ## Batches -/

/-- The last request of the batch of this number. -/
def latestOf (size : Nat) (rs : List Request) (i : Nat) : Option Request :=
  rs[min ((i + 1) * size) rs.length - 1]?

variable {size n : Nat} {rs : List Request}

theorem flatten_batchOf (size : Nat) (rs : List Request) (n : Nat) :
    ((List.range n).map (batchOf size rs)).flatten = rs.take (n * size) := by
  induction n with
  | zero => simp
  | succ n ih =>
    rw [List.range_succ, List.map_append, List.flatten_append, ih, Nat.succ_mul, List.take_add]
    simp [batchOf]

theorem getLast?_batchOf {i : Nat} (hpos : 0 < size) (hi : i * size < rs.length) :
    (batchOf size rs i).getLast? = latestOf size rs i := by
  have hnext : (i + 1) * size = i * size + size := Nat.succ_mul i size
  rw [batchOf, latestOf, List.getLast?_eq_getElem?, List.length_take, List.length_drop,
    List.getElem?_take_of_lt (by omega), List.getElem?_drop, hnext]
  congr 1
  omega

/-- The last of all requests is the last of the last batch. -/
theorem latestOf_last (hall : rs.length ≤ (n + 1) * size) : latestOf size rs n = rs.getLast? := by
  rw [latestOf, Nat.min_eq_right hall, List.getLast?_eq_getElem?]

/-- So many batches of this size are all of the requests, and none of them is empty. -/
theorem eq_ceilDiv (hall : rs.length ≤ n * size) (hahead : n * size < rs.length + size) :
    n = rs.length ⌈/⌉ size := by
  rw [Nat.ceilDiv_eq_add_pred_div]
  refine (Nat.div_eq_of_lt_le ?_ ?_).symm
  · omega
  · rw [Nat.succ_mul]
    omega

theorem le_ceilDiv_mul (n : Nat) (hpos : 0 < size) : n ≤ (n ⌈/⌉ size) * size := by
  rw [Nat.mul_comm]
  exact (ceilDiv_le_iff_le_mul hpos).mp le_rfl

/-- What is left behind in these batches. -/
theorem length_older {batches : List Batch} (hpos : 0 < size)
    (hbatches : batches.map Batch.toList =
      (List.range (rs.length ⌈/⌉ size)).map (batchOf size rs)) :
    (batches.flatMap Batch.older).length = rs.length - rs.length ⌈/⌉ size := by
  have hall : batches.flatMap Batch.toList = rs := by
    rw [List.flatMap_def, hbatches, flatten_batchOf]
    exact List.take_of_length_le (le_ceilDiv_mul _ hpos)
  have hcount : batches.length = rs.length ⌈/⌉ size := by
    have hlength := congrArg List.length hbatches
    rwa [List.length_map, List.length_map, List.length_range] at hlength
  have hsplit := Flow.length_flatMap_toList batches
  rw [hall] at hsplit
  omega

namespace Queue

variable {script : WorkScript} {q₀ q q' : Queue}

/-- Everything is at rest, and no run sleeps. -/
structure IsDone (script : WorkScript) (q : Queue) : Prop where
  atRest : q.AtRest script
  deadline_eq : q.deadline? = none

/-- At rest, what the clock says makes no difference. -/
theorem AtRest.clockTo (hr : q.AtRest script) (time : Nat) : (q.clockTo time).AtRest script := by
  obtain ⟨hturn, herrand, hline, hundecided⟩ := hr.isStill
  have hdue := hr.isFree.due_eq
  have hnobody : (q.clockTo time).hasDecidedThread = false := hundecided
  have hfree : (q.clockTo time).attend? = none := IsFree.attend? ⟨hturn, herrand, hdue⟩
  have hnext : (q.clockTo time).nextTurn? = none := by
    unfold nextTurn?
    rw [show (q.clockTo time).line = [] from hline, hnobody]
    rfl
  unfold AtRest step?
  rw [hfree, show (q.clockTo time).turn = none from hturn]
  exact hnext

theorem IsDone.clockTo (h : q.IsDone script) (time : Nat) : (q.clockTo time).IsDone script :=
  ⟨h.atRest.clockTo time, h.deadline_eq⟩

theorem wakeRunAt_eq (q : Queue) (time : Nat) :
    ∃ line, q.wakeRunAt time = { q with line, now := Nat.max q.now time } := by
  obtain ⟨line, -, heq⟩ := q.enqueue_le .run
  refine ⟨line, ?_⟩
  rw [wakeRunAt, heq]
  rfl

/-- Once everything is at rest, the run that sleeps is woken if it is to wake up in time. -/
theorem advanceWithin_of_deadline {time most deadline : Nat} (hr : (q.settle script).AtRest script)
    (hd : (q.settle script).deadline? = some deadline) :
    q.advanceWithin script time (most + 1) =
      if deadline < time then ((q.settle script).wakeRunAt deadline).advanceWithin script time most
      else if deadline = time then (q.settle script).wakeRunAt time
      else (q.settle script).clockTo time := by
  rw [advanceWithin, if_pos (isAtRest_iff.mpr hr), hd]

theorem advanceWithin_of_none {time most : Nat} (hr : (q.settle script).AtRest script)
    (hd : (q.settle script).deadline? = none) :
    q.advanceWithin script time (most + 1) = (q.settle script).clockTo time := by
  rw [advanceWithin, if_pos (isAtRest_iff.mpr hr), hd]

/-! ## While the burst is under way -/

/-- A queue that is left alone with requests that were offered to it while it was idle. The runs of
the next `n` calls end by themselves. -/
structure UnderWay (script : WorkScript) (q₀ : Queue) (rs : List Request) (n : Nat) (q : Queue) :
    Prop where
  reachable : Reachable script q
  steady : ∃ paused, q.Steady paused
  alone : q.IsAlone
  burst : q₀.Burst rs q
  supplied : q.Supplied script (q₀.calls + n)

namespace UnderWay

/-- Where the line and the clock alone have changed. -/
theorem congr {line : List Party} {now : Nat} (h : UnderWay script q₀ rs n q)
    (hr : Reachable script { q with line, now })
    (hs : ∃ paused, { q with line, now }.Steady paused) :
    UnderWay script q₀ rs n { q with line, now } := by
  obtain ⟨hhooks, hdue, herrand, ⟨hc, hopen⟩, hheld, htasks, hworking, hbare⟩ := h.alone
  exact ⟨hr, hs, ⟨hhooks, hdue, herrand, ⟨hc, hopen⟩, hheld, htasks, hworking, hbare⟩,
    { h.burst with }, ⟨h.supplied.toll_le, h.supplied.endsAlone⟩⟩

/-- At rest, somebody may let the clock run. -/
theorem clockTo (h : UnderWay script q₀ rs n q) (hr : q.AtRest script) {time : Nat}
    (ht : ∀ d, q.deadline? = some d → time < d) : UnderWay script q₀ rs n (q.clockTo time) := by
  obtain ⟨paused, hsteady⟩ := h.steady
  have hd : Drive script (paused, q) (false, q.clockTo time) := .wait hr ht
  exact h.congr (h.reachable.move (.wait hr ht))
    ⟨false, hd.steady h.reachable h.alone.isUnprompted hsteady⟩

theorem wakeRunAt (h : UnderWay script q₀ rs n q) (hr : q.AtRest script) {time : Nat}
    (ht : q.deadline? = some time) : UnderWay script q₀ rs n (q.wakeRunAt time) := by
  obtain ⟨paused, hsteady⟩ := h.steady
  have hreach : Reachable script (q.wakeRunAt time) := h.reachable.move (.wake hr ht)
  have hd : Drive script (paused, q) (false, q.wakeRunAt time) := .wake hr ht
  have hsteady := hd.steady h.reachable h.alone.isUnprompted hsteady
  obtain ⟨line, hwoken⟩ := q.wakeRunAt_eq time
  rw [hwoken] at hreach hsteady ⊢
  exact h.congr hreach ⟨false, hsteady⟩

/-! ## One step -/

section Steps

variable (hn : rs.length ≤ n * q₀.config.capacity)
include hn

theorem calls_lt (h : UnderWay script q₀ rs n q) {b : Batch} (hphase : q.phase = .dispatching b) :
    q.calls < q₀.calls + n := by
  have hlt := (h.burst.cut_eq hphase).2.trans_le hn
  have hfewer := Nat.lt_of_mul_lt_mul_right hlt
  have hle := h.burst.calls_le
  omega

theorem step (h : UnderWay script q₀ rs n q) (hs : q.step? script = some q') :
    UnderWay script q₀ rs n q' ∧ Tick script q q' := by
  obtain ⟨paused, hsteady⟩ := h.steady
  have hr := h.reachable
  have hd : Drive script (paused, q) (false, q') := .turn h.alone.attend? hs
  have hplan {b : Batch} (hphase : q.phase = .dispatching b) :=
    h.supplied.exists_plan (h.calls_lt hn hphase)
  have ht : Tick script q q' := h.alone.tick
    (fun _ hphase => (hplan hphase).imp fun _ hcall => hcall.1) hs
  have hpoised : q.Poised paused :=
    ⟨hr.ranked, hr.alert, hr.packed, hsteady.calm, hsteady.lined⟩
  refine ⟨⟨hr.move (.step hs), ⟨false, hd.steady hr h.alone.isUnprompted hsteady⟩, ?_, ?_, ?_⟩, ht⟩
  · refine ht.isAlone h.alone fun b plan hphase hcall => ?_
    obtain ⟨plan', hcall', hbare⟩ := hplan hphase
    obtain rfl := Work.run.inj (hcall.symm.trans hcall')
    exact hbare
  · exact ht.burst h.alone hpoised hr.orderly hr.proper h.burst
  · exact ht.supplied h.supplied fun _ hphase => h.calls_lt hn hphase

theorem settle (h : UnderWay script q₀ rs n q) :
    (UnderWay script q₀ rs n (q.settle script) ∧ (q.settle script).now = q.now ∧
      (q.settle script).effort ≤ q.effort) ∧ (q.settle script).AtRest script := by
  refine atRest_of_effort
    (P := fun p => UnderWay script q₀ rs n p ∧ p.now = q.now ∧ p.effort ≤ q.effort) ?_
    ⟨h, rfl, le_rfl⟩
  rintro p p' ⟨hp, hnow, hle⟩ hs
  obtain ⟨hp', ht⟩ := hp.step hn hs
  exact ⟨⟨hp', ht.now_eq.trans hnow, ht.effort_lt.le.trans hle⟩, ht.effort_lt⟩

end Steps

/-! ## At rest -/

/-- The dispatcher listens, or the run in flight sleeps on. -/
theorem rests (h : UnderWay script q₀ rs n q) (hr : q.AtRest script) :
    q.phase = .listening ∧ q.deadline? = none ∨
      ∃ run deadline, q.run = some run ∧ run.stage = .sleeping deadline ∧ q.now < deadline ∧
        q.deadline? = some deadline := by
  have hworking := h.alone.working
  rcases h.reachable.phase_atRest hr with hp | ⟨b, hp⟩ | hp | hdead
  · refine .inl ⟨hp, ?_⟩
    rw [deadline?, (h.reachable.rests_idle hr hp).run_eq]
  · refine .inr ?_
    obtain ⟨run, hrun, hended, -⟩ := h.reachable.hasOneRun hr hp
    have hidle : ¬ run.CanGoOn q.permits q.now := fun hgo =>
      h.reachable.not_wanted hr .run ⟨run, hrun, hgo⟩
    unfold Run.CanGoOn at hidle
    cases hstage : run.stage with
    | sleeping deadline =>
      rw [hstage] at hidle
      refine ⟨run, deadline, hrun, hstage, Nat.lt_of_not_le hidle, ?_⟩
      rw [deadline?, hrun]
      dsimp only
      rw [hstage]
    | waiting =>
      rw [hstage] at hidle
      -- the permit it waits for is there
      refine absurd (fun hgated => ?_) hidle
      have htoll := h.supplied.toll_le
      rw [toll_eq hrun, Run.toll, hstage] at htoll
      dsimp only at htoll
      rw [RunPlan.toll, if_pos hgated] at htoll
      exact htoll
    | ended => exact absurd hstage hended
    | _ =>
      rw [hstage] at hidle
      exact absurd trivial hidle
  · rw [hp] at hworking
    contradiction
  · cases hp : q.phase <;> simp_all [Phase.isDead, Phase.isWorking]

section Waits

variable (hn : rs.length ≤ n * q₀.config.capacity)
include hn

theorem advanceWithin (h : UnderWay script q₀ rs n q) (time most : Nat) :
    UnderWay script q₀ rs n (q.advanceWithin script time most) := by
  induction most generalizing q with
  | zero => exact h
  | succ most ih =>
    obtain ⟨⟨hsettled, -⟩, hr⟩ := h.settle hn
    cases hd : (q.settle script).deadline? with
    | some deadline =>
      rw [advanceWithin_of_deadline hr hd]
      split
      · exact ih (hsettled.wakeRunAt hr hd)
      · split
        · next heq => exact hsettled.wakeRunAt hr (heq ▸ hd)
        · refine hsettled.clockTo hr fun d hd' => ?_
          obtain rfl := Option.some.inj (hd.symm.trans hd')
          omega
    | none =>
      rw [advanceWithin_of_none hr hd]
      refine hsettled.clockTo hr fun d hd' => ?_
      rw [hd] at hd'
      contradiction

theorem advance (h : UnderWay script q₀ rs n q) (ms : Nat) :
    UnderWay script q₀ rs n (q.advance script ms) :=
  ((h.advanceWithin hn _ _).settle hn).1.1

theorem play (h : UnderWay script q₀ rs n q) {waits : List ScenarioStep}
    (hwaits : ∀ step ∈ waits, step.isWait = true) :
    UnderWay script q₀ rs n (q.play script waits).2 := by
  induction waits generalizing q with
  | nil => exact h
  | cons step rest ih =>
    obtain ⟨hstep, hrest⟩ := List.forall_mem_cons.mp hwaits
    rw [play_cons]
    refine ih ?_ hrest
    cases step with
    | settle => exact (h.settle hn).1.1
    | advance ms => exact h.advance hn ms
    | act action => contradiction

/-- From some time on the clock has run for long enough. -/
theorem isDone_advanceWithin (h : UnderWay script q₀ rs n q) :
    ∃ first, ∀ time most, first ≤ time → time ≤ q.now + most →
      (q.advanceWithin script time most).IsDone script := by
  -- each time the run is woken there is less to do
  induction heffort : q.effort using Nat.strong_induction_on generalizing q with
  | _ effort ih =>
    subst heffort
    obtain ⟨⟨hsettled, hnow, hle⟩, hr⟩ := h.settle hn
    rcases hsettled.rests hr with ⟨-, hnone⟩ | ⟨run, deadline, hrun, hstage, hlater, hd⟩
    · refine ⟨q.now + 1, fun time most hfirst htime => ?_⟩
      obtain ⟨most, rfl⟩ : ∃ m, most = m + 1 := ⟨most - 1, by omega⟩
      rw [advanceWithin_of_none hr hnone]
      exact IsDone.clockTo ⟨hr, hnone⟩ time
    · have hless := (effort_wakeRunAt_lt hrun hstage hlater).trans_le hle
      obtain ⟨first, hfirst⟩ := ih _ hless (hsettled.wakeRunAt hr hd) rfl
      refine ⟨max (deadline + 1) first, fun time most hmax htime => ?_⟩
      obtain ⟨most, rfl⟩ : ∃ m, most = m + 1 := ⟨most - 1, by omega⟩
      rw [advanceWithin_of_deadline hr hd, if_pos (by omega)]
      refine hfirst time most (by omega) ?_
      obtain ⟨line, hwoken⟩ := (q.settle script).wakeRunAt_eq deadline
      have hreached : deadline ≤ ((q.settle script).wakeRunAt deadline).now := by
        rw [hwoken]
        exact Nat.le_max_right _ _
      omega

/-- Let the clock run for long enough, and everything is at rest. -/
theorem isDone_advance (h : UnderWay script q₀ rs n q) :
    ∃ least, ∀ ms, least ≤ ms → (q.advance script ms).IsDone script := by
  obtain ⟨first, hfirst⟩ := h.isDone_advanceWithin hn
  refine ⟨first, fun ms hms => ?_⟩
  have hdone : (q.advanceTo script (q.now + ms)).IsDone script :=
    hfirst (q.now + ms) _ (by omega) (by omega)
  rw [Queue.advance, Queue.settle, iterate_atRest hdone.atRest]
  exact hdone

end Waits

end UnderWay

/-! ## What a burst comes to -/

/-- Requests that were offered to an idle queue have been dispatched in as many batches as it takes
to empty a full mailbox again and again. -/
structure Collapsed (q : Queue) (rs : List Request) (replies : List Reply) (q' : Queue) : Prop where
  published_eq : q'.published = .idle
  /-- Each call is for the last of as many requests as the mailbox holds. -/
  dispatched : ∃ batches : List Batch,
    q'.flow.journal.dispatched = q.flow.journal.dispatched ++ batches ∧
    batches.map Batch.toList =
      (List.range (rs.length ⌈/⌉ q.config.capacity)).map (batchOf q.config.capacity rs) ∧
    batches.map (fun b => some b.latest) =
      (List.range (rs.length ⌈/⌉ q.config.capacity)).map (latestOf q.config.capacity rs)
  calls_eq : q'.calls = q.calls + rs.length ⌈/⌉ q.config.capacity
  executed_eq : q'.stats.executed = q.stats.executed + rs.length ⌈/⌉ q.config.capacity
  superseded_eq : q'.stats.superseded =
    q.stats.superseded + (rs.length - rs.length ⌈/⌉ q.config.capacity)
  last_eq : ∀ r ∈ rs.getLast?, q'.stats.lastDispatched = some r.id
  /-- Each request has entered, at once or when its call came to its turn. -/
  replies_eq : replies.length = rs.length
  accepted : ∀ reply ∈ replies, reply = .accepted ∨
    ∃ ticket time, reply = .pending ticket ∧ .ended ticket .accepted time ∈ q'.journal

theorem Reachable.executed_eq_calls (h : Reachable script q) (hphase : q.phase = .listening) :
    q.stats.executed = q.calls := by
  have hcalls : q.calls = q.flow.journal.outcomes.length + q.phase.owed := h.flow.serial.calls_eq
  have hexecuted : q.stats.executed = q.flow.journal.outcomes.length := h.flow.tally.executed_eq
  rw [hcalls, hexecuted, hphase]
  rfl

/-- Nothing is counted as superseded but what is left behind in a batch. -/
theorem superseded_eq_of_dispatched {batches : List Batch} (h : Reachable script q)
    (h' : Reachable script q')
    (hdispatched : q'.flow.journal.dispatched = q.flow.journal.dispatched ++ batches) :
    q'.stats.superseded = q.stats.superseded + (batches.flatMap Batch.older).length := by
  have hbefore : q.stats.superseded = (q.flow.journal.dispatched.flatMap Batch.older).length :=
    h.flow.tally.superseded_eq
  have hafter : q'.stats.superseded = (q'.flow.journal.dispatched.flatMap Batch.older).length :=
    h'.flow.tally.superseded_eq
  rw [hafter, hdispatched, List.flatMap_append, List.length_append, hbefore]

section Done

variable (h : UnderWay script q₀ rs (rs.length ⌈/⌉ q₀.config.capacity) q) (hd : q.IsDone script)
include h hd

/-- When nothing moves any more, nobody waits and all requests have been dispatched. -/
theorem UnderWay.calls_eq : q.phase = .listening ∧ q.mailbox.waiting = [] ∧
    q.calls = q₀.calls + rs.length ⌈/⌉ q₀.config.capacity := by
  obtain ⟨hphase, -⟩ | ⟨_, _, -, -, -, hsome⟩ := h.rests hd.atRest
  · have hrests := h.reachable.rests_idle hd.atRest hphase
    have hnone : q.outstanding = [] := by
      rw [outstanding, hphase, hrests.buffer_eq, requests_eq_nil hrests.waiting_eq]
      rfl
    have hall := List.drop_eq_nil_iff.mp (h.burst.outstanding_eq.symm.trans hnone)
    have hcount := eq_ceilDiv hall h.burst.ahead
    have hle := h.burst.calls_le
    exact ⟨hphase, hrests.waiting_eq, by omega⟩
  · rw [hd.deadline_eq] at hsome
    contradiction

theorem UnderWay.exists_batches : ∃ batches : List Batch,
    q.flow.journal.dispatched = q₀.flow.journal.dispatched ++ batches ∧
      batches.map Batch.toList =
        (List.range (rs.length ⌈/⌉ q₀.config.capacity)).map (batchOf q₀.config.capacity rs) ∧
      batches.map (fun b => some b.latest) =
        (List.range (rs.length ⌈/⌉ q₀.config.capacity)).map (latestOf q₀.config.capacity rs) := by
  obtain ⟨-, -, hcalls⟩ := h.calls_eq hd
  obtain ⟨batches, hdispatched, hbatches⟩ := h.burst.dispatched
  have hmade : q.calls - q₀.calls = rs.length ⌈/⌉ q₀.config.capacity := by omega
  have hahead := h.burst.ahead
  rw [hmade] at hbatches hahead
  have hlast : batches.map (fun b => some b.latest) =
      (batches.map Batch.toList).map List.getLast? := by
    rw [List.map_map]
    exact List.map_congr_left fun b _ => List.getLast?_concat.symm
  refine ⟨batches, hdispatched, hbatches, ?_⟩
  rw [hlast, hbatches, List.map_map]
  refine List.map_congr_left fun i hi => getLast?_batchOf q₀.config.capacity_pos ?_
  have hnext := Nat.mul_le_mul_right q₀.config.capacity (Nat.succ_le_of_lt (List.mem_range.mp hi))
  rw [Nat.succ_mul] at hnext
  omega

/-- The last call was for the last request. -/
theorem UnderWay.last_eq {r : Request} (hlast : rs.getLast? = some r) :
    q.stats.lastDispatched = some r.id := by
  obtain ⟨batches, hdispatched, -, hlatest⟩ := h.exists_batches hd
  have htally : q.stats.lastDispatched =
      q.flow.journal.dispatched.getLast?.map (·.latest.id) := h.reachable.flow.tally.last_eq
  have hpos : 0 < rs.length := List.length_pos_of_mem (List.mem_of_getLast? hlast)
  have hall := le_ceilDiv_mul rs.length q₀.config.capacity_pos
  obtain ⟨n, hn⟩ : ∃ n, rs.length ⌈/⌉ q₀.config.capacity = n + 1 := by
    refine Nat.exists_eq_succ_of_ne_zero fun hzero => ?_
    rw [hzero] at hall
    omega
  rw [hn] at hall
  rw [hn, List.range_succ, List.map_append, List.map_singleton, latestOf_last hall, hlast]
    at hlatest
  obtain ⟨older, b, rfl⟩ : ∃ older b, batches = older ++ [b] := by
    refine (List.eq_nil_or_concat' batches).resolve_left fun hnone => ?_
    rw [hnone] at hlatest
    exact List.append_ne_nil_of_right_ne_nil _ (List.cons_ne_nil _ _) hlatest.symm
  rw [List.map_append, List.map_singleton] at hlatest
  have hb : b.latest = r :=
    Option.some.inj (List.cons.inj (List.append_inj_right' hlatest rfl)).1
  rw [htally, hdispatched, ← List.append_assoc, List.getLast?_concat, Option.map_some, hb]

end Done

/-- However many requests are offered to an idle queue while nobody has a turn, they are dispatched
in as many batches as it takes to empty a full mailbox again and again, if the runs end by
themselves. -/
theorem collapses {actions : List Action} {parts : List (List Request)} (h : Reachable script q)
    (hr : q.AtRest script) (hidle : q.published = .idle) (hhooks : q.hooks = [])
    (hpushes : List.Forall₂ q.Pushes actions parts)
    (hends : script.EndsAlone q.calls (parts.flatten.length ⌈/⌉ q.config.capacity) q.permits) :
    let offered := q.play script (actions.map .act)
    (∃ least, ∀ ms, least ≤ ms → (offered.2.advance script ms).IsDone script) ∧
    ∀ waits : List ScenarioStep, (∀ step ∈ waits, step.isWait = true) →
      (offered.2.play script waits).2.IsDone script →
      q.Collapsed parts.flatten (offered.1.flatMap (·.reply.parts))
        (offered.2.play script waits).2 := by
  intro offered
  have hpushed := (h.loading hr hidle hhooks).pushed_play script hpushes
  have hreach : Reachable script offered.2 := h.later hpushed.driven.later
  have hloading : q.Loading parts.flatten offered.2 := hpushed.loading
  have hunderway : UnderWay script offered.2 parts.flatten
      (parts.flatten.length ⌈/⌉ offered.2.config.capacity) offered.2 :=
    { reachable := hreach
      steady := ⟨true, hpushed.driven.steady h (fun hp => hp) (h.steady_of_idle hr hidle)⟩
      alone := hloading.alone
      burst := hloading.burst
      supplied := by
        rw [hloading.config_eq]
        exact hloading.supplied hends }
  have hn := le_ceilDiv_mul parts.flatten.length offered.2.config.capacity_pos
  refine ⟨hunderway.isDone_advance hn, fun waits hwaits hd => ?_⟩
  have hlast := hunderway.play hn hwaits
  generalize (offered.2.play script waits).2 = q' at hd hlast ⊢
  obtain ⟨hphase, hwaiting, hcalls⟩ := hlast.calls_eq hd
  obtain ⟨batches, hdispatched, hbatches, hlatest⟩ := hlast.exists_batches hd
  have hexecuted := hlast.reachable.executed_eq_calls hphase
  have hexecuted₀ := h.executed_eq_calls (h.phase_of_idle hr hidle)
  rw [hloading.config_eq] at hbatches hlatest hcalls
  rw [hloading.dispatched_eq] at hdispatched
  rw [hloading.calls_eq] at hcalls
  constructor
  · exact hlast.reachable.flow.posture.published_eq _ (congrArg Phase.shown? hphase)
  · exact ⟨batches, hdispatched, hbatches, hlatest⟩
  · exact hcalls
  · rw [hexecuted, hcalls, hexecuted₀]
  · rw [superseded_eq_of_dispatched h hlast.reachable hdispatched,
      length_older q.config.capacity_pos hbatches]
  · exact fun r hr => hlast.last_eq hd hr
  · exact hpushed.length_eq
  · intro reply hreply
    cases hpushed.welcome reply hreply with
    | accepted => exact .inl rfl
    | @pending ticket hw =>
      rcases hlast.burst.tickets ticket hw with hstill | ⟨time, hended⟩
      · rw [Mailbox.tickets, hwaiting] at hstill
        contradiction
      · exact .inr ⟨ticket, time, rfl, hended⟩

/-- Runs that end in each of the three ways, and the first of them takes a permit. -/
def moody : WorkScript :=
  .ofList [.run { isGated := true, duration := 5 }, .run { ending := .failure ["no luck"] }]
    (.run { duration := 3, ending := .panic none })

/-- An idle queue with a permit. -/
def stocked : Queue :=
  let q : Queue := { config := narrow, mailbox := { free := narrow.capacity } }
  ((q.settle moody).act moody (.release 1)).2.settle moody

/-- More requests than two full mailboxes, on two ways. -/
def rush : List Action := [.burst [⟨"a"⟩, ⟨"b"⟩, ⟨"c"⟩, ⟨"d"⟩] 0, .add ⟨"e"⟩ 0]

theorem collapses_rush : Reachable moody stocked ∧ stocked.AtRest moody ∧
    stocked.published = .idle ∧ stocked.hooks = [] ∧
    let offered := stocked.play moody (rush.map .act)
    let last := (offered.2.play moody [.advance 20]).2
    last.IsDone moody ∧ last.calls = 3 ∧ last.stats.lastDispatched = some "e" ∧
    stocked.Collapsed [⟨"a"⟩, ⟨"b"⟩, ⟨"c"⟩, ⟨"d"⟩, ⟨"e"⟩]
      (offered.1.flatMap (·.reply.parts)) last := by
  have hcapacity : narrow.capacity ≤ QueueConfig.maxCapacity := by decide
  let fresh : Queue := { config := narrow, mailbox := { free := narrow.capacity } }
  have hfresh : (fresh.settle moody).AtRest moody := isAtRest_iff.mp (by decide)
  have hreach : Reachable moody stocked :=
    ((Reachable.new hcapacity []).settle.act hfresh.isFree _).settle
  have hrest : stocked.AtRest moody := isAtRest_iff.mp (by decide)
  have hpushes : List.Forall₂ stocked.Pushes rush
      [[⟨"a"⟩, ⟨"b"⟩, ⟨"c"⟩, ⟨"d"⟩], [⟨"e"⟩]] :=
    .cons (.burst _ (by decide)) (.cons (.add _ (by decide)) .nil)
  have hends : moody.EndsAlone stocked.calls (5 ⌈/⌉ stocked.config.capacity) stocked.permits := by
    have hthree : 5 ⌈/⌉ stocked.config.capacity = 3 := by decide
    have hnone : stocked.calls = 0 := by decide
    rw [hthree, hnone]
    refine ⟨fun i hi => ?_, by decide⟩
    obtain rfl | rfl | rfl : i = 0 ∨ i = 1 ∨ i = 2 := by omega
    all_goals exact ⟨_, rfl, rfl, rfl⟩
  have hdone : ((stocked.play moody (rush.map .act)).2.play moody [.advance 20]).2.IsDone moody :=
    ⟨isAtRest_iff.mp (by decide), by decide⟩
  obtain ⟨-, hcollapsed⟩ := collapses hreach hrest (by decide) (by decide) hpushes hends
  refine ⟨hreach, hrest, by decide, by decide, hdone, by decide, by decide, ?_⟩
  exact hcollapsed [.advance 20] (by decide) hdone

end Queue
end CoalescingQueue
