import CoalescingQueue.Proofs.Demonstration
import CoalescingQueue.Proofs.Scripts

/-!
# One run for each burst

Where a burst fits into the mailbox and into one turn of the program, all of it is buffered before
the dispatcher moves, and where the gap after it outlasts a run, the run has ended before the next
burst. So each burst goes into one batch, and the queue is at its beginning again when the next one
is offered.
-/
namespace CoalescingQueue

namespace Console.Simulation

theorem succeeds_call (s : Simulation) (call : Nat) :
    (s.work.call call).succeeds = !s.fails call := by
  show decide (s.ending call = .success) = _
  unfold ending
  cases s.fails call <;> rfl

end Console.Simulation

namespace Queue

open Console (Simulation)

variable {s : Simulation} {q q' : Queue} {announced submitted : List Request}

/-- Requests that were buffered while nothing else happened. -/
structure Fills (rs : List Request) (q q' : Queue) : Prop where
  buffer_eq : q'.mailbox.buffer = q.mailbox.buffer ++ rs
  phase_eq : q'.phase = q.phase
  run_eq : q'.run = q.run
  now_eq : q'.now = q.now
  config_eq : q'.config = q.config
  dispatched_eq : q'.flow.journal.dispatched = q.flow.journal.dispatched

/-- Between two bursts: what was offered has been dispatched batch by batch, and no run is in
flight. -/
structure Rested (s : Simulation) (done : List (List Request)) (q : Queue) : Prop where
  fed : q.Fed s done.flatten done.flatten
  waiting_eq : q.mailbox.waiting = []
  buffer_eq : q.mailbox.buffer = []
  run_eq : q.run = none
  dispatched_eq : q.flow.journal.dispatched.map Batch.toList = done

/-- A queue that has stopped after one run for each of these bursts. -/
structure Rounds (s : Simulation) (bs : List (List String)) (q : Queue) : Prop where
  executed_eq : q.stats.executed = bs.length
  superseded_eq : q.stats.superseded + bs.length = bs.flatten.length
  /-- Each run is reported for the last identifier of its burst. -/
  reported_eq : q.flow.journal.reported.map (some ·.id) = bs.map List.getLast?
  failed_eq : q.stats.failed = s.failEvery.elim 0 (bs.length / ·)

theorem Fed.free_eq (h : q.Fed s announced submitted) (hw : q.mailbox.waiting = [])
    (hbuffer : q.mailbox.buffer = []) : q.mailbox.free = q.config.capacity := by
  have hslots := (h.packed (h.isClosed_eq h.going)).slots_eq
  rwa [Mailbox.promised, hw, hbuffer] at hslots

/-- If no run is in flight, everything that is buffered goes into one that begins now. -/
theorem Fed.spent_settle (h : q.Fed s announced submitted) (hrun : q.run = none) :
    (q.settle s.work).Spent (q.now + s.workMs) := by
  obtain ⟨hsettled, hr⟩ := h.toTended.settle
  have hdrifts := drifts_settle s q
  have hnow := h.toTended.now_settle
  have hclears : (q.settle s.work).ClearsBy q.now :=
    hdrifts.clearsBy h.toTended (.inr (endsBy_of_run_eq_none hrun))
  have hgoing := (hdrifts.undisturbed h.toTended).isCancelled_eq.trans h.going
  have hbuffer := hsettled.buffer_eq_nil hr hgoing (by rwa [hnow])
  have hspent := (hsettled.steered hr).spent (.inr hbuffer)
  rwa [hnow] at hspent

theorem batches_cancel (q : Queue) : q.cancel.batches = q.batches := by
  obtain ⟨line, hcancel⟩ := q.cancel_eq
  rw [hcancel]
  rfl

/-- How many of the first numbers are multiples. -/
theorem countP_fails (s : Simulation) (n : Nat) :
    (List.range' 1 n).countP (s.fails ·) = s.failEvery.elim 0 (n / ·) := by
  unfold Simulation.fails
  cases s.failEvery with
  | none => simp
  | some k =>
    induction n with
    | zero => simp
    | succ n ih =>
      have hdvd : (0 < k ∧ (1 + n) % k = 0) ↔ k ∣ n + 1 := by
        rw [Nat.add_comm 1 n, ← Nat.dvd_iff_mod_eq_zero]
        exact and_iff_right_of_imp fun h => Nat.pos_of_dvd_of_pos h (Nat.succ_pos n)
      rw [List.range'_concat, List.countP_append, ih, Option.elim_some, Option.elim_some,
        Nat.succ_div]
      simp [hdvd]

theorem Rested.spent {done : List (List Request)} (h : q.Rested s done) (limit : Nat) :
    q.Spent limit :=
  ⟨h.fed.taken_eq, .inr h.buffer_eq, endsBy_of_run_eq_none h.run_eq⟩

theorem Rested.batches_eq {done : List (List Request)} (h : q.Rested s done) :
    q.batches = done := by
  have hnothing : q.backlog = [] := by
    rw [backlog, h.fed.taken_eq, h.buffer_eq]
    rfl
  rw [batches_of_backlog_eq_nil hnothing, h.dispatched_eq]

/-- What is buffered then goes into one batch. -/
theorem Rested.batches_of_fills {done : List (List Request)} {rs : List Request}
    (h : q.Rested s done) (hfills : q.Fills rs q') (htaken : q'.phase.taken = []) (hne : rs ≠ []) :
    q'.batches = done ++ [rs] := by
  have hbacklog : q'.backlog = rs := by
    rw [backlog, htaken, hfills.buffer_eq, h.buffer_eq]
    rfl
  rw [batches_of_backlog_ne_nil (hbacklog ▸ hne), hbacklog, hfills.dispatched_eq, h.dispatched_eq]

/-- Announcing a burst changes nothing of it. -/
theorem Rested.submitting {done : List (List Request)} (h : q.Rested s done) (ids : List String) :
    (q.emit (.submitting ids)).Rested s done := by
  have hfed := h.fed.submitting ids
  rw [h.fed.emit] at hfed ⊢
  exact ⟨hfed, h.waiting_eq, h.buffer_eq, h.run_eq, by simpa [logged, flow] using h.dispatched_eq⟩

/-- The latest of a batch is its last one. -/
theorem getLast?_toList (b : Batch) : (b.toList.map Request.id).getLast? = some b.latest.id := by
  rw [Batch.toList, List.map_append, List.map_singleton, List.getLast?_concat]

section Stopped

variable (h : q.flow.Reachable s.work)
include h

/-- A run fails as its number says. -/
theorem failed_eq_of_reachable : q.stats.failed = s.failEvery.elim 0 (q.stats.executed / ·) := by
  have houtcomes := h.follows.outcomes_eq
  have hcount : q.stats.executed = q.flow.journal.outcomes.length := h.tally.executed_eq
  have hfailed : q.stats.failed = _ := h.tally.failed_eq
  rw [hfailed, houtcomes, ← hcount, List.count_eq_countP, List.countP_map, ← countP_fails]
  refine congrArg (List.countP · _) (funext fun n => ?_)
  rw [Function.comp_apply, s.succeeds_call]
  cases s.fails n <;> rfl

/-- At its end a queue has reported one run for each batch. -/
theorem reported_eq_of_stopped (hphase : q.phase = .stopped) :
    q.flow.journal.reported.map (some ·.id) =
      (q.flow.journal.dispatched.map Batch.toList).map fun rs =>
        (rs.map Request.id).getLast? := by
  have hnamed : q.flow.journal.reported ++ q.flow.phase.unreported = _ := h.named
  have hall : q.flow.phase.unreported = [] := congrArg Phase.unreported hphase
  rw [hall, List.append_nil] at hnamed
  rw [hnamed, List.map_map, List.map_map]
  exact List.map_congr_left fun b _ => (getLast?_toList b).symm

theorem rounds_of_dispatched {bs : List (List String)} (hphase : q.phase = .stopped)
    (hdispatched : q.flow.journal.dispatched.map Batch.toList = bs.map (·.map (⟨·⟩))) :
    q.Rounds s bs := by
  have howed : q.flow.phase.owed = 0 := congrArg Phase.owed hphase
  have hlength : q.flow.journal.dispatched.length = bs.length := by
    simpa using congrArg List.length hdispatched
  have hexecuted : q.stats.executed = bs.length := (h.executed_eq howed).trans hlength
  have hsettled : q.stats.executed + q.stats.superseded = _ := h.settled_eq howed
  rw [List.flatMap_def, hdispatched, hexecuted, ← List.map_flatten, List.length_map] at hsettled
  have hreported := reported_eq_of_stopped h hphase
  rw [hdispatched, List.map_map] at hreported
  have hfailed := failed_eq_of_reachable h
  rw [hexecuted] at hfailed
  refine ⟨hexecuted, by omega, hreported.trans (List.map_congr_left fun ids _ => ?_), hfailed⟩
  simp [Function.comp_def]

end Stopped

/-- From a moment between two bursts on nothing more is run. -/
theorem Rested.rounds {p : Queue} {bs : List (List String)}
    (h : q.Rested s (bs.map (·.map (⟨·⟩)))) (hd : Drifts s q p) (hp : p.Steered s)
    (hend : Drifts s p.cancel q') (hphase : q'.phase = .stopped) : q'.Rounds s bs := by
  obtain ⟨line, hcancel⟩ := p.cancel_eq
  have hcancelled := hp.cancel.toTended
  have hempty := hd.buffer_eq_nil h.fed.toTended h.buffer_eq
  have hnothing : q'.backlog = [] := by
    rw [backlog, hphase, hend.buffer_eq_nil hcancelled (by rw [hcancel]; exact hempty)]
    rfl
  refine rounds_of_dispatched (hend.tended hcancelled).flow hphase ?_
  rw [← batches_of_backlog_eq_nil hnothing, hend.batches_eq hcancelled, batches_cancel,
    hd.batches_eq h.fed.toTended, h.batches_eq]

end Queue

namespace Console

open Queue

variable {s : Simulation} {f : Foreground} {fed : List Request} {gapMs : Nat}

/-- Whether each burst fits into the turn in which it is offered. A pause takes a part of the turn
that comes after it. -/
def InOneTurn : Nat → List (List String) → Prop
  | _, [] => True
  | credit, ids :: rest => ids.length ≤ credit ∧ InOneTurn (turnCredit - 1) rest

namespace Foreground

theorem persist_through (n : Nat) : persist s.work n (.through f) = .through f := by
  cases n <;> rfl

/-- With credit and room enough, the program offers a row of requests before anybody else moves. -/
theorem feed_of_room {announced submitted : List Request} (hf : f.queue.Fed s announced submitted)
    (hw : f.queue.mailbox.waiting = []) {rs : List Request} (hcredit : rs.length ≤ f.credit)
    (hroom : rs.length ≤ f.queue.mailbox.free) :
    ∃ q', f.feed s.work rs = .through ⟨q', f.credit - rs.length⟩ ∧ f.queue.Fills rs q' := by
  induction rs generalizing f announced submitted with
  | nil => exact ⟨f.queue, rfl, (List.append_nil _).symm, rfl, rfl, rfl, rfl, rfl⟩
  | cons r rest ih =>
    rw [List.length_cons] at hcredit hroom
    have hannounced := hf.announce r
    rw [hf.emit] at hannounced
    have hfree : 0 < (f.queue.logged (.offered r)).mailbox.free := Nat.zero_lt_of_lt hroom
    have hoffer := hannounced.offer_of_pos hfree r
    obtain ⟨q', hthrough, hfills⟩ := ih
      (f := ⟨(f.queue.logged (.offered r)).accept r, f.credit - 1⟩)
      (hannounced.accept hfree hw r) hw (Nat.le_sub_of_add_le hcredit) (Nat.le_sub_of_add_le hroom)
    refine ⟨q', ?_, ?_⟩
    · rw [feed, if_neg (by simp [hf.going])]
      dsimp only
      rw [refresh, if_neg (by show f.credit ≠ 0; omega), announce, hf.emit, hoffer]
      dsimp only
      rw [hthrough, Nat.sub_sub, Nat.add_comm 1, List.length_cons]
    · obtain ⟨hbuffer, hphase, hrun, hnow, hconfig, hdispatched⟩ := hfills
      refine ⟨?_, hphase, hrun, hnow, hconfig, ?_⟩
      · rw [hbuffer]
        exact List.append_assoc _ [r] rest
      · rw [hdispatched]
        simp [Queue.accept, logged, flow]

/-- While nothing is in flight before a gap that outlasts a run, nothing is in flight after it. -/
theorem rested_pause (hf : f.queue.Fed s f.queue.batches.flatten f.queue.batches.flatten)
    (hw : f.queue.mailbox.waiting = []) (hrun : f.queue.run = none) (hgap : s.workMs < gapMs) :
    (f.pause s.work gapMs).queue.Rested s f.queue.batches := by
  obtain ⟨hpaused, hnobody⟩ := fed_pause hf hw gapMs
  obtain ⟨hdrifts, -, -⟩ := drifts_pause hf.toSteered gapMs
  have hcomes := comes_pause hf.toSteered (Nat.zero_lt_of_lt hgap)
  have hsettled := hf.toTended.settle.1
  have hspent := hf.spent_settle hrun
  have hbuffer : (f.pause s.work gapMs).queue.mailbox.buffer = [] := by
    refine (hcomes.drifts.spent hsettled hspent).nothing.resolve_left ?_
    rw [hpaused.going]
    exact Bool.false_ne_true
  have hbacklog : (f.pause s.work gapMs).queue.backlog = [] := by
    rw [backlog, hpaused.taken_eq, hbuffer]
    rfl
  refine ⟨hpaused, hnobody, hbuffer, hcomes.run_eq_none hsettled hspent (by omega), ?_⟩
  rw [← batches_of_backlog_eq_nil hbacklog, hdrifts.batches_eq hf.toTended]

/-- A burst that fits is offered at once, and during the gap after it its run begins and ends. -/
theorem rested_round {done : List (List Request)} (hf : f.queue.Rested s done) {rs : List Request}
    (hne : rs ≠ []) (hcredit : rs.length ≤ f.credit)
    (hroom : rs.length ≤ f.queue.config.capacity) (hgap : s.workMs < gapMs) :
    ∃ g, f.feedThrough s.work rs = .through g ∧
      (g.pause s.work gapMs).queue.Rested s (done ++ [rs]) ∧
      (g.pause s.work gapMs).queue.now = f.queue.now + gapMs ∧
      (g.pause s.work gapMs).queue.config = f.queue.config ∧
      (g.pause s.work gapMs).credit = turnCredit - 1 := by
  have hfree := hf.fed.free_eq hf.waiting_eq hf.buffer_eq
  obtain ⟨q, hfeed, hfills⟩ := feed_of_room hf.fed hf.waiting_eq hcredit (hfree.symm ▸ hroom)
  obtain ⟨g, hthrough, hg, hwg⟩ := fed_feedThrough hf.fed hf.waiting_eq rs
  have hsame : g.queue = q := by
    rw [feedThrough, hfeed, persist_through] at hthrough
    rw [← Progress.through.inj hthrough]
  rw [← hsame] at hfills
  have hbatches := hf.batches_of_fills hfills hg.taken_eq hne
  have hall : done.flatten ++ rs = g.queue.batches.flatten := by
    rw [hbatches, List.flatten_append, List.flatten_singleton]
  rw [hall] at hg
  have hrested := rested_pause hg hwg (hfills.run_eq.trans hf.run_eq) hgap
  rw [hbatches] at hrested
  obtain ⟨hdrifts, -, hlater⟩ := drifts_pause hg.toSteered gapMs
  refine ⟨g, hthrough, hrested, ?_, ?_, ?_⟩
  · rw [hlater, hfills.now_eq]
  · rw [(hdrifts.undisturbed hg.toTended).config_eq, hfills.config_eq]
  · unfold pause
    dsimp only
    rw [if_neg (by omega)]

/-- A script with bursts that fit is played in as many rounds. -/
theorem rested_playBursts {done : List (List Request)} {bs : List (List String)}
    (hf : f.queue.Rested s done) (hgap : s.workMs < gapMs) (hne : ∀ ids ∈ bs, ids ≠ [])
    (hturn : InOneTurn f.credit bs) (hroom : ∀ ids ∈ bs, ids.length ≤ f.queue.config.capacity) :
    ∃ f', f.playBursts s.work gapMs bs = some f' ∧
      f'.queue.Rested s (done ++ bs.map (·.map (⟨·⟩))) ∧
      f'.queue.now = f.queue.now + bs.length * gapMs := by
  induction bs generalizing f done with
  | nil =>
    refine ⟨f, rfl, by rwa [List.map_nil, List.append_nil], ?_⟩
    rw [List.length_nil, Nat.zero_mul, Nat.add_zero]
  | cons ids rest ih =>
    obtain ⟨hids, hrest⟩ := List.forall_mem_cons.mp hne
    obtain ⟨hfits, hfit⟩ := List.forall_mem_cons.mp hroom
    have hlogged : f.queue.emit (.submitting ids) = f.queue.logged (.submitting ids) :=
      hf.fed.emit _
    have hsome : ids.map Request.mk ≠ [] := (List.map_eq_nil_iff.not).mpr hids
    obtain ⟨g, hthrough, hrested, hnow, hconfig, hcredit⟩ := rested_round
      (f := { f with queue := f.queue.emit (.submitting ids) }) (hf.submitting ids) hsome
      ((List.length_map _).trans_le hturn.1)
      (by rw [List.length_map, hlogged]; exact hfits) hgap
    rw [hlogged] at hnow hconfig
    obtain ⟨f', hplayed, hf', hlater⟩ :=
      ih hrested hrest (hcredit ▸ hturn.2) (by rwa [hconfig])
    refine ⟨f', ?_, ?_, ?_⟩
    · rw [playBursts, hthrough]
      exact hplayed
    · rwa [List.map_cons, ← List.singleton_append, ← List.append_assoc]
    · rw [hlater, hnow, List.length_cons, Nat.succ_mul]
      show f.queue.now + gapMs + _ = _
      omega

end Foreground

/-- Bursts that fit run once each, and the time is that of the gaps and of one run. -/
theorem rounds_demo {config : QueueConfig} {q : Queue} (s : Simulation) (script : String)
    (hopen : Queue.open? config = some q) (hgap : s.workMs < gapMs)
    (hroom : ∀ ids ∈ bursts script, ids.length ≤ config.capacity)
    (hturn : InOneTurn turnCredit (bursts script)) :
    ∃ q', demo s.work s.workMs gapMs script q = .ok q' ∧ q'.Rounds s (bursts script) ∧
      q'.now = (bursts script).length * gapMs + s.workMs := by
  have hnew := eq_of_open? hopen
  have hrested : q.Rested s [] :=
    ⟨fed_of_open? hopen, by rw [hnew], by rw [hnew], by rw [hnew], by rw [hnew]; rfl⟩
  have hne : ∀ ids ∈ bursts script, ids ≠ [] := fun ids hids =>
    ((bursts_eq_iff.mp rfl).1 ids hids).ne_nil
  obtain ⟨f, hplayed, hf, hnow⟩ := Foreground.rested_playBursts (f := ⟨q, turnCredit⟩) hrested hgap
    hne hturn (by rw [hnew]; exact hroom)
  obtain ⟨hdrifts, hsteered, hlater⟩ := Foreground.drifts_pause hf.fed.toSteered s.workMs
  obtain ⟨hphase, hend⟩ := Foreground.stopped_finish hsteered
  have hspent := hdrifts.spent hf.fed.toTended (hf.spent 0)
  refine ⟨(f.pause s.work s.workMs).finish s.work, by rw [demo, hplayed],
    hf.rounds hdrifts hsteered hend hphase, ?_⟩
  rw [Foreground.now_finish hsteered hspent (Nat.zero_le _), hlater, hnow, hnew]
  exact congrArg (· + s.workMs) (Nat.zero_add _)

/-- Bursts that fill the mailbox, with gaps just longer than a run. -/
theorem rounds_demo_filled :
    let q : Queue := { config := narrow, mailbox := { free := narrow.capacity } }
    let s : Simulation := { workMs := 3, failEvery := some 2 }
    Queue.open? narrow = some q ∧ s.workMs < 4 ∧
      (∀ ids ∈ bursts "1,2;3;4,5", ids.length ≤ narrow.capacity) ∧
      InOneTurn turnCredit (bursts "1,2;3;4,5") ∧
      ∃ q', demo s.work s.workMs 4 "1,2;3;4,5" q = .ok q' ∧
        q'.Rounds s [["1", "2"], ["3"], ["4", "5"]] ∧ q'.now = 15 := by
  have hopen : Queue.open? narrow =
      some { config := narrow, mailbox := { free := narrow.capacity } } := rfl
  have hbursts : bursts "1,2;3;4,5" = [["1", "2"], ["3"], ["4", "5"]] := by decide
  have hroom : ∀ ids ∈ bursts "1,2;3;4,5", ids.length ≤ narrow.capacity := by
    rw [hbursts]
    decide
  have hturn : InOneTurn turnCredit (bursts "1,2;3;4,5") := by
    rw [hbursts]
    exact ⟨by decide, by decide, by decide, trivial⟩
  have hgap : ({ workMs := 3, failEvery := some 2 } : Simulation).workMs < 4 := by decide
  obtain ⟨q', hplayed, hrounds, hnow⟩ := rounds_demo _ "1,2;3;4,5" hopen hgap hroom hturn
  rw [hbursts] at hrounds hnow
  exact ⟨hopen, hgap, hroom, hturn, q', hplayed, hrounds, hnow⟩

end Console
end CoalescingQueue
