import CoalescingQueue.Console.Demo
import CoalescingQueue.Proofs.Fates
import CoalescingQueue.Proofs.Feeding

/-!
# What a demonstration comes to

A demonstration comes through its script, because its queue takes every request, and loses none of
them. While the last gap lasts the run that was in flight when the last burst was offered has ended
or has less time left than a run takes, so once the time of one more run has passed, nothing is left
in the buffer. What is in flight then is waited for when the queue is shut down.
-/
namespace CoalescingQueue

namespace Queue

open Console (Simulation)

variable {s : Simulation} {q q' : Queue} {fed : List Request}

/-- A queue that has stopped and has lost none of these requests. -/
structure Completes (ids : List String) (q : Queue) : Prop where
  published_eq : q.published = .stopped
  enqueued_eq : q.stats.enqueued = ids.length
  settled_eq : q.stats.executed + q.stats.superseded = q.stats.enqueued
  executed_eq : q.stats.succeeded + q.stats.failed = q.stats.executed
  last_eq : q.stats.lastDispatched = ids.getLast?

/-- What is buffered waits, at most, for a run that ends before another one would. -/
def ClearsSoon (s : Simulation) (q : Queue) : Prop :=
  q.mailbox.buffer = [] ∨
    0 < s.workMs ∧ ∃ limit, limit < q.now + s.workMs ∧ q.ClearsBy limit

/-- The last request of all is the latest of the last batch. -/
theorem getLast?_flatMap_toList (bs : List Batch) :
    (bs.flatMap Batch.toList).getLast? = bs.getLast?.map Batch.latest := by
  rcases List.eq_nil_or_concat' bs with rfl | ⟨before, b, rfl⟩
  · rfl
  · rw [List.flatMap_append, List.flatMap_singleton, Batch.toList, ← List.append_assoc,
      List.getLast?_concat, List.getLast?_concat, Option.map_some]

/-- A queue that is cancelled once nothing is left in its buffer, and drifts to its end, has
dispatched all that it was offered. -/
theorem Fed.completes {ids : List String} (h : q.Fed s fed fed) (hw : q.mailbox.waiting = [])
    (hbuffer : q.mailbox.buffer = []) (hd : Drifts s q.cancel q') (hphase : q'.phase = .stopped)
    (hids : fed = ids.map (⟨·⟩)) : q'.Completes ids := by
  obtain ⟨line, hcancel⟩ := q.cancel_eq
  have hcancelled := h.cancel.toTended
  have hsame := hd.undisturbed hcancelled
  have hflow := (hd.tended hcancelled).flow
  obtain ⟨-, harrivals, henqueued⟩ := h.submitted_of_cancel hw hd
  have hdiscarded : q'.flow.journal.discarded = [] := by
    have hnone : q.flow.journal.discarded = [] := by
      rcases h.flow.dropped with hnone | ⟨-, hover, -⟩
      · exact hnone
      · exact absurd (h.going.symm.trans hover) Bool.false_ne_true
    rw [hsame.discarded_eq, hcancel]
    exact hnone
  have hleft : q'.mailbox.buffer = [] :=
    hd.buffer_eq_nil hcancelled (by rw [hcancel]; exact hbuffer)
  have hdispatched : q'.flow.journal.dispatched.flatMap Batch.toList = fed := by
    have hparts : q'.flow.journal.arrivals = _ := hflow.partitioned
    rw [harrivals, hdiscarded, show q'.flow.phase = _ from hphase,
      show q'.flow.mailbox.buffer = [] from hleft] at hparts
    simpa [Phase.taken] using hparts.symm
  have hsettled : q'.stats.executed + q'.stats.superseded = _ :=
    hflow.settled_eq (congrArg Phase.owed hphase)
  refine ⟨hflow.announced.mpr hphase, ?_, ?_, hflow.balanced.executed_eq.symm, ?_⟩
  · rw [henqueued, hids, List.length_map]
  · rw [hsettled, hdispatched, henqueued]
  · have hlast : q'.stats.lastDispatched = _ := hflow.tally.last_eq
    have hend := getLast?_flatMap_toList q'.flow.journal.dispatched
    rw [hdispatched, hids, List.getLast?_map] at hend
    rw [hlast, show (fun b => b.latest.id) = Request.id ∘ Batch.latest from rfl, ← Option.map_map,
      ← hend, Option.map_map]
    exact Option.map_id'

end Queue

namespace Console

open Queue

variable {s : Simulation} {f : Foreground} {fed : List Request} {gapMs : Nat}

namespace Foreground

/-- After a pause, what is left was left by a run in flight, which has less time left than a run
takes. -/
theorem clearsSoon_pause (hf : f.queue.Fed s fed fed) (hgap : 0 < gapMs) :
    (f.pause s.work gapMs).queue.ClearsSoon s := by
  obtain ⟨hdrifts, -, hnow⟩ := drifts_pause hf.toSteered gapMs
  have hclears := hf.toSteered.clearsBy
  have hsettled := hf.toTended.settle.1
  rcases Nat.eq_zero_or_pos s.workMs with hnone | hsome
  · left
    have hdrifts := drifts_settle s f.queue
    have hclears := hdrifts.clearsBy hf.toTended hclears
    exact (comes_pause hf.toSteered hgap).buffer_eq_nil hsettled
      ((hdrifts.undisturbed hf.toTended).isCancelled_eq.trans hf.going) hclears (by omega)
  · exact .inr ⟨hsome, _, by omega, hdrifts.clearsBy hf.toTended hclears⟩

/-- The time of one run is enough to clear the buffer. -/
theorem buffer_pause_eq_nil (hf : f.queue.Fed s fed fed) (hclears : f.queue.ClearsSoon s) :
    (f.pause s.work s.workMs).queue.mailbox.buffer = [] := by
  rcases hclears with hbuffer | ⟨hsome, limit, hlt, hclears⟩
  · exact (drifts_pause hf.toSteered s.workMs).1.buffer_eq_nil hf.toTended hbuffer
  · have hdrifts := drifts_settle s f.queue
    exact (comes_pause hf.toSteered hsome).buffer_eq_nil hf.toTended.settle.1
      ((hdrifts.undisturbed hf.toTended).isCancelled_eq.trans hf.going)
      (hdrifts.clearsBy hf.toTended hclears) hlt

/-- A pause takes nothing away. -/
theorem fed_pause (hf : f.queue.Fed s fed fed) (hw : f.queue.mailbox.waiting = []) (ms : Nat) :
    (f.pause s.work ms).queue.Fed s fed fed ∧ (f.pause s.work ms).queue.mailbox.waiting = [] := by
  obtain ⟨hdrifts, hsteered, -⟩ := drifts_pause hf.toSteered ms
  exact ⟨hf.of_drifts hdrifts hsteered, hdrifts.waiting_eq_nil hf.toTended hw⟩

/-- A script is played to its end. -/
theorem fed_playBursts (hgap : 0 < gapMs) (bs : List (List String)) (hf : f.queue.Fed s fed fed)
    (hw : f.queue.mailbox.waiting = []) (hclears : f.queue.ClearsSoon s) :
    ∃ f', f.playBursts s.work gapMs bs = some f' ∧
      f'.queue.Fed s (fed ++ bs.flatten.map (⟨·⟩)) (fed ++ bs.flatten.map (⟨·⟩)) ∧
      f'.queue.mailbox.waiting = [] ∧ f'.queue.ClearsSoon s := by
  induction bs generalizing f fed with
  | nil =>
    refine ⟨f, rfl, ?_, hw, hclears⟩
    rwa [List.flatten_nil, List.map_nil, List.append_nil]
  | cons ids rest ih =>
    have hnobody : (f.queue.emit (.submitting ids)).mailbox.waiting = [] := by
      rw [hf.emit]
      exact hw
    obtain ⟨g, hthrough, hg, hwg⟩ := fed_feedThrough
      (f := { f with queue := f.queue.emit (.submitting ids) }) (hf.submitting ids) hnobody
      (ids.map (⟨·⟩))
    obtain ⟨hpaused, hquiet⟩ := fed_pause hg hwg gapMs
    obtain ⟨f', hplayed, hf', hwf', hclears'⟩ := ih hpaused hquiet (clearsSoon_pause hg hgap)
    refine ⟨f', ?_, ?_, hwf', hclears'⟩
    · rw [playBursts, hthrough]
      exact hplayed
    · rwa [List.flatten_cons, List.map_append, ← List.append_assoc]

end Foreground

/-- No request of a demonstration is lost. -/
theorem completes_demo {config : QueueConfig} {q : Queue} (s : Simulation) (script : String)
    (hopen : Queue.open? config = some q) (hgap : 0 < gapMs) :
    ∃ q', demo s.work s.workMs gapMs script q = .ok q' ∧ q'.Completes (bursts script).flatten := by
  have hfed : q.Fed s [] [] := fed_of_open? hopen
  have hnew := eq_of_open? hopen
  obtain ⟨f, hplayed, hf, hw, hclears⟩ := Foreground.fed_playBursts (f := ⟨q, turnCredit⟩) hgap
    (bursts script) hfed (by rw [hnew]) (.inl (by rw [hnew]))
  obtain ⟨hpaused, hnobody⟩ := Foreground.fed_pause hf hw s.workMs
  have hbuffer := Foreground.buffer_pause_eq_nil hf hclears
  obtain ⟨hphase, hdrifts⟩ := Foreground.stopped_finish hpaused.toSteered
  refine ⟨_, ?_, hpaused.completes hnobody hbuffer hdrifts hphase (List.nil_append _)⟩
  rw [demo, hplayed]

/-- Bursts that do not fit, and runs that outlast the gaps. -/
theorem completes_demo_crowded :
    let q : Queue := { config := narrow, mailbox := { free := narrow.capacity } }
    let s : Simulation := { workMs := 7, failEvery := some 2 }
    Queue.open? narrow = some q ∧ 0 < 1 ∧
      ∃ q', demo s.work s.workMs 1 "1,2,3,4,5;6" q = .ok q' ∧
        q'.Completes ["1", "2", "3", "4", "5", "6"] := by
  have hopen : Queue.open? narrow =
      some { config := narrow, mailbox := { free := narrow.capacity } } := rfl
  have hids : (bursts "1,2,3,4,5;6").flatten = ["1", "2", "3", "4", "5", "6"] := by decide
  obtain ⟨q', hplayed, hcompletes⟩ :=
    completes_demo { workMs := 7, failEvery := some 2 } "1,2,3,4,5;6" hopen Nat.one_pos
  rw [hids] at hcompletes
  exact ⟨hopen, Nat.one_pos, q', hplayed, hcompletes⟩

end Console
end CoalescingQueue
