import CoalescingQueue.Console.Program
import CoalescingQueue.Proofs.Moves

/-!
# What a program does to its queue

Whatever a program does to the queue it drives is made of deeds: the moves of the queue, the clock
that goes on, an event of the program, a request that is offered, a call that is decided, and a
cancellation, which may come at any moment. So what holds of a new queue and is kept by each deed
holds at every moment of a program, whatever its input is and wherever it is broken off. Nothing is
said of how often deeds are done, nor that a program comes to its end.
-/
namespace CoalescingQueue
namespace Queue

/-- One deed of a program, or one move of the queue itself. The clock may come to any time. -/
inductive Deed (script : WorkScript) (q : Queue) : Queue → Prop
  | move {q' : Queue} (h : Move script q q') : Deed script q q'
  | wake (time : Nat) : Deed script q (q.wakeRunAt time)
  | wait (time : Nat) : Deed script q (q.clockTo time)
  | announce (r : Request) : Deed script q (q.emit (.offered r))
  | submit (ids : List String) : Deed script q (q.emit (.submitting ids))
  | offer (r : Request) : Deed script q (q.offer .foreground r).2
  | decide {w : Waiter} {reply : Reply} {q' : Queue} (hw : w ∈ q.mailbox.waiting)
      (hd : q.decide? w = some (reply, q')) : Deed script q q'
  | cancel : Deed script q q.cancel

abbrev Deeds (script : WorkScript) : Queue → Queue → Prop := Relation.ReflTransGen (Deed script)

/-- A queue at some moment of a program. -/
def Operated (script : WorkScript) (q : Queue) : Prop :=
  ∃ config hooks first, open? config hooks = some first ∧ Deeds script first q

variable {script : WorkScript} {q q' : Queue} {c : Flow}

theorem Deed.course (hd : Deed script q q') (h : Flow.Course script c q.flow) :
    Flow.Course script c q'.flow := by
  cases hd with
  | move hm => exact hm.course h
  | wake time =>
    change Flow.Course script c (q.enqueue .run).flow
    rwa [flow_enqueue]
  | wait time => exact h
  | announce r | submit ids => exact course_emit_aside h rfl
  | offer r => exact course_offer h .foreground r
  | decide hw hd => exact course_decide h hw hd
  | cancel => exact course_cancel h

theorem Operated.deeds (h : q.Operated script) (hd : Deeds script q q') : q'.Operated script := by
  obtain ⟨config, hooks, first, hopen, hfirst⟩ := h
  exact ⟨config, hooks, first, hopen, hfirst.trans hd⟩

theorem operated_of_open? {config : QueueConfig} {hooks : List Hook}
    (h : open? config hooks = some q) : q.Operated script :=
  ⟨config, hooks, q, h, .refl⟩

/-- At every moment the flow is one that can be reached. -/
theorem Operated.flow (h : q.Operated script) : q.flow.Reachable script := by
  obtain ⟨config, hooks, first, hopen, hdeeds⟩ := h
  induction hdeeds with
  | refl => exact (Reachable.opened hopen).flow
  | tail _ hd ih =>
    obtain ⟨capacity, hcourse⟩ := ih
    exact ⟨capacity, hd.course hcourse⟩

theorem deeds_settle (script : WorkScript) (q : Queue) : Deeds script q (q.settle script) :=
  Relation.ReflTransGen.mono (fun _ _ => .move) _ _ (later_settle script q)

theorem deeds_advanceWithin (script : WorkScript) (time n : Nat) (q : Queue) :
    Deeds script q (q.advanceWithin script time n) := by
  induction n generalizing q with
  | zero => exact .refl
  | succ n ih =>
    have hsettled := deeds_settle script q
    rw [advanceWithin]
    split
    · split
      · split
        · exact (hsettled.tail (.wake _)).trans (ih _)
        · split
          · exact hsettled.tail (.wake _)
          · exact hsettled.tail (.wait _)
      · exact hsettled.tail (.wait _)
    · exact hsettled

end Queue

namespace Console

open Queue

variable (script : WorkScript)

/-- The queue as it is when a row of offers has come as far as this. -/
def Progress.queue : Progress → Queue
  | .through f | .refused f | .waits f _ _ => f.queue

namespace Foreground

variable (f : Foreground)

theorem deeds_relent : Deeds script f.queue (f.relent script).queue := deeds_settle script f.queue

theorem deeds_refresh : Deeds script f.queue (f.refresh script).queue := by
  unfold refresh
  split
  · exact deeds_relent script f
  · exact .refl

theorem deeds_feed (rs : List Request) : Deeds script f.queue (f.feed script rs).queue := by
  induction rs generalizing f with
  | nil => exact .refl
  | cons r rest ih =>
    rw [feed]
    split
    · exact .refl
    · have hready : Deeds script f.queue ((f.announce r).refresh script).queue :=
        .head (.announce r) (deeds_refresh script (f.announce r))
      have hoffered := hready.tail (.offer r)
      dsimp only
      split
      · next hreply =>
        rw [hreply] at hoffered
        exact hoffered.trans (ih ⟨_, _⟩)
      · next hreply =>
        rw [hreply] at hoffered
        exact hoffered
      · next hreply =>
        rw [hreply] at hoffered
        exact hoffered

theorem deeds_decide {f : Foreground} {ticket : Nat} {reply : Reply} {q : Queue}
    (h : f.decide? ticket = some (reply, q)) : Deeds script f.queue q := by
  obtain ⟨w, hw, hd⟩ := Option.bind_eq_some_iff.mp h
  exact .single (.decide (List.mem_of_find?_eq_some hw) hd)

theorem deeds_resume (ticket : Nat) (rest : List Request) :
    Deeds script f.queue (f.resume script ticket rest).queue := by
  unfold resume
  split
  · next hd => exact (deeds_decide script hd).trans (deeds_feed script ⟨_, _⟩ rest)
  · next hd => exact deeds_decide script hd
  · exact .refl

theorem deeds_jump : Deeds script f.queue (f.jump script).queue := by
  unfold jump
  split
  · exact .head (.wake _) (deeds_settle script _)
  · exact .refl

theorem deeds_await (ticket : Nat) : Deeds script f.queue (f.await script ticket).queue := by
  have hrelented := deeds_relent script f
  unfold await
  dsimp only
  split
  · exact hrelented
  · exact hrelented.trans (deeds_jump script _)

theorem deeds_persist (n : Nat) (p : Progress) :
    Deeds script p.queue (persist script n p).queue := by
  induction n generalizing p with
  | zero => exact .refl
  | succ n ih =>
    cases p with
    | waits f ticket rest =>
      exact ((deeds_await script f ticket).trans (deeds_resume script _ ticket rest)).trans (ih _)
    | _ => exact .refl

theorem deeds_feedThrough (rs : List Request) :
    Deeds script f.queue (f.feedThrough script rs).queue :=
  (deeds_feed script f rs).trans (deeds_persist script _ _)

theorem deeds_pause (ms : Nat) : Deeds script f.queue (f.pause script ms).queue := by
  have hrefreshed := deeds_refresh script f
  unfold pause
  dsimp only
  split
  · exact hrefreshed
  · exact hrefreshed.trans (deeds_advanceWithin script _ _ _)

theorem deeds_finish : Deeds script f.queue (f.finish script) := by
  have hcancelled : Deeds script f.queue (f.queue.cancel.settle script) :=
    .head .cancel (deeds_settle script _)
  unfold finish relent
  dsimp only
  split
  · exact hcancelled
  · exact hcancelled.trans (deeds_jump script ⟨_, _⟩)

theorem deeds_playBursts {f f' : Foreground} {gapMs : Nat} {bs : List (List String)}
    (h : f.playBursts script gapMs bs = some f') : Deeds script f.queue f'.queue := by
  induction bs generalizing f with
  | nil =>
    obtain rfl := Option.some.inj h
    exact .refl
  | cons ids rest ih =>
    have hfed := deeds_feedThrough script { f with queue := f.queue.emit (.submitting ids) }
      (ids.map (⟨·⟩))
    rw [playBursts] at h
    split at h
    · next g hthrough =>
      rw [hthrough] at hfed
      exact .head (.submit ids) ((hfed.trans (deeds_pause script g gapMs)).trans (ih h))
    · contradiction

end Foreground

theorem deeds_demo {workMs gapMs : Nat} {text : String} {q q' : Queue}
    (h : demo script workMs gapMs text q = .ok q') : Deeds script q q' := by
  unfold demo at h
  split at h
  · next f hplayed =>
    obtain rfl := Except.ok.inj h
    exact ((Foreground.deeds_playBursts script hplayed).trans
      (Foreground.deeds_pause script f workMs)).trans (Foreground.deeds_finish script _)
  · contradiction

namespace Session

variable (t : Session)

theorem deeds_after (p : Progress) : Deeds script p.queue (t.after script p).queue := by
  cases p with
  | through f =>
    show Deeds script f.queue (if t.isComplete then f else f.relent script).queue
    split
    · exact .refl
    · exact Foreground.deeds_relent script f
  | refused f => exact Foreground.deeds_relent script f
  | waits f ticket rest => exact Foreground.deeds_relent script f

theorem deeds_pump : Deeds script t.queue (t.pump script).queue := by
  have hrelented := Foreground.deeds_relent script t.foreground
  unfold pump
  dsimp only
  split
  · exact hrelented
  · exact (hrelented.trans (Foreground.deeds_resume script _ _ _)).trans (deeds_after script _ _)
  · split
    · exact hrelented
    · exact (hrelented.trans (Foreground.deeds_feed script _ _)).trans (deeds_after script _ _)

theorem deeds_pumpAll (n : Nat) : Deeds script t.queue (t.pumpAll script n).queue := by
  induction n generalizing t with
  | zero => exact .refl
  | succ n ih =>
    rw [pumpAll]
    split
    · exact (deeds_pump script t).trans (ih _)
    · exact deeds_pump script t

theorem deeds_settle : Deeds script t.queue (t.settle script).queue := deeds_pumpAll script t _

/-- Reading lines does nothing to the queue. -/
theorem queue_read (lines : List (List UInt8)) : (t.read lines).queue = t.queue := by
  unfold read
  split <;> rfl

theorem queue_finishInput : t.finishInput.queue = t.queue := by
  unfold finishInput
  dsimp only
  split
  · rfl
  · exact queue_read _ _

theorem deeds_advanceWithin (time n : Nat) :
    Deeds script t.queue (advanceWithin script time n t).queue := by
  induction n generalizing t with
  | zero => exact .refl
  | succ n ih =>
    have hsettled := deeds_settle script t
    rw [advanceWithin]
    split
    · split
      · exact (hsettled.tail (.wake _)).trans (ih ((t.settle script).withQueue _))
      · exact hsettled.tail (.wait _)
    · exact hsettled.tail (.wait _)

theorem deeds_drain (n : Nat) : Deeds script t.queue (t.drain script n).queue := by
  induction n generalizing t with
  | zero => exact .refl
  | succ n ih =>
    have hsettled := deeds_settle script t
    rw [drain]
    split
    · exact (hsettled.trans (Foreground.deeds_jump script _)).trans
        (ih { t.settle script with foreground := _ })
    · exact hsettled

theorem deeds_arrive (a : Arrival) : Deeds script t.queue (t.arrive script a).queue := by
  cases a with
  | bytes piece =>
    have hread := deeds_settle script (t.receive piece)
    rwa [show (t.receive piece).queue = t.queue from queue_read _ _] at hread
  | time ms => exact (deeds_advanceWithin script t _ _).trans (deeds_settle script _)
  | cancellation => exact .head .cancel (deeds_settle script (t.withQueue t.queue.cancel))

theorem deeds_consume (arrivals : List Arrival) :
    Deeds script t.queue (t.consume script arrivals).queue := by
  have hall (t : Session) :
      Deeds script t.queue (arrivals.foldl (fun t a => t.arrive script a) t).queue := by
    induction arrivals generalizing t with
    | nil => exact .refl
    | cons a rest ih => exact (deeds_arrive script t a).trans (ih _)
  have hread := (deeds_settle script t).trans (hall _)
  have hdrained := deeds_drain script
    (arrivals.foldl (fun t a => t.arrive script a) (t.settle script)).finishInput
  rw [queue_finishInput] at hdrained
  exact hread.trans (hdrained _)

theorem deeds_run {q q' : Queue} {arrivals : List Arrival} (h : run script q arrivals = .ok q') :
    Deeds script q q' := by
  have hconsumed := deeds_consume script { foreground := ⟨q, turnCredit⟩ } arrivals
  unfold run at h
  dsimp only at h
  split at h
  · contradiction
  · obtain rfl := Except.ok.inj h
    exact hconsumed.trans (Foreground.deeds_finish script _)

end Session

/-- Whichever command is executed, its queue is operated from its beginning to its end. -/
theorem deeds_execute {i : Invocation} {q q' : Queue} {arrivals : List Arrival}
    (h : i.execute q arrivals = .ok q') : Deeds i.simulation.work q q' := by
  unfold Invocation.execute at h
  dsimp only at h
  split at h
  · split at h
    · next hdemo =>
      obtain rfl := Except.ok.inj h
      exact deeds_demo _ hdemo
    · contradiction
  · split at h
    · next hrun =>
      obtain rfl := Except.ok.inj h
      exact Session.deeds_run _ hrun
    · contradiction

end Console
end CoalescingQueue
