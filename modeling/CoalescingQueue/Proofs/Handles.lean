import CoalescingQueue.Proofs.Parallels

/-!
# One queue behind all handles

Which handle an action is performed on makes no difference, as long as it is held when the action
looks at it.
-/
namespace CoalescingQueue

/-- The guise in which any handle may be used in the place of any other. -/
def Guise.redirected : Guise where
  id s := s
  handle h := h
  Uses _ _ := True

/-- The handle that an action looks at now. -/
def Moment.handle? (x : Moment) : Option Nat := x.faced?.bind Action.handle?

/-- At each moment the actions look at the same handle, or both of theirs are held. -/
def UseHeld (xs xs' : List Moment) : Prop :=
  ∀ x ∈ xs.zip xs', ∀ h ∈ x.1.handle?, ∀ h' ∈ x.2.handle?,
    h' = h ∨ x.1.queue.holds h = true ∧ x.1.queue.holds h' = true

theorem Snapshot.rename_id (seen : Snapshot) : seen.rename (fun s => s) = seen := by
  obtain ⟨state, isStopped, stats⟩ := seen
  cases stats with
  | none => rfl
  | some stats =>
    obtain ⟨enqueued, executed, succeeded, failed, superseded, lastDispatched⟩ := stats
    cases lastDispatched <;> rfl

theorem LogRecord.rename_id (record : LogRecord) : record.rename (fun s => s) = record := by
  obtain ⟨event, span⟩ := record
  have hevent : event.rename (fun s => s) = event := by cases event <;> rfl
  have hspan : span.map (·.rename fun s => s) = span := by
    cases span with
    | none => rfl
    | some span =>
      obtain ⟨request, superseded⟩ := span
      cases request <;> rfl
  unfold rename
  rw [hevent, hspan]

theorem Reply.renumber_id (reply : Reply) : reply.renumber (fun h => h) = reply := by
  cases reply <;> rfl

theorem Answer.dress_redirected (answer : Answer) : answer.dress .redirected = answer := by
  have hline (line : LogLine) : line.dress .redirected = line := by
    cases line with
    | event record => exact congrArg LogLine.event record.rename_id
    | action name reply => exact congrArg (LogLine.action name) reply.renumber_id
    | snapshot seen => exact congrArg LogLine.snapshot seen.rename_id
  have hview (v : StepView) : v.dress .redirected = v := by
    unfold StepView.dress
    rw [funext hline, List.map_id']
    have hreply : v.reply.renumber Guise.redirected.handle = v.reply := v.reply.renumber_id
    have hseen : v.seen.rename Guise.redirected.id = v.seen := v.seen.rename_id
    rw [hreply, hseen]
  unfold Answer.dress
  rw [funext hview, List.map_id']

/-- Redirected actions that find their handles held agree on them. -/
theorem Action.agrees_redirected {a a' : Action} {hs hs' : List Bool} (hsame : hs' = hs)
    (hheld : ∀ h h', a.handle? = some h → a'.handle? = some h' →
      h' = h ∨ hs.getD h false = true ∧ hs.getD h' false = true) :
    a.Agrees .redirected Bond.same.Holds hs hs' a' := by
  subst hsame
  refine ⟨fun h h' hh hh' => ?_, fun _ _ _ => ⟨rfl, rfl⟩, fun _ _ _ => rfl⟩
  rcases hheld h h' hh hh' with rfl | ⟨htrue, htrue'⟩
  · rfl
  · rw [htrue, htrue']

/-- Actions that use one handle in the place of another come to the same, as long as both are held
whenever such an action looks at its handle. -/
theorem Scenario.Twin.answer?_redirected {s s' : Scenario} (h : s.Twin .redirected s')
    (hheld : UseHeld s.moments s'.moments) : s'.answer? = s.answer? := by
  have hall : Queue.Harmonious .redirected .same s.moments s'.moments := by
    intro x hx htwin a ha a' ha' _
    refine Action.agrees_redirected htwin.handles fun handle handle' hh hh' => ?_
    refine hheld x hx handle ?_ handle' ?_
    · exact Option.mem_bind_iff.mpr ⟨a, ha, hh⟩
    · exact Option.mem_bind_iff.mpr ⟨a', ha', hh'⟩
  rw [h.answer?_eq (b := .same) rfl hall, funext Answer.dress_redirected, Option.map_id']

end CoalescingQueue
