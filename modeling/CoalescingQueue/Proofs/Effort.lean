import CoalescingQueue.Proofs.Solitude

/-!
# Effort

How much a queue that is left alone still has to do. Each tick leaves less, and so does each time
the run in flight is woken. What there is to do is never more than the queue has patience for, so it
comes to rest whenever it settles.
-/
namespace CoalescingQueue

/-- A run that sleeps on has more to do than one whose time has come, since it is to be woken. -/
def Stage.effort (now : Nat) : Stage → Nat
  | .spawned => 10
  | .opening _ => 9
  | .waiting => 8
  | .sleeping deadline => if deadline ≤ now then 4 else 7
  | .closing _ => 3
  | .ended => 0

/-- What a phase comes to, up to the phase in which the dispatcher listens. -/
def Phase.effort : Phase → Nat
  | .counting _ => 16
  | .draining _ _ => 15
  | .dispatching _ => 14
  | .awaiting _ => 2
  | .reported _ _ | .unstarted => 1
  | _ => 0

namespace Queue

/-- What the run in flight comes to. -/
def runEffort (q : Queue) : Nat :=
  match q.run with
  | some run => run.stage.effort q.now
  | none => 0

/-- A bound on the steps to come. A request that waits comes to more than one in the buffer, and
that to more than a whole dispatch. -/
def effort (q : Queue) : Nat :=
  21 * q.mailbox.waiting.length + 19 * q.mailbox.buffer.length + 2 * q.line.length +
    q.turn.toList.length + q.phase.effort + q.runEffort

variable {script : WorkScript} {q q' : Queue}

/-- A tick leaves less to do. -/
theorem Tick.effort_lt (h : Tick script q q') : q'.effort < q.effort := by
  have hslots {r : Request} {mailbox : Mailbox} (htake : q.mailbox.take? = some (r, mailbox)) :
      q.mailbox.buffer.length = mailbox.release.2.buffer.length + 1 ∧
        q.mailbox.waiting.length = mailbox.release.2.waiting.length := by
    rw [Mailbox.eq_of_take? htake, Mailbox.release_buffer, Flow.length_release]
    exact ⟨rfl, rfl⟩
  unfold effort runEffort
  cases h with
  | call hturn hline =>
    simp only [hturn, hline, List.length_cons, Option.toList_some, Option.toList_none,
      List.length_nil]
    omega
  | rest hturn =>
    simp only [hturn, Option.toList_some, Option.toList_none, List.length_cons, List.length_nil]
    omega
  | @join w line hturn hw hslot hline =>
    have hfewer : (q.mailbox.dismiss w.ticket).waiting.length < q.mailbox.waiting.length :=
      List.length_filter_lt_length_iff_exists.mpr ⟨w, hw, by simp⟩
    have hmore : ((q.mailbox.dismiss w.ticket).append w.request).buffer.length =
        q.mailbox.buffer.length + 1 := List.length_append
    have hsame : ((q.mailbox.dismiss w.ticket).append w.request).waiting =
        (q.mailbox.dismiss w.ticket).waiting := rfl
    simp only [hturn, hmore, hsame, Option.toList_some, Option.toList_none, List.length_cons,
      List.length_nil]
    omega
  | start hturn hphase | count hturn hphase | drained hturn hphase | report hturn hphase =>
    simp only [hphase, Phase.effort]
    omega
  | receive hturn hphase htake | drain hturn hphase htake =>
    obtain ⟨hbuffer, hwaiting⟩ := hslots htake
    simp only [hphase, Phase.effort]
    omega
  | launch hturn hphase =>
    simp only [hturn, hphase, Phase.effort, Stage.effort, Option.toList_some, Option.toList_none,
      List.length_cons, List.length_nil]
    omega
  | conclude hturn hphase =>
    simp only [hphase, Phase.effort]
    omega
  | begin hturn hrun hstage | arrive hturn hrun hstage | pass hturn hrun hstage
  | finish hturn hrun hstage =>
    simp only [hrun, hstage, Stage.effort]
    omega
  | sleep hturn hrun hstage htoll hlater =>
    simp only [hturn, hrun, hstage, Stage.effort, if_neg (Nat.not_le_of_lt hlater),
      Option.toList_some, Option.toList_none, List.length_cons, List.length_nil]
    omega
  | awake hturn hrun hstage hdue =>
    simp only [hrun, hstage, Stage.effort, if_pos hdue]
    omega

/-- So does a call of the run that sleeps. -/
theorem effort_wakeRunAt_lt {run : Run} {deadline : Nat} (hrun : q.run = some run)
    (hstage : run.stage = .sleeping deadline) (hlater : q.now < deadline) :
    (q.wakeRunAt deadline).effort < q.effort := by
  obtain ⟨line, hline, heq⟩ := q.enqueue_le .run
  have hdue : deadline ≤ Nat.max q.now deadline := Nat.le_max_right _ _
  unfold wakeRunAt clockTo effort runEffort
  rw [heq]
  simp only [hrun, hstage, Stage.effort, if_pos hdue, if_neg (Nat.not_le_of_lt hlater)]
  omega

/-! ## Coming to rest -/

theorem Stage.effort_le (stage : Stage) (now : Nat) : stage.effort now ≤ 10 := by
  cases stage with
  | sleeping deadline =>
    show (if deadline ≤ now then 4 else 7) ≤ 10
    split <;> omega
  | _ => simp [Stage.effort]

theorem Phase.effort_le (p : Phase) : p.effort ≤ 16 := by
  cases p <;> simp [Phase.effort]

theorem effort_le_load (q : Queue) : q.effort + 141 ≤ 21 * q.load := by
  have hrun : q.runEffort ≤ 10 := by
    unfold runEffort
    split
    · exact Stage.effort_le _ _
    · exact Nat.zero_le _
  have hphase := Phase.effort_le q.phase
  have hturn : q.turn.toList.length ≤ 1 := by cases q.turn <;> simp
  have hload : q.mailbox.buffer.length + q.mailbox.waiting.length + q.line.length + 8 ≤ q.load := by
    unfold load
    dsimp only
    omega
  unfold effort
  omega

/-- The patience of a queue outlasts its effort. -/
theorem effort_le_patience (script : WorkScript) (q : Queue) : q.effort ≤ q.patience script := by
  have hload := q.effort_le_load
  have hpatience := load_le_patience script q
  omega

/-- What each step keeps while it lowers a measure that the patience of the queue outlasts, settling
keeps, and then everything is at rest. -/
theorem atRest_of_measure {P : Queue → Prop} {measure : Queue → Nat}
    (hstep : ∀ {p p' : Queue}, P p → p.step? script = some p' → P p' ∧ measure p' < measure p)
    (hle : measure q ≤ q.patience script) (hq : P q) :
    P (q.settle script) ∧ (q.settle script).AtRest script := by
  have hall (n : Nat) (p : Queue) (hp : P p) (hn : measure p ≤ n) :
      P (iterate (step? script) n p) ∧ (iterate (step? script) n p).AtRest script := by
    induction n generalizing p with
    | zero =>
      refine ⟨hp, ?_⟩
      cases hs : p.step? script with
      | none => exact hs
      | some p' =>
        have hlt := (hstep hp hs).2
        omega
    | succ n ih =>
      unfold iterate
      split
      · next p' hs =>
        obtain ⟨hp', hlt⟩ := hstep hp hs
        exact ih p' hp' (by omega)
      · next hs => exact ⟨hp, hs⟩
  exact hall _ q hq hle

/-- What each step keeps while it leaves less to do, settling keeps, and then everything is at
rest. -/
theorem atRest_of_effort {P : Queue → Prop}
    (hstep : ∀ {p p' : Queue}, P p → p.step? script = some p' → P p' ∧ p'.effort < p.effort)
    (hq : P q) : P (q.settle script) ∧ (q.settle script).AtRest script :=
  atRest_of_measure hstep (effort_le_patience script q) hq

end Queue
end CoalescingQueue
