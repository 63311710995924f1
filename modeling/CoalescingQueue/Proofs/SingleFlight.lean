import CoalescingQueue.Proofs.Moves
import CoalescingQueue.Proofs.Tally

/-!
# One run at a time

A run is in flight from the call that made it to its end, and it is owed until its outcome is
counted. Between the two the dispatcher stays where it is. The statements say that no run is
started while another is owed and that none is lost; they do not say that a run ever ends.
-/
namespace CoalescingQueue

namespace Phase

/-- How many calls of the work function have been made and not been accounted for. -/
def owed : Phase → Nat
  | .awaiting _ | .reported _ _ | .dead _ => 1
  | _ => 0

/-- Whether the dispatcher has a run to wait for or to account for. -/
def isRunning : Phase → Bool
  | .awaiting _ | .reported _ _ => true
  | _ => false

/-- What the dispatcher publishes in a phase. On the way to the end it may be anything. -/
def shown? : Phase → Option DispatchState
  | .unstarted | .listening => some .idle
  | .counting _ | .draining _ _ | .dropping _ => some .draining
  | .dispatching _ | .awaiting _ | .reported _ _ | .retiring _ | .dead _ => some .executing
  | .closing => none
  | .stopped => some .stopped

/-- Whether the dispatcher has come to its end. -/
def isOver : Phase → Bool
  | .stopped | .dead _ => true
  | _ => false

/-- Whether the call of the work function broke down. -/
def isDead : Phase → Bool
  | .dead _ => true
  | _ => false

theorem owed_of_isRunning {p : Phase} (hp : p.isRunning = true) : p.owed = 1 := by
  cases p <;> simp_all [owed, isRunning]

theorem owed_le_one (p : Phase) : p.owed ≤ 1 := by
  cases p <;> simp [owed]

theorem isRunning_eq_false {p : Phase} (hp : p.owed = 0) : p.isRunning = false := by
  cases p <;> simp_all [owed, isRunning]

theorem shown_of_isDead {p : Phase} (hp : p.isDead = true) : p.shown? = some .executing := by
  cases p <;> simp_all [isDead, shown?]

theorem owed_of_isDead {p : Phase} (hp : p.isDead = true) : p.owed = 1 := by
  cases p <;> simp_all [isDead, owed]

theorem isOver_of_isDead {p : Phase} (hp : p.isDead = true) : p.isOver = true := by
  cases p <;> simp_all [isDead, isOver]

theorem shown_of_isRunning {p : Phase} (hp : p.isRunning = true) :
    p.shown? = some .executing ∧ p.isOver = false := by
  cases p <;> simp_all [shown?, isRunning, isOver]

end Phase

/-- A call of the work function finds every earlier outcome counted, and an outcome that is counted
finds every run at its end. -/
def InTurn (before : History) : Fact → Prop
  | .dispatched _ =>
    before.outcomes.length = before.dispatched.length ∧ before.returned = before.launched
  | .concluded _ _ =>
    before.launched.length = before.outcomes.length + 1 ∧ before.returned = before.launched
  | _ => True

namespace Flow

variable {script : WorkScript} {c c' : Flow}

/-- Each phase goes with a published state, and the mailbox is closed at the end only. -/
structure Posture (c : Flow) : Prop where
  published_eq : ∀ s, c.phase.shown? = some s → c.published = s
  isClosed_eq : c.mailbox.isClosed = c.phase.isOver

theorem posture_iff : c.Posture ↔
    (∀ s, c.phase.shown? = some s → c.published = s) ∧ c.mailbox.isClosed = c.phase.isOver :=
  ⟨fun h => ⟨h.published_eq, h.isClosed_eq⟩, fun h => ⟨h.1, h.2⟩⟩

theorem Step.posture (h : Step script c c') (hi : c.Posture) : c'.Posture := by
  cases h with
  | put hopen hput =>
    obtain rfl := Mailbox.eq_of_put? hput
    exact ⟨hi.published_eq, hi.isClosed_eq⟩
  | release => exact ⟨hi.published_eq, (Mailbox.release_isClosed _).trans hi.isClosed_eq⟩
  | enlist | join | withdraw | forsake | draw | cancel | observe | remark | proceed | finish =>
    exact ⟨hi.published_eq, hi.isClosed_eq⟩
  | start hp | count hp | discard hp | launch hp | report hp | retire hp =>
    rw [posture_iff, hp] at hi
    exact ⟨hi.1, hi.2⟩
  | heed hp | abandon hp | leaveDrain hp | leaveRun hp =>
    rw [posture_iff, hp] at hi
    exact ⟨fun s hs => (nomatch hs), hi.2⟩
  | engage hp | relax hp =>
    rw [posture_iff, hp] at hi
    exact ⟨fun s hs => Option.some.inj hs, hi.2⟩
  | receive hp hc htake =>
    rw [posture_iff, hp, Mailbox.eq_of_take? htake] at hi
    exact ⟨fun s hs => Option.some.inj hs, hi.2⟩
  | drain hp htake =>
    rw [posture_iff, hp, Mailbox.eq_of_take? htake] at hi
    exact ⟨hi.1, hi.2⟩
  | breakDown hp =>
    rw [posture_iff, hp] at hi
    exact ⟨hi.1, rfl⟩
  | close => exact ⟨fun s hs => Option.some.inj hs, rfl⟩

/-- Every call but the one in hand is accounted for. -/
structure Serial (c : Flow) : Prop where
  calls_eq : c.calls = c.journal.outcomes.length + c.phase.owed
  idle : c.phase.isRunning = false → c.run = none ∧
    c.journal.launched.length = c.journal.outcomes.length ∧
    c.journal.returned = c.journal.launched
  running : c.phase.isRunning = true → ∃ run, c.run = some run ∧ run.call = c.calls ∧
    c.journal.launched.length = c.calls ∧
    (run.stage = .ended ∧ c.journal.returned = c.journal.launched ∨
      run.stage ≠ .ended ∧ c.journal.launched = c.journal.returned ++ [run.call] ∧
        ∃ b, c.phase = .awaiting b)

theorem Serial.congr (hi : c.Serial) (hp : c'.phase = c.phase) (hrun : c'.run = c.run)
    (hcalls : c'.calls = c.calls) (ho : c'.journal.outcomes = c.journal.outcomes)
    (hl : c'.journal.launched = c.journal.launched)
    (hr : c'.journal.returned = c.journal.returned) : c'.Serial := by
  obtain ⟨hcount, hidle, hrunning⟩ := hi
  rw [← hcalls, ← ho, ← hp] at hcount
  rw [← ho, ← hp, ← hrun, ← hl, ← hr] at hidle
  rw [← hcalls, ← hp, ← hrun, ← hl, ← hr] at hrunning
  exact ⟨hcount, hidle, hrunning⟩

/-- No run is in flight and no call is owed. -/
def Rest (c : Flow) : Prop :=
  c.run = none ∧ c.calls = c.journal.outcomes.length ∧
    c.journal.launched.length = c.journal.outcomes.length ∧
    c.journal.returned = c.journal.launched

theorem serial_iff_rest (hp : c.phase.owed = 0) : c.Serial ↔ c.Rest := by
  have hr := Phase.isRunning_eq_false hp
  constructor
  · rintro ⟨hcalls, hidle, -⟩
    obtain ⟨hrun, hrest⟩ := hidle hr
    exact ⟨hrun, by omega, hrest⟩
  · rintro ⟨hrun, hcalls, hrest⟩
    exact ⟨by omega, fun _ => ⟨hrun, hrest⟩, fun h => by simp [hr] at h⟩

theorem Serial.calls_of_running (hi : c.Serial) (hr : c.phase.isRunning = true) :
    c.calls = c.journal.outcomes.length + 1 := by
  have hcalls := hi.calls_eq
  rwa [Phase.owed_of_isRunning hr] at hcalls

/-- At most the latest run has not come to its end, and that one is in flight. -/
theorem Serial.launched_eq (hi : c.Serial) :
    c.journal.launched = c.journal.returned ∨ ∃ run, c.run = some run ∧ run.stage ≠ .ended ∧
      c.journal.launched = c.journal.returned ++ [run.call] := by
  cases hr : c.phase.isRunning with
  | false => exact .inl (hi.idle hr).2.2.symm
  | true =>
    obtain ⟨run, hrun, -, -, ⟨-, heq⟩ | ⟨hstage, hflight, -⟩⟩ := hi.running hr
    · exact .inl heq.symm
    · exact .inr ⟨run, hrun, hstage, hflight⟩

theorem Serial.isRunning_of_lt (hi : c.Serial)
    (hlt : c.journal.outcomes.length < c.journal.launched.length) : c.phase.isRunning = true := by
  by_contra hr
  have hlen := (hi.idle (Bool.eq_false_iff.mpr hr)).2.1
  omega

theorem Step.serial (h : Step script c c') (hi : c.Serial) : c'.Serial := by
  cases h with
  | remark hf =>
    cases hf <;>
      exact hi.congr rfl rfl rfl (by simp [note]) (by simp [note]) (by simp [note])
  | put | enlist | join | withdraw | forsake | release | draw | cancel | observe =>
    exact hi.congr rfl rfl rfl (by simp [note]) (by simp [note]) (by simp [note])
  | start hp | heed hp | abandon hp | receive hp | count hp | drain hp | discard hp | engage hp
  | leaveDrain hp | leaveRun hp | close hp =>
    rw [serial_iff_rest (by simp [hp, Phase.owed])] at hi
    rw [serial_iff_rest rfl]
    simpa [Rest, note, log, enter] using hi
  | @proceed run stage hrun hstage hnext =>
    refine ⟨hi.calls_eq, fun hidle => ?_, fun hrunning => ?_⟩
    · simp [(hi.idle hidle).1] at hrun
    · obtain ⟨run', hrun', hcall, hlen, hend⟩ := hi.running hrunning
      obtain rfl := Option.some.inj (hrun.symm.trans hrun')
      exact ⟨_, rfl, hcall, hlen, .inr ⟨hnext, (hend.resolve_left fun h => hstage h.1).2⟩⟩
  | @finish run hrun hstage =>
    refine ⟨by simpa [note] using hi.calls_eq, fun hidle => ?_, fun hrunning => ?_⟩
    · simp [(hi.idle hidle).1] at hrun
    · obtain ⟨run', hrun', hcall, hlen, hend⟩ := hi.running hrunning
      obtain rfl := Option.some.inj (hrun.symm.trans hrun')
      obtain ⟨-, hflight, -⟩ := hend.resolve_left fun h => hstage h.1
      refine ⟨_, rfl, hcall, by simpa [note] using hlen, .inl ⟨rfl, ?_⟩⟩
      simpa [note] using hflight.symm
  | launch hp hwork =>
    obtain ⟨hrun, hcalls, hlen, heq⟩ := (serial_iff_rest (by simp [hp, Phase.owed])).mp hi
    refine ⟨?_, fun hidle => by simp [note, Phase.isRunning] at hidle, fun _ => ?_⟩
    · simp [note, call, Phase.owed, hcalls]
    · refine ⟨_, rfl, rfl, by simp [note, call, hlen, hcalls], .inr ⟨by simp, ?_, _, rfl⟩⟩
      simp [note, call, heq]
  | breakDown hp hwork =>
    obtain ⟨hrun, hcalls, hlen, heq⟩ := (serial_iff_rest (by simp [hp, Phase.owed])).mp hi
    refine ⟨?_, fun _ => ⟨hrun, ?_, ?_⟩, fun hrunning => by simp [Phase.isRunning] at hrunning⟩
    · simp [note, call, Phase.owed, hcalls]
    · simpa [note, call] using hlen
    · simpa [note, call] using heq
  | @report b run elapsed hp hrun hstage =>
    have hrunning : c.phase.isRunning = true := by simp [hp, Phase.isRunning]
    have hcalls := hi.calls_of_running hrunning
    obtain ⟨run', hrun', hcall, hlen, hend⟩ := hi.running hrunning
    obtain rfl := Option.some.inj (hrun.symm.trans hrun')
    -- the run that is reported has ended, so none is left
    obtain ⟨-, heq⟩ := hend.resolve_right fun h => h.1 hstage
    refine ⟨?_, fun hidle => ?_, fun _ => ⟨run, hrun, hcall, ?_, .inl ⟨hstage, ?_⟩⟩⟩
    · simpa [log, note, Phase.owed] using hcalls
    · simp [log, note, Phase.isRunning] at hidle
    · simpa [log, note] using hlen
    · simpa [log, note] using heq
  | relax hp hc | retire hp hc =>
    have hrunning : c.phase.isRunning = true := by simp [hp, Phase.isRunning]
    have hcalls := hi.calls_of_running hrunning
    obtain ⟨run', hrun', hcall, hlen, hend⟩ := hi.running hrunning
    obtain ⟨-, heq⟩ := hend.resolve_right fun h => by simp [hp] at h
    rw [serial_iff_rest rfl]
    refine ⟨rfl, ?_, ?_, ?_⟩
    · simpa [log, note, conclude, enter] using hcalls
    · simpa [log, note, conclude, enter, ← hcalls] using hlen
    · simpa [log, note, conclude, enter] using heq

/-- The calls that made a run are numbered from one on. -/
def Numbered (c : Flow) : Prop :=
  c.journal.launched = List.range' 1 c.journal.launched.length

theorem Numbered.congr (hi : c.Numbered) (h : c'.journal.launched = c.journal.launched) :
    c'.Numbered := by
  unfold Numbered at hi ⊢
  rwa [h]

theorem Step.numbered (h : Step script c c') (hs : c.Serial) (hi : c.Numbered) :
    c'.Numbered := by
  cases h with
  | remark hf => cases hf <;> exact hi.congr (by simp [note])
  | @launch b plan began hp hwork =>
    obtain ⟨-, hcalls, hlen, -⟩ := (serial_iff_rest (by simp [hp, Phase.owed])).mp hs
    have happ : (({ c.call b with
        phase := .awaiting b
        run := some { call := c.calls + 1, plan, began } } : Flow).note
          (.launched (c.calls + 1))).journal.launched = c.journal.launched ++ [c.calls + 1] := by
      simp [note, call]
    have hnext : c.calls + 1 = 1 + c.journal.launched.length := by omega
    unfold Numbered at hi ⊢
    rw [happ, List.length_append, List.length_singleton, List.range'_concat, hnext, ← hi,
      Nat.one_mul]
  | _ => exact hi.congr (by simp [log, note, enter, call, conclude])

theorem Step.inTurn (h : Step script c c') (hs : c.Serial) (ht : c.Tally)
    (hi : c.journal.Always InTurn) : c'.journal.Always InTurn := by
  refine h.always ?_ (fun _ _ => trivial) ?_ ?_ (fun _ _ => trivial) hi
  · intro before f hf
    cases f <;> trivial
  · intro b hp
    obtain ⟨-, hcalls, -, heq⟩ := (serial_iff_rest (by simp [hp, Phase.owed])).mp hs
    exact ⟨hcalls.symm.trans ht.calls_eq, heq⟩
  · intro b ending elapsed hp
    have hrunning : c.phase.isRunning = true := by simp [hp, Phase.isRunning]
    obtain ⟨run, -, -, hlen, hend⟩ := hs.running hrunning
    obtain ⟨-, heq⟩ := hend.resolve_right fun h => by simp [hp] at h
    exact ⟨hlen.trans (hs.calls_of_running hrunning), heq⟩

theorem Reachable.posture (h : Reachable script c) : c.Posture :=
  h.keeps (fun _ => ⟨fun _ hs => Option.some.inj hs, rfl⟩) fun _ hs hi => hs.posture hi

theorem Reachable.serial (h : Reachable script c) : c.Serial :=
  h.keeps (fun _ => ⟨rfl, fun _ => ⟨rfl, rfl, rfl⟩, fun hr => (nomatch hr)⟩)
    fun _ hs hi => hs.serial hi

theorem Reachable.numbered (h : Reachable script c) : c.Numbered :=
  h.keeps (fun _ => rfl) fun ha hs hi => hs.numbered ha.serial hi

theorem Reachable.inTurn (h : Reachable script c) : c.journal.Always InTurn :=
  h.keeps (fun _ => History.always_nil InTurn) fun ha hs hi => hs.inTurn ha.serial ha.tally hi

end Flow

namespace Queue

variable {script : WorkScript} {q : Queue}

/-- Runs follow each other, and none is left before its end. -/
structure RunsInTurn (q : Queue) : Prop where
  /-- The calls that made a run are numbered in order. -/
  launched_eq : q.flow.journal.launched = List.range' 1 q.flow.journal.launched.length
  /-- Runs come to their end in the order in which they were made. -/
  returned_prefix : q.flow.journal.returned <+: q.flow.journal.launched
  launched_le : q.flow.journal.launched.length ≤ q.flow.journal.returned.length + 1
  /-- A run that was made and has not come to its end is still in flight. -/
  in_flight : ∀ call ∈ q.flow.journal.launched, call ∉ q.flow.journal.returned →
    ∃ run, q.run = some run ∧ run.call = call ∧ run.stage ≠ .ended
  /-- Until the outcome of a run is counted, the queue is executing and takes requests. -/
  executing : q.stats.executed < q.flow.journal.launched.length →
    q.published = .executing ∧ q.mailbox.isClosed = false
  /-- No call is made before the outcomes of all earlier ones are counted. -/
  calls_le : q.calls ≤ q.stats.executed + 1
  calls_eq : q.calls = q.flow.journal.dispatched.length
  executed_eq : q.stats.executed = q.flow.journal.outcomes.length
  in_turn : q.flow.journal.Always InTurn

/-- Nothing that happens to a queue makes a second run beside the one in flight, or ends that one
early. -/
theorem runsInTurn (h : Reachable script q) : q.RunsInTurn := by
  have hserial := h.flow.serial
  have hexecuted : q.stats.executed = q.flow.journal.outcomes.length := h.flow.tally.executed_eq
  have hcalls : q.calls = q.flow.journal.outcomes.length + q.phase.owed := hserial.calls_eq
  have howed := q.phase.owed_le_one
  constructor
  · exact h.flow.numbered
  · rcases hserial.launched_eq with heq | ⟨run, -, -, hflight⟩
    · rw [heq]
    · exact ⟨_, hflight.symm⟩
  · rcases hserial.launched_eq with heq | ⟨run, -, -, hflight⟩
    · rw [heq]
      omega
    · rw [hflight, List.length_append, List.length_singleton]
  · intro call hmem hnot
    rcases hserial.launched_eq with heq | ⟨run, hrun, hstage, hflight⟩
    · exact absurd (heq ▸ hmem) hnot
    · rw [hflight, List.mem_append, List.mem_singleton] at hmem
      exact ⟨run, hrun, (hmem.resolve_left hnot).symm, hstage⟩
  · intro hlt
    rw [hexecuted] at hlt
    obtain ⟨hshown, hover⟩ := Phase.shown_of_isRunning (hserial.isRunning_of_lt hlt)
    exact ⟨h.flow.posture.published_eq _ hshown, h.flow.posture.isClosed_eq.trans hover⟩
  · omega
  · exact h.flow.tally.calls_eq
  · exact hexecuted
  · exact h.flow.inTurn

/-- Each run cancels its own queue, offers another request, takes a while and panics. -/
def selfCancelling : WorkScript :=
  .ofList [] (.run { atStart := [.cancel, .add ⟨"late"⟩ 0], duration := 5, ending := .panic none })

def narrow : QueueConfig := { capacity := 2 }

/-- More requests than the mailbox holds, the first of which have been dispatched. -/
def crowded (script : WorkScript) : Queue :=
  let q : Queue := { config := narrow, mailbox := { free := narrow.capacity } }
  (q.act script (.burst [⟨"a"⟩, ⟨"b"⟩, ⟨"c"⟩] 0)).2.settle script

theorem reachable_crowded (script : WorkScript) : Reachable script (crowded script) := by
  have hcapacity : narrow.capacity ≤ QueueConfig.maxCapacity := by decide
  exact ((Reachable.new hcapacity []).act ⟨rfl, rfl, rfl⟩ _).settle

/-- The run of a queue that is cancelled meanwhile goes on. -/
theorem runsInTurn_selfCancelling : Reachable selfCancelling (crowded selfCancelling) ∧
    (crowded selfCancelling).isCancelled = true ∧
    (crowded selfCancelling).flow.journal.launched = [1] ∧
    (crowded selfCancelling).flow.journal.returned = [] ∧
    (crowded selfCancelling).RunsInTurn := by
  have hreach := reachable_crowded selfCancelling
  exact ⟨hreach, by decide, by decide, by decide, runsInTurn hreach⟩

end Queue
end CoalescingQueue
