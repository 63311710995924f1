import CoalescingQueue.Proofs.SingleFlight

/-!
# Outcomes follow the script

What is counted as the outcome of a call is what the work function does in that call, for the
first call up to the last one that was counted. The dispatcher dies of a call that breaks down,
and of nothing else.
-/
namespace CoalescingQueue

/-- Whether a call comes to a good end. -/
def Work.succeeds : Work → Bool
  | .breakdown => false
  | .run plan => plan.ending.isSuccess

namespace Flow

variable {script : WorkScript} {c c' : Flow}

/-- The runs and their outcomes are those of the script. -/
structure Follows (script : WorkScript) (c : Flow) : Prop where
  run_eq : ∀ run, c.run = some run → script.call run.call = .run run.plan
  reported : ∀ b ending, c.phase = .reported b ending →
    ∃ run, c.run = some run ∧ run.plan.ending = ending
  outcomes_eq : c.journal.outcomes =
    (List.range' 1 c.journal.outcomes.length).map fun n => (script.call n).succeeds
  /-- A call that breaks down is the last one. -/
  last_of_breakdown : ∀ n, 0 < n → n ≤ c.calls → script.call n = .breakdown →
    n = c.calls ∧ c.phase.isDead = true
  breakdown_of_dead : c.phase.isDead = true → 0 < c.calls ∧ script.call c.calls = .breakdown

theorem Follows.congr (hi : c.Follows script) (hrun : c'.run = c.run)
    (hreported : ∀ b ending, c'.phase = .reported b ending → c.phase = .reported b ending)
    (ho : c'.journal.outcomes = c.journal.outcomes) (hcalls : c'.calls = c.calls)
    (hdead : c'.phase.isDead = c.phase.isDead) : c'.Follows script := by
  obtain ⟨hplan, hending, houtcomes, hlast, hbreakdown⟩ := hi
  constructor
  · rwa [hrun]
  · intro b ending hp
    rw [hrun]
    exact hending b ending (hreported b ending hp)
  · rwa [ho]
  · rwa [hcalls, hdead]
  · rwa [hcalls, hdead]

/-- The run in flight goes on by the same plan. -/
theorem Follows.proceed (hi : c.Follows script) {run : Run} {stage : Stage}
    (hrun : c.run = some run) : { c with run := some { run with stage } }.Follows script := by
  refine ⟨?_, ?_, hi.outcomes_eq, hi.last_of_breakdown, hi.breakdown_of_dead⟩
  · intro run' hrun'
    obtain rfl := Option.some.inj hrun'
    exact hi.run_eq run hrun
  · intro b ending hp
    obtain ⟨run', hrun', hending⟩ := hi.reported b ending hp
    obtain rfl := Option.some.inj (hrun.symm.trans hrun')
    exact ⟨_, rfl, hending⟩

theorem Follows.note (hi : c.Follows script) {f : Fact} (hf : f.outcome? = none) :
    (c.note f).Follows script :=
  hi.congr rfl (fun _ _ hp => hp) (History.gather_concat_of_eq_none c.journal hf) rfl rfl

/-- The outcome that is counted next is that of the call in hand. -/
theorem Follows.conclude (hi : c.Follows script) (hs : c.Serial) {b : Batch} {ending : Ending}
    (hp : c.phase = .reported b ending) (elapsed : Nat) :
    (c.conclude ending.isSuccess elapsed).journal.outcomes =
      (List.range' 1 (c.conclude ending.isSuccess elapsed).journal.outcomes.length).map
        fun n => (script.call n).succeeds := by
  have hrunning : c.phase.isRunning = true := congrArg Phase.isRunning hp
  obtain ⟨run, hrun, hending⟩ := hi.reported b ending hp
  obtain ⟨run', hrun', hcall, -⟩ := hs.running hrunning
  obtain rfl := Option.some.inj (hrun.symm.trans hrun')
  have hnext : run.call = 1 + c.journal.outcomes.length := by
    rw [hcall, hs.calls_of_running hrunning, Nat.add_comm]
  have hsucceeds : (script.call (1 + c.journal.outcomes.length)).succeeds = ending.isSuccess := by
    rw [← hnext, hi.run_eq run hrun, ← hending]
    rfl
  have happ : (c.conclude ending.isSuccess elapsed).journal.outcomes =
      c.journal.outcomes ++ [ending.isSuccess] := by
    simp [Flow.conclude, Flow.note]
  rw [happ, List.length_append, List.length_singleton, List.range'_concat, Nat.one_mul,
    List.map_append, ← hi.outcomes_eq, List.map_singleton, hsucceeds]

/-- No call has broken down as long as the dispatcher lives. -/
theorem Follows.call_ne (hi : c.Follows script) (hp : c.phase.isDead = false) :
    ∀ n, 0 < n → n ≤ c.calls → script.call n ≠ .breakdown := by
  intro n hpos hn hbreakdown
  have hdead := (hi.last_of_breakdown n hpos hn hbreakdown).2
  rw [hp] at hdead
  contradiction

theorem follows_of_call_ne (hp : c.phase.isDead = false)
    (hrun : ∀ run, c.run = some run → script.call run.call = .run run.plan)
    (hreported : ∀ b ending, c.phase = .reported b ending →
      ∃ run, c.run = some run ∧ run.plan.ending = ending)
    (houtcomes : c.journal.outcomes =
      (List.range' 1 c.journal.outcomes.length).map fun n => (script.call n).succeeds)
    (hne : ∀ n, 0 < n → n ≤ c.calls → script.call n ≠ .breakdown) : c.Follows script := by
  refine ⟨hrun, hreported, houtcomes, ?_, ?_⟩
  · intro n hpos hn hbreakdown
    exact absurd hbreakdown (hne n hpos hn)
  · intro hdead
    rw [hp] at hdead
    contradiction

theorem Step.follows (h : Step script c c') (hs : c.Serial) (hi : c.Follows script) :
    c'.Follows script := by
  have hlast (hp : c.phase.isDead = false) (hwork : script.call (c.calls + 1) ≠ .breakdown) :
      ∀ n, 0 < n → n ≤ c.calls + 1 → script.call n ≠ .breakdown := by
    intro n hpos hn
    rcases Nat.le_succ_iff.mp hn with hle | rfl
    · exact hi.call_ne hp n hpos hle
    · exact hwork
  cases h with
  | remark hf => cases hf <;> exact hi.note rfl
  | put | join | forsake | observe =>
    exact hi.congr rfl (fun _ _ hp => hp) (by simp [Flow.note]) rfl rfl
  | enlist | withdraw | release | draw | cancel =>
    exact hi.congr rfl (fun _ _ hp => hp) rfl rfl rfl
  | proceed hrun => exact hi.proceed hrun
  | finish hrun => exact (hi.proceed hrun).note rfl
  | start hp | heed hp | abandon hp | receive hp | count hp | drain hp | discard hp | engage hp
  | leaveDrain hp | leaveRun hp | close hp =>
    refine hi.congr rfl ?_ (by simp [log, Flow.note, enter]) rfl (by rw [hp]; rfl)
    intro b ending hreported
    contradiction
  | @launch b plan began hp hwork =>
    have hdead : c.phase.isDead = false := congrArg Phase.isDead hp
    refine Follows.note (c := { c.call b with
      phase := .awaiting b, run := some { call := c.calls + 1, plan, began } }) ?_ rfl
    refine follows_of_call_ne rfl ?_ ?_ ?_ (hlast hdead ?_)
    · intro run hrun
      obtain rfl := Option.some.inj hrun
      exact hwork
    · intro b' ending hreported
      contradiction
    · simpa [Flow.call, Flow.note] using hi.outcomes_eq
    · rw [hwork]
      exact Work.noConfusion
  | @breakDown b hp hwork =>
    have hdead : c.phase.isDead = false := congrArg Phase.isDead hp
    refine ⟨hi.run_eq, ?_, ?_, ?_, fun _ => ⟨Nat.succ_pos _, hwork⟩⟩
    · intro b' ending hreported
      contradiction
    · simpa [Flow.call, Flow.note] using hi.outcomes_eq
    · intro n hpos hn hbreakdown
      rcases Nat.le_succ_iff.mp hn with hle | heq
      · exact absurd hbreakdown (hi.call_ne hdead n hpos hle)
      · exact ⟨heq, rfl⟩
  | @report b run elapsed hp hrun hstage =>
    have hdead : c.phase.isDead = false := congrArg Phase.isDead hp
    have hsilent : (Fact.logged ⟨verdict b run.plan.ending elapsed, some b.span⟩).outcome? = none :=
      rfl
    refine Follows.note (c := { c with phase := .reported b run.plan.ending }) ?_ hsilent
    refine follows_of_call_ne rfl hi.run_eq ?_ hi.outcomes_eq (hi.call_ne hdead)
    intro b' ending hreported
    obtain ⟨rfl, rfl⟩ := Phase.reported.inj hreported
    exact ⟨run, hrun, rfl⟩
  | @relax b ending elapsed hp | @retire b ending elapsed hp =>
    have hdead : c.phase.isDead = false := congrArg Phase.isDead hp
    refine Follows.note ?_ rfl
    refine follows_of_call_ne rfl ?_ ?_ (hi.conclude hs hp elapsed) (hi.call_ne hdead)
    · intro run hrun
      contradiction
    · intro b' ending' hreported
      contradiction

theorem follows_opened (capacity : Nat) : (opened capacity).Follows script := by
  constructor
  · intro run hrun
    contradiction
  · intro b ending hp
    contradiction
  · rfl
  · intro n hpos hn
    have hzero : n ≤ 0 := hn
    omega
  · intro hdead
    contradiction

theorem Reachable.follows (h : Reachable script c) : c.Follows script :=
  h.keeps follows_opened fun ha hs hi => hs.follows ha.serial hi

end Flow
end CoalescingQueue
