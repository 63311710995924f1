import CoalescingQueue.Proofs.Fates
import CoalescingQueue.Proofs.Parting

/-!
# The log of transitions

What the dispatcher publishes can be read off its log: the transitions form one path, and each of
them tells what is published from then on. The last state is the exception. A transition to it
is logged when the dispatcher leaves its loop, and it is published only after the mailbox was
closed, together with the last event of the dispatcher. The statements are about what is in the
log, not about how often or when the dispatcher comes to log something.
-/
namespace CoalescingQueue

namespace DispatchState

/-- The transitions there are. -/
inductive Edge : DispatchState → DispatchState → Prop
  | take : Edge .idle .draining
  | dispatch : Edge .draining .executing
  | relax : Edge .executing .idle
  | drop : Edge .draining .stopped
  | retire : Edge .executing .stopped

/-- Each transition begins where the one before it ended. -/
inductive Path (start : DispatchState) :
    List (DispatchState × DispatchState) → DispatchState → Prop
  | nil : Path start [] start
  | concat {path : List (DispatchState × DispatchState)} {before after : DispatchState}
      (h : Path start path before) (he : Edge before after) :
      Path start (path ++ [(before, after)]) after

end DispatchState

namespace Fact

@[simp] def transition? : Fact → Option (DispatchState × DispatchState)
  | .logged ⟨.transition before after, _⟩ => some (before, after)
  | _ => none

/-- An event of the dispatcher. -/
@[simp] def spoken? : Fact → Option Event
  | .logged r => if r.event.isAside then none else some r.event
  | _ => none

/-- What is published after a fact, given what was published before. A transition to the last
state changes nothing yet. -/
@[simp] def shows (s : DispatchState) : Fact → DispatchState
  | .logged ⟨.transition _ after, _⟩ => if after = .stopped then s else after
  | .logged ⟨.stopped, _⟩ => .stopped
  | _ => s

end Fact

namespace History

variable (h : History)

abbrev transitions : List (DispatchState × DispatchState) := h.gather Fact.transition?

/-- The events of the dispatcher. -/
abbrev spoken : List Event := h.gather Fact.spoken?

/-- What is published once all this has happened. -/
def shown : DispatchState := h.foldl Fact.shows .idle

theorem shown_concat (f : Fact) : shown (h ++ [f]) = f.shows h.shown := by
  unfold shown
  rw [List.foldl_concat]

end History

namespace Fact.IsAside

variable {f : Fact}

theorem silent (h : f.IsAside) :
    f.transition? = none ∧ f.spoken? = none ∧ ∀ s, f.shows s = s := by
  cases h with
  | @logged r he =>
    obtain ⟨e, span⟩ := r
    cases e <;> simp_all [Event.isAside]
  | _ => exact ⟨rfl, rfl, fun _ => rfl⟩

end Fact.IsAside

namespace Phase

/-- Whether the dispatcher has left its loop for good. -/
def hasLeft : Phase → Bool
  | .closing | .stopped => true
  | _ => false

/-- Whether the dispatcher leaves its loop because the queue was cancelled meanwhile. -/
def isCut : Phase → Bool
  | .dropping _ | .retiring _ => true
  | _ => false

/-- What the dispatcher says at last, once it has said it. -/
def lastWords : Phase → List Event
  | .stopped => [.stopped]
  | _ => []

theorem lastWords_eq_nil {p : Phase} (hp : p ≠ .stopped) : p.lastWords = [] := by
  cases p with
  | stopped => contradiction
  | _ => rfl

end Phase

namespace Flow

variable {script : WorkScript} {c c' : Flow}

/-- The transitions that were logged lead to the state that is published, until the dispatcher
has left its loop. -/
def Traced (c : Flow) : Prop :=
  ∃ s, DispatchState.Path .idle c.journal.transitions s ∧
    (c.phase.hasLeft = false → s = c.published)

theorem Traced.congr (hi : c.Traced) (ht : c'.journal.transitions = c.journal.transitions)
    (hp : c'.phase.hasLeft = false → c.phase.hasLeft = false)
    (hpublished : c'.phase.hasLeft = false → c'.published = c.published) : c'.Traced := by
  obtain ⟨s, hpath, hend⟩ := hi
  refine ⟨s, ht ▸ hpath, fun hgoing => ?_⟩
  rw [hpublished hgoing]
  exact hend (hp hgoing)

theorem Traced.concat {before after : DispatchState} (hi : c.Traced)
    (hgoing : c.phase.hasLeft = false) (hpublished : c.published = before)
    (he : DispatchState.Edge before after)
    (ht : c'.journal.transitions = c.journal.transitions ++ [(before, after)])
    (hnext : c'.phase.hasLeft = false → after = c'.published) : c'.Traced := by
  obtain ⟨s, hpath, hend⟩ := hi
  have hs : s = before := (hend hgoing).trans hpublished
  refine ⟨after, ?_, hnext⟩
  rw [ht]
  exact (hs ▸ hpath).concat he

theorem Step.traced (h : Step script c c') (hx : c.Posture) (hi : c.Traced) : c'.Traced := by
  have hshown {p : Phase} {s : DispatchState} (hp : c.phase = p) (hs : p.shown? = some s) :
      c.published = s :=
    hx.published_eq s (hp ▸ hs)
  cases h with
  | remark hf =>
    refine hi.congr ?_ id (fun _ => rfl)
    exact History.gather_concat_of_eq_none _ hf.silent.1
  | receive hp hc htake =>
    refine hi.concat (by rw [hp]; rfl) (hshown hp rfl) .take ?_ (fun _ => rfl)
    simp [log, note, enter]
  | engage hp =>
    refine hi.concat (by rw [hp]; rfl) (hshown hp rfl) .dispatch ?_ (fun _ => rfl)
    simp [log, note, enter]
  | relax hp =>
    refine hi.concat (by rw [hp]; rfl) (hshown hp rfl) .relax ?_ (fun _ => rfl)
    simp [log, note, enter, conclude]
  | leaveDrain hp =>
    refine hi.concat (by rw [hp]; rfl) (hshown hp rfl) .drop ?_ (by rintro ⟨⟩)
    simp [log, note]
  | leaveRun hp =>
    refine hi.concat (by rw [hp]; rfl) (hshown hp rfl) .retire ?_ (by rintro ⟨⟩)
    simp [log, note]
  | heed | abandon | close =>
    exact hi.congr (by simp [log, note, enter]) (by rintro ⟨⟩) (by rintro ⟨⟩)
  | @report b run elapsed hp =>
    refine hi.congr ?_ (fun _ => by rw [hp]; rfl) (fun _ => rfl)
    unfold verdict
    split <;> simp [log, note]
  | start hp | count hp | drain hp | discard hp | launch hp | breakDown hp | retire hp =>
    refine hi.congr ?_ (fun _ => by rw [hp]; rfl) (fun _ => rfl)
    simp [log, note, call, conclude]
  | _ => exact hi.congr (by simp [note]) id (fun _ => rfl)

/-- What is published is what the log says. -/
def Shown (c : Flow) : Prop := c.published = c.journal.shown

theorem Shown.congr (hi : c.Shown) {f : Fact} (hf : ∀ s, f.shows s = s)
    (hj : c'.journal = c.journal ++ [f]) (hpublished : c'.published = c.published) :
    c'.Shown := by
  unfold Shown at hi ⊢
  rw [hj, History.shown_concat, hf, hpublished, hi]

theorem Shown.keep (hi : c.Shown) (hj : c'.journal = c.journal)
    (hpublished : c'.published = c.published) : c'.Shown := by
  unfold Shown at hi ⊢
  rw [hj, hpublished, hi]

theorem shown_of_concat {h : History} {f : Fact} (hj : c.journal = h ++ [f])
    (hf : ∀ s, f.shows s = c.published) : c.Shown := by
  unfold Shown
  rw [hj, History.shown_concat, hf]

theorem shows_verdict (b : Batch) (ending : Ending) (elapsed : Nat) (span : Option Span)
    (s : DispatchState) : Fact.shows s (.logged ⟨verdict b ending elapsed, span⟩) = s := by
  unfold verdict
  split <;> rfl

theorem Step.shown (h : Step script c c') (hi : c.Shown) : c'.Shown := by
  have htwice {f g : Fact} (hf : ∀ s, f.shows s = s) (hg : ∀ s, g.shows s = s) :
      c.published = History.shown (c.journal ++ [f] ++ [g]) := by
    rw [History.shown_concat, hg, History.shown_concat, hf]
    exact hi
  cases h with
  | enlist | withdraw | release | draw | cancel | proceed => exact hi.keep rfl rfl
  | remark hf => exact hi.congr hf.silent.2.2 rfl rfl
  | report => exact hi.congr (shows_verdict _ _ _ _) rfl rfl
  | discard | launch | retire => exact htwice (fun _ => rfl) (fun _ => rfl)
  | receive | engage | close => exact shown_of_concat rfl (fun _ => rfl)
  | relax => exact shown_of_concat rfl (fun _ => rfl)
  | _ => exact hi.congr (fun _ => rfl) rfl rfl

/-- Who leaves the loop in the middle does so because of a cancellation. -/
structure Cut (c : Flow) : Prop where
  phase_cut : c.phase.isCut = true → c.isCancelled = true
  logged : ∀ before, (before, DispatchState.stopped) ∈ c.journal.transitions →
    c.isCancelled = true

theorem Cut.congr (hi : c.Cut) (ht : c'.journal.transitions = c.journal.transitions)
    (hp : c'.phase.isCut = true → c.phase.isCut = true)
    (hc : c.isCancelled = true → c'.isCancelled = true) : c'.Cut := by
  refine ⟨fun hcut => hc (hi.phase_cut (hp hcut)), fun before hmem => hc ?_⟩
  rw [ht] at hmem
  exact hi.logged before hmem

theorem Cut.concat {before after : DispatchState} (hi : c.Cut)
    (hc : c'.isCancelled = c.isCancelled)
    (ht : c'.journal.transitions = c.journal.transitions ++ [(before, after)])
    (hp : c'.phase.isCut = false) (hcut : after = .stopped → c.isCancelled = true) : c'.Cut := by
  constructor
  · intro hphase
    rw [hp] at hphase
    contradiction
  · intro first hmem
    rw [ht, List.mem_append, List.mem_singleton] at hmem
    rw [hc]
    rcases hmem with hold | hnew
    · exact hi.logged first hold
    · exact hcut (Prod.mk.inj hnew).2.symm

theorem Step.cut (h : Step script c c') (hi : c.Cut) : c'.Cut := by
  cases h with
  | remark hf =>
    exact hi.congr (History.gather_concat_of_eq_none _ hf.silent.1) id id
  | cancel => exact ⟨fun _ => rfl, fun _ _ => rfl⟩
  | receive | engage => exact hi.concat rfl (History.gather_append _ _ _) rfl (by rintro ⟨⟩)
  | @relax b ending elapsed hp hc =>
    have ht : (((c.conclude ending.isSuccess elapsed).enter .listening .idle).log
        (.transition .executing .idle) (some b.span)).journal.transitions =
          c.journal.transitions ++ [(.executing, .idle)] := by
      simp [log, note, enter, conclude]
    exact hi.concat rfl ht rfl (by rintro ⟨⟩)
  | leaveDrain hp | leaveRun hp =>
    refine hi.concat rfl (History.gather_append _ _ _) rfl (fun _ => hi.phase_cut ?_)
    rw [hp]
    rfl
  | discard hp hleft hc =>
    exact ⟨fun _ => hc, fun _ _ => hc⟩
  | retire hp hc =>
    exact ⟨fun _ => hc, fun _ _ => hc⟩
  | @report b run elapsed hp =>
    refine hi.congr ?_ (by rintro ⟨⟩) id
    unfold verdict
    split <;> simp [log, note]
  | start | heed | abandon | count | drain | launch | breakDown | close =>
    exact hi.congr (by simp [log, note, call, enter]) (by rintro ⟨⟩) id
  | _ => exact hi.congr (by simp [note]) id id

/-- That it has stopped is the last thing the dispatcher says, and it says so at the end only. -/
def Taciturn (c : Flow) : Prop :=
  ∃ before, c.journal.spoken = before ++ c.phase.lastWords ∧ .stopped ∉ before

theorem Taciturn.congr (hi : c.Taciturn) (hj : c'.journal.spoken = c.journal.spoken)
    (hp : c'.phase.lastWords = c.phase.lastWords) : c'.Taciturn := by
  obtain ⟨before, hspoken, hnot⟩ := hi
  exact ⟨before, by rw [hj, hp, hspoken], hnot⟩

theorem Taciturn.speak (hi : c.Taciturn) {facts : History}
    (hj : c'.journal = c.journal ++ facts) (hnot : .stopped ∉ facts.spoken)
    (hp : c.phase ≠ .stopped) (hp' : c'.phase ≠ .stopped) : c'.Taciturn := by
  obtain ⟨before, hspoken, hbefore⟩ := hi
  rw [Phase.lastWords_eq_nil hp, List.append_nil] at hspoken
  have hmore : History.spoken (c.journal ++ facts) = c.journal.spoken ++ facts.spoken :=
    History.gather_append _ _ _
  refine ⟨before ++ facts.spoken, ?_, ?_⟩
  · rw [hj, hmore, hspoken, Phase.lastWords_eq_nil hp', List.append_nil]
  · rw [List.mem_append]
    exact not_or.mpr ⟨hbefore, hnot⟩

theorem spoken_verdict (b : Batch) (ending : Ending) (elapsed : Nat) (span : Option Span) :
    .stopped ∉ History.spoken [.logged ⟨verdict b ending elapsed, span⟩] := by
  unfold verdict
  split <;> simp [Event.isAside]

theorem Step.taciturn (h : Step script c c') (hi : c.Taciturn) : c'.Taciturn := by
  cases h with
  | remark hf => exact hi.congr (History.gather_concat_of_eq_none _ hf.silent.2.1) rfl
  | start hp | heed hp | abandon hp | receive hp | count hp | drain hp | engage hp
  | breakDown hp | leaveDrain hp | leaveRun hp =>
    exact hi.speak rfl (by simp [Event.isAside]) (by simp [hp]) (by rintro ⟨⟩)
  | discard hp | launch hp | relax hp | retire hp =>
    exact hi.speak (List.append_assoc _ _ _) (by simp [Event.isAside]) (by simp [hp]) (by rintro ⟨⟩)
  | report hp => exact hi.speak rfl (spoken_verdict _ _ _ _) (by simp [hp]) (by rintro ⟨⟩)
  | close hp =>
    obtain ⟨before, hspoken, hnot⟩ := hi
    rw [hp, Phase.lastWords_eq_nil (p := .closing) (by rintro ⟨⟩), List.append_nil] at hspoken
    refine ⟨before, ?_, hnot⟩
    rw [← hspoken]
    exact History.gather_append _ _ _
  | _ => exact hi.congr (by simp [note]) rfl

/-- The flow has come to its end, and this is all the dispatcher ever said. -/
structure Quiet (spoken : List Event) (c : Flow) : Prop where
  phase_eq : c.phase = .stopped
  spoken_eq : c.journal.spoken = spoken

theorem Step.quiet {spoken : List Event} (h : Step script c c') (hi : c.Quiet spoken) :
    c'.Quiet spoken := by
  obtain ⟨hphase, hspoken⟩ := hi
  cases h with
  | remark hf =>
    exact ⟨hphase, (History.gather_concat_of_eq_none _ hf.silent.2.1).trans hspoken⟩
  -- the dispatcher has nothing left to do
  | start hp | heed hp | abandon hp | receive hp | count hp | drain hp | discard hp | engage hp
  | launch hp | breakDown hp | report hp | relax hp | retire hp | leaveDrain hp | leaveRun hp
  | close hp =>
    rw [hphase] at hp
    contradiction
  | _ => exact ⟨hphase, by simpa [note] using hspoken⟩

theorem Reachable.traced (h : Reachable script c) : c.Traced :=
  h.keeps (fun _ => ⟨.idle, .nil, fun _ => rfl⟩) fun ha hs hi => hs.traced ha.posture hi

theorem Reachable.shown (h : Reachable script c) : c.Shown :=
  h.keeps (fun _ => rfl) fun _ hs hi => hs.shown hi

theorem Reachable.cut (h : Reachable script c) : c.Cut :=
  h.keeps (fun _ => ⟨nofun, nofun⟩) fun _ hs hi => hs.cut hi

theorem Reachable.taciturn (h : Reachable script c) : c.Taciturn :=
  h.keeps (fun _ => ⟨[], rfl, List.not_mem_nil⟩) fun _ hs hi => hs.taciturn hi

end Flow

namespace Queue

variable {script : WorkScript} {q : Queue}

/-- The log tells what the dispatcher publishes. -/
structure Narrates (script : WorkScript) (q : Queue) : Prop where
  /-- The transitions form one path. As long as the dispatcher is in its loop, it leads to what is
  published. -/
  path : ∃ s, DispatchState.Path .idle q.flow.journal.transitions s ∧
    (q.phase.hasLeft = false → s = q.published)
  published_eq : q.published = q.flow.journal.shown
  /-- A transition to the last state is logged by a queue that was cancelled. -/
  isCancelled_of_stopped : ∀ before,
    (before, DispatchState.stopped) ∈ q.flow.journal.transitions → q.isCancelled = true
  /-- Before the end nothing is said about it. -/
  going : q.published ≠ .stopped → .stopped ∉ q.flow.journal.spoken
  /-- The end is the last thing the dispatcher says. -/
  last_words : q.published = .stopped →
    ∃ before, q.flow.journal.spoken = before ++ [.stopped] ∧ .stopped ∉ before
  /-- The end is final. -/
  final : q.published = .stopped → ∀ q', Later script q q' →
    q'.published = .stopped ∧ q'.flow.journal.spoken = q.flow.journal.spoken
  isClosed_of_stopped : q.published = .stopped → q.mailbox.isClosed = true
  /-- The dispatcher stops because it was told to or because nobody is left. -/
  reason : q.published = .stopped → q.isCancelled = true ∨ q.hasHandle = false
  /-- Whoever still holds a queue that has stopped can see that. -/
  isStopped_of_stopped : q.published = .stopped → q.isStopped = true ∧
    (q.hasHandle = true → q.observe.isStopped = some true)

theorem narrates (h : Reachable script q) : q.Narrates script := by
  have hphase : q.published = .stopped ↔ q.phase = .stopped := h.flow.announced
  have hspoken : ∃ before, q.flow.journal.spoken = before ++ q.phase.lastWords ∧
      .stopped ∉ before := h.flow.taciturn
  have hclosed (hs : q.published = .stopped) : q.mailbox.isClosed = true := by
    rw [h.parts.isClosed_eq, hphase.mp hs]
    rfl
  have hstopped (hs : q.published = .stopped) : q.isStopped = true := by
    rw [isStopped, hclosed hs, Bool.or_true]
  constructor
  · exact h.flow.traced
  · exact h.flow.shown
  · exact h.flow.cut.logged
  · intro hs hmem
    obtain ⟨before, heq, hnot⟩ := hspoken
    have hwords : q.phase.lastWords = [] := Phase.lastWords_eq_nil fun hp => hs (hphase.mpr hp)
    rw [heq, hwords, List.append_nil] at hmem
    exact hnot hmem
  · intro hs
    obtain ⟨before, heq, hnot⟩ := hspoken
    rw [hphase.mp hs] at heq
    exact ⟨before, heq, hnot⟩
  · intro hs q' hl
    have hquiet : q'.flow.Quiet q.flow.journal.spoken :=
      (hl.course h).keeps Flow.Step.quiet ⟨hphase.mp hs, rfl⟩
    exact ⟨(h.later hl).flow.announced.mpr hquiet.phase_eq, hquiet.spoken_eq⟩
  · exact hclosed
  · intro hs
    by_cases hc : q.isCancelled = true
    · exact .inl hc
    · right
      have hexit : q.phase.isExit = true := by
        rw [hphase.mp hs]
        rfl
      exact (h.parts.deserted hexit (Bool.eq_false_iff.mpr hc)).hasHandle_eq
  · intro hs
    refine ⟨hstopped hs, fun hheld => ?_⟩
    rw [observe, if_pos hheld, hstopped hs]

/-- A queue that was cancelled during its drain leaves from there. -/
theorem narrates_forestalled : Reachable patient forestalled ∧
    forestalled.flow.journal.transitions = [(.idle, .draining), (.draining, .stopped)] ∧
    forestalled.published = .stopped ∧ forestalled.Narrates patient :=
  ⟨reachable_forestalled, by decide, by decide, narrates reachable_forestalled⟩

end Queue
end CoalescingQueue
