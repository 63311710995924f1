import CoalescingQueue.Proofs.Tracks

/-!
# How the dispatcher parts

The dispatcher leaves its loop when the queue was cancelled or when nobody can offer anything any
more, and in the second case there is nothing left in the mailbox either. Whoever still waits is
told at the end. The statements say what holds on the way out and after it; that the way out is
ever taken is not said here.
-/
namespace CoalescingQueue
namespace Queue

variable {script : WorkScript} {terms : Terms} {q q' : Queue}

/-- Nobody is left who offers a request, and none is left over. -/
structure IsDeserted (q : Queue) : Prop where
  hasHandle_eq : q.hasHandle = false
  waiting_eq : q.mailbox.waiting = []
  buffer_eq : q.mailbox.buffer = []
  isOffering_eq : q.isOffering = false

theorem IsDeserted.congr (h : q.IsDeserted) (hhandles : q'.handles = q.handles)
    (hmailbox : q'.mailbox = q.mailbox) (he : q'.errand = q.errand) : q'.IsDeserted := by
  obtain ⟨hhandle, hwaiting, hbuffer, hoffering⟩ := h
  refine ⟨?_, ?_, ?_, ?_⟩
  · rwa [hasHandle, hhandles]
  · rwa [hmailbox]
  · rwa [hmailbox]
  · rwa [isOffering, he]

/-- While somebody holds a queue or offers it a request, it is not deserted. -/
theorem IsDeserted.absurd (h : q.IsDeserted) (hheld : q.hasHandle = true ∨ q.isOffering = true) :
    False := by
  rcases hheld with hhandle | hoffering
  · exact Bool.false_ne_true (h.hasHandle_eq.symm.trans hhandle)
  · exact Bool.false_ne_true (h.isOffering_eq.symm.trans hoffering)

structure Parts (q : Queue) : Prop where
  isClosed_eq : q.mailbox.isClosed = q.phase.isOver
  /-- Only shutdown calls wait for the end, and only until it comes. -/
  awaited : q.closers ≠ [] → q.isCancelled = true ∧ q.phase.isOver = false
  deserted : q.phase.isExit = true → q.isCancelled = false → q.IsDeserted
  /-- As long as the dispatcher goes round, a call that waits for room gets it. -/
  replied : ∀ ticket reply time, Fact.ended ticket reply time ∈ q.flow.journal →
    reply = .accepted ∨ q.isCancelled = true ∨ q.phase.isDead = true

theorem Parts.congr (h : q.Parts) (hclosed : q'.mailbox.isClosed = q.mailbox.isClosed)
    (hphase : q'.phase = q.phase) (hclosers : q'.closers = q.closers)
    (hc : q'.isCancelled = q.isCancelled) (hdeserted : q.IsDeserted → q'.IsDeserted)
    (hjournal : q'.flow.journal = q.flow.journal) : q'.Parts := by
  obtain ⟨hposture, hawaited, hleft, hreplied⟩ := h
  constructor
  · rw [hclosed, hphase]
    exact hposture
  · rw [hclosers, hc, hphase]
    exact hawaited
  · rw [hphase, hc]
    exact fun hexit hgoing => hdeserted (hleft hexit hgoing)
  · rw [hjournal, hc, hphase]
    exact hreplied

theorem Parts.note (h : q.Parts) {f : Fact}
    (hf : ∀ ticket reply time, f = .ended ticket reply time →
      reply = .accepted ∨ q.isCancelled = true ∨ q.phase.isDead = true) : (q.note f).Parts := by
  refine ⟨h.isClosed_eq, h.awaited, fun hexit hc => ?_, fun ticket reply time hmem => ?_⟩
  · exact (h.deserted hexit hc).congr rfl rfl rfl
  · have hjournal : (q.note f).flow.journal = q.flow.journal ++ [f] := q.note_journal f
    rw [hjournal, List.mem_append, List.mem_singleton] at hmem
    rcases hmem with hold | heq
    · exact h.replied ticket reply time hold
    · exact hf ticket reply time heq.symm

/-- Who stands in line makes no difference. -/
theorem Parts.line (h : q.Parts) (line : List Party) : { q with line }.Parts :=
  h.congr rfl rfl rfl rfl (·.congr rfl rfl rfl) rfl

/-- A call that waits keeps the dispatcher from leaving. -/
theorem Parts.leave (h : q.Parts) {w : Waiter} (hw : w ∈ q.mailbox.waiting) :
    (q.leave w).Parts := by
  obtain ⟨more, heq⟩ := q.leave_more w
  refine h.congr (q.leave_isClosed w) (by rw [heq]) (by rw [heq]) (by rw [heq]) (fun hd => ?_)
    (by rw [heq]; rfl)
  rw [hd.waiting_eq] at hw
  exact absurd hw List.not_mem_nil

theorem Parts.replied_of_going (h : q.Parts) (hgoing : q.phase.isOver = false) {ticket : Nat}
    {reply : Reply} {time : Nat} (hmem : Fact.ended ticket reply time ∈ q.flow.journal) :
    reply = .accepted ∨ q.isCancelled = true := by
  rcases h.replied ticket reply time hmem with hok | hc | hdead
  · exact .inl hok
  · exact .inr hc
  · rw [Phase.isOver_of_isDead hdead] at hgoing
    contradiction

/-- A queue that is closed was cancelled, deserted or broken. -/
theorem Parts.refused (h : q.Parts) {w : Waiter} (hw : w ∈ q.mailbox.waiting)
    (hrefused : q.isCancelled = true ∨ q.mailbox.isClosed = true) :
    q.isCancelled = true ∨ q.phase.isDead = true := by
  rcases hrefused with hc | hclosed
  · exact .inl hc
  · rw [h.isClosed_eq] at hclosed
    cases hp : q.phase with
    | dead b => exact .inr rfl
    | stopped =>
      left
      by_contra hc
      have hd := h.deserted (congrArg Phase.isExit hp) (Bool.eq_false_iff.mpr hc)
      rw [hd.waiting_eq] at hw
      exact List.not_mem_nil hw
    | _ =>
      rw [hp] at hclosed
      contradiction

/-- At the end nobody waits for it any more. -/
theorem Parts.releaseClosers (hclosed : q.mailbox.isClosed = q.phase.isOver)
    (hawaited : q.closers ≠ [] → q.isCancelled = true)
    (hdeserted : q.phase.isExit = true → q.isCancelled = false → q.IsDeserted)
    (hreplied : ∀ ticket reply time, Fact.ended ticket reply time ∈ q.flow.journal →
      reply = .accepted ∨ q.isCancelled = true ∨ q.phase.isDead = true) : q.releaseClosers.Parts := by
  rw [releaseClosers_eq]
  refine ⟨hclosed, fun hne => absurd rfl hne, fun hexit hc => ?_, ?_⟩
  · exact (hdeserted hexit hc).congr rfl rfl rfl
  · intro ticket reply time hmem
    have hjournal : Fact.ended ticket reply time ∈ q.flow.journal ∨
        Fact.ended ticket reply time ∈
          q.closers.map fun ticket => Fact.ended ticket .done q.now := by
      simpa [Queue.flow] using hmem
    rcases hjournal with hold | hnew
    · exact hreplied ticket reply time hold
    · obtain ⟨closer, hcloser, -⟩ := List.mem_map.mp hnew
      exact .inr (.inl (hawaited (List.ne_nil_of_mem hcloser)))

theorem isOffering_of_isAnnounced {errand : Option Errand}
    (hnew : ∀ e, errand = some e → e.isAnnounced = false) :
    { q with errand }.isOffering = false := by
  cases errand with
  | none => rfl
  | some e => exact hnew e rfl

theorem hasHandle_set (handles : List Bool) (handle : Nat) (h : handles.any id = false) :
    (handles.set handle false).any id = false := by
  rw [List.any_eq_false] at h ⊢
  intro held hmem
  rcases List.mem_or_eq_of_mem_set hmem with hold | rfl
  · exact h held hold
  · exact Bool.false_ne_true

theorem Shift.parts (h : Shift terms q q') (hi : q.Parts) : q'.Parts := by
  have hgoing (hturn : q.phase.isOver = false) : q.mailbox.isClosed = false :=
    hi.isClosed_eq.trans hturn
  cases h with
  | record | call | rest | tick =>
    exact hi.congr rfl rfl rfl rfl (·.congr rfl rfl rfl) rfl
  | remark hf =>
    refine hi.note fun ticket reply time heq => ?_
    rw [heq] at hf
    contradiction
  | wake =>
    obtain ⟨more, heq⟩ := q.enqueue_more .run
    rw [heq]
    exact hi.line _
  | @put r mailbox hheld hopen hput =>
    obtain ⟨more, heq⟩ := wakeDispatcher_more ({ q with mailbox }.note (.admitted r))
    obtain rfl := Mailbox.eq_of_put? hput
    have hput : Parts { q with mailbox := { q.mailbox.append r with free := q.mailbox.free - 1 } } :=
      hi.congr rfl rfl rfl rfl (fun hd => (hd.absurd hheld).elim) rfl
    rw [heq]
    exact (hput.note (f := .admitted r) nofun).line _
  | @enlist w hheld =>
    obtain ⟨more, heq⟩ := q.lineUp_more w
    rw [heq]
    exact hi.congr rfl rfl rfl rfl (fun hd => (hd.absurd hheld).elim) rfl
  | @join w hopen hw hslot =>
    obtain ⟨more, heq⟩ := q.enter_more w
    have hdismissed :
        Parts { q with mailbox := (q.mailbox.dismiss w.ticket).append w.request } := by
      refine hi.congr rfl rfl rfl rfl (fun hd => ?_) rfl
      rw [hd.waiting_eq] at hw
      exact absurd hw List.not_mem_nil
    have hentered : (q.enter w).Parts := by
      rw [heq]
      exact (hdismissed.note (f := .admitted w.request) nofun).line _
    refine hentered.note fun ticket reply time hended => ?_
    obtain ⟨-, rfl, -⟩ := Fact.ended.inj hended
    exact .inl rfl
  | @withdraw w hw hrefused =>
    refine (hi.leave hw).note fun ticket reply time hended => .inr ?_
    obtain ⟨more, heq⟩ := q.leave_more w
    rw [heq]
    exact hi.refused hw hrefused
  | forsake hlossy hw => exact (hi.leave hw).note nofun
  | cancel =>
    obtain ⟨more, heq⟩ := wakeAll_more { q with isCancelled := true }
    rw [heq]
    exact ⟨hi.isClosed_eq, fun hne => ⟨rfl, (hi.awaited hne).2⟩, nofun, fun _ _ _ _ =>
      .inr (.inl rfl)⟩
  | await hc hover =>
    refine ⟨hi.isClosed_eq, fun _ => ⟨hc, hover⟩, fun hexit hnot => ?_, hi.replied⟩
    exact absurd (hnot.symm.trans hc) Bool.false_ne_true
  | permit n =>
    obtain ⟨more, heq⟩ := q.releasePermits_more n
    rw [heq]
    exact hi.congr rfl rfl rfl rfl (·.congr rfl rfl rfl) rfl
  | clone hheld => exact hi.congr rfl rfl rfl rfl (fun hd => (hd.absurd (.inl hheld)).elim) rfl
  | drop handle =>
    obtain ⟨more, heq⟩ := q.drop_more handle
    rw [heq]
    exact hi.congr rfl rfl rfl rfl
      (fun hd => ⟨hasHandle_set q.handles handle hd.1, hd.2, hd.3, hd.4⟩) rfl
  | @prepare errand hidle hnew =>
    have hquiet := isOffering_of_isAnnounced (q := q) fun e he => (hnew e he).1
    exact hi.congr rfl rfl rfl rfl (fun hd => ⟨hd.1, hd.2, hd.3, hquiet⟩) rfl
  | announce he htodo hheld =>
    exact hi.congr rfl rfl rfl rfl (fun hd => (hd.absurd (.inl hheld)).elim) rfl
  | @offered e todo replies =>
    obtain ⟨more, heq⟩ := wakeIfAbandoned_more
      { q with errand := some { e with todo, isAnnounced := false, replies } }
    rw [heq]
    exact hi.congr rfl rfl rfl rfl (fun hd => ⟨hd.1, hd.2, hd.3, rfl⟩) rfl
  | proceed => exact hi.congr rfl rfl rfl rfl (·.congr rfl rfl rfl) rfl
  | @finish run =>
    obtain ⟨more, heq⟩ := (q.setStage run .ended).enqueue_more .dispatcher
    rw [heq]
    exact hi.congr rfl rfl rfl rfl (·.congr rfl rfl rfl) rfl
  | @go phase run hturn hover hnext hrun hexit =>
    refine ⟨(hgoing hover).trans hnext.symm, fun hne => ⟨(hi.awaited hne).1, hnext⟩,
      fun hleaving hc => ?_, fun ticket reply time hmem => ?_⟩
    · rcases hexit hleaving with hbefore | hcancelled
      · exact (hi.deserted hbefore hc).congr rfl rfl rfl
      · exact absurd (hc.symm.trans hcancelled) Bool.false_ne_true
    · exact (hi.replied_of_going hover hmem).imp_right .inl
  | desert hturn hover habandoned hbuffer =>
    refine ⟨hgoing hover, fun hne => ⟨(hi.awaited hne).1, rfl⟩, fun _ _ => ?_,
      fun ticket reply time hmem => ?_⟩
    · simp only [isAbandoned, Bool.and_eq_true, Bool.not_eq_true', List.isEmpty_iff] at habandoned
      obtain ⟨⟨⟨hhandle, hwaiting⟩, -⟩, hoffering⟩ := habandoned
      exact ⟨hhandle, hwaiting, hbuffer, hoffering⟩
    · exact (hi.replied_of_going hover hmem).imp_right .inl
  | @take r mailbox phase hturn hover hnext hexit htake =>
    obtain ⟨more, heq⟩ := releaseSlot_more { q with mailbox }
    have hopen : mailbox.isClosed = false := by
      have hbefore := hgoing hover
      rwa [Mailbox.eq_of_take? htake] at hbefore
    rw [heq]
    refine ⟨?_, fun hne => ⟨(hi.awaited hne).1, hnext⟩, fun hleaving => ?_,
      fun ticket reply time hmem => ?_⟩
    · exact (Mailbox.release_isClosed _).trans (hopen.trans hnext.symm)
    · exact absurd (hexit.symm.trans hleaving) Bool.false_ne_true
    · exact (hi.replied_of_going hover hmem).imp_right .inl
  | @launch b run hturn hover =>
    obtain ⟨more, heq⟩ := enqueue_more { q with phase := .awaiting b, run := some run } .run
    rw [heq]
    exact ⟨hgoing hover, fun hne => ⟨(hi.awaited hne).1, rfl⟩, nofun, fun ticket reply time hmem =>
      (hi.replied_of_going hover hmem).imp_right .inl⟩
  | @breakDown b hturn hover =>
    obtain ⟨more, heq⟩ := closeMailbox_more { q with phase := .dead b }
    have hclosed : (closeMailbox { q with phase := .dead b }).releaseClosers.Parts := by
      rw [heq]
      exact Parts.releaseClosers rfl (fun hne => (hi.awaited hne).1) nofun
        fun ticket reply time hmem => (hi.replied_of_going hover hmem).imp_right .inl
    exact hclosed.congr rfl rfl rfl rfl (·.congr rfl rfl rfl) rfl
  | close hturn hp =>
    obtain ⟨more, heq⟩ := q.closeMailbox_more
    have hover : q.phase.isOver = false := congrArg Phase.isOver hp
    rw [heq]
    refine Parts.releaseClosers rfl (fun hne => (hi.awaited hne).1) (fun _ hc => ?_)
      fun ticket reply time hmem => (hi.replied_of_going hover hmem).imp_right .inl
    obtain ⟨hhandle, hwaiting, hbuffer, hoffering⟩ :=
      hi.deserted (congrArg Phase.isExit hp) hc
    exact ⟨hhandle, hwaiting, hbuffer, hoffering⟩

theorem parts_of_open? {config : QueueConfig} {hooks : List Hook} (h : open? config hooks = some q) :
    q.Parts := by
  unfold open? at h
  split at h
  · obtain rfl := Option.some.inj h
    exact ⟨rfl, fun hne => absurd rfl hne, nofun, nofun⟩
  · contradiction

theorem Reachable.parts (h : Reachable script q) : q.Parts :=
  h.keeps parts_of_open? fun _ hs hi => hs.parts hi

end Queue
end CoalescingQueue
