import CoalescingQueue.Proofs.Tracks

/-!
# No wake-up is lost

Whoever has something to do has the turn or stands in line for it, at every moment: the
dispatcher with a request to take or an end to see, the run that may go on, the producer that was
given a slot or is refused. It is one statement about all parties. Each shift is looked at twice:
nobody falls out of line who is wanted, and nobody comes to be wanted without being put in line.
When a party that is in line gets its turn is not said here.
-/
namespace CoalescingQueue.Queue

variable {script : WorkScript} {terms : Terms} {q q' : Queue} {p : Party}

/-- Everybody who is wanted is awake. -/
def Alert (q : Queue) : Prop := ∀ p, q.Wanted p → q.Awake p

/-! ## Nobody falls out of line -/

theorem Awake.mono (h : q.Awake p) (hturn : q'.turn = q.turn) (hline : q.line ⊆ q'.line) :
    q'.Awake p :=
  h.imp hturn.trans fun hmem => hline hmem

theorem Awake.more (h : q.Awake p) {more : List Party} (hturn : q'.turn = q.turn)
    (hline : q'.line = q.line ++ more) : q'.Awake p := by
  refine h.mono hturn ?_
  rw [hline]
  exact List.subset_append_left _ _

/-- After the dispatcher has had its turn, all others are where they were. -/
theorem Awake.mem_line (h : q.Awake p) (hturn : q.turn = some .dispatcher) (hp : p ≠ .dispatcher) :
    p ∈ q.line := by
  rcases h with hhas | hmem
  · exact absurd (Option.some.inj (hhas.symm.trans hturn)) hp
  · exact hmem

theorem Shift.awake (h : Shift terms q q') (hp : q.Awake p) (hw : q'.Wanted p) : q'.Awake p := by
  cases h with
  | record | remark | tick | await | clone | prepare | announce | proceed | go | desert =>
    exact hp.mono rfl (List.Subset.refl _)
  | @enlist w =>
    obtain ⟨more, heq⟩ := q.lineUp_more w
    rw [heq]
    exact hp.more rfl rfl
  | wake =>
    obtain ⟨more, heq⟩ := q.enqueue_more .run
    rw [heq]
    exact hp.more rfl rfl
  | @call p' line hturning hturn hline =>
    rcases hp with hhas | hmem
    · rw [hturn] at hhas
      contradiction
    · rw [hline] at hmem
      rcases List.mem_cons.mp hmem with rfl | hrest
      · exact .inl rfl
      · exact .inr hrest
  | @rest p' hturn hidle =>
    rcases hp with hhas | hmem
    · -- whoever gives its turn back has nothing to do
      obtain rfl := Option.some.inj (hhas.symm.trans hturn)
      exact absurd hw hidle
    · exact .inr hmem
  | @put r mailbox =>
    obtain ⟨more, heq⟩ := wakeDispatcher_more ({ q with mailbox }.note (.admitted r))
    rw [heq]
    exact hp.more rfl rfl
  | @join w =>
    obtain ⟨more, heq⟩ := q.enter_more w
    rw [heq]
    exact hp.more rfl rfl
  | @withdraw w | @forsake w hlossy =>
    obtain ⟨more, heq⟩ := q.leave_more w
    rw [heq]
    exact hp.more rfl rfl
  | cancel =>
    obtain ⟨more, heq⟩ := wakeAll_more { q with isCancelled := true }
    rw [heq]
    exact hp.more rfl rfl
  | permit n =>
    obtain ⟨more, heq⟩ := q.releasePermits_more n
    rw [heq]
    exact hp.more rfl rfl
  | drop handle =>
    obtain ⟨more, heq⟩ := q.drop_more handle
    rw [heq]
    exact hp.more rfl rfl
  | @offered e todo replies =>
    obtain ⟨more, heq⟩ := wakeIfAbandoned_more
      { q with errand := some { e with todo, isAnnounced := false, replies } }
    rw [heq]
    exact hp.more rfl rfl
  | @finish run =>
    obtain ⟨more, heq⟩ := (q.setStage run .ended).enqueue_more .dispatcher
    rw [heq]
    exact hp.more rfl rfl
  | @take r mailbox =>
    obtain ⟨more, heq⟩ := releaseSlot_more { q with mailbox }
    rw [heq]
    exact hp.more rfl rfl
  | @launch b run hturn hgoing hstage =>
    -- the dispatcher gives its turn back, and the run it waits for has only begun
    have hne : p ≠ .dispatcher := by
      rintro rfl
      obtain ⟨more, heq⟩ := enqueue_more { q with phase := .awaiting b, run := some run } .run
      rw [heq] at hw
      obtain ⟨run', hrun, hended⟩ := hw
      obtain rfl := Option.some.inj hrun
      rw [hstage] at hended
      contradiction
    obtain ⟨more, heq⟩ := enqueue_more { q with phase := .awaiting b, run := some run } .run
    rw [heq]
    exact .inr (List.mem_append_left _ (hp.mem_line hturn hne))
  | @breakDown b hturn =>
    obtain ⟨more, heq⟩ := closeMailbox_more { q with phase := .dead b }
    have hne : p ≠ .dispatcher := by
      rintro rfl
      rw [releaseClosers_eq, heq] at hw
      exact hw
    rw [releaseClosers_eq, heq]
    exact .inr (List.mem_append_left _ (hp.mem_line hturn hne))
  | close =>
    obtain ⟨more, heq⟩ := q.closeMailbox_more
    rw [releaseClosers_eq, heq]
    exact hp.more rfl rfl

/-! ## Nobody comes to be wanted unnoticed -/

/-- A dispatcher that rests is looked after by whoever changes what it rests for. -/
theorem wanted_dispatcher_of_woken (hphase : q'.phase = q.phase) (hrun : q'.run = q.run)
    (hwoken : q.phase = .listening → q'.Awake .dispatcher) (hw : q'.Wanted .dispatcher) :
    q.Wanted .dispatcher ∨ q'.Awake .dispatcher := by
  unfold Wanted at hw ⊢
  rw [hphase, hrun] at hw
  cases hp : q.phase with
  | listening => exact .inr (hwoken hp)
  | _ =>
    rw [hp] at hw
    exact .inl hw

theorem wanted_dispatcher_of (hphase : q'.phase = q.phase) (hrun : q'.run = q.run)
    (hc : q'.isCancelled = q.isCancelled) (hbuffer : q'.mailbox.buffer = q.mailbox.buffer)
    (ha : q.phase = .listening → q'.isAbandoned = true →
      q.isAbandoned = true ∨ q'.Awake .dispatcher)
    (hw : q'.Wanted .dispatcher) : q.Wanted .dispatcher ∨ q'.Awake .dispatcher := by
  unfold Wanted at hw ⊢
  rw [hphase, hrun, hc, hbuffer] at hw
  cases hp : q.phase with
  | listening =>
    rw [hp] at hw
    rcases hw with hcancelled | hne | habandoned
    · exact .inl (.inl hcancelled)
    · exact .inl (.inr (.inl hne))
    · exact (ha hp habandoned).imp_left fun hbefore => .inr (.inr hbefore)
  | _ =>
    rw [hp] at hw
    exact .inl hw

theorem mem_enqueue (q : Queue) (p : Party) : p ∈ (q.enqueue p).line := by
  unfold enqueue
  split
  · assumption
  · exact List.mem_append_right _ (List.mem_singleton_self p)

/-- A dispatcher that rests is awake once it was woken. -/
theorem awake_wakeDispatcher (hp : q.phase = .listening) : q.wakeDispatcher.Awake .dispatcher := by
  unfold wakeDispatcher
  rw [hp]
  dsimp only
  split
  · next hturn => exact .inl hturn
  · exact .inr (q.mem_enqueue .dispatcher)

/-- A dispatcher that rests is told when nobody is left. -/
theorem awake_wakeIfAbandoned (hp : q.phase = .listening)
    (ha : q.wakeIfAbandoned.isAbandoned = true) : q.wakeIfAbandoned.Awake .dispatcher := by
  obtain ⟨more, heq⟩ := q.wakeIfAbandoned_more
  have hbefore : q.isAbandoned = true := by
    rw [heq] at ha
    exact ha
  unfold wakeIfAbandoned
  rw [if_pos hbefore]
  exact awake_wakeDispatcher hp

theorem awake_leave {w : Waiter} (hp : q.phase = .listening)
    (ha : (q.leave w).isAbandoned = true) : (q.leave w).Awake .dispatcher := by
  unfold leave at ha ⊢
  refine awake_wakeIfAbandoned ?_ ha
  split
  · exact (congrArg Scene.phase (scene_releaseSlot _)).trans hp
  · exact hp

theorem mem_wakeProducers {w : Waiter} (hw : w ∈ q.mailbox.waiting) (htask : w.caller = .task) :
    .producer w.ticket ∈ q.wakeProducers.line := by
  have hall (ws : List Waiter) (q : Queue)
      (hin : .producer w.ticket ∈ q.line ∨ w ∈ ws) :
      .producer w.ticket ∈ (ws.foldl (fun q w =>
        if w.caller = .task then q.enqueue (.producer w.ticket) else q) q).line := by
    induction ws generalizing q with
    | nil => exact hin.resolve_right List.not_mem_nil
    | cons v ws ih =>
      rw [List.foldl_cons]
      refine ih _ ?_
      rcases hin with hline | hmem
      · left
        split
        · obtain ⟨more, heq⟩ := q.enqueue_more (.producer v.ticket)
          rw [heq]
          exact List.mem_append_left _ hline
        · exact hline
      · rcases List.mem_cons.mp hmem with rfl | hrest
        · left
          rw [if_pos htask]
          exact q.mem_enqueue _
        · exact .inr hrest
  exact hall q.mailbox.waiting q (.inr hw)

/-- A task that is given a slot is put in line. -/
theorem mem_releaseSlot {w : Waiter} (hw : q.mailbox.release.1 = some w)
    (htask : w.caller = .task) : .producer w.ticket ∈ q.releaseSlot.line := by
  unfold releaseSlot
  split
  · next v mailbox heq =>
    rw [heq] at hw
    obtain rfl := Option.some.inj hw
    dsimp only
    rw [htask]
    exact mem_enqueue _ _
  · next mailbox heq =>
    rw [heq] at hw
    contradiction

/-- Whoever waits after a slot was passed on has waited as it is now, or it was put in line. -/
theorem mem_waiting_releaseSlot {v : Waiter} (hv : v ∈ q.releaseSlot.mailbox.waiting)
    (htask : v.caller = .task) :
    v ∈ q.mailbox.waiting ∨ .producer v.ticket ∈ q.releaseSlot.line := by
  have hmem : v ∈ q.mailbox.release.2.waiting := by
    obtain ⟨more, heq⟩ := q.releaseSlot_more
    rw [heq] at hv
    exact hv
  rcases Mailbox.mem_release hmem with hold | ⟨g, -, -, rfl, hgranted⟩
  · exact .inl hold
  · exact .inr (mem_releaseSlot (w := g) hgranted htask)

theorem mem_waiting_leave {v w : Waiter} (hv : v ∈ (q.leave w).mailbox.waiting)
    (htask : v.caller = .task) :
    v ∈ q.mailbox.waiting ∨ .producer v.ticket ∈ (q.leave w).line := by
  unfold leave at hv ⊢
  dsimp only at hv ⊢
  split at hv
  · next hslot =>
    rw [if_pos hslot]
    obtain ⟨more, heq⟩ := wakeIfAbandoned_more
      (releaseSlot { q with mailbox := q.mailbox.dismiss w.ticket })
    rw [heq] at hv ⊢
    rcases mem_waiting_releaseSlot hv htask with hold | hline
    · exact .inl (Mailbox.mem_of_mem_dismiss hold).1
    · exact .inr (List.mem_append_left _ hline)
  · obtain ⟨more, heq⟩ := wakeIfAbandoned_more { q with mailbox := q.mailbox.dismiss w.ticket }
    rw [heq] at hv
    exact .inl (Mailbox.mem_of_mem_dismiss hv).1

theorem mem_closeMailbox {w : Waiter} (hw : w ∈ q.closeMailbox.mailbox.waiting)
    (htask : w.caller = .task) : .producer w.ticket ∈ q.closeMailbox.line := by
  obtain ⟨more, heq⟩ := q.closeMailbox_more
  rw [heq] at hw
  exact mem_wakeProducers (q := { q with mailbox := q.mailbox.close }) hw htask

theorem Shift.wanted_dispatcher (h : Shift terms q q') (hw : q'.Wanted .dispatcher) :
    q.Wanted .dispatcher ∨ q'.Awake .dispatcher := by
  cases h with
  | record | remark | call | rest | tick => exact .inl hw
  | go hturn | desert hturn => exact .inr (.inl hturn)
  | @take r mailbox phase hturn =>
    obtain ⟨more, heq⟩ := releaseSlot_more { q with mailbox }
    rw [heq]
    exact .inr (.inl hturn)
  | wake =>
    obtain ⟨more, heq⟩ := q.enqueue_more .run
    rw [heq] at hw
    exact .inl hw
  | @put r mailbox =>
    obtain ⟨more, heq⟩ := wakeDispatcher_more ({ q with mailbox }.note (.admitted r))
    refine wanted_dispatcher_of_woken (by rw [heq]; rfl) (by rw [heq]; rfl) (fun hp => ?_) hw
    exact awake_wakeDispatcher hp
  | @join w =>
    obtain ⟨more, heq⟩ := q.enter_more w
    refine wanted_dispatcher_of_woken (by rw [heq]; rfl) (by rw [heq]; rfl) (fun hp => ?_) hw
    unfold enter
    exact awake_wakeDispatcher (q := note { q with mailbox := _ } _) hp
  | cancel =>
    obtain ⟨more, heq⟩ := wakeAll_more { q with isCancelled := true }
    refine wanted_dispatcher_of_woken (by rw [heq]) (by rw [heq]) (fun hp => ?_) hw
    have hawake : { q with isCancelled := true }.wakeDispatcher.Awake .dispatcher :=
      awake_wakeDispatcher hp
    obtain ⟨more', heq'⟩ := wakeProducers_more { q with isCancelled := true }.wakeDispatcher
    rw [heq']
    exact hawake.more rfl rfl
  | @enlist w =>
    obtain ⟨more, heq⟩ := q.lineUp_more w
    rw [heq] at hw ⊢
    refine wanted_dispatcher_of rfl rfl rfl rfl (fun _ ha => ?_) hw
    simp [isAbandoned, Mailbox.enlist] at ha
  | await =>
    refine wanted_dispatcher_of rfl rfl rfl rfl (fun _ ha => ?_) hw
    simp [isAbandoned] at ha
  | clone =>
    refine wanted_dispatcher_of rfl rfl rfl rfl (fun _ ha => ?_) hw
    simp [isAbandoned, hasHandle] at ha
  | @announce e =>
    refine wanted_dispatcher_of rfl rfl rfl rfl (fun _ ha => ?_) hw
    simp [isAbandoned, isOffering] at ha
  | @prepare errand hidle hnew =>
    refine wanted_dispatcher_of rfl rfl rfl rfl (fun _ ha => .inl ?_) hw
    have hquiet : q.isOffering = false := hidle
    unfold isAbandoned at ha ⊢
    rw [hquiet]
    rw [Bool.and_eq_true] at ha ⊢
    exact ⟨ha.1, rfl⟩
  | @withdraw w | @forsake w hlossy =>
    obtain ⟨more, heq⟩ := q.leave_more w
    have hbuffer : (q.leave w).mailbox.buffer = q.mailbox.buffer := by
      rw [heq]
      dsimp only
      split
      · exact Mailbox.release_buffer _
      · rfl
    refine wanted_dispatcher_of (by rw [heq]; rfl) (by rw [heq]; rfl) (by rw [heq]; rfl) hbuffer
      (fun hp ha => ?_) hw
    exact .inr (awake_leave hp ha)
  | permit n =>
    obtain ⟨more, heq⟩ := q.releasePermits_more n
    rw [heq] at hw
    exact .inl hw
  | drop handle =>
    obtain ⟨more, heq⟩ := q.drop_more handle
    refine wanted_dispatcher_of (by rw [heq]) (by rw [heq]) (by rw [heq]) (by rw [heq])
      (fun hp ha => ?_) hw
    exact .inr (awake_wakeIfAbandoned hp ha)
  | @offered e todo replies he =>
    obtain ⟨more, heq⟩ := wakeIfAbandoned_more
      { q with errand := some { e with todo, isAnnounced := false, replies } }
    refine wanted_dispatcher_of (by rw [heq]) (by rw [heq]) (by rw [heq]) (by rw [heq])
      (fun hp ha => ?_) hw
    exact .inr (awake_wakeIfAbandoned hp ha)
  | @proceed run stage permits hturn hrun hnext =>
    -- whatever the dispatcher waits for, the end of the run is not it
    unfold Wanted at hw ⊢
    cases hp : q.phase with
    | awaiting b =>
      simp only [setStage, hp] at hw
      obtain ⟨run', hsome, hended⟩ := hw
      obtain rfl := Option.some.inj hsome
      exact absurd hended hnext
    | stopped | dead => simp only [setStage, hp] at hw
    | _ =>
      simp only [setStage, hp] at hw
      exact .inl hw
  | @finish run => exact .inr (.inr (mem_enqueue _ _))
  | @launch b run hturn hgoing hstage =>
    obtain ⟨more, heq⟩ := enqueue_more { q with phase := .awaiting b, run := some run } .run
    rw [heq] at hw
    obtain ⟨run', hsome, hended⟩ := hw
    obtain rfl := Option.some.inj hsome
    rw [hstage] at hended
    contradiction
  | @breakDown b =>
    obtain ⟨more, heq⟩ := closeMailbox_more { q with phase := .dead b }
    rw [releaseClosers_eq, heq] at hw
    exact absurd hw not_false
  | close =>
    rw [releaseClosers_eq] at hw
    exact absurd hw not_false

theorem Shift.wanted_run (h : Shift terms q q') (hw : q'.Wanted .run) :
    q.Wanted .run ∨ q'.Awake .run := by
  cases h with
  | record | remark | call | rest | await | clone | prepare | announce | desert => exact .inl hw
  | @enlist w =>
    obtain ⟨more, heq⟩ := q.lineUp_more w
    rw [heq] at hw
    exact .inl hw
  | proceed hturn => exact .inr (.inl hturn)
  | @finish run hturn =>
    obtain ⟨more, heq⟩ := (q.setStage run .ended).enqueue_more .dispatcher
    rw [heq]
    exact .inr (.inl hturn)
  | wake =>
    obtain ⟨more, heq⟩ := q.enqueue_more .run
    rw [heq] at hw
    exact .inl hw
  | @tick time hticking ht =>
    obtain ⟨run, hrun, hcan⟩ := hw
    cases hs : run.stage with
    | sleeping d =>
      rw [Run.CanGoOn, hs] at hcan
      have hd : q.deadline? = some d := by
        have hsome : q.run = some run := hrun
        rw [deadline?, hsome]
        simp only [hs]
      -- the clock does not pass the time at which the run wakes up, unless the run was woken
      rcases ht d hd with hlt | hmem
      · left
        refine ⟨run, hrun, ?_⟩
        rw [Run.CanGoOn, hs]
        have hle : d ≤ max q.now time := hcan
        omega
      · exact .inr (.inr hmem)
    | _ =>
      left
      refine ⟨run, hrun, ?_⟩
      rw [Run.CanGoOn, hs] at hcan ⊢
      exact hcan
  | @put r mailbox =>
    obtain ⟨more, heq⟩ := wakeDispatcher_more ({ q with mailbox }.note (.admitted r))
    rw [heq] at hw
    exact .inl hw
  | @join w =>
    obtain ⟨more, heq⟩ := q.enter_more w
    rw [heq] at hw
    exact .inl hw
  | @withdraw w | @forsake w hlossy =>
    obtain ⟨more, heq⟩ := q.leave_more w
    rw [heq] at hw
    exact .inl hw
  | cancel =>
    obtain ⟨more, heq⟩ := wakeAll_more { q with isCancelled := true }
    rw [heq] at hw
    exact .inl hw
  | permit n =>
    obtain ⟨more, heq⟩ := q.releasePermits_more n
    rw [heq] at hw
    obtain ⟨run, hrun, hcan⟩ := hw
    have hsome : q.run = some run := hrun
    cases hs : run.stage with
    | waiting =>
      right
      right
      unfold releasePermits
      simp only [hsome, hs]
      exact mem_enqueue _ _
    | _ =>
      left
      refine ⟨run, hrun, ?_⟩
      rw [Run.CanGoOn, hs] at hcan ⊢
      exact hcan
  | drop handle =>
    obtain ⟨more, heq⟩ := q.drop_more handle
    rw [heq] at hw
    exact .inl hw
  | @offered e todo replies =>
    obtain ⟨more, heq⟩ := wakeIfAbandoned_more
      { q with errand := some { e with todo, isAnnounced := false, replies } }
    rw [heq] at hw
    exact .inl hw
  | @go phase run hturn hgoing hnext hrun =>
    obtain ⟨run', hsome, hcan⟩ := hw
    rcases hrun with rfl | ⟨rfl, -⟩
    · exact .inl ⟨run', hsome, hcan⟩
    · simp at hsome
  | @take r mailbox =>
    obtain ⟨more, heq⟩ := releaseSlot_more { q with mailbox }
    rw [heq] at hw
    exact .inl hw
  | @launch b run => exact .inr (.inr (mem_enqueue _ _))
  | @breakDown b =>
    obtain ⟨more, heq⟩ := closeMailbox_more { q with phase := .dead b }
    rw [releaseClosers_eq, heq] at hw
    exact .inl hw
  | close =>
    obtain ⟨more, heq⟩ := q.closeMailbox_more
    rw [releaseClosers_eq, heq] at hw
    exact .inl hw

theorem Shift.wanted_producer {ticket : Nat} (h : Shift terms q q')
    (hw : q'.Wanted (.producer ticket)) :
    q.Wanted (.producer ticket) ∨ q'.Awake (.producer ticket) := by
  cases h with
  | record | remark | call | rest | tick | await | clone | prepare | announce | go | desert
  | proceed => exact .inl hw
  | wake =>
    obtain ⟨more, heq⟩ := q.enqueue_more .run
    rw [heq] at hw
    exact .inl hw
  | @put r mailbox hheld hopen hput =>
    obtain ⟨more, heq⟩ := wakeDispatcher_more ({ q with mailbox }.note (.admitted r))
    obtain rfl := Mailbox.eq_of_put? hput
    rw [heq] at hw
    exact .inl hw
  | @enlist w hheld hopen hput hticket hslot hcaller hcancelled =>
    obtain ⟨more, heq⟩ := q.lineUp_more w
    rw [heq] at hw
    obtain ⟨v, hv, hvticket, htask, hdecided⟩ := hw
    rcases List.mem_append.mp hv with hold | hnew
    · exact .inl ⟨v, hold, hvticket, htask, hdecided⟩
    · -- a call that has just begun to wait has nothing to do yet
      rw [List.mem_singleton.mp hnew] at htask hdecided
      rcases hdecided with hgiven | hc | hclosed
      · rw [hslot] at hgiven
        contradiction
      · have hnot : q.isCancelled = false := hcancelled htask
        have hc : q.isCancelled = true := hc
        rw [hnot] at hc
        contradiction
      · have hclosed : q.mailbox.isClosed = true := hclosed
        rw [hopen] at hclosed
        contradiction
  | @join w =>
    obtain ⟨more, heq⟩ := q.enter_more w
    rw [heq] at hw
    obtain ⟨v, hv, hrest⟩ := hw
    exact .inl ⟨v, (Mailbox.mem_of_mem_dismiss hv).1, hrest⟩
  | @withdraw w | @forsake w hlossy =>
    obtain ⟨v, hv, rfl, htask, hdecided⟩ := hw
    rcases mem_waiting_leave hv htask with hold | hline
    · obtain ⟨more, heq⟩ := q.leave_more w
      have hclosed := q.leave_isClosed w
      have hcancelled : (q.leave w).isCancelled = q.isCancelled := by rw [heq]
      refine .inl ⟨v, hold, rfl, htask, ?_⟩
      rw [← hclosed, ← hcancelled]
      exact hdecided
    · exact .inr (.inr hline)
  | cancel hc =>
    obtain ⟨more, heq⟩ := wakeDispatcher_more { q with isCancelled := true }
    obtain ⟨more', heq'⟩ := wakeProducers_more { q with isCancelled := true }.wakeDispatcher
    obtain ⟨v, hv, rfl, htask, -⟩ := hw
    rw [heq', heq] at hv
    refine .inr (.inr (mem_wakeProducers ?_ htask))
    rw [heq]
    exact hv
  | permit n =>
    obtain ⟨more, heq⟩ := q.releasePermits_more n
    rw [heq] at hw
    exact .inl hw
  | drop handle =>
    obtain ⟨more, heq⟩ := q.drop_more handle
    rw [heq] at hw
    exact .inl hw
  | @offered e todo replies =>
    obtain ⟨more, heq⟩ := wakeIfAbandoned_more
      { q with errand := some { e with todo, isAnnounced := false, replies } }
    rw [heq] at hw
    exact .inl hw
  | @finish run =>
    obtain ⟨more, heq⟩ := (q.setStage run .ended).enqueue_more .dispatcher
    rw [heq] at hw
    exact .inl hw
  | @take r mailbox phase hturn hgoing hnext hexit htake =>
    have hmailbox := Mailbox.eq_of_take? htake
    obtain ⟨v, hv, rfl, htask, hdecided⟩ := hw
    rcases mem_waiting_releaseSlot hv htask with hold | hline
    · obtain ⟨more, heq⟩ := releaseSlot_more { q with mailbox }
      refine .inl ⟨v, ?_, rfl, htask, ?_⟩
      · rw [hmailbox]
        exact hold
      · rw [heq] at hdecided
        rw [hmailbox]
        simpa using hdecided
    · exact .inr (.inr hline)
  | @launch b run =>
    obtain ⟨more, heq⟩ := enqueue_more { q with phase := .awaiting b, run := some run } .run
    rw [heq] at hw
    exact .inl hw
  | @breakDown b =>
    rw [releaseClosers_eq] at hw ⊢
    obtain ⟨v, hv, rfl, htask, -⟩ := hw
    exact .inr (.inr (mem_closeMailbox hv htask))
  | close =>
    rw [releaseClosers_eq] at hw ⊢
    obtain ⟨v, hv, rfl, htask, -⟩ := hw
    exact .inr (.inr (mem_closeMailbox hv htask))

theorem Shift.alert (h : Shift terms q q') (hi : q.Alert) : q'.Alert := by
  intro p hw
  have hcalled : q.Wanted p ∨ q'.Awake p := by
    cases p with
    | dispatcher => exact h.wanted_dispatcher hw
    | run => exact h.wanted_run hw
    | producer ticket => exact h.wanted_producer hw
  rcases hcalled with hbefore | hawake
  · exact h.awake (hi p hbefore) hw
  · exact hawake

theorem alert_of_open? {config : QueueConfig} {hooks : List Hook} (h : open? config hooks = some q) :
    q.Alert := by
  unfold open? at h
  split at h
  · obtain rfl := Option.some.inj h
    rintro p hw
    cases p with
    | dispatcher => exact .inr (List.mem_singleton_self _)
    | run =>
      obtain ⟨run, hrun, -⟩ := hw
      contradiction
    | producer ticket =>
      obtain ⟨w, hmem, -⟩ := hw
      exact absurd hmem List.not_mem_nil
  · contradiction

theorem Reachable.alert (h : Reachable script q) : q.Alert :=
  h.keeps alert_of_open? fun _ hs hi => hs.alert hi

end CoalescingQueue.Queue
