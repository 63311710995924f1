import CoalescingQueue.Proofs.Effort

/-!
# How a burst is cut into batches

Requests were offered to a queue while it was idle, and since then it is left alone. The dispatcher
counts its backlog when everybody who was given a slot has used it, so the backlog is full or nobody
waits. What it drains is then as many of the requests as the mailbox holds, in the order in which
they were offered, and those who are given the slots meanwhile are left for the next batch.
-/
namespace CoalescingQueue

/-- The batch of this number, if requests are cut into batches of this size. -/
def batchOf (size : Nat) (rs : List Request) (i : Nat) : List Request :=
  (rs.drop (i * size)).take size

theorem eq_drop_of_batchOf {size i : Nat} {rs rest : List Request}
    (h : rs.drop (i * size) = batchOf size rs i ++ rest) : rest = rs.drop ((i + 1) * size) := by
  have hrest := List.append_cancel_left ((List.take_append_drop _ _).trans h)
  rw [Nat.succ_mul, ← List.drop_drop]
  exact hrest.symm

/-- The batch that is being drained, or was, and is not dispatched yet. -/
def Phase.cut? (buffer : List Request) : Phase → Option (List Request)
  | .counting first => some (first :: buffer)
  | .draining b left => some (b.toList ++ buffer.take left)
  | .dispatching b => some b.toList
  | _ => none

namespace Queue

/-- The requests that are offered and not dispatched yet, in the order in which they were offered. -/
def outstanding (q : Queue) : List Request := q.phase.taken ++ (q.mailbox.buffer ++ q.requests)

/-- Nobody is on the way to the buffer: those who were given a slot come to their turn before the
run in flight. -/
def HasServed (q : Queue) : Prop :=
  match q.phase with
  | .counting _ | .draining _ _ | .dispatching _ => False
  | .awaiting _ => ∃ run, q.run = some run ∧ run.stage ≠ .spawned
  | _ => True

variable {script : WorkScript} {q₀ q q' : Queue} {rs : List Request} {paused : Bool}

/-! ## One tick -/

theorem requests_release (m : Mailbox) :
    m.release.2.calls.map (·.request) = m.calls.map (·.request) := by
  rw [Mailbox.calls_release]

theorem buffer_of_take {r : Request} {mailbox : Mailbox}
    (htake : q.mailbox.take? = some (r, mailbox)) :
    q.mailbox.buffer = r :: mailbox.release.2.buffer := by
  rw [Mailbox.take?_buffer htake, Mailbox.release_buffer]

theorem requests_of_take {r : Request} {mailbox : Mailbox}
    (htake : q.mailbox.take? = some (r, mailbox)) :
    mailbox.release.2.calls.map (·.request) = q.requests := by
  rw [requests_release, requests, Mailbox.eq_of_take? htake]
  rfl

/-- A producer has its turn only while the dispatcher rests. -/
theorem isBusy_of_producer (hproper : q.scene.Proper) {ticket : Nat}
    (hturn : q.turn = some (.producer ticket)) : q.phase.isBusy = false := by
  refine hproper.isBusy_eq (s := q.scene) fun hdispatcher => ?_
  rw [show q.scene.turn = q.turn from rfl, hturn] at hdispatcher
  cases hdispatcher

/-- A tick leaves the requests as they are, or dispatches the first of them. -/
inductive Outcome (q q' : Queue) : Prop
  | still (houtstanding : q'.outstanding = q.outstanding) (hcalls : q'.calls = q.calls)
      (hjournal : Grows q.journal q'.journal [])
  | dispatched {b : Batch} (hphase : q.phase = .dispatching b)
      (houtstanding : q.outstanding = b.toList ++ q'.outstanding) (hcalls : q'.calls = q.calls + 1)
      (hjournal : Grows q.journal q'.journal [b]) (hnone : q'.phase.cut? q'.mailbox.buffer = none)

theorem Tick.outcome (ht : Tick script q q') (ha : q.IsAlone) (hp : q.Poised paused)
    (ho : q.Orderly) (hproper : q.scene.Proper) : Outcome q q' := by
  cases ht with
  | call | rest | arrive | pass | sleep | awake => exact .still rfl rfl (grows_refl _)
  | begin _ _ _ hjournal | finish _ _ _ _ hjournal => exact .still rfl rfl hjournal
  | @join w line hturn hw hslot =>
    have hwaiting := hp.waiting_eq ho ha.tasks hw hslot ha.going hturn
    have hbusy := isBusy_of_producer hproper hturn
    have htaken : q.phase.taken = [] := by
      cases hphase : q.phase <;> simp_all [Phase.isBusy, Phase.taken]
    have hfirst : q.requests = w.request :: (q.mailbox.dismiss w.ticket).calls.map (·.request) := by
      rw [requests, Mailbox.calls, hwaiting]
      rfl
    refine .still ?_ rfl (((grows_refl _).push rfl).push rfl)
    show q.phase.taken ++ ((q.mailbox.buffer ++ [w.request]) ++
      (q.mailbox.dismiss w.ticket).calls.map (·.request)) = q.outstanding
    rw [outstanding, hfirst, List.append_assoc]
    rfl
  | start _ hphase hjournal =>
    refine .still ?_ rfl hjournal
    rw [outstanding, outstanding, hphase]
    rfl
  | @receive r mailbox _ _ _ _ hphase htake _ hjournal =>
    refine .still ?_ rfl hjournal
    rw [outstanding, outstanding, hphase, buffer_of_take htake, requests, requests_of_take htake]
    rfl
  | count _ hphase hjournal =>
    refine .still ?_ rfl hjournal
    rw [outstanding, outstanding, hphase]
    rfl
  | drain _ hphase htake _ hjournal =>
    refine .still ?_ rfl hjournal
    rw [outstanding, outstanding, hphase, buffer_of_take htake, requests, requests_of_take htake]
    simp [Phase.taken]
  | drained _ hphase _ hjournal =>
    refine .still ?_ rfl hjournal
    rw [outstanding, outstanding, hphase]
    rfl
  | launch _ hphase _ _ hjournal =>
    refine .dispatched hphase ?_ rfl hjournal rfl
    rw [outstanding, outstanding, hphase]
    rfl
  | report _ hphase _ _ hjournal | conclude _ hphase hjournal =>
    refine .still ?_ rfl hjournal
    rw [outstanding, outstanding, hphase]
    rfl

/-- Where nobody who waits has a slot, the buffer is full or nobody waits. -/
theorem buffer_eq_take (hk : q.Packed) (hg : q.IsGoing)
    (hslot : ∀ w ∈ q.mailbox.waiting, w.hasSlot = false) :
    q.mailbox.buffer = (q.mailbox.buffer ++ q.requests).take q.config.capacity := by
  have hfits := hk hg.isClosed_eq
  have hslots := hfits.slots_eq
  have hpromised : q.mailbox.promised = 0 := by
    rw [Mailbox.promised, List.countP_eq_zero]
    intro w hw
    rw [hslot w hw]
    exact Bool.false_ne_true
  by_cases hnone : q.mailbox.waiting = []
  · rw [requests_eq_nil hnone, List.append_nil, List.take_of_length_le (by omega)]
  · obtain ⟨w, hw⟩ := List.exists_mem_of_ne_nil _ hnone
    have hfree := hfits.free_eq w hw (hslot w hw)
    rw [← show q.mailbox.buffer.length = q.config.capacity by omega, List.take_left]

/-- What is being drained is as many of the outstanding requests as the mailbox holds. -/
def IsCut (q : Queue) : Prop :=
  ∀ batch ∈ q.phase.cut? q.mailbox.buffer, batch = q.outstanding.take q.config.capacity

theorem cut?_of_isBusy {p : Phase} (hbusy : p.isBusy = false) (buffer : List Request) :
    p.cut? buffer = none := by
  cases p <;> first | rfl | contradiction

theorem Tick.cut (ht : Tick script q q') (hg : q.IsGoing) (hk : q.Packed)
    (hserved : q.HasServed → ∀ w ∈ q.mailbox.waiting, w.hasSlot = false)
    (hproper : q.scene.Proper) (hcut : q.IsCut) :
    ∀ batch ∈ q'.phase.cut? q'.mailbox.buffer,
      batch = q.outstanding.take q.config.capacity := by
  have hnow {batch : List Request} {p : Phase} (hphase : q.phase = p)
      (hbatch : p.cut? q.mailbox.buffer = some batch) :
      batch = q.outstanding.take q.config.capacity := hcut batch (hphase ▸ hbatch)
  cases ht with
  | call | rest | begin | arrive | pass | sleep | awake | finish => exact hcut
  | join hturn =>
    intro batch hmem
    rw [cut?_of_isBusy (isBusy_of_producer hproper hturn)] at hmem
    contradiction
  | start | launch | report | conclude => nofun
  | receive _ hphase htake =>
    intro batch hmem
    obtain rfl := Option.some.inj hmem
    have hall : ∀ w ∈ q.mailbox.waiting, w.hasSlot = false :=
      hserved (by rw [HasServed, hphase]; trivial)
    have hfull := buffer_eq_take hk hg hall
    rw [buffer_of_take htake] at hfull
    rw [hfull, outstanding, hphase, buffer_of_take htake]
    rfl
  | count _ hphase =>
    intro batch hmem
    obtain rfl := Option.some.inj hmem
    rw [List.take_length]
    exact hnow hphase rfl
  | drain _ hphase htake =>
    intro batch hmem
    obtain rfl := Option.some.inj hmem
    refine hnow hphase (congrArg some ?_)
    rw [buffer_of_take htake, Batch.toList_push, List.append_assoc]
    rfl
  | drained _ hphase hdone =>
    intro batch hmem
    obtain rfl := Option.some.inj hmem
    refine hnow hphase (congrArg some ?_)
    rcases hdone with rfl | hempty
    · rw [List.take_zero, List.append_nil]
    · rw [hempty, List.take_nil, List.append_nil]

/-- A run that has its turn finds everybody served. -/
theorem Tick.served (ht : Tick script q q') (ha : q.IsAlone) (hlined : q.Lined)
    (hserved : q.HasServed → ∀ w ∈ q.mailbox.waiting, w.hasSlot = false) (hs : q'.HasServed) :
    ∀ w ∈ q'.mailbox.waiting, w.hasSlot = false := by
  have hrun (hturn : q.turn = some .run) : ∀ w ∈ q.mailbox.waiting, w.hasSlot = false := by
    intro w hw
    by_contra hslot
    have hmem : w.ticket ∈ q.mailbox.given :=
      Mailbox.mem_given.mpr ⟨w, hw, ha.tasks w hw, Bool.not_eq_false _ ▸ hslot, rfl⟩
    rw [hlined.given_eq hturn] at hmem
    contradiction
  cases ht with
  | call | rest => exact hserved hs
  | join => exact fun w hw => hserved hs w (Mailbox.mem_of_mem_dismiss hw).1
  | start _ hphase => exact hserved (by rw [HasServed, hphase]; trivial)
  | receive | count | drain | drained => exact hs.elim
  | launch =>
    obtain ⟨run, hlaunched, hstage⟩ := hs
    obtain rfl := Option.some.inj hlaunched
    exact absurd rfl hstage
  | report _ hphase hr hended =>
    refine hserved ?_
    rw [HasServed, hphase]
    refine ⟨_, hr, ?_⟩
    rw [hended]
    nofun
  | conclude _ hphase => exact hserved (by rw [HasServed, hphase]; trivial)
  | begin hturn | arrive hturn | pass hturn | sleep hturn | awake hturn | finish hturn =>
    exact hrun hturn

/-- Whoever waits goes on waiting, or its request has entered. -/
theorem Tick.tickets (ht : Tick script q q') {ticket : Nat} (hw : ticket ∈ q.mailbox.tickets) :
    ticket ∈ q'.mailbox.tickets ∨ ∃ time, .ended ticket .accepted time ∈ q'.journal := by
  cases ht with
  | @join w =>
    by_cases heq : ticket = w.ticket
    · subst heq
      exact .inr ⟨q.now, Array.mem_push_self⟩
    · refine .inl ?_
      show ticket ∈ (q.mailbox.dismiss w.ticket).tickets
      rw [Mailbox.dismiss_tickets]
      exact List.mem_filter.mpr ⟨hw, by simpa using heq⟩
  | receive _ _ htake | drain _ _ htake =>
    refine .inl ?_
    rw [Mailbox.release_tickets]
    rw [Mailbox.eq_of_take? htake] at hw
    exact hw
  | _ => exact .inl hw

/-! ## The burst -/

/-- Where a queue stands with requests that were offered to it while it was idle. -/
structure Burst (q₀ : Queue) (rs : List Request) (q : Queue) : Prop where
  config_eq : q.config = q₀.config
  calls_le : q₀.calls ≤ q.calls
  dispatched : ∃ batches : List Batch,
    q.flow.journal.dispatched = q₀.flow.journal.dispatched ++ batches ∧
    batches.map Batch.toList =
      (List.range (q.calls - q₀.calls)).map (batchOf q₀.config.capacity rs)
  outstanding_eq : q.outstanding = rs.drop ((q.calls - q₀.calls) * q₀.config.capacity)
  /-- No batch is empty. -/
  ahead : (q.calls - q₀.calls) * q₀.config.capacity < rs.length + q₀.config.capacity
  isCut : q.IsCut
  served : q.HasServed → ∀ w ∈ q.mailbox.waiting, w.hasSlot = false
  /-- Each call that waited at the beginning waits, or its request has entered. -/
  tickets : ∀ t ∈ q₀.mailbox.tickets,
    t ∈ q.mailbox.tickets ∨ ∃ time, .ended t .accepted time ∈ q.journal

theorem Tick.config_eq (ht : Tick script q q') : q'.config = q.config := by
  cases ht <;> rfl

theorem Tick.now_eq (ht : Tick script q q') : q'.now = q.now := by
  cases ht <;> rfl

theorem Tick.mem_journal (ht : Tick script q q') {f : Fact} (hf : f ∈ q.journal) :
    f ∈ q'.journal := by
  cases ht with
  | call | rest | arrive | pass | sleep | awake => exact hf
  | join => exact Array.mem_push_of_mem _ (Array.mem_push_of_mem _ hf)
  | _ => exact Grows.mem ‹Grows _ _ _› hf

/-- The next batch, if there is one, is not empty. -/
theorem Burst.cut_eq (hb : q₀.Burst rs q) {b : Batch} (hphase : q.phase = .dispatching b) :
    b.toList = batchOf q₀.config.capacity rs (q.calls - q₀.calls) ∧
      (q.calls - q₀.calls) * q₀.config.capacity < rs.length := by
  have hcut := hb.isCut b.toList (by rw [hphase]; rfl)
  rw [hb.outstanding_eq, hb.config_eq] at hcut
  refine ⟨hcut, ?_⟩
  by_contra hle
  rw [List.drop_eq_nil_of_le (Nat.le_of_not_lt hle), List.take_nil] at hcut
  exact List.append_ne_nil_of_right_ne_nil _ (List.cons_ne_nil _ _) hcut

/-- Each tick keeps to the batches. -/
theorem Tick.burst (ht : Tick script q q') (ha : q.IsAlone) (hp : q.Poised paused)
    (ho : q.Orderly) (hproper : q.scene.Proper) (hb : q₀.Burst rs q) : q₀.Burst rs q' := by
  have hout := ht.outcome ha hp ho hproper
  have hcut := ht.cut ha.going hp.packed hb.served hproper hb.isCut
  have hserved := ht.served ha (hp.lined ha.going) hb.served
  have htickets : ∀ t ∈ q₀.mailbox.tickets,
      t ∈ q'.mailbox.tickets ∨ ∃ time, .ended t .accepted time ∈ q'.journal := by
    intro t hmem
    rcases hb.tickets t hmem with hw | ⟨time, hmem⟩
    · exact ht.tickets hw
    · exact .inr ⟨time, ht.mem_journal hmem⟩
  have hconfig : q'.config = q₀.config := ht.config_eq.trans hb.config_eq
  obtain ⟨batches, hdispatched, hbatches⟩ := hb.dispatched
  cases hout with
  | still houtstanding hcalls hjournal =>
    have hsame : q'.flow.journal.dispatched = q.flow.journal.dispatched :=
      hjournal.dispatched_eq.trans (List.append_nil _)
    constructor
    · exact hconfig
    · rw [hcalls]
      exact hb.calls_le
    · rw [hcalls, hsame]
      exact ⟨batches, hdispatched, hbatches⟩
    · rw [hcalls, houtstanding]
      exact hb.outstanding_eq
    · rw [hcalls]
      exact hb.ahead
    · unfold IsCut
      rw [houtstanding, ht.config_eq]
      exact hcut
    · exact hserved
    · exact htickets
  | @dispatched b hphase houtstanding hcalls hjournal hnone =>
    obtain ⟨htoList, hlt⟩ := hb.cut_eq hphase
    have hnext : q'.calls - q₀.calls = q.calls - q₀.calls + 1 := by
      have hle := hb.calls_le
      omega
    have hcapacity := q₀.config.capacity_pos
    have hjoined : q'.flow.journal.dispatched = q.flow.journal.dispatched ++ [b] :=
      hjournal.dispatched_eq
    constructor
    · exact hconfig
    · omega
    · refine ⟨batches ++ [b], ?_, ?_⟩
      · rw [hjoined, hdispatched, List.append_assoc]
      · rw [hnext, List.range_succ, List.map_append, List.map_append, hbatches, List.map_singleton,
          htoList]
        rfl
    · have hsplit := hb.outstanding_eq.symm.trans houtstanding
      rw [htoList] at hsplit
      rw [hnext]
      exact eq_drop_of_batchOf hsplit
    · rw [hnext, Nat.add_mul, Nat.one_mul]
      omega
    · intro batch hmem
      rw [hnone] at hmem
      contradiction
    · exact hserved
    · exact htickets

end Queue

/-! ## Runs that end by themselves -/

/-- How many permits a run is still to take from the gate. -/
def Run.toll (run : Run) : Nat :=
  match run.stage with
  | .spawned | .opening _ | .waiting => run.plan.toll
  | _ => 0

/-- How many permits a call takes from the gate. -/
def Work.toll : Work → Nat
  | .breakdown => 0
  | .run p => p.toll

/-- How many permits the next `n` calls take. -/
def WorkScript.tolls (script : WorkScript) (calls n : Nat) : Nat :=
  ((List.range n).map fun i => (script.call (calls + i + 1)).toll).sum

theorem WorkScript.tolls_succ (script : WorkScript) (calls n : Nat) :
    script.tolls calls (n + 1) = (script.call (calls + 1)).toll + script.tolls (calls + 1) n := by
  have hshift (i : Nat) : calls + (i + 1) + 1 = calls + 1 + i + 1 := by omega
  unfold tolls
  rw [List.range_succ_eq_map, List.map_cons, List.map_map, List.sum_cons]
  simp only [Function.comp_def, hshift, Nat.add_zero]

/-- The runs of the next `n` calls end by themselves: they perform no actions, and there are permits
for all of them. -/
structure WorkScript.EndsAlone (script : WorkScript) (calls n permits : Nat) : Prop where
  bare : ∀ i < n, ∃ plan, script.call (calls + i + 1) = .run plan ∧ plan.IsBare
  tolls_le : script.tolls calls n ≤ permits

theorem WorkScript.EndsAlone.mono {script : WorkScript} {calls n permits permits' : Nat}
    (h : script.EndsAlone calls n permits) (hle : permits ≤ permits') :
    script.EndsAlone calls n permits' :=
  ⟨h.bare, h.tolls_le.trans hle⟩

namespace Queue

variable {script : WorkScript} {q q' : Queue} {last : Nat}

/-- The permits that the run in flight is still to take. -/
def toll (q : Queue) : Nat :=
  match q.run with
  | some run => run.toll
  | none => 0

theorem toll_eq {run : Run} (hrun : q.run = some run) : q.toll = run.toll := by
  rw [toll, hrun]

/-- The run in flight and those of the calls up to this one end by themselves. -/
structure Supplied (script : WorkScript) (last : Nat) (q : Queue) : Prop where
  toll_le : q.toll ≤ q.permits
  endsAlone : script.EndsAlone q.calls (last - q.calls) (q.permits - q.toll)

theorem Supplied.congr (h : q.Supplied script last) (hcalls : q'.calls = q.calls)
    (hpermits : q'.permits - q'.toll = q.permits - q.toll) (htoll : q'.toll ≤ q'.permits) :
    q'.Supplied script last := by
  refine ⟨htoll, ?_⟩
  rw [hcalls, hpermits]
  exact h.endsAlone

/-- The next call makes a run that performs no actions. -/
theorem Supplied.exists_plan (h : q.Supplied script last) (hmore : q.calls < last) :
    ∃ plan, script.call (q.calls + 1) = .run plan ∧ plan.IsBare :=
  h.endsAlone.bare 0 (Nat.sub_pos_of_lt hmore)

theorem Tick.supplied (ht : Tick script q q') (hs : q.Supplied script last)
    (hmore : ∀ b, q.phase = .dispatching b → q.calls < last) : q'.Supplied script last := by
  have htoll := hs.toll_le
  cases ht with
  | call | rest | join | start | receive | count | drain | drained | report =>
    exact hs.congr rfl rfl htoll
  | @launch b plan _ _ _ _ hphase hcall =>
    have hlt := hmore b hphase
    obtain ⟨n, hn⟩ : ∃ n, last - q.calls = n + 1 := ⟨last - q.calls - 1, by omega⟩
    obtain ⟨hbare, htolls⟩ := hs.endsAlone
    rw [hn] at hbare
    rw [hn, WorkScript.tolls_succ, hcall] at htolls
    have hpaid : plan.toll + script.tolls (q.calls + 1) n ≤ q.permits - q.toll := htolls
    have hrest : last - (q.calls + 1) = n := by omega
    refine ⟨?_, ?_, ?_⟩
    · show plan.toll ≤ q.permits
      omega
    · show ∀ i < last - (q.calls + 1), _
      rw [hrest]
      intro i hi
      have hnext := hbare (i + 1) (Nat.succ_lt_succ hi)
      have hshift : q.calls + (i + 1) + 1 = q.calls + 1 + i + 1 := by omega
      rw [hshift] at hnext
      exact hnext
    · show script.tolls (q.calls + 1) (last - (q.calls + 1)) ≤ q.permits - plan.toll
      rw [hrest]
      omega
  | conclude => exact ⟨Nat.zero_le _, hs.endsAlone.mono (Nat.sub_le _ _)⟩
  | begin _ hrun hstage | arrive _ hrun hstage =>
    have hsame : q.toll = _ := (toll_eq hrun).trans (by rw [Run.toll, hstage])
    refine hs.congr rfl ?_ ?_
    · rw [hsame]
      rfl
    · rw [hsame] at htoll
      exact htoll
  | @pass run _ hrun hstage | @sleep run _ _ hrun hstage =>
    have hpaid : q.toll = run.plan.toll := (toll_eq hrun).trans (by rw [Run.toll, hstage])
    refine hs.congr rfl ?_ (Nat.zero_le _)
    rw [hpaid]
    rfl
  | awake _ hrun hstage | finish _ hrun hstage =>
    have hnone : q.toll = 0 := (toll_eq hrun).trans (by rw [Run.toll, hstage])
    refine hs.congr rfl ?_ (Nat.zero_le _)
    rw [hnone]
    rfl

end Queue
end CoalescingQueue
