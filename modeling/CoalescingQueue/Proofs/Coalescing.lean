import CoalescingQueue.Proofs.Moves
import CoalescingQueue.Proofs.Tally

/-!
# The last one wins

The requests that entered the mailbox are cut into batches, in order of arrival and without a
gap. A batch is what was in the mailbox when the backlog was counted, together with the request
taken just before, and the work function is called for its last request. The statements hold
wherever the dispatcher stands and whatever enters the mailbox during a drain.
-/
namespace CoalescingQueue

/-- Each request of a batch but the last, with the one that took its place. -/
def Batch.successions (b : Batch) : List (Request × Request) := b.toList.zip b.toList.tail

theorem Batch.successions_push (b : Batch) (r : Request) :
    (b.push r).successions = b.successions ++ [(b.latest, r)] := by
  have hzip (xs : List Request) (x : Request) :
      (xs ++ [x] ++ [r]).zip (xs ++ [x] ++ [r]).tail =
        (xs ++ [x]).zip (xs ++ [x]).tail ++ [(x, r)] := by
    induction xs with
    | nil => rfl
    | cons y ys ih =>
      cases ys with
      | nil => rfl
      | cons z zs => simpa using ih
  rw [successions, successions, toList_push]
  exact hzip b.older b.latest

namespace Phase

/-- The requests that were taken out of the mailbox for a dispatch that has not happened yet. -/
def taken : Phase → List Request
  | .counting first => [first]
  | .draining b _ | .dispatching b => b.toList
  | _ => []

/-- The batch whose dispatch comes next. -/
def committed : Phase → List Batch
  | .dispatching b => [b]
  | _ => []

/-- How much of the backlog is still to be taken. -/
def left : Phase → Nat
  | .draining _ left => left
  | _ => 0

/-- What the drain in progress will come to. -/
def prospect (buffer : List Request) : Phase → List (List Request)
  | .draining b left => [b.toList ++ buffer.take left]
  | _ => []

/-- The batch of the drain in progress, as far as it got. -/
def drained : Phase → List Batch
  | .draining b _ => [b]
  | _ => []

/-- The winner whose run has not been reported. -/
def unreported : Phase → List Request
  | .awaiting b | .dead b => [b.latest]
  | _ => []

/-- Whether a batch may have been dropped on the way to this phase. -/
def isLeaving : Phase → Bool
  | .dropping _ | .closing | .stopped => true
  | _ => false

theorem taken_of_isLeaving {p : Phase} (hp : p.isLeaving = true) : p.taken = [] := by
  cases p <;> simp_all [isLeaving, taken]

theorem committed_eq_nil {p : Phase} (hp : ∀ b, p ≠ .dispatching b) : p.committed = [] := by
  cases p with
  | dispatching b => exact absurd rfl (hp b)
  | _ => rfl

/-- Nothing that enters behind the backlog changes what a drain comes to. -/
theorem prospect_append {p : Phase} {buffer : List Request} (more : List Request)
    (hleft : p.left ≤ buffer.length) : p.prospect (buffer ++ more) = p.prospect buffer := by
  cases p with
  | draining b left =>
    have htake : (buffer ++ more).take left = buffer.take left :=
      List.take_append_of_le_length hleft
    simp only [prospect, htake]
  | _ => rfl

end Phase

/-- What was counted is all that entered and was not dispatched before. -/
def Caught (before : History) : Fact → Prop
  | .counted first backlog =>
    before.arrivals = before.dispatched.flatMap Batch.toList ++ first :: backlog
  | _ => True

namespace Flow

variable {script : WorkScript} {c c' : Flow}

/-- A batch is dropped once at most, of a cancelled queue, and nothing is taken after that. -/
def Dropped (c : Flow) : Prop :=
  c.journal.discarded = [] ∨
    (∃ b, c.journal.discarded = [b]) ∧ c.isCancelled = true ∧ c.phase.isLeaving = true

theorem Dropped.congr (hi : c.Dropped) (hd : c'.journal.discarded = c.journal.discarded)
    (hc : c.isCancelled = true → c'.isCancelled = true)
    (hp : c.phase.isLeaving = true → c'.phase.isLeaving = true) : c'.Dropped := by
  unfold Dropped at hi ⊢
  rw [hd]
  exact hi.imp_right fun h => ⟨h.1, hc h.2.1, hp h.2.2⟩

/-- Nothing was dropped while the dispatcher still goes round. -/
theorem Dropped.discarded_eq (hi : c.Dropped) (hp : c.phase.isLeaving = false) :
    c.journal.discarded = [] := by
  rcases hi with hnone | ⟨-, -, hleaving⟩
  · exact hnone
  · simp [hp] at hleaving

theorem Step.dropped (h : Step script c c') (hi : c.Dropped) : c'.Dropped := by
  cases h with
  | remark hf => cases hf <;> exact hi.congr (by simp [note]) id id
  | cancel => exact hi.congr rfl (fun _ => rfl) id
  | @discard b left hp hleft hc =>
    have hnone := hi.discarded_eq (by simp [hp, Phase.isLeaving])
    refine .inr ⟨⟨b, ?_⟩, hc, rfl⟩
    simp [log, note, hnone]
  | start hp | receive hp | count hp | drain hp | engage hp | launch hp | breakDown hp | report hp
  | relax hp | retire hp =>
    exact hi.congr (by simp [log, note, enter, call, conclude]) id
      (by simp [hp, Phase.isLeaving])
  | heed | abandon | leaveDrain | leaveRun | close =>
    exact hi.congr (by simp [log, note, enter]) id fun _ => rfl
  | _ => exact hi.congr (by simp [note]) id id

/-- The arrivals are the batches that were dispatched, the one that was dropped, what is taken,
and what is buffered. -/
def Partitioned (c : Flow) : Prop :=
  c.journal.arrivals = c.journal.dispatched.flatMap Batch.toList ++
    c.journal.discarded.flatMap Batch.toList ++ c.phase.taken ++ c.mailbox.buffer

theorem Partitioned.congr (hi : c.Partitioned) (ha : c'.journal.arrivals = c.journal.arrivals)
    (hd : c'.journal.dispatched = c.journal.dispatched)
    (hx : c'.journal.discarded = c.journal.discarded)
    (ht : c'.phase.taken ++ c'.mailbox.buffer = c.phase.taken ++ c.mailbox.buffer) :
    c'.Partitioned := by
  unfold Partitioned at hi ⊢
  rw [ha, hd, hx, List.append_assoc, ht, ← List.append_assoc]
  exact hi

theorem Step.partitioned (h : Step script c c') (hx : c.Dropped) (hi : c.Partitioned) :
    c'.Partitioned := by
  cases h with
  | remark hf =>
    cases hf <;> exact hi.congr (by simp [note]) (by simp [note]) (by simp [note]) rfl
  | put hopen hput =>
    obtain rfl := Mailbox.eq_of_put? hput
    unfold Partitioned at hi ⊢
    simp [note, Mailbox.append, hi]
  | join hopen hw =>
    unfold Partitioned at hi ⊢
    simp [note, Mailbox.append, Mailbox.dismiss, hi]
  | enlist | withdraw | forsake | release | draw | cancel | observe | proceed | finish =>
    exact hi.congr (by simp [note]) (by simp [note]) (by simp [note])
      (by simp [note, Mailbox.enlist, Mailbox.dismiss])
  | receive hp hc htake | drain hp htake =>
    have hbuffer := Mailbox.take?_buffer htake
    exact hi.congr (by simp [log, note, enter]) (by simp [log, note, enter])
      (by simp [log, note, enter]) (by simp [hp, hbuffer, log, note, enter, Phase.taken])
  | launch hp | breakDown hp =>
    -- a dropped batch would stand between this one and those dispatched before
    have hnone := hx.discarded_eq (by simp [hp, Phase.isLeaving])
    unfold Partitioned at hi ⊢
    rw [hnone, hp] at hi
    simpa [note, call, hnone, Phase.taken, Mailbox.close] using hi
  | discard hp =>
    unfold Partitioned at hi ⊢
    rw [hp] at hi
    simpa [log, note, Phase.taken] using hi
  | start hp | heed hp | abandon hp | count hp | engage hp | report hp | relax hp | retire hp
  | leaveDrain hp | leaveRun hp | close hp =>
    exact hi.congr (by simp [log, note, enter, conclude]) (by simp [log, note, enter, conclude])
      (by simp [log, note, enter, conclude])
      (by simp [hp, log, note, enter, conclude, Phase.taken, Batch.toList, Mailbox.close])

/-- The batches whose drain is over, in order. -/
def complete (c : Flow) : List Batch :=
  c.journal.dispatched ++ c.journal.discarded ++ c.phase.committed

/-- A dispatch takes its batch from those that are complete. -/
theorem complete_dispatched {b : Batch} (hp : c.phase = .dispatching b) (hx : c.Dropped) :
    c.complete = c.journal.dispatched ++ [b] := by
  have hnone := hx.discarded_eq (by simp [hp, Phase.isLeaving])
  rw [complete, hnone, hp, List.append_nil, Phase.committed]

/-- Each complete batch is what was found when its backlog was counted, and so is the one that is
drained. -/
structure Measured (c : Flow) : Prop where
  counts_eq : c.journal.counts =
    c.complete.map Batch.toList ++ c.phase.prospect c.mailbox.buffer
  left_le : c.phase.left ≤ c.mailbox.buffer.length

theorem Measured.congr (hi : c.Measured) (hcounts : c'.journal.counts = c.journal.counts)
    (hcomplete : c'.complete = c.complete)
    (hprospect : c'.phase.prospect c'.mailbox.buffer = c.phase.prospect c.mailbox.buffer)
    (hleft : c'.phase.left ≤ c'.mailbox.buffer.length) : c'.Measured := by
  refine ⟨?_, hleft⟩
  rw [hcounts, hcomplete, hprospect]
  exact hi.counts_eq

/-- A drain is over only when all of the backlog is taken. -/
theorem Measured.left_eq_zero {b : Batch} {left : Nat} (hi : c.Measured)
    (hp : c.phase = .draining b left) (hleft : left = 0 ∨ c.mailbox.buffer = []) : left = 0 := by
  rcases hleft with hzero | hempty
  · exact hzero
  · have hle := hi.left_le
    rw [hp, hempty, List.length_nil] at hle
    exact Nat.le_zero.mp hle

theorem Step.measured (h : Step script c c') (hx : c.Dropped) (hi : c.Measured) :
    c'.Measured := by
  cases h with
  | remark hf =>
    cases hf <;> exact hi.congr (by simp [note]) (by simp [complete, note]) rfl hi.left_le
  | put hopen hput =>
    -- what is left of the backlog lies within the old buffer
    obtain rfl := Mailbox.eq_of_put? hput
    have hle := hi.left_le
    refine hi.congr (by simp [note]) (by simp [complete, note]) (Phase.prospect_append _ hle) ?_
    simp only [note, Mailbox.append_buffer, List.length_append]
    omega
  | join hopen hw =>
    have hle := hi.left_le
    refine hi.congr (by simp [note]) (by simp [complete, note]) (Phase.prospect_append _ hle) ?_
    simp only [note, Mailbox.append_buffer, List.length_append, Mailbox.dismiss]
    omega
  | release =>
    have hbuffer := c.mailbox.release_buffer
    refine hi.congr rfl rfl ?_ ?_
    · rw [hbuffer]
    · rw [hbuffer]
      exact hi.left_le
  | enlist | withdraw | forsake | draw | cancel | observe | proceed | finish =>
    exact hi.congr (by simp [note]) (by simp [complete, note]) rfl hi.left_le
  | count hp =>
    refine ⟨?_, le_rfl⟩
    have hcounts : c.journal.counts =
        (c.journal.dispatched ++ c.journal.discarded).map Batch.toList := by
      simpa [complete, hp, Phase.committed, Phase.prospect] using hi.counts_eq
    simp [complete, note, Phase.committed, Phase.prospect, Batch.toList, hcounts]
  | @drain b left next mailbox hp htake =>
    have hbuffer := Mailbox.take?_buffer htake
    obtain ⟨hcounts, hle⟩ := hi
    rw [complete, hp, hbuffer] at hcounts
    rw [hp, hbuffer] at hle
    refine ⟨?_, Nat.le_of_succ_le_succ hle⟩
    simpa [complete, log, note, Phase.committed, Phase.prospect] using hcounts
  | discard hp hleft hc | engage hp hleft hc =>
    obtain rfl := hi.left_eq_zero hp hleft
    refine ⟨?_, Nat.zero_le _⟩
    have hcounts := hi.counts_eq
    rw [complete, hp] at hcounts
    simpa [complete, log, note, enter, Phase.committed, Phase.prospect] using hcounts
  | launch hp | breakDown hp =>
    refine hi.congr (by simp [note, call]) ?_ (by simp [note, call, hp, Phase.prospect])
      (Nat.zero_le _)
    have hnone := hx.discarded_eq (by simp [hp, Phase.isLeaving])
    rw [complete_dispatched hp hx]
    simp [complete, note, call, hnone, Phase.committed]
  | start hp | heed hp | abandon hp | receive hp | report hp | relax hp | retire hp | leaveDrain hp
  | leaveRun hp | close hp =>
    exact hi.congr (by simp [log, note, enter, conclude])
      (by simp [complete, log, note, enter, conclude, hp, Phase.committed])
      (by simp [log, note, enter, conclude, hp, Phase.prospect]) (Nat.zero_le _)

/-- Each time a request took the place of another, that was logged. -/
def Chained (c : Flow) : Prop :=
  c.journal.replaced = (c.complete ++ c.phase.drained).flatMap Batch.successions

theorem Chained.congr (hi : c.Chained) (hr : c'.journal.replaced = c.journal.replaced)
    (hb : c'.complete ++ c'.phase.drained = c.complete ++ c.phase.drained) : c'.Chained := by
  unfold Chained at hi ⊢
  rw [hr, hb]
  exact hi

theorem Step.chained (h : Step script c c') (hx : c.Dropped) (hi : c.Chained) :
    c'.Chained := by
  cases h with
  | remark hf =>
    have hsilent := History.gather_concat_of_eq_none c.journal hf.replaced_eq_none
    cases hf <;> exact hi.congr hsilent (by simp [complete, note])
  | count hp =>
    have hreplaced : c.journal.replaced =
        (c.journal.dispatched ++ c.journal.discarded).flatMap Batch.successions := by
      simpa [Chained, complete, hp, Phase.committed, Phase.drained] using hi
    unfold Chained
    simp [complete, note, Phase.committed, Phase.drained, Batch.successions, Batch.toList,
      hreplaced]
  | drain hp htake =>
    unfold Chained at hi ⊢
    rw [complete, hp] at hi
    simp [complete, log, note, Phase.committed, Phase.drained, Batch.successions_push, hi]
  | discard hp | engage hp =>
    refine hi.congr (by simp [log, note, enter]) ?_
    simp [complete, log, note, enter, hp, Phase.committed, Phase.drained]
  | launch hp | breakDown hp =>
    have hnone := hx.discarded_eq (by simp [hp, Phase.isLeaving])
    refine hi.congr (by simp [note, call]) ?_
    rw [complete_dispatched hp hx, hp]
    simp [complete, note, call, hnone, Phase.committed, Phase.drained]
  | @report b run elapsed hp =>
    refine hi.congr ?_ (by simp [complete, log, note, hp, Phase.committed, Phase.drained])
    simp only [log, note, verdict]
    split <;> simp
  | start hp | heed hp | abandon hp | receive hp | relax hp | retire hp | leaveDrain hp
  | leaveRun hp | close hp =>
    exact hi.congr (by simp [log, note, enter, conclude])
      (by simp [complete, log, note, enter, conclude, hp, Phase.committed, Phase.drained])
  | _ => exact hi.congr (by simp [note]) (by simp [complete, note])

/-- Reports name the winners in the order of the dispatches. -/
def Named (c : Flow) : Prop :=
  c.journal.reported ++ c.phase.unreported = c.journal.dispatched.map Batch.latest

theorem Named.congr (hi : c.Named) (hd : c'.journal.dispatched = c.journal.dispatched)
    (hr : c'.journal.reported ++ c'.phase.unreported =
      c.journal.reported ++ c.phase.unreported) : c'.Named := by
  unfold Named at hi ⊢
  rw [hd, hr]
  exact hi

theorem reported_verdict (b : Batch) (ending : Ending) (elapsed : Nat) (span : Option Span) :
    Fact.reported? (.logged ⟨verdict b ending elapsed, span⟩) = some b.latest := by
  unfold verdict
  split <;> rfl

theorem Step.named (h : Step script c c') (hi : c.Named) : c'.Named := by
  cases h with
  | remark hf =>
    have hsilent := History.gather_concat_of_eq_none c.journal hf.reported_eq_none
    cases hf <;> exact hi.congr (by simp [note]) (congrArg (· ++ c.phase.unreported) hsilent)
  | launch hp | breakDown hp =>
    unfold Named at hi ⊢
    rw [hp] at hi
    simpa [note, call, Phase.unreported] using hi
  | @report b run elapsed hp =>
    have hnamed := reported_verdict b run.plan.ending elapsed (some b.span)
    refine hi.congr (by simp [log, note]) ?_
    simpa [log, note, hp, Phase.unreported] using hnamed
  | start hp | heed hp | abandon hp | receive hp | count hp | drain hp | discard hp | engage hp
  | relax hp | retire hp | leaveDrain hp | leaveRun hp | close hp =>
    exact hi.congr (by simp [log, note, enter, conclude])
      (by simp [log, note, enter, conclude, hp, Phase.unreported])
  | _ => exact hi.congr (by simp [note]) (by simp [note])

theorem Step.caught (h : Step script c c') (hx : c.Dropped) (hd : c.Partitioned)
    (hi : c.journal.Always Caught) : c'.journal.Always Caught := by
  refine h.always ?_ ?_ (fun _ _ => trivial) (fun _ _ _ _ => trivial) (fun _ _ => trivial) hi
  · intro before f hf
    cases f <;> trivial
  · intro first hp
    have hnone := hx.discarded_eq (by simp [hp, Phase.isLeaving])
    unfold Partitioned at hd
    rw [hnone, hp] at hd
    simpa [Caught, Phase.taken] using hd

theorem Reachable.dropped (h : Reachable script c) : c.Dropped :=
  h.keeps (fun _ => .inl rfl) fun _ hs hi => hs.dropped hi

theorem Reachable.partitioned (h : Reachable script c) : c.Partitioned :=
  h.keeps (fun _ => rfl) fun ha hs hi => hs.partitioned ha.dropped hi

theorem Reachable.measured (h : Reachable script c) : c.Measured :=
  h.keeps (fun _ => ⟨rfl, le_rfl⟩) fun ha hs hi => hs.measured ha.dropped hi

theorem Reachable.chained (h : Reachable script c) : c.Chained :=
  h.keeps (fun _ => rfl) fun ha hs hi => hs.chained ha.dropped hi

theorem Reachable.named (h : Reachable script c) : c.Named :=
  h.keeps (fun _ => rfl) fun _ hs hi => hs.named hi

theorem Reachable.caught (h : Reachable script c) : c.journal.Always Caught :=
  h.keeps (fun _ => History.always_nil Caught)
    fun ha hs hi => hs.caught ha.dropped ha.partitioned hi

end Flow

namespace Queue

variable {script : WorkScript} {q : Queue}

/-- How the requests that entered a queue are cut into batches, and what became of each. -/
structure Coalesces (q : Queue) : Prop where
  /-- Batches that were dispatched, the one that is drained or was dropped, and the rest. -/
  arrivals_eq : q.flow.journal.arrivals =
    q.flow.journal.dispatched.flatMap Batch.toList ++
      (q.flow.journal.discarded.flatMap Batch.toList ++ q.phase.taken) ++ q.mailbox.buffer
  dropped : q.flow.journal.discarded = [] ∨
    (∃ b, q.flow.journal.discarded = [b]) ∧ q.isCancelled = true ∧ q.phase.taken = []
  calls_eq : q.calls = q.flow.journal.dispatched.length
  /-- Each call is made for the last request of its batch. -/
  reported_eq : q.flow.journal.reported ++ q.phase.unreported =
    q.flow.journal.dispatched.map Batch.latest
  lastDispatched_eq : q.stats.lastDispatched =
    q.flow.journal.dispatched.getLast?.map (·.latest.id)
  /-- All the others are superseded. -/
  superseded_eq : q.stats.superseded = (q.flow.journal.dispatched.flatMap Batch.older).length
  replaced_eq : q.flow.journal.replaced =
    (q.flow.complete ++ q.phase.drained).flatMap Batch.successions
  /-- A batch is what was found when the backlog was counted, and comes to nothing else. -/
  counts_eq : q.flow.journal.counts =
    q.flow.complete.map Batch.toList ++ q.phase.prospect q.mailbox.buffer
  caught : q.flow.journal.Always Caught

/-- Whatever happens to a queue, the last one of each batch wins. -/
theorem coalesces (h : Reachable script q) : q.Coalesces := by
  have hf := h.flow
  have harrivals : q.flow.journal.arrivals = _ := hf.partitioned
  constructor
  · rw [harrivals, List.append_assoc, List.append_assoc, List.append_assoc, List.append_assoc]
    rfl
  · rcases hf.dropped with hnone | ⟨hone, hcancelled, hleaving⟩
    · exact .inl hnone
    · exact .inr ⟨hone, hcancelled, Phase.taken_of_isLeaving hleaving⟩
  · exact hf.tally.calls_eq
  · exact hf.named
  · exact hf.tally.last_eq
  · exact hf.tally.superseded_eq
  · exact hf.chained
  · exact hf.measured.counts_eq
  · exact hf.caught

/-- A run that takes a while. -/
def patient : WorkScript := .ofList [] (.run { duration := 5 })

/-- A request enters while the backlog is drained. -/
def interrupted : Queue :=
  let late : Hook := { message := "request superseded", actions := [.add ⟨"late"⟩ 0] }
  let q : Queue := { config := { capacity := 3 }, mailbox := { free := 3 }, hooks := [late] }
  (q.act patient (.burst [⟨"a"⟩, ⟨"b"⟩, ⟨"c"⟩] 0)).2.settle patient

theorem reachable_interrupted : Reachable patient interrupted := by
  have hcapacity : (3 : Nat) ≤ QueueConfig.maxCapacity := by decide
  exact ((Reachable.new hcapacity _).act ⟨rfl, rfl, rfl⟩ _).settle

/-- A request that enters during the drain is left for the next batch. -/
theorem coalesces_interrupted : Reachable patient interrupted ∧
    interrupted.flow.journal.arrivals = [⟨"a"⟩, ⟨"b"⟩, ⟨"c"⟩, ⟨"late"⟩] ∧
    interrupted.flow.journal.dispatched = [⟨[⟨"a"⟩, ⟨"b"⟩], ⟨"c"⟩⟩] ∧
    interrupted.mailbox.buffer = [⟨"late"⟩] ∧ interrupted.Coalesces :=
  ⟨reachable_interrupted, by decide, by decide, by decide, coalesces reachable_interrupted⟩

end Queue
end CoalescingQueue
