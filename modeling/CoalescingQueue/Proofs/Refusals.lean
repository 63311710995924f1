import CoalescingQueue.Proofs.Metering
import CoalescingQueue.Proofs.Release
import CoalescingQueue.Proofs.Replies

/-!
# Refused calls leave nothing behind

A call that had to wait and was accepted has made one entry, and one that was refused has made none
and took back what it had counted. The mailbox, the counters and the metric of accepted requests are
made up of the entries and of what the dispatcher did with them, and no refused call has a part in
them. Others may notice it all the same: a slot that it had for a while was not given to them, so a
run without the call can go differently, and it does in the example at the end.
-/
namespace CoalescingQueue

/-- Something that became of a request that has entered, or that it has entered. -/
def Fact.isEffect : Fact → Bool
  | .admitted _ | .dispatched _ | .discarded _ | .concluded _ _ => true
  | _ => false

/-- What is no effect is read by none of these. -/
theorem Fact.eq_none_of_isEffect {f : Fact} (hf : f.isEffect = false) :
    f.admitted? = none ∧ f.dispatched? = none ∧ f.discarded? = none ∧ f.outcome? = none ∧
    f.measurement? = none := by
  cases f with
  | admitted | dispatched | discarded | concluded => contradiction
  | _ => exact ⟨rfl, rfl, rfl, rfl, rfl⟩

namespace History

/-- What is left of a history without the calls, their announcements and their answers. -/
def effects (h : History) : History := h.filter Fact.isEffect

/-- A reading of effects does without everything else. -/
theorem gather_effects {α : Type} {kind : Fact → Option α}
    (hkind : ∀ f : Fact, f.isEffect = false → kind f = none) (h : History) :
    h.effects.gather kind = h.gather kind := by
  induction h with
  | nil => rfl
  | cons f h ih =>
    cases hf : f.isEffect with
    | true =>
      rw [effects, List.filter_cons_of_pos hf, gather_cons, gather_cons]
      exact congrArg _ ih
    | false =>
      rw [effects, List.filter_cons_of_neg (Bool.eq_false_iff.mp hf), gather_cons, hkind f hf]
      exact ih

/-- The entries of a call that had to wait. -/
def entriesOf (h : History) (ticket : Nat) : List (Option Nat × Request) :=
  h.entries.filter (·.1 = some ticket)

end History

namespace Queue

variable {script script' : WorkScript} {terms : Terms} {q q' : Queue}

/-! ## Calls that had to wait -/

/-- What has become of a call that had to wait, and of its request. -/
inductive Fares (q : Queue) (ticket : Nat) (r : Request) : Prop
  | waits {w : Waiter} (hw : w ∈ q.mailbox.calls) (hticket : w.ticket = ticket)
      (hrequest : w.request = r) (hnone : q.flow.journal.entriesOf ticket = [])
  | accepted {time : Nat} (hended : .ended ticket .accepted time ∈ q.flow.journal)
      (hone : q.flow.journal.entriesOf ticket = [(some ticket, r)])
  | refused {time : Nat} (hended : .ended ticket .refused time ∈ q.flow.journal)
      (hnone : q.flow.journal.entriesOf ticket = [])
  | forsaken (hgone : .forsaken ticket ∈ q.flow.journal)
      (hnone : q.flow.journal.entriesOf ticket = [])

variable {ticket : Nat} {r : Request}

/-- A call that stays on the list, if it is there, and makes no entry. -/
theorem Fares.keep (h : q.Fares ticket r) (hjournal : q.flow.journal <+: q'.flow.journal)
    (hcalls : ∀ w ∈ q.mailbox.calls, w.ticket = ticket → w ∈ q'.mailbox.calls)
    (hentries : q'.flow.journal.entriesOf ticket = q.flow.journal.entriesOf ticket) :
    q'.Fares ticket r := by
  cases h with
  | waits hw hticket hrequest hnone =>
    exact .waits (hcalls _ hw hticket) hticket hrequest (hentries.trans hnone)
  | accepted hended hone => exact .accepted (hjournal.subset hended) (hentries.trans hone)
  | refused hended hnone => exact .refused (hjournal.subset hended) (hentries.trans hnone)
  | forsaken hgone hnone => exact .forsaken (hjournal.subset hgone) (hentries.trans hnone)

/-- What the decision of a call that waits leaves behind. -/
structure Decided (q : Queue) (w : Waiter) : Prop where
  refused : ∀ q', q.decide? w = some (.refused, q') →
    q'.mailbox.buffer = q.mailbox.buffer ∧ q'.samples = q.samples ∧
    q'.flow.journal = q.flow.journal ∧
    q.stats = { q'.stats with enqueued := q'.stats.enqueued + 1 }
  accepted : ∀ q', q.decide? w = some (.accepted, q') →
    q'.mailbox.buffer = q.mailbox.buffer ++ [w.request] ∧
    q'.samples = q.samples ++ [⟨q.config.name, .enqueued⟩] ∧
    q'.flow.journal = q.flow.journal ++ [.admitted w.request] ∧ q'.stats = q.stats

theorem Reachable.decided (h : Reachable script q) {w : Waiter} (hw : w ∈ q.mailbox.waiting) :
    q.Decided w := by
  constructor
  · intro q' hd
    have hq' : q' = q.withdraw w := by
      unfold decide? at hd
      grind
    obtain ⟨more, heq⟩ := leave_more { q with stats := q.stats.retractOffer } w
    have hcounted : q.stats.enqueued = q.stats.retractOffer.enqueued + 1 :=
      (h.flow.balanced.retract_eq w hw).symm
    rw [hq', withdraw, heq]
    refine ⟨?_, rfl, rfl, ?_⟩
    · dsimp only
      split
      · exact Mailbox.release_buffer _
      · rfl
    · show q.stats = { q.stats with enqueued := q.stats.retractOffer.enqueued + 1 }
      rw [← hcounted]
  · intro q' hd
    have hq' : q' = q.enter w := by
      unfold decide? at hd
      grind
    obtain ⟨more, heq⟩ := q.enter_more w
    have hjournal : (q.enter w).flow.journal = q.flow.journal ++ [.admitted w.request] := by
      rw [heq]
      exact q.note_journal _
    have hname : (q.enter w).config.name = q.config.name := by rw [heq]
    have hsamples := samples_append q (q.enter w) hname hjournal
    rw [hq']
    refine ⟨?_, hsamples, hjournal, ?_⟩
    · rw [heq]
      rfl
    · rw [heq]

/-! ## Nothing is left of a refused call -/

/-- Where the mailbox, the counters and the metric come from: from the entries, from what the
dispatcher did with them, and from the calls that are undecided. -/
structure Accounted (q : Queue) : Prop where
  contents : q.flow.journal.entries.map Prod.snd =
    q.flow.journal.dispatched.flatMap Batch.toList ++
      q.flow.journal.discarded.flatMap Batch.toList ++ q.phase.taken ++ q.mailbox.buffer
  stats : q.stats = {
    enqueued := q.flow.journal.entries.length + q.flow.undecided
    executed := q.flow.journal.outcomes.length
    succeeded := q.flow.journal.outcomes.count true
    failed := q.flow.journal.outcomes.count false
    superseded := (q.flow.journal.dispatched.flatMap Batch.older).length
    lastDispatched := q.flow.journal.dispatched.getLast?.map (·.latest.id) }
  metric : ∀ s, q.Exports .enqueued ⟨q.config.name, none⟩ s ↔
    s = .counter q.flow.journal.entries.length ∧ 0 < q.flow.journal.entries.length

theorem Reachable.accounted (h : Reachable script q) : q.Accounted := by
  have hlength : q.flow.journal.entries.length = q.flow.journal.arrivals.length := by
    rw [← History.map_entries, List.length_map]
  constructor
  · rw [History.map_entries]
    exact h.flow.partitioned
  · have hcounted : q.stats.enqueued = q.flow.journal.arrivals.length + q.flow.undecided :=
      h.flow.counted
    have htally := h.flow.tally
    rw [hlength, ← hcounted, ← htally.executed_eq, ← htally.succeeded_eq, ← htally.failed_eq,
      ← htally.superseded_eq, ← htally.last_eq]
    rfl
  · intro s
    rw [hlength, ← History.total_entering]
    exact exports_counter_iff (Fact.contributed_enqueued q.config.name)

/-- In two runs in which the same became of the same requests, and as many calls are undecided, it
makes no difference which calls were refused. -/
theorem Reachable.untraced (h : Reachable script q) (h' : Reachable script' q')
    (heffects : q'.flow.journal.effects = q.flow.journal.effects)
    (htaken : q'.phase.taken = q.phase.taken)
    (hundecided : q'.flow.undecided = q.flow.undecided) :
    q'.mailbox.buffer = q.mailbox.buffer ∧ q'.stats = q.stats ∧
    (q'.config.name = q.config.name → q'.samples = q.samples) := by
  have hread {α : Type} (kind : Fact → Option α)
      (hkind : ∀ f : Fact, f.isEffect = false → kind f = none) :
      q'.flow.journal.gather kind = q.flow.journal.gather kind := by
    rw [← History.gather_effects hkind, heffects, History.gather_effects hkind]
  have hdispatched : q'.flow.journal.dispatched = q.flow.journal.dispatched :=
    hread _ fun f hf => (Fact.eq_none_of_isEffect hf).2.1
  have hdiscarded : q'.flow.journal.discarded = q.flow.journal.discarded :=
    hread _ fun f hf => (Fact.eq_none_of_isEffect hf).2.2.1
  have houtcomes : q'.flow.journal.outcomes = q.flow.journal.outcomes :=
    hread _ fun f hf => (Fact.eq_none_of_isEffect hf).2.2.2.1
  have hmeasured := hread Fact.measurement? fun f hf => (Fact.eq_none_of_isEffect hf).2.2.2.2
  have hentered : q'.flow.journal.entries.map Prod.snd = q.flow.journal.entries.map Prod.snd := by
    rw [History.map_entries, History.map_entries]
    exact hread _ fun f hf => (Fact.eq_none_of_isEffect hf).1
  refine ⟨?_, ?_, fun hname => ?_⟩
  · have hcontents := h'.accounted.contents
    rw [hentered, h.accounted.contents, hdispatched, hdiscarded, htaken] at hcontents
    exact (List.append_cancel_left hcontents).symm
  · have hlength := congrArg List.length hentered
    rw [List.length_map, List.length_map] at hlength
    rw [h'.accounted.stats, h.accounted.stats, hlength, hundecided, houtcomes, hdispatched]
  · show (q'.flow.journal.gather Fact.measurement?).map _ = _
    rw [hmeasured, hname]
    rfl

/-- Once requests are no longer taken in, they never are again. -/
theorem Later.isGoing (hl : Later script q q') (h : Reachable script q) (hg : q'.IsGoing) :
    q.IsGoing := by
  induction hl with
  | refl => exact hg
  | @tail b c hl hm ih =>
    have hb := h.later hl
    have htrack : Track {} b c := hm.track hb hb.orderly (.inl rfl) (.inl rfl)
    exact ih (htrack.keeps (P := fun a => a.IsGoing → b.IsGoing)
      (fun _ hs hi hg => hi (hs.traffic.isGoing hg)) id hg)

/-- A run of some milliseconds, and then a work function that breaks down. -/
def brittle : WorkScript := .ofList [.run { duration := 5 }, .breakdown] (.run {})

/-- A run is in flight, and a request fills the mailbox. -/
def engaged : Queue :=
  let q : Queue := {
    config := { capacity := 1, capacity_pos := Nat.one_pos }
    mailbox := { free := 1 } }
  let busy := (q.act brittle (.add ⟨"a"⟩ 0)).2.settle brittle
  (busy.act brittle (.add ⟨"b"⟩ 0)).2

end Queue
end CoalescingQueue
