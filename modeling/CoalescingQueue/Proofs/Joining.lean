import CoalescingQueue.Proofs.Driving

/-!
# Tasks join in the order of their tickets

Of the tasks that wait at some moment, those that have joined since come first in the order of their
tickets, when those that went away by themselves are left out: as long as requests are taken in, the
others wait behind them, and later nobody joins any more. Threads may join in between.
-/
namespace CoalescingQueue

/-- The tickets of the calls that had to wait and have entered, in the order of their entries. -/
def History.entered (h : History) : List Nat := h.entries.filterMap Prod.fst

namespace History

theorem entries_eq_nil {facts : History} (h : ∀ f ∈ facts, f.admitted? = none) :
    facts.entries = [] := by
  induction facts with
  | nil => rw [entries]
  | cons f facts ih =>
    rw [List.forall_mem_cons] at h
    rw [entries_cons_of_admitted_eq_none h.1]
    exact ih h.2

/-- Entries are not changed by what is about none. -/
theorem entries_append_unrelated {facts : History} (h : History)
    (hfacts : ∀ f ∈ facts, f.admitted? = none ∧ f.accepted? = none) :
    (h ++ facts).entries = h.entries := by
  have hhead : ∀ f ∈ facts.head?, f.accepted? = none :=
    fun f hf => (hfacts f (List.mem_of_mem_head? hf)).2
  rw [entries_append h hhead, entries_eq_nil fun f hf => (hfacts f hf).1, List.append_nil]

theorem entered_append {facts : History} (h : History)
    (hfacts : ∀ f ∈ facts, f.admitted? = none ∧ f.accepted? = none) :
    (h ++ facts).entered = h.entered := by
  rw [entered, entries_append_unrelated h hfacts, entered]

theorem entered_admitted (h : History) (r : Request) :
    (h ++ [Fact.admitted r]).entered = h.entered := by
  rw [entered, entries_concat h rfl, List.filterMap_append, entered]
  exact List.append_nil _

theorem entered_join (h : History) (r : Request) (ticket time : Nat) :
    (h ++ [Fact.admitted r] ++ [Fact.ended ticket .accepted time]).entered =
      h.entered ++ [ticket] := by
  rw [entered, entries_join, List.filterMap_append, entered]
  rfl

/-- A call that has entered is over. -/
theorem entered_subset_over (h : History) : h.entered ⊆ h.over := by
  intro ticket hmem
  obtain ⟨⟨ticket', r⟩, hentry, hticket⟩ := List.mem_filterMap.mp hmem
  obtain rfl : ticket' = some ticket := hticket
  obtain ⟨time, hended⟩ := accepted_of_mem_entries hentry
  exact List.mem_filterMap.mpr ⟨_, hended, rfl⟩

theorem forsaken_subset_over (h : History) : h.forsaken ⊆ h.over := by
  intro ticket hmem
  obtain ⟨f, hf, hticket⟩ := List.mem_filterMap.mp hmem
  refine List.mem_filterMap.mpr ⟨f, hf, ?_⟩
  cases f with
  | forsaken ticket' => exact hticket
  | _ => contradiction

end History

namespace Mailbox

theorem tasks_eq (m : Mailbox) : m.tasks = (m.calls.filter (·.caller = .task)).map (·.ticket) := by
  unfold tasks calls
  rw [List.filter_map, List.map_map]
  rfl

theorem tasks_congr {m m' : Mailbox} (h : m'.calls = m.calls) : m'.tasks = m.tasks := by
  rw [tasks_eq, h, ← tasks_eq]

end Mailbox

namespace Queue

variable {script : WorkScript} {terms : Terms} {q q' : Queue} {a b : Bool × Queue}

/-- What has become of tasks that waited once, all of whose tickets were drawn before. -/
structure Trails (tasks : List Nat) (tickets : Nat) (q : Queue) : Prop where
  tickets_le : tickets ≤ q.tickets
  caller_eq : ∀ w ∈ q.mailbox.waiting, w.ticket ∈ tasks → w.caller = .task
  /-- As long as requests are taken in, they have entered, and the others wait behind them. -/
  split_eq : q.IsGoing → tasks.filter (· ∉ q.flow.journal.forsaken) =
    q.flow.journal.entered.filter (· ∈ tasks) ++ q.mailbox.tasks.filter (· ∈ tasks)
  entered : q.flow.journal.entered.filter (· ∈ tasks) <+: tasks.filter (· ∉ q.flow.journal.forsaken)

variable {tasks : List Nat} {tickets : Nat}

theorem trails_self (ho : q.Orderly) : q.Trails q.mailbox.tasks q.tickets := by
  have hfresh {ticket : Nat} (hmem : ticket ∈ q.mailbox.tasks) : ticket ∉ q.flow.journal.over := by
    obtain ⟨w, hw, -, rfl⟩ := Mailbox.mem_tasks.mp hmem
    exact ho.notMem_over hw
  have hentered : q.flow.journal.entered.filter (· ∈ q.mailbox.tasks) = [] := by
    refine List.filter_eq_nil_iff.mpr fun ticket hin hmem => ?_
    exact hfresh (of_decide_eq_true hmem) (q.flow.journal.entered_subset_over hin)
  have hforsaken : q.mailbox.tasks.filter (· ∉ q.flow.journal.forsaken) = q.mailbox.tasks := by
    refine List.filter_eq_self.mpr fun ticket hmem => decide_eq_true fun hin => ?_
    exact hfresh hmem (q.flow.journal.forsaken_subset_over hin)
  have htasks : q.mailbox.tasks.filter (· ∈ q.mailbox.tasks) = q.mailbox.tasks :=
    List.filter_eq_self.mpr fun ticket hmem => decide_eq_true hmem
  refine ⟨le_rfl, fun w hw hmem => ?_, fun _ => ?_, ?_⟩
  · obtain ⟨v, hv, htask, hticket⟩ := Mailbox.mem_tasks.mp hmem
    obtain rfl := List.inj_on_of_nodup_map ho.nodup hv hw hticket
    exact htask
  · rw [hentered, hforsaken, htasks, List.nil_append]
  · rw [hentered]
    exact List.nil_prefix

/-- Nobody comes to wait under a ticket that was drawn before, and nobody becomes another caller. -/
theorem Shift.trails_callers (h : Shift terms q q') (hdrawn : ∀ t ∈ tasks, t < tickets)
    (hi : q.Trails tasks tickets) : tickets ≤ q'.tickets ∧
      ∀ w ∈ q'.mailbox.waiting, w.ticket ∈ tasks → w.caller = .task := by
  refine h.turnovers.keeps (P := fun p => tickets ≤ p.1 ∧ ∀ w ∈ p.2, w.ticket ∈ tasks →
    w.caller = .task) (fun ht hp => ?_) ⟨hi.tickets_le, hi.caller_eq⟩
  obtain ⟨hle, hcaller⟩ := hp
  cases ht with
  | @enlist w hticket hslot =>
    refine ⟨Nat.le_succ_of_le hle, fun v hv hmem => ?_⟩
    rcases List.mem_append.mp hv with hold | hnew
    · exact hcaller v hold hmem
    · rw [List.mem_singleton.mp hnew] at hmem
      have hlt := hdrawn _ hmem
      omega
  | draw => exact ⟨Nat.le_succ_of_le hle, hcaller⟩
  | dismiss => exact ⟨hle, fun v hv => hcaller v (List.mem_filter.mp hv).1⟩
  | @grant g ws hg =>
    refine ⟨hle, fun v hv hmem => ?_⟩
    rcases Mailbox.mem_grantFirst hg hv with hold | ⟨hin, -, rfl⟩
    · exact hcaller v hold hmem
    · exact hcaller g hin hmem

/-- A task that joins in its turn has waited longest. -/
theorem Poised.tasks_eq {paused : Bool} (h : q.Poised paused) {w : Waiter}
    (hw : w ∈ q.mailbox.waiting) (hslot : w.hasSlot = true) (htask : w.caller = .task)
    (hgoing : q.IsGoing) (hturn : q.turn = some (.producer w.ticket)) :
    q.mailbox.tasks = w.ticket :: (q.mailbox.dismiss w.ticket).tasks := by
  have hsorted := h.ranked.tasks_sorted
  have hmem : w.ticket ∈ q.mailbox.tasks := Mailbox.mem_tasks.mpr ⟨w, hw, htask, rfl⟩
  have hgiven : w.ticket ∈ q.mailbox.given := Mailbox.mem_given.mpr ⟨w, hw, htask, hslot, rfl⟩
  have hleast := (h.lined hgoing).least _ hturn hgiven
  rw [Mailbox.tasks_dismiss]
  cases htasks : q.mailbox.tasks with
  | nil =>
    rw [htasks] at hmem
    contradiction
  | cons first rest =>
    rw [htasks] at hsorted hmem hleast
    obtain ⟨hfirst, -⟩ := List.pairwise_cons.mp hsorted
    have hle := hleast first List.mem_cons_self
    have heq : first = w.ticket := by
      rcases List.mem_cons.mp hmem with heq | hrest
      · exact heq.symm
      · have hlt := hfirst _ hrest
        omega
    have hothers : rest.filter (· ≠ w.ticket) = rest := by
      refine List.filter_eq_self.mpr fun t ht => decide_eq_true ?_
      have hlt := hfirst t ht
      omega
    rw [heq, List.filter_cons_of_neg (by simp), hothers]

theorem Shift.trails {paused offering : Bool} (h : Shift (driving paused offering) q q')
    (ho : q.Orderly) (hp : q.Poised paused) (hdrawn : ∀ t ∈ tasks, t < tickets)
    (hi : q.Trails tasks tickets) : q'.Trails tasks tickets := by
  obtain ⟨hle, hcaller⟩ := h.trails_callers hdrawn hi
  obtain ⟨hgoing, -, hpassage⟩ := h.traffic
  obtain ⟨-, -, hsplit, hentered⟩ := id hi
  have hkept (htasks : q'.mailbox.tasks.filter (· ∈ tasks) = q.mailbox.tasks.filter (· ∈ tasks))
      (hin : q'.flow.journal.entered = q.flow.journal.entered)
      (hout : q'.flow.journal.forsaken = q.flow.journal.forsaken) : q'.Trails tasks tickets := by
    refine ⟨hle, hcaller, fun hg => ?_, ?_⟩
    · rw [htasks, hin, hout]
      exact hsplit (hgoing hg)
    · rw [hin, hout]
      exact hentered
  have hout (facts : History) (hfacts : ∀ f ∈ facts, f.forsaken? = none) :
      (q.flow.journal ++ facts).forsaken = q.flow.journal.forsaken := by
    rw [History.forsaken, History.gather_append]
    exact (congrArg _ (List.filterMap_eq_nil_iff.mpr hfacts)).trans (List.append_nil _)
  cases hpassage with
  | still facts hcalls hjournal hfacts =>
    refine hkept ?_ ?_ ?_
    · rw [Mailbox.tasks_congr hcalls]
    · rw [hjournal]
      exact History.entered_append _ fun f hf => ⟨(hfacts f hf).1, (hfacts f hf).2.1⟩
    · rw [hjournal]
      exact hout facts fun f hf => (hfacts f hf).2.2.1
  | put r hoffering hcalls hjournal =>
    refine hkept ?_ ?_ ?_
    · rw [Mailbox.tasks_congr hcalls]
    · rw [hjournal]
      exact History.entered_admitted _ r
    · rw [hjournal]
      exact hout [.admitted r] (by simp)
  | @enlist w hoffering hticket hcalls hjournal =>
    refine hkept ?_ (by rw [hjournal]) (by rw [hjournal])
    have hnew : w.ticket ∉ tasks := by
      intro hmem
      have hlt := hdrawn _ hmem
      have hle := hi.tickets_le
      omega
    rw [Mailbox.tasks_congr hcalls, Mailbox.tasks_enlist, List.filter_append]
    split
    · simp [hnew]
    · simp
  | @join w hopen hw hslot htask hcalls hjournal =>
    have hin : q'.flow.journal.entered = q.flow.journal.entered ++ [w.ticket] := by
      rw [hjournal]
      exact History.entered_join _ w.request w.ticket q.now
    have hout : q'.flow.journal.forsaken = q.flow.journal.forsaken := by
      rw [hjournal, List.append_assoc]
      exact hout [.admitted w.request, .ended w.ticket .accepted q.now] (by simp)
    have htasks := Mailbox.tasks_congr hcalls
    by_cases hmem : w.ticket ∈ tasks
    · have hcaller' := hi.caller_eq w hw hmem
      obtain ⟨hc, hturn⟩ := htask hcaller'
      have hgoing' : q.IsGoing := ⟨hc, hopen⟩
      -- it is the first of those that are left
      have hnext : tasks.filter (· ∉ q'.flow.journal.forsaken) =
          q'.flow.journal.entered.filter (· ∈ tasks) ++ q'.mailbox.tasks.filter (· ∈ tasks) := by
        rw [hout, hsplit hgoing', hp.tasks_eq hw hslot hcaller' hgoing' hturn, hin, htasks,
          List.filter_append, List.append_assoc]
        simp [hmem]
      exact ⟨hle, hcaller, fun _ => hnext, hnext ▸ List.prefix_append _ _⟩
    · have hsame : q'.flow.journal.entered.filter (· ∈ tasks) =
          q.flow.journal.entered.filter (· ∈ tasks) := by
        rw [hin, List.filter_append]
        simp [hmem]
      have hothers : q'.mailbox.tasks.filter (· ∈ tasks) = q.mailbox.tasks.filter (· ∈ tasks) := by
        rw [htasks, Mailbox.tasks_dismiss, List.filter_filter]
        refine List.filter_congr fun t _ => ?_
        by_cases ht : t ∈ tasks
        · have hne : t ≠ w.ticket := fun heq => hmem (heq ▸ ht)
          simp [ht, hne]
        · simp [ht]
      refine ⟨hle, hcaller, fun hg => ?_, ?_⟩
      · rw [hsame, hothers, hout]
        exact hsplit (hgoing hg)
      · rw [hsame, hout]
        exact hentered
  | @refuse w hw hnot hcalls hjournal =>
    have hin : q'.flow.journal.entered = q.flow.journal.entered := by
      rw [hjournal]
      exact History.entered_append _ (by simp)
    have hout : q'.flow.journal.forsaken = q.flow.journal.forsaken := by
      rw [hjournal]
      exact hout [.ended w.ticket .refused q.now] (by simp)
    refine ⟨hle, hcaller, fun hg => absurd (hgoing hg) hnot, ?_⟩
    rw [hin, hout]
    exact hentered
  | @forsake w hlossy hw hcalls hjournal =>
    have hin : q'.flow.journal.entered = q.flow.journal.entered := by
      rw [hjournal]
      exact History.entered_append _ (by simp)
    have hout : q'.flow.journal.forsaken = q.flow.journal.forsaken ++ [w.ticket] := by
      rw [hjournal, History.forsaken, History.gather_append]
      rfl
    have hleft : tasks.filter (· ∉ q'.flow.journal.forsaken) =
        (tasks.filter (· ∉ q.flow.journal.forsaken)).filter (· ≠ w.ticket) := by
      rw [hout, List.filter_filter]
      refine List.filter_congr fun t _ => ?_
      simp [Bool.and_comm]
    -- whoever goes away has not entered
    have hsame : (q.flow.journal.entered.filter (· ∈ tasks)).filter (· ≠ w.ticket) =
        q.flow.journal.entered.filter (· ∈ tasks) := by
      refine List.filter_eq_self.mpr fun t ht => decide_eq_true ?_
      rintro rfl
      exact ho.notMem_over hw (q.flow.journal.entered_subset_over (List.mem_filter.mp ht).1)
    refine ⟨hle, hcaller, fun hg => ?_, ?_⟩
    · rw [hleft, hsplit (hgoing hg), List.filter_append, hsame, hin, Mailbox.tasks_congr hcalls,
        Mailbox.tasks_dismiss, List.filter_filter, List.filter_filter]
      congr 1
      refine List.filter_congr fun t _ => ?_
      exact Bool.and_comm _ _
    · rw [hleft, hin, ← hsame]
      exact hentered.filter _

/-- What a run makes of those who wait at its start. -/
theorem Driven.trails (h : Driven script IsUnprompted a b) (hr : Reachable script a.2)
    (hi : a.2.Steady a.1) : b.2.Trails a.2.mailbox.tasks a.2.tickets := by
  induction h with
  | refl => exact trails_self hr.orderly
  | @tail c d hrun hd ih =>
    have hreach := hr.later (Driven.later hrun)
    have hsteady := Driven.steady hrun hr id hi
    have hdrawn : ∀ t ∈ a.2.mailbox.tasks, t < a.2.tickets := fun t => hr.ranked.lt_of_mem_tasks
    exact (hd.2.keeps hreach hd.1 hsteady (.inr rfl)
      (fun ho hp hs hc => hs.trails ho hp hdrawn hc) ih).2

end Queue
end CoalescingQueue
