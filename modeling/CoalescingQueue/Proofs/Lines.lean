import CoalescingQueue.Proofs.Traffic
import CoalescingQueue.Proofs.Wakeups
import Mathlib.Data.List.Pairwise

/-!
# Tasks that wait and the line

A task that was given a slot enters the mailbox in its own turn, so the order in which tasks enter is
the order in which they stand in line. They stand there in the order of their tickets. Behind the
dispatcher, while it has the turn or stands in line, no task is missing that has waited longer than
one that is there, so a slot that is passed on puts the next of them in line. This needs that no task
gets in line behind a dispatcher that others are not behind. The statements hold as long as requests
are taken in.
-/
namespace CoalescingQueue
namespace Mailbox

/-- The tickets of the tasks that wait, the longest waiting first. -/
def tasks (m : Mailbox) : List Nat := (m.waiting.filter (·.caller = .task)).map (·.ticket)

/-- The tickets of the tasks that were given a slot. -/
def given (m : Mailbox) : List Nat :=
  (m.waiting.filter fun w => w.caller = .task && w.hasSlot).map (·.ticket)

variable {m : Mailbox} {t u ticket : Nat}

theorem mem_tasks : t ∈ m.tasks ↔ ∃ w ∈ m.waiting, w.caller = .task ∧ w.ticket = t := by
  simp [tasks, and_assoc]

theorem mem_given :
    t ∈ m.given ↔ ∃ w ∈ m.waiting, w.caller = .task ∧ w.hasSlot = true ∧ w.ticket = t := by
  simp [given, and_assoc]

theorem given_subset (m : Mailbox) : m.given ⊆ m.tasks := by
  intro t ht
  obtain ⟨w, hw, htask, -, hticket⟩ := mem_given.mp ht
  exact mem_tasks.mpr ⟨w, hw, htask, hticket⟩

theorem tasks_enlist (m : Mailbox) (w : Waiter) :
    (m.enlist w).tasks = m.tasks ++ if w.caller = .task then [w.ticket] else [] := by
  by_cases htask : w.caller = .task
  · simp [tasks, enlist, List.filter_append, htask]
  · simp [tasks, enlist, List.filter_append, htask]

theorem given_enlist {w : Waiter} (hslot : w.hasSlot = false) : (m.enlist w).given = m.given := by
  simp [given, enlist, List.filter_append, hslot]

theorem tasks_dismiss (m : Mailbox) (ticket : Nat) :
    (m.dismiss ticket).tasks = m.tasks.filter (· ≠ ticket) := by
  simp only [tasks, dismiss, List.filter_map, List.filter_filter]
  congr 2
  funext w
  simp [Bool.and_comm]

theorem given_dismiss (m : Mailbox) (ticket : Nat) :
    (m.dismiss ticket).given = m.given.filter (· ≠ ticket) := by
  simp only [given, dismiss, List.filter_map, List.filter_filter]
  congr 2
  funext w
  simp [Bool.and_comm]

/-- A slot that is passed on leaves the tasks that wait as they are. -/
theorem tasks_release (m : Mailbox) : m.release.2.tasks = m.tasks := by
  unfold release
  split
  · next g ws hg =>
    obtain ⟨before, rest, hwaiting, rfl, -, -⟩ := exists_of_grantFirst hg
    simp [tasks, hwaiting, List.filter_cons]
    split
    · rfl
    · rfl
  · rfl

/-- It goes to a task that the release tells of. -/
theorem mem_given_release (h : t ∈ m.release.2.given) :
    t ∈ m.given ∨ ∃ g, m.release.1 = some g ∧ g.caller = .task ∧ g.ticket = t := by
  obtain ⟨w, hw, htask, hslot, hticket⟩ := mem_given.mp h
  rcases mem_release hw with hold | ⟨g, -, -, rfl, hgranted⟩
  · exact .inl (mem_given.mpr ⟨w, hold, htask, hslot, hticket⟩)
  · exact .inr ⟨g, hgranted, htask, hticket⟩

theorem granted_mem_given {g : Waiter} (h : m.release.1 = some g) (htask : g.caller = .task) :
    g.ticket ∈ m.release.2.given := by
  unfold release at h ⊢
  split at h
  · next g' ws hg =>
    obtain rfl := Option.some.inj h
    obtain ⟨before, rest, -, rfl, -, -⟩ := exists_of_grantFirst hg
    refine mem_given.mpr ⟨{ g' with hasSlot := true }, ?_, htask, rfl, rfl⟩
    exact List.mem_append_right before List.mem_cons_self
  · contradiction

end Mailbox

@[simp] def Party.ticket? : Party → Option Nat
  | .producer ticket => some ticket
  | _ => none

namespace Queue

/-! ## Parties in line -/

/-- The tickets of the tasks in a line. -/
abbrev producers (line : List Party) : List Nat := line.filterMap Party.ticket?

theorem mem_producers {line : List Party} {t : Nat} : t ∈ producers line ↔ .producer t ∈ line := by
  constructor
  · intro h
    obtain ⟨p, hp, hticket⟩ := List.mem_filterMap.mp h
    cases p with
    | producer ticket =>
      obtain rfl := Option.some.inj hticket
      exact hp
    | dispatcher | run => contradiction
  · intro h
    exact List.mem_filterMap.mpr ⟨.producer t, h, rfl⟩

theorem after_cons (p x : Party) (line : List Party) :
    after p (x :: line) = if x = p then line else after p line := by
  unfold after
  by_cases h : x = p
  · simp [h]
  · simp [h]

theorem after_of_notMem {p : Party} {line : List Party} (h : p ∉ line) : after p line = [] := by
  induction line with
  | nil => rfl
  | cons x rest ih =>
    rw [List.mem_cons, not_or] at h
    rw [after_cons, if_neg (Ne.symm h.1)]
    exact ih h.2

theorem mem_after_concat {p x y : Party} {line : List Party} :
    x ∈ after p (line ++ [y]) ↔ p ∈ line ∧ (x ∈ after p line ∨ x = y) := by
  induction line with
  | nil =>
    rw [List.nil_append, after_cons]
    split
    · simp
    · simp [after]
  | cons z rest ih =>
    rw [List.cons_append, after_cons, after_cons]
    by_cases h : z = p
    · simp [h]
    · have hne : ¬ p = z := Ne.symm h
      simp [h, hne, ih]

theorem after_subset (p : Party) (line : List Party) : after p line ⊆ line := by
  unfold after
  exact List.Subset.trans (List.tail_subset _) (List.dropWhile_sublist _).subset

variable {script : WorkScript} {terms : Terms} {q q' : Queue} {p : Party} {t u : Nat}

/-- Who is behind the dispatcher when somebody gets in line. -/
theorem mem_behind_concat {x : Party} :
    x ∈ { q with line := q.line ++ [p] }.behind ↔
      q.Awake .dispatcher ∧ (x ∈ q.behind ∨ x = p) := by
  unfold behind Awake
  by_cases hturn : q.turn = some .dispatcher
  · simp [hturn]
  · simp [hturn, mem_after_concat]

theorem IsClear.turn_ne (h : q.IsClear) (hp : p ≠ .run) : q.turn ≠ some p := by
  intro hturn
  rcases h.turn_eq with hnone | hrun
  · rw [hnone] at hturn
    contradiction
  · exact hp (Option.some.inj (hturn.symm.trans hrun))

/-! ## The order of those who wait -/

theorem Ranked.tasks_sorted (h : q.Ranked) : q.mailbox.tasks.Pairwise (· < ·) := by
  unfold Mailbox.tasks
  rw [List.pairwise_map]
  exact (h.precedes.filter _).imp fun hvw => hvw.ticket_lt

theorem Ranked.lt_of_mem_tasks (h : q.Ranked) (ht : t ∈ q.mailbox.tasks) : t < q.tickets := by
  obtain ⟨w, hw, -, rfl⟩ := Mailbox.mem_tasks.mp ht
  exact h.ticket_lt w hw

/-- Whoever has waited longer than a task with a slot has one too. -/
theorem Ranked.mem_given (h : q.Ranked) (ht : t ∈ q.mailbox.given) (hu : u ∈ q.mailbox.tasks)
    (hlt : u < t) : u ∈ q.mailbox.given := by
  obtain ⟨w, hw, -, hslot, rfl⟩ := Mailbox.mem_given.mp ht
  obtain ⟨v, hv, htask, rfl⟩ := Mailbox.mem_tasks.mp hu
  have hsymm : Std.Symm fun a b : Waiter => a.Precedes b ∨ b.Precedes a := ⟨fun _ _ hab => hab.symm⟩
  have hpairs : q.mailbox.waiting.Pairwise fun a b => a.Precedes b ∨ b.Precedes a :=
    h.precedes.imp Or.inl
  have hne : v ≠ w := by
    rintro rfl
    exact lt_irrefl _ hlt
  rcases hpairs.forall hv hw hne with hvw | hwv
  · exact Mailbox.mem_given.mpr ⟨v, hv, htask, hvw.hasSlot hslot, rfl⟩
  · have hgt := hwv.ticket_lt
    omega

theorem Alert.awake_of_given (h : q.Alert) (ht : t ∈ q.mailbox.given) : q.Awake (.producer t) := by
  obtain ⟨w, hw, htask, hslot, hticket⟩ := Mailbox.mem_given.mp ht
  exact h (.producer t) ⟨w, hw, hticket, htask, .inl hslot⟩

/-- How those who wait stand in line. -/
structure Lined (q : Queue) : Prop where
  nodup : (q.turn.toList ++ q.line).Nodup
  drawn : ∀ t, .producer t ∈ q.line → t < q.tickets
  /-- Tasks stand in line in the order of their tickets. -/
  sorted : (producers q.line).Pairwise (· < ·)
  /-- Behind the dispatcher nobody is missing who has waited longer than a task that is there. -/
  closed : ∀ t ∈ q.mailbox.tasks, ∀ u, .producer u ∈ q.behind → t < u → .producer t ∈ q.behind
  /-- A task with a slot that has the turn has waited longest. -/
  least : ∀ t, q.turn = some (.producer t) → t ∈ q.mailbox.given → ∀ u ∈ q.mailbox.tasks, t ≤ u
  /-- While the dispatcher waits for a run, the run calls it at its end only. -/
  ended : .dispatcher ∈ q.line → ∀ b, q.phase = .awaiting b →
    ∃ run, q.run = some run ∧ run.stage = .ended
  live : .run ∈ q.line → ∃ run, q.run = some run ∧ run.stage ≠ .ended
  /-- Those who were given a slot come to their turn before the run. -/
  given_before : ∀ t ∈ q.mailbox.given, .producer t ∉ after .run q.line
  given_eq : q.turn = some .run → q.mailbox.given = []

theorem Lined.notMem_line (h : q.Lined) (hturn : q.turn = some p) : p ∉ q.line := by
  have hnodup := h.nodup
  rw [hturn, Option.toList_some, List.singleton_append, List.nodup_cons] at hnodup
  exact hnodup.1

/-- The line is as before, and nobody has come to wait. -/
theorem Lined.mono (h : q.Lined) (hturn : q'.turn = q.turn) (hline : q'.line = q.line)
    (htickets : q.tickets ≤ q'.tickets) (htasks : q'.mailbox.tasks ⊆ q.mailbox.tasks)
    (hgiven : q'.mailbox.given ⊆ q.mailbox.given) (hphase : q'.phase = q.phase)
    (hrun : q'.run = q.run) : q'.Lined := by
  have hbehind : q'.behind = q.behind := by rw [behind, hturn, hline, behind]
  constructor
  · rw [hturn, hline]
    exact h.nodup
  · rw [hline]
    exact fun t ht => (h.drawn t ht).trans_le htickets
  · rw [hline]
    exact h.sorted
  · rw [hbehind]
    exact fun t ht => h.closed t (htasks ht)
  · rw [hturn]
    exact fun t hp ht u hu => h.least t hp (hgiven ht) u (htasks hu)
  · rw [hline, hphase, hrun]
    exact h.ended
  · rw [hline, hrun]
    exact h.live
  · rw [hline]
    exact fun t ht => h.given_before t (hgiven ht)
  · rw [hturn]
    intro hp
    have hnone := h.given_eq hp
    rw [hnone] at hgiven
    exact List.subset_nil.mp hgiven

/-! ## Who gets in line -/

theorem nodup_concat (hturn : q.turn ≠ some p) (hline : p ∉ q.line)
    (h : (q.turn.toList ++ q.line).Nodup) : (q.turn.toList ++ (q.line ++ [p])).Nodup := by
  rw [← List.append_assoc]
  refine List.nodup_append.mpr ⟨h, List.nodup_singleton p, fun x hx y hy => ?_⟩
  rw [List.mem_singleton.mp hy]
  rintro rfl
  rcases List.mem_append.mp hx with hmem | hmem
  · exact hturn (Option.mem_toList.mp hmem)
  · exact hline hmem

/-- The dispatcher or the run gets in line. -/
theorem Lined.enqueue (h : q.Lined) (hp : p.ticket? = none) (hturn : q.turn ≠ some p)
    (hended : p = .dispatcher → ∀ b, q.phase = .awaiting b →
      ∃ run, q.run = some run ∧ run.stage = .ended)
    (hlive : p = .run → ∃ run, q.run = some run ∧ run.stage ≠ .ended) : (q.enqueue p).Lined := by
  unfold Queue.enqueue
  split
  · exact h
  · next hline =>
    have hold {t : Nat} {line : List Party} (hmem : .producer t ∈ line ++ [p]) :
        .producer t ∈ line := by
      rcases List.mem_append.mp hmem with hmem | hmem
      · exact hmem
      · rw [← List.mem_singleton.mp hmem] at hp
        contradiction
    constructor
    · exact nodup_concat hturn hline h.nodup
    · exact fun t ht => h.drawn t (hold ht)
    · show (producers (q.line ++ [p])).Pairwise (· < ·)
      rw [producers, List.filterMap_append, List.filterMap_cons_none hp, List.filterMap_nil,
        List.append_nil]
      exact h.sorted
    · intro t ht u hu hlt
      obtain ⟨hawake, hu⟩ := mem_behind_concat.mp hu
      have hin : .producer u ∈ q.behind := by
        rcases hu with hin | rfl
        · exact hin
        · contradiction
      exact mem_behind_concat.mpr ⟨hawake, .inl (h.closed t ht u hin hlt)⟩
    · exact h.least
    · intro hmem
      rcases List.mem_append.mp hmem with hmem | hmem
      · exact h.ended hmem
      · exact hended (List.mem_singleton.mp hmem).symm
    · intro hmem
      rcases List.mem_append.mp hmem with hmem | hmem
      · exact h.live hmem
      · exact hlive (List.mem_singleton.mp hmem).symm
    · intro t ht hmem
      rcases (mem_after_concat.mp hmem).2 with hin | rfl
      · exact h.given_before t ht hin
      · contradiction
    · exact h.given_eq

theorem Lined.wakeDispatcher (h : q.Lined) : q.wakeDispatcher.Lined := by
  unfold Queue.wakeDispatcher
  split
  · next hp =>
    split
    · exact h
    · next hturn =>
      refine h.enqueue rfl hturn (fun _ b hawaiting => ?_) nofun
      rw [hp] at hawaiting
      contradiction
  · exact h

theorem Lined.wakeIfAbandoned (h : q.Lined) : q.wakeIfAbandoned.Lined := by
  unfold Queue.wakeIfAbandoned
  split
  · exact h.wakeDispatcher
  · exact h

/-- A task gets in line whose ticket is later than those in line. What has to be shown of it depends
on who waits then. -/
theorem Lined.concat (h : q.Lined) {t : Nat} (hline : q'.line = q.line ++ [.producer t])
    (hturn : q'.turn = q.turn) (hphase : q'.phase = q.phase) (hrun : q'.run = q.run)
    (htickets : q.tickets ≤ q'.tickets) (ht : t < q'.tickets)
    (hlast : ∀ u, .producer u ∈ q.line → u < t) (hparty : ∀ u, q.turn ≠ some (.producer u))
    (hclosed : ∀ s ∈ q'.mailbox.tasks, ∀ u, .producer u ∈ q'.behind → s < u →
      .producer s ∈ q'.behind)
    (hbefore : ∀ s ∈ q'.mailbox.given, .producer s ∉ after .run (q.line ++ [.producer t]))
    (hgiven : q.turn = some .run → q'.mailbox.given = []) : q'.Lined := by
  have hnew : .producer t ∉ q.line := fun hmem => lt_irrefl t (hlast t hmem)
  have hold {p : Party} (hp : ∀ u, p ≠ .producer u) (hmem : p ∈ q'.line) : p ∈ q.line := by
    rw [hline] at hmem
    exact (List.mem_append.mp hmem).resolve_right fun hin => hp t (List.mem_singleton.mp hin)
  constructor
  · rw [hturn, hline]
    exact nodup_concat (hparty t) hnew h.nodup
  · intro u hu
    rw [hline] at hu
    rcases List.mem_append.mp hu with hin | hin
    · exact (h.drawn u hin).trans_le htickets
    · obtain rfl := Party.producer.inj (List.mem_singleton.mp hin)
      exact ht
  · rw [hline, producers, List.filterMap_append]
    refine List.pairwise_append.mpr ⟨h.sorted, List.pairwise_singleton _ _, fun u hu v hv => ?_⟩
    obtain rfl := List.mem_singleton.mp hv
    exact hlast u (mem_producers.mp hu)
  · exact hclosed
  · exact fun u hu => absurd (hturn.symm.trans hu) (hparty u)
  · rw [hphase, hrun]
    exact fun hmem => h.ended (hold nofun hmem)
  · rw [hrun]
    exact fun hmem => h.live (hold nofun hmem)
  · rw [hline]
    exact hbefore
  · exact fun hp => hgiven (hturn.symm.trans hp)

/-- A call begins to wait while the queue is clear. -/
theorem Lined.lineUp {w : Waiter} (h : q.Lined) (hr : q.Ranked) (hticket : w.ticket = q.tickets)
    (hslot : w.hasSlot = false) (hclear : w.caller = .task → q.IsClear) : (q.lineUp w).Lined := by
  have hgiven : (q.mailbox.enlist w).given = q.mailbox.given := Mailbox.given_enlist hslot
  have htasks := q.mailbox.tasks_enlist w
  unfold Queue.lineUp
  dsimp only
  by_cases htask : w.caller = .task
  · have hclear := hclear htask
    have hlast (u : Nat) (hu : .producer u ∈ q.line) : u < w.ticket := hticket ▸ h.drawn u hu
    have hnew : .producer w.ticket ∉ q.line := fun hmem => lt_irrefl _ (hlast _ hmem)
    rw [if_pos htask] at htasks
    rw [if_pos htask, Queue.enqueue, if_neg hnew]
    refine h.concat rfl rfl rfl rfl (Nat.le_succ _) ?_ hlast (fun u => hclear.turn_ne nofun) ?_ ?_ ?_
    · show w.ticket < q.tickets + 1
      omega
    · intro t ht u hu hlt
      have ht : t ∈ (q.mailbox.enlist w).tasks := ht
      rw [htasks] at ht
      obtain ⟨hawake, -⟩ := mem_behind_concat.mp hu
      have hline := hawake.resolve_left (hclear.turn_ne nofun)
      refine mem_behind_concat.mpr ⟨hawake, ?_⟩
      rcases List.mem_append.mp ht with hold | hlast
      · -- all that waited before are behind the dispatcher
        obtain ⟨v, hv, hvtask, rfl⟩ := Mailbox.mem_tasks.mp hold
        exact .inl (hclear.behind hline v hv hvtask)
      · exact .inr (congrArg _ (List.mem_singleton.mp hlast))
    · intro t ht hmem
      have ht : t ∈ (q.mailbox.enlist w).given := ht
      rw [hgiven] at ht
      rcases (mem_after_concat.mp hmem).2 with hold | hlast
      · exact h.given_before t ht hold
      · obtain rfl := Party.producer.inj hlast
        have hlt := hr.lt_of_mem_tasks (Mailbox.given_subset _ ht)
        omega
    · exact fun hrun => hgiven.trans (h.given_eq hrun)
  · rw [if_neg htask, List.append_nil] at htasks
    rw [if_neg htask]
    exact h.mono rfl rfl (Nat.le_succ _) (fun t ht => htasks ▸ ht) (fun t ht => hgiven ▸ ht) rfl rfl

/-! ## The dispatcher -/

/-- The dispatcher is at work, so it does not stand in line. -/
theorem Lined.go {phase : Phase} {run : Option Run} (h : q.Lined)
    (hturn : q.turn = some .dispatcher)
    (hlive : .run ∈ q.line → ∃ r, run = some r ∧ r.stage ≠ .ended) : { q with phase, run }.Lined := by
  obtain ⟨hnodup, hdrawn, hsorted, hclosed, hleast, -, -, hbefore, hgiven⟩ := id h
  refine ⟨hnodup, hdrawn, hsorted, hclosed, hleast, ?_, hlive, hbefore, hgiven⟩
  exact fun hmem => absurd hmem (h.notMem_line hturn)

/-- The task that is given a slot by the dispatcher gets in line, unless it stands there. -/
theorem Lined.grant {g : Waiter} (h : q.Lined) (hr : q.Ranked)
    (hawake : ∀ t ∈ q.mailbox.given, q.Awake (.producer t)) (hturn : q.turn = some .dispatcher)
    (hrun : .run ∉ q.line) (hg : q.mailbox.release.1 = some g) (htask : g.caller = .task) :
    ({ q with mailbox := q.mailbox.release.2 }.enqueue (.producer g.ticket)).Lined := by
  have htasks := q.mailbox.tasks_release
  have hslot := Mailbox.granted_mem_given hg htask
  have hbehind : q.behind = q.line := if_pos hturn
  have hranked : { q with mailbox := q.mailbox.release.2 }.Ranked :=
    Mailbox.Turnovers.keeps (q.mailbox.turnovers_release q.tickets) Mailbox.Turnover.ranked hr
  have hnobody {p : Party} (hp : p ≠ .dispatcher) : q.turn ≠ some p :=
    fun hhas => hp (Option.some.inj (hhas.symm.trans hturn))
  have hbefore {line : List Party} (hnot : .run ∉ line) (t : Nat) :
      .producer t ∉ after .run line := by
    rw [after_of_notMem hnot]
    exact List.not_mem_nil
  unfold Queue.enqueue
  by_cases hline : .producer g.ticket ∈ q.line
  · rw [if_pos hline]
    obtain ⟨hnodup, hdrawn, hsorted, hclosed, -, hended, hlive, -, -⟩ := h
    refine ⟨hnodup, hdrawn, hsorted, ?_, fun t ht => ?_, hended, hlive, ?_, fun hp => ?_⟩
    · exact fun t ht => hclosed t (htasks ▸ ht)
    · exact absurd ht (hnobody nofun)
    · exact fun t _ => hbefore hrun t
    · exact absurd hp (hnobody nofun)
  · -- nobody in line has waited shorter, since then this task would be in line
    have hlast (u : Nat) (hu : .producer u ∈ q.line) : u < g.ticket := by
      by_contra hge
      have hne : u ≠ g.ticket := fun heq => hline (heq ▸ hu)
      have hmem : g.ticket ∈ q.mailbox.tasks := htasks ▸ Mailbox.given_subset _ hslot
      have hin := h.closed _ hmem u (hbehind ▸ hu) (by omega)
      exact hline (hbehind ▸ hin)
    rw [if_neg hline]
    refine h.concat rfl rfl rfl rfl le_rfl ?_ hlast (fun u => hnobody nofun) ?_ ?_ ?_
    · exact hranked.lt_of_mem_tasks (Mailbox.given_subset _ hslot)
    · intro t ht u hu hlt
      have ht : t ∈ q.mailbox.release.2.tasks := ht
      obtain ⟨hdispatcher, hu⟩ := mem_behind_concat.mp hu
      refine mem_behind_concat.mpr ⟨hdispatcher, .inl ?_⟩
      rcases hu with hold | hnew
      · exact h.closed t (htasks ▸ ht) u hold hlt
      · -- whoever has waited longer than this task has a slot already
        obtain rfl := Party.producer.inj hnew
        rcases Mailbox.mem_given_release (hranked.mem_given hslot ht hlt) with
          hold | ⟨g', hg', -, rfl⟩
        · show .producer t ∈ q.behind
          rw [hbehind]
          exact (hawake t hold).mem_line hturn nofun
        · obtain rfl := Option.some.inj (hg.symm.trans hg')
          exact absurd hlt (lt_irrefl _)
    · refine fun t _ => hbefore (fun hmem => ?_) t
      rcases List.mem_append.mp hmem with hin | hin
      · exact hrun hin
      · exact nomatch List.mem_singleton.mp hin
    · exact fun hp => absurd hp (hnobody nofun)

/-- A slot that the dispatcher passes on puts the task in line that has waited longest without. -/
theorem Lined.releaseSlot (h : q.Lined) (hr : q.Ranked)
    (hawake : ∀ t ∈ q.mailbox.given, q.Awake (.producer t)) (hturn : q.turn = some .dispatcher)
    (hrun : .run ∉ q.line) : q.releaseSlot.Lined := by
  have htask (g : Waiter) := h.grant hr hawake hturn hrun (g := g)
  have hother (hnot : ∀ g, q.mailbox.release.1 = some g → g.caller ≠ .task) :
      { q with mailbox := q.mailbox.release.2 }.Lined := by
    refine h.mono rfl rfl le_rfl (fun t ht => q.mailbox.tasks_release ▸ ht) (fun t ht => ?_) rfl rfl
    rcases Mailbox.mem_given_release ht with hold | ⟨g, hg, htask, -⟩
    · exact hold
    · exact absurd htask (hnot g hg)
  unfold Queue.releaseSlot
  split
  · next w mailbox heq =>
    rw [heq] at htask hother
    dsimp only
    split
    · next hcaller => exact htask w rfl hcaller
    · next hcaller =>
      refine hother fun g hg => ?_
      obtain rfl := Option.some.inj hg
      exact hcaller
  · next mailbox heq =>
    rw [heq] at hother
    exact hother nofun

/-! ## Turns -/

/-- Whoever is first in line has the turn. -/
theorem Lined.call {line : List Party} (h : q.Lined) (ha : q.Alert) (hr : q.Ranked)
    (hturn : q.turn = none) (hline : q.line = p :: line) : { q with line, turn := some p }.Lined := by
  have hawake {t : Nat} (ht : t ∈ q.mailbox.given) : .producer t ∈ p :: line := by
    rcases ha.awake_of_given ht with hhas | hmem
    · rw [hturn] at hhas
      contradiction
    · exact hline ▸ hmem
  have hbehind : behind { q with line, turn := some p } = q.behind := by
    unfold behind
    by_cases hp : p = .dispatcher
    · simp [hturn, hline, hp, after_cons]
    · simp [hturn, hline, hp, after_cons]
  obtain ⟨hnodup, hdrawn, hsorted, hclosed, -, hended, hlive, hbefore, -⟩ := h
  rw [hturn] at hnodup
  rw [hline] at hnodup hdrawn hsorted hended hlive hbefore
  constructor
  · exact hnodup
  · exact fun t ht => hdrawn t (List.mem_cons_of_mem p ht)
  · exact hsorted.sublist ((List.sublist_cons_self p line).filterMap _)
  · rw [hbehind]
    exact hclosed
  · intro t hp ht u hu
    obtain rfl := Option.some.inj hp
    by_contra hgt
    -- whoever has waited longer has a slot too, and stands in line before
    have hgiven : u ∈ q.mailbox.given := hr.mem_given ht hu (by omega)
    rcases List.mem_cons.mp (hawake hgiven) with hfirst | hrest
    · obtain rfl := Party.producer.inj hfirst
      omega
    · have hafter := List.rel_of_pairwise_cons hsorted (mem_producers.mpr hrest)
      omega
  · exact fun hmem => hended (List.mem_cons_of_mem p hmem)
  · exact fun hmem => hlive (List.mem_cons_of_mem p hmem)
  · intro t ht hmem
    refine hbefore t ht ?_
    rw [after_cons]
    split
    · exact after_subset _ _ hmem
    · exact hmem
  · intro hp
    obtain rfl := Option.some.inj hp
    refine List.eq_nil_iff_forall_not_mem.mpr fun t ht => hbefore t ht ?_
    rw [after_cons, if_pos rfl]
    exact (List.mem_cons.mp (hawake ht)).resolve_left nofun

theorem Lined.rest (h : q.Lined) : q.yieldTurn.Lined := by
  obtain ⟨hnodup, hdrawn, hsorted, hclosed, -, hended, hlive, hbefore, -⟩ := id h
  refine ⟨hnodup.of_append_right, hdrawn, hsorted, ?_, nofun, hended, hlive, hbefore, nofun⟩
  have hbehind : q.yieldTurn.behind = after .dispatcher q.line := if_neg nofun
  rw [hbehind]
  by_cases hturn : q.turn = some .dispatcher
  · rw [after_of_notMem (h.notMem_line hturn)]
    exact fun _ _ _ hu => absurd hu List.not_mem_nil
  · rw [behind, if_neg hturn] at hclosed
    exact hclosed

/-- The run comes further in its turn. -/
theorem Lined.setStage {run : Run} {stage : Stage} {permits : Nat} (h : q.Lined)
    (hturn : q.turn = some .run) (hrun : q.run = some run)
    (hstage : run.stage = .ended → stage = .ended) :
    ({ q with permits }.setStage run stage).Lined := by
  obtain ⟨hnodup, hdrawn, hsorted, hclosed, hleast, hended, -, hbefore, hgiven⟩ := id h
  refine ⟨hnodup, hdrawn, hsorted, hclosed, hleast, ?_, ?_, hbefore, hgiven⟩
  · intro hmem b hb
    obtain ⟨run', hrun', hend⟩ := hended hmem b hb
    obtain rfl := Option.some.inj (hrun.symm.trans hrun')
    exact ⟨{ run with stage }, rfl, hstage hend⟩
  · exact fun hmem => absurd hmem (h.notMem_line hturn)

/-- A run that has not ended is called. -/
theorem Lined.enqueueRun {run : Run} (h : q.Lined) (hturn : q.turn ≠ some .run)
    (hrun : q.run = some run) (hstage : run.stage ≠ .ended) : (q.enqueue .run).Lined :=
  h.enqueue rfl hturn nofun fun _ => ⟨run, hrun, hstage⟩

/-! ## Shifts -/

/-- Those who wait stand in line as before after any change, as long as the queue is not stopped. A
caller may go away only if it has no slot. -/
theorem Shift.lined (h : Shift terms q q') (hr : q.Ranked) (ha : q.Alert)
    (hstays : terms.isLossy = true → ∀ w ∈ q.mailbox.waiting, w.hasSlot = false)
    (hfair : terms.isJostling = false) (hgoing : q'.IsGoing) (hi : q.Lined) : q'.Lined := by
  have hdismiss (ticket : Nat) : (q.mailbox.dismiss ticket).tasks ⊆ q.mailbox.tasks ∧
      (q.mailbox.dismiss ticket).given ⊆ q.mailbox.given := by
    rw [Mailbox.tasks_dismiss, Mailbox.given_dismiss]
    exact ⟨List.filter_subset_self _, List.filter_subset_self _⟩
  have hsame : q.mailbox.tasks ⊆ q.mailbox.tasks := List.Subset.refl _
  have hsame' : q.mailbox.given ⊆ q.mailbox.given := List.Subset.refl _
  have hgoing' := h.traffic.isGoing hgoing
  cases h with
  | record | remark | tick | clone | prepare | announce =>
    exact hi.mono rfl rfl le_rfl hsame hsame' rfl rfl
  | await hc => exact absurd (.inl hc) hgoing'.not_refused
  | withdraw hw hrefused => exact absurd hrefused hgoing'.not_refused
  | cancel =>
    obtain ⟨more, heq⟩ := wakeAll_more { q with isCancelled := true }
    have hc := hgoing.isCancelled_eq
    rw [heq] at hc
    contradiction
  | @breakDown b =>
    obtain ⟨more, heq⟩ := closeMailbox_more { q with phase := .dead b }
    have hclosed := hgoing.isClosed_eq
    rw [releaseClosers_eq, heq] at hclosed
    contradiction
  | close =>
    obtain ⟨more, heq⟩ := q.closeMailbox_more
    have hclosed := hgoing.isClosed_eq
    rw [releaseClosers_eq, heq] at hclosed
    contradiction
  | @call p line hturning hturn hline => exact hi.call ha hr hturn hline
  | @rest p hturn hidle => exact hi.rest
  | @wake time hturn ht =>
    unfold deadline? at ht
    split at ht
    · next run hrun =>
      split at ht
      · next hstage => exact hi.enqueueRun (by simp [hturn]) hrun (by simp [hstage])
      · contradiction
    · contradiction
  | @permit n hpast =>
    have hgate : { q with permits := q.permits + n }.Lined :=
      hi.mono rfl rfl le_rfl hsame hsame' rfl rfl
    unfold releasePermits
    dsimp only
    split
    · next run hrun =>
      split
      · next hstage =>
        have hturn : q.turn ≠ some .run := fun hturn => hpast hfair hturn run hrun hstage
        exact hgate.enqueueRun hturn hrun (by simp [hstage])
      · exact hgate
    · exact hgate
  | @put r mailbox hheld hopen hput =>
    obtain rfl := Mailbox.eq_of_put? hput
    refine Lined.wakeDispatcher ?_
    exact hi.mono rfl rfl le_rfl hsame hsame' rfl rfl
  | @enlist w hheld hopen hput hticket hslot hcaller hcancelled hclear =>
    exact hi.lineUp hr hticket hslot (hclear hfair)
  | @join w hopen hw hslot htask =>
    obtain ⟨htasks, hgiven⟩ := hdismiss w.ticket
    have hentered : (q.enter w).Lined := by
      refine Lined.wakeDispatcher ?_
      exact hi.mono rfl rfl le_rfl htasks hgiven rfl rfl
    exact hentered.mono rfl rfl le_rfl (List.Subset.refl _) (List.Subset.refl _) rfl rfl
  | @forsake w hlossy hw =>
    obtain ⟨htasks, hgiven⟩ := hdismiss w.ticket
    have hleft : (q.leave w).Lined := by
      unfold leave
      dsimp only
      rw [hstays hlossy w hw, Bool.false_and, if_neg Bool.false_ne_true]
      refine Lined.wakeIfAbandoned ?_
      exact hi.mono rfl rfl le_rfl htasks hgiven rfl rfl
    exact hleft.mono rfl rfl le_rfl (List.Subset.refl _) (List.Subset.refl _) rfl rfl
  | drop handle =>
    refine Lined.wakeIfAbandoned ?_
    exact hi.mono rfl rfl le_rfl hsame hsame' rfl rfl
  | offered =>
    refine Lined.wakeIfAbandoned ?_
    exact hi.mono rfl rfl le_rfl hsame hsame' rfl rfl
  | @proceed run stage permits hturn hrun hnext hstage =>
    exact hi.setStage hturn hrun fun hended => absurd hended hstage
  | @finish run hturn hrun =>
    have hended : (q.setStage run .ended).Lined := hi.setStage hturn hrun fun _ => rfl
    have hrun : (q.setStage run .ended).turn = some .run := hturn
    exact hended.enqueue rfl (by simp [hrun]) (fun _ _ _ => ⟨_, rfl, rfl⟩) (by rintro ⟨⟩)
  | @go phase run hturn hover hnext hrun =>
    refine hi.go hturn fun hmem => ?_
    obtain ⟨r, hr, hne⟩ := hi.live hmem
    rcases hrun with rfl | ⟨-, hended⟩
    · exact ⟨r, hr, hne⟩
    · exact absurd (hended r hr) hne
  | desert hturn => exact hi.go hturn hi.live
  | @take r mailbox phase hturn hover hnext hexit htake hidle =>
    have hnot : .run ∉ q.line := by
      intro hmem
      obtain ⟨run, hrun, -⟩ := hi.live hmem
      rw [hidle] at hrun
      contradiction
    have hwaiting : mailbox.waiting = q.mailbox.waiting := by rw [Mailbox.eq_of_take? htake]
    have htasks : mailbox.tasks = q.mailbox.tasks := by rw [Mailbox.tasks, hwaiting, Mailbox.tasks]
    have hgiven : mailbox.given = q.mailbox.given := by rw [Mailbox.given, hwaiting, Mailbox.given]
    have htaken : { q with mailbox }.Lined :=
      hi.mono rfl rfl le_rfl (fun t ht => htasks ▸ ht) (fun t ht => hgiven ▸ ht) rfl rfl
    have hranked : { q with mailbox }.Ranked := by
      unfold Queue.Ranked desk
      dsimp only
      rw [hwaiting]
      exact hr
    have hreleased := htaken.releaseSlot hranked (fun t ht => ha.awake_of_given (hgiven ▸ ht))
      hturn hnot
    obtain ⟨more, heq⟩ := releaseSlot_more { q with mailbox }
    exact hreleased.go (by rw [heq]; exact hturn) hreleased.live
  | @launch b run hturn hover hstage =>
    have hlive : ∃ r, some run = some r ∧ r.stage ≠ .ended := ⟨run, rfl, by simp [hstage]⟩
    have hbegun : { q with phase := .awaiting b, run := some run }.Lined :=
      hi.go hturn fun _ => hlive
    have hturn : q.turn ≠ some .run := by simp [hturn]
    exact (hbegun.enqueueRun hturn rfl (by simp [hstage])).rest

end Queue
end CoalescingQueue
