import CoalescingQueue.Proofs.Points
import Mathlib.Algebra.BigOperators.Group.List.Basic

/-!
# Recorders that share a name

Several recorders measure into the same instruments, each under its name, and they may have names
in common. What is shown under some labels adds up what was recorded under the name in them, no
matter by which of the recorders and in which order, and nothing else. The sum and the extremes of
durations are carried along in the order in which they come, so that only recorders of the same name
can tell them apart.
-/
namespace CoalescingQueue

/-! ## Series of one instrument -/

namespace Series

variable {i : Instrument} {s t : Series} {ss : List Series}

/-- Durations are summarized, and all else is counted. -/
inductive Suits : Instrument → Series → Prop
  | counter {i : Instrument} (h : i ≠ .duration) (n : Nat) : Suits i (.counter n)
  | histogram (n : Nat) (sum least most : Float) : Suits .duration (.histogram n sum least most)

theorem count_recorded (n : Nat) : ((recorded n).map count).sum = n := by
  unfold recorded
  split
  · next hn => exact hn.symm
  · rfl

theorem suits_recorded (hi : i ≠ .duration) (n : Nat) :
    ∀ s ∈ recorded n, s.Suits i ∧ 0 < s.count := by
  unfold recorded
  split
  · exact List.forall_mem_nil _
  · next hn => exact List.forall_mem_singleton.mpr ⟨.counter hi n, Nat.pos_of_ne_zero hn⟩

theorem suits_merge (hs : s.Suits i) (ht : t.Suits i) :
    (s.merge t).Suits i ∧ (s.merge t).count = s.count + t.count := by
  cases hs with
  | counter hi n =>
    cases ht with
    | counter _ m => exact ⟨.counter hi _, rfl⟩
    | histogram => contradiction
  | histogram =>
    cases ht with
    | counter hi => contradiction
    | histogram => exact ⟨.histogram .., rfl⟩

theorem suits_foldl_merge (hs : s.Suits i) (h : ∀ t ∈ ss, t.Suits i) :
    (ss.foldl merge s).Suits i ∧ (ss.foldl merge s).count = s.count + (ss.map count).sum := by
  induction ss generalizing s with
  | nil => exact ⟨hs, rfl⟩
  | cons t ss ih =>
    obtain ⟨ht, hrest⟩ := List.forall_mem_cons.mp h
    obtain ⟨hsuits, hcount⟩ := suits_merge hs ht
    obtain ⟨hall, hsum⟩ := ih hsuits hrest
    refine ⟨hall, ?_⟩
    rw [List.foldl_cons, hsum, hcount, List.map_cons, List.sum_cons, Nat.add_assoc]

theorem exists_merged_iff : (∃ s, merged ss = some s) ↔ ss ≠ [] := by
  cases ss <;> simp [merged]

/-- Taken together, series of one instrument count what each of them counts. -/
theorem suits_merged (h : ∀ t ∈ ss, t.Suits i) (hmerged : merged ss = some s) :
    s.Suits i ∧ s.count = (ss.map count).sum := by
  cases ss with
  | nil => contradiction
  | cons t ss =>
    obtain ⟨ht, hrest⟩ := List.forall_mem_cons.mp h
    obtain rfl := Option.some.inj hmerged
    exact suits_foldl_merge ht hrest

end Series

/-! ## Amounts -/

/-- What a measurement adds under labels with this result: how much it counts, or one duration. -/
def Measurement.amount : Instrument → Option String → Measurement → Nat
  | .enqueued, none, .enqueued => 1
  | .superseded, none, .superseded n => n
  | .executions, some result, .execution isSuccess _ =>
    if result = Sample.resultLabel isSuccess then 1 else 0
  | .duration, none, .execution _ _ => 1
  | _, _, _ => 0

/-- The result that a measurement adds under is one that its instrument has. -/
theorem Measurement.mem_labels {m : Measurement} {i : Instrument} {l : Labels}
    (h : 0 < m.amount i l.result) : l ∈ i.labels l.queue := by
  obtain ⟨name, result⟩ := l
  dsimp only at h ⊢
  unfold amount at h
  split at h
  · exact List.mem_singleton_self _
  · exact List.mem_singleton_self _
  · next isSuccess _ =>
    split at h
    · next hresult =>
      subst hresult
      cases isSuccess with
      | true => exact List.mem_cons_self
      | false => exact List.mem_cons_of_mem _ List.mem_cons_self
    · contradiction
  · exact List.mem_singleton_self _
  · contradiction

namespace Sample

variable {samples : List Sample} {i : Instrument} {l : Labels} {s : Series} {n : Nat}

/-- How much the samples under the name in the labels come to. -/
def total (samples : List Sample) (i : Instrument) (l : Labels) : Nat :=
  ((samples.filter (·.queue = l.queue)).map (·.measurement.amount i l.result)).sum

/-- There is something to whatever is contributed. -/
theorem suits_contributed (samples : List Sample) (i : Instrument) (l : Labels) :
    ∀ s ∈ contributed samples i l, s.Suits i ∧ 0 < s.count := by
  have hif {c : Prop} [Decidable c] {ss : List Series}
      (h : c → ∀ s ∈ ss, s.Suits i ∧ 0 < s.count) :
      ∀ s ∈ (if c then ss else []), s.Suits i ∧ 0 < s.count := by
    split
    · next hc => exact h hc
    · exact List.forall_mem_nil _
  induction samples with
  | nil => exact List.forall_mem_nil _
  | cons sample samples ih =>
    rw [contributed_cons]
    refine List.forall_mem_append.mpr ⟨?_, ih⟩
    obtain ⟨queue, measurement⟩ := sample
    cases measurement with
    | enqueued =>
      rw [contributed_enqueued]
      exact hif fun h => Series.suits_recorded (h.1 ▸ nofun) 1
    | superseded n =>
      rw [contributed_superseded]
      exact hif fun h => Series.suits_recorded (h.1 ▸ nofun) n
    | execution isSuccess ms =>
      rw [contributed_execution]
      refine List.forall_mem_append.mpr ⟨hif fun h => ?_, hif fun h => ?_⟩
      · exact Series.suits_recorded (h.1 ▸ nofun) 1
      · obtain ⟨rfl, -⟩ := h
        exact List.forall_mem_singleton.mpr ⟨.histogram .., Nat.one_pos⟩

theorem count_contributed_singleton (sample : Sample) (i : Instrument) (l : Labels) :
    ((contributed [sample] i l).map Series.count).sum =
      if sample.queue = l.queue then sample.measurement.amount i l.result else 0 := by
  obtain ⟨queue, measurement⟩ := sample
  obtain ⟨name, result⟩ := l
  have hif (c : Prop) [Decidable c] (ss : List Series) :
      ((if c then ss else []).map Series.count).sum =
        if c then (ss.map Series.count).sum else 0 := by split <;> rfl
  cases measurement with
  | enqueued =>
    rw [contributed_enqueued, hif, Series.count_recorded]
    cases i <;> cases result <;> simp [Measurement.amount]
  | superseded n =>
    rw [contributed_superseded, hif, Series.count_recorded]
    cases i <;> cases result <;> simp [Measurement.amount]
  | execution isSuccess ms =>
    rw [contributed_execution, List.map_append, List.sum_append, hif, hif, Series.count_recorded]
    cases i <;> cases result <;> simp [Measurement.amount, Series.count, ite_and, eq_comm]

theorem count_contributed (samples : List Sample) (i : Instrument) (l : Labels) :
    ((contributed samples i l).map Series.count).sum = total samples i l := by
  induction samples with
  | nil => rfl
  | cons sample samples ih =>
    rw [contributed_cons, List.map_append, List.sum_append, ih, count_contributed_singleton, total,
      total, List.filter_cons]
    by_cases hqueue : sample.queue = l.queue <;> simp [hqueue]

/-- Samples under other names have no part in a series. -/
theorem contributed_filter (samples : List Sample) (i : Instrument) (l : Labels) :
    contributed (samples.filter (·.queue = l.queue)) i l = contributed samples i l := by
  induction samples with
  | nil => rfl
  | cons sample samples ih =>
    rw [List.filter_cons]
    split
    · rw [contributed_cons, ih, ← contributed_cons]
    · next hqueue =>
      have hcount := count_contributed_singleton sample i l
      rw [if_neg (by simpa using hqueue), List.sum_eq_zero_iff_forall_eq_nat] at hcount
      have hnil : contributed [sample] i l = [] := by
        refine List.eq_nil_iff_forall_not_mem.mpr fun s hs => ?_
        have hpos := (suits_contributed [sample] i l s hs).2
        exact hpos.ne' (hcount _ (List.mem_map_of_mem hs))
      rw [contributed_cons, hnil, List.nil_append, ih]

end Sample

/-! ## Shown series -/

section Shows

variable {samples : List Sample} {i : Instrument} {l : Labels} {s : Series}

theorem Shows.suits (h : Shows samples i l s) : s.Suits i ∧ s.count = Sample.total samples i l := by
  have hsuits := fun s hs => (Sample.suits_contributed samples i l s hs).1
  rw [← Sample.count_contributed]
  exact Series.suits_merged hsuits (shows_iff.mp h)

/-- A series is there exactly if its total is not zero. -/
theorem exists_shows_iff : (∃ s, Shows samples i l s) ↔ 0 < Sample.total samples i l := by
  rw [← Sample.count_contributed, exists_congr fun _ => shows_iff, Series.exists_merged_iff,
    List.sum_pos_iff_exists_pos_nat]
  constructor
  · intro hne
    obtain ⟨s, hs⟩ := List.exists_mem_of_ne_nil _ hne
    exact ⟨_, List.mem_map_of_mem hs, (Sample.suits_contributed samples i l s hs).2⟩
  · rintro ⟨n, hn, -⟩ hnil
    rw [hnil] at hn
    contradiction

/-- The total is what the series counts. -/
theorem exists_shows_count_iff {n : Nat} : (∃ s, Shows samples i l s ∧ s.count = n) ↔
    n = Sample.total samples i l ∧ 0 < Sample.total samples i l := by
  constructor
  · rintro ⟨s, hs, rfl⟩
    exact ⟨hs.suits.2, exists_shows_iff.mp ⟨s, hs⟩⟩
  · rintro ⟨rfl, hpos⟩
    obtain ⟨s, hs⟩ := exists_shows_iff.mpr hpos
    exact ⟨s, hs, hs.suits.2⟩

theorem shows_counter_iff (hi : i ≠ .duration) : Shows samples i l s ↔
    s = .counter (Sample.total samples i l) ∧ 0 < Sample.total samples i l := by
  have heq {s : Series} (hs : Shows samples i l s) :
      s = .counter (Sample.total samples i l) := by
    obtain ⟨hsuits, hcount⟩ := hs.suits
    cases hsuits with
    | counter _ n => rw [← hcount]; rfl
    | histogram => contradiction
  constructor
  · intro hs
    exact ⟨heq hs, exists_shows_iff.mp ⟨s, hs⟩⟩
  · rintro ⟨rfl, hpos⟩
    obtain ⟨s, hs⟩ := exists_shows_iff.mpr hpos
    exact heq hs ▸ hs

end Shows

/-! ## Recorders -/

/-- Recorders by their names, and what was recorded through each of them, in its order. -/
structure Recording where
  names : List String
  records : List (Fin names.length × Measurement)

namespace Recording

variable {r : Recording}

def samples (r : Recording) : List Sample := r.records.map fun m => ⟨r.names[m.1], m.2⟩

/-- What was recorded through all recorders of this name. -/
def under (r : Recording) (name : String) : List Measurement :=
  (r.records.filter fun m => r.names[m.1] = name).map Prod.snd

/-- How much was recorded through all recorders of this name. -/
def total (r : Recording) (name : String) (i : Instrument) (result : Option String) : Nat :=
  ((r.under name).map (·.amount i result)).sum

/-- What the metrics show of several recorders. -/
structure Aggregates (r : Recording) : Prop where
  /-- Each instrument that is there has a point, and no two points of it have the same labels. -/
  measured : ((measured r.samples).map Prod.fst).Nodup ∧
    ∀ entry ∈ measured r.samples, entry.2 ≠ [] ∧ entry.2.labels.Nodup
  /-- The labels of every point have the name of a recorder. -/
  labels : ∀ i l s, Shows r.samples i l s → ∃ k : Fin r.names.length, l ∈ i.labels r.names[k]
  /-- Requests and executions are summed up by the name in the labels. -/
  counted : ∀ i ≠ .duration, ∀ l s, Shows r.samples i l s ↔
    s = .counter (r.total l.queue i l.result) ∧ 0 < r.total l.queue i l.result
  /-- There are as many durations as executions, whatever their result. -/
  timed : ∀ name s, Shows r.samples .duration ⟨name, none⟩ s → ∃ sum least most,
    s = .histogram (r.total name .executions (some "ok") +
      r.total name .executions (some "error")) sum least most
  timed_iff : ∀ name, (∃ s, Shows r.samples .duration ⟨name, none⟩ s) ↔
    0 < r.total name .executions (some "ok") + r.total name .executions (some "error")
  /-- To record that nothing was superseded does not make a point. -/
  superseded : ∀ name, (∃ s, Shows r.samples .superseded ⟨name, none⟩ s) ↔
    ∃ k n, (k, .superseded n) ∈ r.records ∧ r.names[k] = name ∧ 0 < n
  /-- Whoever else records, and under whatever other names, changes nothing. -/
  isolated : ∀ (r' : Recording) l, r'.under l.queue = r.under l.queue →
    ∀ i s, Shows r'.samples i l s ↔ Shows r.samples i l s
  /-- The order of the records has no part in what is counted. -/
  reordered : ∀ records, records.Perm r.records → ∀ i l n,
    (∃ s, Shows (Recording.samples ⟨r.names, records⟩) i l s ∧ s.count = n) ↔
      ∃ s, Shows r.samples i l s ∧ s.count = n

theorem filter_samples (r : Recording) (name : String) :
    r.samples.filter (·.queue = name) = (r.under name).map (⟨name, ·⟩) := by
  rw [samples, under, List.filter_map, List.map_map]
  refine List.map_congr_left fun m hm => ?_
  have hname : r.names[m.1] = name := of_decide_eq_true (List.mem_filter.mp hm).2
  rw [hname]
  rfl

theorem total_samples (r : Recording) (i : Instrument) (l : Labels) :
    Sample.total r.samples i l = r.total l.queue i l.result := by
  rw [Sample.total, filter_samples, List.map_map]
  rfl

theorem exists_of_total_pos {name : String} {i : Instrument} {result : Option String}
    (h : 0 < r.total name i result) :
    ∃ k m, (k, m) ∈ r.records ∧ r.names[k] = name ∧ 0 < m.amount i result := by
  obtain ⟨_, hmem, hpos⟩ := List.sum_pos_iff_exists_pos_nat.mp h
  obtain ⟨m, hm, rfl⟩ := List.mem_map.mp hmem
  obtain ⟨⟨k, m⟩, hrecord, rfl⟩ := List.mem_map.mp hm
  obtain ⟨hrecord, hname⟩ := List.mem_filter.mp hrecord
  exact ⟨k, m, hrecord, of_decide_eq_true hname, hpos⟩

/-- Every execution takes its time. -/
theorem total_duration (r : Recording) (name : String) : r.total name .duration none =
    r.total name .executions (some "ok") + r.total name .executions (some "error") := by
  rw [total, total, total, ← List.sum_map_add]
  congr 1
  refine List.map_congr_left fun m _ => ?_
  rcases m with _ | n | ⟨_ | _, ms⟩ <;> rfl

theorem total_superseded_pos_iff {name : String} : 0 < r.total name .superseded none ↔
    ∃ k n, (k, .superseded n) ∈ r.records ∧ r.names[k] = name ∧ 0 < n := by
  constructor
  · intro h
    obtain ⟨k, m, hrecord, hname, hpos⟩ := exists_of_total_pos h
    cases m with
    | superseded n => exact ⟨k, n, hrecord, hname, hpos⟩
    | _ => contradiction
  · rintro ⟨k, n, hrecord, hname, hpos⟩
    refine List.sum_pos_iff_exists_pos_nat.mpr ⟨n, ?_, hpos⟩
    have hunder : .superseded n ∈ r.under name :=
      List.mem_map.mpr ⟨_, List.mem_filter.mpr ⟨hrecord, decide_eq_true hname⟩, rfl⟩
    exact List.mem_map.mpr ⟨_, hunder, rfl⟩

theorem mem_labels {i : Instrument} {l : Labels} {s : Series} (h : Shows r.samples i l s) :
    ∃ k : Fin r.names.length, l ∈ i.labels r.names[k] := by
  have hpos := exists_shows_iff.mp ⟨s, h⟩
  rw [total_samples] at hpos
  obtain ⟨k, m, -, hname, hamount⟩ := exists_of_total_pos hpos
  exact ⟨k, hname ▸ Measurement.mem_labels hamount⟩

theorem total_perm {records : List (Fin r.names.length × Measurement)}
    (h : records.Perm r.records) (name : String) (i : Instrument) (result : Option String) :
    total ⟨r.names, records⟩ name i result = r.total name i result :=
  (((h.filter _).map _).map _).sum_nat

/-- What several recorders show under a name adds up what was recorded under it. -/
theorem aggregates (r : Recording) : r.Aggregates where
  measured := nodup_measured r.samples
  labels _ _ _ := mem_labels
  counted i hi l s := by
    rw [shows_counter_iff hi, total_samples]
  timed name s hs := by
    obtain ⟨hsuits, hcount⟩ := hs.suits
    rw [total_samples, total_duration] at hcount
    cases hsuits with
    | counter hi => contradiction
    | histogram n sum least most => exact ⟨sum, least, most, by rw [← hcount]; rfl⟩
  timed_iff name := by
    rw [exists_shows_iff, total_samples, total_duration]
  superseded name := by
    rw [exists_shows_iff, total_samples]
    exact total_superseded_pos_iff
  isolated r' l hunder i s := by
    rw [shows_iff, shows_iff, ← Sample.contributed_filter, filter_samples, hunder, ← filter_samples,
      Sample.contributed_filter]
  reordered records hperm i l n := by
    rw [exists_shows_count_iff, exists_shows_count_iff, total_samples, total_samples,
      total_perm hperm]

end Recording

end CoalescingQueue
