import CoalescingQueue.Metrics
import Mathlib.Algebra.Ring.Nat
import Mathlib.Data.List.Induction
import Mathlib.Data.List.Nodup

/-!
# Series and samples

The series of an instrument are a table in which each set of labels stands once, with everything
that was contributed under those labels taken together. What a table holds is said for any
samples and whatever their order. Nothing here knows of a queue, and sums and extremes of
durations are carried along as they are.
-/
namespace CoalescingQueue

namespace Series

/-- How much was counted, or how many durations. -/
def count : Series → Nat
  | .counter total => total
  | .histogram n _ _ _ => n

/-- Series taken together in their order, if there are any. -/
def merged : List Series → Option Series
  | [] => none
  | s :: rest => some (rest.foldl merge s)

theorem merged_concat (ss : List Series) (s : Series) :
    merged (ss ++ [s]) = some (((merged ss).map (·.merge s)).getD s) := by
  cases ss with
  | nil => rfl
  | cons t rest => simp [merged]

/-- What is recorded of an amount: nothing if there is none. -/
def recorded (n : Nat) : List Series := if n = 0 then [] else [.counter n]

/-- Amounts add up, and there is a total unless it would be zero. -/
theorem merged_recorded {ns : List Nat} {s : Series} :
    merged (ns.flatMap recorded) = some s ↔ s = .counter ns.sum ∧ 0 < ns.sum := by
  induction ns using List.reverseRecOn generalizing s with
  | nil => exact ⟨nofun, nofun⟩
  | append_singleton ns n ih =>
    rw [List.flatMap_append, List.flatMap_singleton, List.sum_append, List.sum_singleton]
    by_cases hn : n = 0
    · rw [recorded, if_pos hn, List.append_nil, ih, hn, Nat.add_zero]
    · have hpos : 0 < ns.sum + n := by omega
      rw [recorded, if_neg hn, merged_concat, and_iff_left hpos, Option.some.injEq, eq_comm]
      cases hbefore : merged (ns.flatMap recorded) with
      | none =>
        have hzero : ns.sum = 0 := by
          by_contra hsome
          rw [ih.mpr ⟨rfl, Nat.pos_of_ne_zero hsome⟩] at hbefore
          contradiction
        rw [hzero, Nat.zero_add]
        rfl
      | some t =>
        obtain ⟨rfl, -⟩ := ih.mp hbefore
        rfl

/-- Summaries of one duration each count them all. -/
theorem merged_durations {ms : List Float} (h : ms ≠ []) : ∃ sum least most,
    merged (ms.map fun d => .histogram 1 d d d) = some (.histogram ms.length sum least most) := by
  induction ms using List.reverseRecOn with
  | nil => contradiction
  | append_singleton ms d ih =>
    rw [List.map_append, List.map_singleton, merged_concat, List.length_append]
    cases ms with
    | nil => exact ⟨d, d, d, rfl⟩
    | cons m ms =>
      obtain ⟨sum, least, most, heq⟩ := ih (by simp)
      rw [heq]
      exact ⟨_, _, _, rfl⟩

end Series

namespace Points

/-- The labels of the series, each as often as it stands there. -/
def labels (points : Points) : List Labels := points.map Prod.fst

theorem labels_add (l : Labels) (s : Series) (points : Points) : (add l s points).labels =
    if l ∈ points.labels then points.labels else points.labels ++ [l] := by
  induction points with
  | nil => simp [add, labels]
  | cons p points ih =>
    obtain ⟨k, t⟩ := p
    unfold add
    split
    · next heq => simp [labels, heq]
    · next hne =>
      have hmem : l ∈ labels ((k, t) :: points) ↔ l ∈ labels points := by
        simp [labels, Ne.symm hne]
      show k :: labels (add l s points) = _
      rw [ih]
      simp only [hmem]
      split <;> rfl

/-- Each set of labels stands there once. -/
theorem nodup_add {points : Points} (h : points.labels.Nodup) (l : Labels) (s : Series) :
    (add l s points).labels.Nodup := by
  rw [labels_add]
  split
  · exact h
  · next hnew =>
    rw [← List.concat_eq_append]
    exact h.concat hnew

theorem lookup_cons (k l : Labels) (s : Series) (points : Points) :
    List.lookup l ((k, s) :: points) = if l = k then some s else points.lookup l := by
  rw [List.lookup_cons]
  by_cases hl : l = k
  · rw [if_pos hl, beq_iff_eq.mpr hl]
  · rw [if_neg hl, beq_eq_false_iff_ne.mpr hl]

/-- What was there under the labels is merged, and all else is left alone. -/
theorem lookup_add (l k : Labels) (s : Series) (points : Points) : (add l s points).lookup k =
    if k = l then some (((points.lookup l).map (·.merge s)).getD s) else points.lookup k := by
  induction points with
  | nil =>
    rw [add, lookup_cons]
    rfl
  | cons p points ih =>
    obtain ⟨m, t⟩ := p
    unfold add
    split
    · next heq =>
      subst heq
      rw [lookup_cons, lookup_cons, lookup_cons, if_pos rfl]
      split <;> rfl
    · next hne =>
      rw [lookup_cons, ih, lookup_cons, lookup_cons, if_neg (Ne.symm hne)]
      by_cases hk : k = l
      · rw [if_pos hk, if_pos hk, if_neg (hk ▸ Ne.symm hne)]
      · rw [if_neg hk, if_neg hk]

theorem lookup_eq_some_iff {points : Points} (h : points.labels.Nodup) {l : Labels} {s : Series} :
    points.lookup l = some s ↔ (l, s) ∈ points := by
  induction points with
  | nil => simp
  | cons p points ih =>
    obtain ⟨k, t⟩ := p
    obtain ⟨hnew, hrest⟩ := List.nodup_cons.mp h
    rw [lookup_cons, List.mem_cons]
    split
    · next hl =>
      subst hl
      have habsent : (l, s) ∉ points := fun hmem => hnew (List.mem_map.mpr ⟨_, hmem, rfl⟩)
      simp [habsent, eq_comm]
    · next hl => simp [hl, ih hrest]

end Points

/-- The labels under which a queue of this name contributes to an instrument. -/
def Instrument.labels (name : String) : Instrument → List Labels
  | .executions => [⟨name, some "ok"⟩, ⟨name, some "error"⟩]
  | _ => [⟨name, none⟩]

/-- What a contribution adds to the series of an instrument with these labels. -/
def Contribution.under (i : Instrument) (l : Labels) (c : Contribution) : List Series :=
  if c.instrument = i ∧ c.labels = l then [c.series] else []

namespace Sample

/-- What samples contribute to the series of one instrument with these labels. -/
def contributed (samples : List Sample) (i : Instrument) (l : Labels) : List Series :=
  (samples.flatMap contributions).flatMap (·.under i l)

theorem contributed_cons (s : Sample) (samples : List Sample) (i : Instrument) (l : Labels) :
    contributed (s :: samples) i l = contributed [s] i l ++ contributed samples i l := by
  simp [contributed]

section

variable (queue : String) (i : Instrument) (l : Labels)

theorem contributions_superseded (n : Nat) : contributions ⟨queue, .superseded n⟩ =
    if n = 0 then [] else [⟨.superseded, ⟨queue, none⟩, .counter n⟩] := by
  cases n <;> rfl

theorem contributed_enqueued : contributed [⟨queue, .enqueued⟩] i l =
    if .enqueued = i ∧ ⟨queue, none⟩ = l then Series.recorded 1 else [] := by
  show Contribution.under i l _ ++ [] = _
  rw [List.append_nil]
  rfl

/-- Nothing superseded has no part in any series. -/
theorem contributed_superseded (n : Nat) : contributed [⟨queue, .superseded n⟩] i l =
    if .superseded = i ∧ ⟨queue, none⟩ = l then Series.recorded n else [] := by
  rw [contributed, List.flatMap_singleton, contributions_superseded, Series.recorded]
  split
  · rw [ite_self]
    rfl
  · rw [List.flatMap_singleton]
    rfl

theorem contributed_execution (isSuccess : Bool) (ms : Float) :
    contributed [⟨queue, .execution isSuccess ms⟩] i l =
      (if .executions = i ∧ ⟨queue, some (resultLabel isSuccess)⟩ = l then Series.recorded 1
        else []) ++
      if .duration = i ∧ ⟨queue, none⟩ = l then [.histogram 1 ms ms ms] else [] := by
  show Contribution.under i l _ ++ (Contribution.under i l _ ++ []) = _
  rw [List.append_nil]
  rfl

end

theorem resultLabel_inj {b b' : Bool} : resultLabel b = resultLabel b' ↔ b = b' := by
  cases b <;> cases b' <;> decide

end Sample

/-- A table of series sums up contributions. -/
structure Points.SumsUp (points : Points) (cs : List Contribution) (i : Instrument) : Prop where
  nodup : points.labels.Nodup
  lookup_eq : ∀ l, points.lookup l = Series.merged (cs.flatMap (·.under i l))

namespace Points

variable {points : Points} {cs : List Contribution} {i : Instrument}

theorem SumsUp.add (h : points.SumsUp cs i) (c : Contribution) :
    (if c.instrument = i then points.add c.labels c.series else points).SumsUp (cs ++ [c]) i := by
  split
  · next hi =>
    refine ⟨nodup_add h.nodup _ _, fun l => ?_⟩
    rw [lookup_add, List.flatMap_append, List.flatMap_singleton, h.lookup_eq, h.lookup_eq]
    split
    · next hl => rw [hl, Contribution.under, if_pos ⟨hi, rfl⟩, Series.merged_concat]
    · next hl =>
      rw [Contribution.under, if_neg fun hboth => hl hboth.2.symm, List.append_nil]
  · next hi =>
    refine ⟨h.nodup, fun l => ?_⟩
    rw [h.lookup_eq, List.flatMap_append, List.flatMap_singleton, Contribution.under,
      if_neg fun hboth => hi hboth.1, List.append_nil]

/-- The series of an instrument are what was contributed to them. -/
theorem sumsUp_ofSamples (samples : List Sample) (i : Instrument) :
    (ofSamples samples i).SumsUp (samples.flatMap Sample.contributions) i := by
  unfold ofSamples
  generalize samples.flatMap Sample.contributions = cs
  induction cs using List.reverseRecOn with
  | nil => exact ⟨List.nodup_nil, fun _ => rfl⟩
  | append_singleton cs c ih =>
    rw [List.foldl_append]
    exact ih.add c

theorem mem_ofSamples_iff {samples : List Sample} {i : Instrument} {l : Labels} {s : Series} :
    (l, s) ∈ ofSamples samples i ↔ Series.merged (Sample.contributed samples i l) = some s := by
  have hsums := sumsUp_ofSamples samples i
  rw [← lookup_eq_some_iff hsums.nodup, hsums.lookup_eq]
  rfl

theorem perm_inOrder (points : Points) : points.inOrder.Perm points := List.mergeSort_perm _ _

end Points

/-- An instrument has data if something was contributed to it, and then it is all there. -/
theorem mem_measured_iff {samples : List Sample} {i : Instrument} {points : Points} :
    (i, points) ∈ measured samples ↔
      points = (Points.ofSamples samples i).inOrder ∧ Points.ofSamples samples i ≠ [] := by
  have hall : i ∈ Instrument.all := by cases i <;> decide
  have hperm := Points.perm_inOrder (Points.ofSamples samples i)
  unfold measured
  rw [List.mem_filter, List.mem_map]
  constructor
  · rintro ⟨⟨i', -, heq⟩, hne⟩
    obtain ⟨rfl, rfl⟩ := Prod.mk.inj heq
    refine ⟨rfl, fun hnil => ?_⟩
    rw [hnil] at hne
    simp [Points.inOrder] at hne
  · rintro ⟨rfl, hne⟩
    refine ⟨⟨i, hall, rfl⟩, ?_⟩
    rw [Bool.not_eq_true', List.isEmpty_eq_false_iff]
    exact fun hnil => hne (List.nil_perm.mp (hnil ▸ hperm))

/-- No instrument is there twice, and each has a point. No two points have the same labels. -/
theorem nodup_measured (samples : List Sample) : ((measured samples).map Prod.fst).Nodup ∧
    ∀ entry ∈ measured samples, entry.2 ≠ [] ∧ entry.2.labels.Nodup := by
  constructor
  · have hshown : (measured samples).map Prod.fst =
        Instrument.all.filter fun i => !(Points.ofSamples samples i).inOrder.isEmpty := by
      unfold measured
      rw [List.filter_map, List.map_map]
      exact List.map_id _
    rw [hshown]
    exact List.Nodup.filter _ (by decide)
  · rintro ⟨i, points⟩ hmem
    obtain ⟨rfl, hne⟩ := mem_measured_iff.mp hmem
    have hperm := Points.perm_inOrder (Points.ofSamples samples i)
    refine ⟨fun hnil => hne (List.nil_perm.mp (hnil ▸ hperm)), ?_⟩
    exact (hperm.map Prod.fst).nodup_iff.mpr (Points.sumsUp_ofSamples samples i).nodup

/-- The metrics show this series under these labels. -/
def Shows (samples : List Sample) (i : Instrument) (l : Labels) (s : Series) : Prop :=
  ∃ points, (i, points) ∈ measured samples ∧ (l, s) ∈ points

/-- What is shown is what was contributed, taken together. -/
theorem shows_iff {samples : List Sample} {i : Instrument} {l : Labels} {s : Series} :
    Shows samples i l s ↔ Series.merged (Sample.contributed samples i l) = some s := by
  rw [← Points.mem_ofSamples_iff]
  constructor
  · rintro ⟨points, hmeasured, hmem⟩
    obtain ⟨rfl, -⟩ := mem_measured_iff.mp hmeasured
    exact (Points.perm_inOrder _).mem_iff.mp hmem
  · intro hmem
    refine ⟨_, mem_measured_iff.mpr ⟨rfl, List.ne_nil_of_mem hmem⟩, ?_⟩
    exact (Points.perm_inOrder _).mem_iff.mpr hmem

/-! ## Totals over all labels -/

namespace Points

/-- What the series of an instrument come to, whatever their labels. -/
def total (points : Points) : Nat := (points.map (·.2.count)).sum

/-- Each series is a total of something, and all of them come to a number. -/
structure ComesTo (points : Points) (n : Nat) : Prop where
  counter : ∀ p ∈ points, ∃ k, 0 < k ∧ p.2 = .counter k
  total_eq : points.total = n

theorem ComesTo.add {points : Points} {n k : Nat} (h : points.ComesTo n) (l : Labels) (hk : 0 < k) :
    (add l (.counter k) points).ComesTo (n + k) := by
  obtain ⟨hcounter, rfl⟩ := h
  induction points with
  | nil =>
    exact ⟨List.forall_mem_singleton.mpr ⟨k, hk, rfl⟩, by simp [Points.add, total, Series.count]⟩
  | cons p points ih =>
    obtain ⟨m, s⟩ := p
    obtain ⟨⟨k', hk', rfl⟩, hrest⟩ := List.forall_mem_cons.mp hcounter
    unfold Points.add
    split
    · refine ⟨List.forall_mem_cons.mpr ⟨⟨k' + k, by omega, rfl⟩, hrest⟩, ?_⟩
      show k' + k + total points = k' + total points + k
      omega
    · obtain ⟨hadded, htotal⟩ := ih hrest
      refine ⟨List.forall_mem_cons.mpr ⟨⟨k', hk', rfl⟩, hadded⟩, ?_⟩
      show k' + total (Points.add l (.counter k) points) = k' + total points + k
      omega

/-- There is something to show exactly if there is a total. -/
theorem ComesTo.ne_nil_iff {points : Points} {n : Nat} (h : points.ComesTo n) :
    points ≠ [] ↔ 0 < n := by
  obtain ⟨hcounter, rfl⟩ := h
  cases points with
  | nil => simp [total]
  | cons p points =>
    obtain ⟨k, hk, hp⟩ := hcounter p (by simp)
    refine iff_of_true (List.cons_ne_nil _ _) ?_
    show 0 < p.2.count + total points
    rw [hp, Series.count]
    omega

theorem total_inOrder (points : Points) : points.inOrder.total = points.total :=
  ((perm_inOrder points).map _).sum_nat

theorem ofSamples_eq (samples : List Sample) (i : Instrument) : ofSamples samples i =
    ((samples.flatMap Sample.contributions).filter (·.instrument = i)).foldl
      (fun points c => add c.labels c.series points) [] := by
  rw [List.foldl_filter]
  simp only [decide_eq_true_eq]
  rfl

/-- Each execution counts once. -/
theorem comesTo_executions (samples : List Sample) :
    (ofSamples samples .executions).ComesTo
      ((samples.flatMap Sample.contributions).countP (·.instrument = .executions)) := by
  have hone : ∀ c ∈ samples.flatMap Sample.contributions, c.instrument = .executions →
      c.series = .counter 1 := by
    intro c hc hi
    obtain ⟨⟨queue, measurement⟩, -, hmem⟩ := List.mem_flatMap.mp hc
    cases measurement with
    | enqueued =>
      obtain rfl := List.mem_singleton.mp hmem
      contradiction
    | superseded n =>
      rw [Sample.contributions_superseded] at hmem
      split at hmem
      · contradiction
      · obtain rfl := List.mem_singleton.mp hmem
        contradiction
    | execution isSuccess ms =>
      rcases List.mem_pair.mp hmem with rfl | rfl
      · rfl
      · contradiction
  unfold ofSamples
  generalize samples.flatMap Sample.contributions = cs at hone
  induction cs using List.reverseRecOn with
  | nil => exact ⟨List.forall_mem_nil _, rfl⟩
  | append_singleton cs c ih =>
    obtain ⟨hcs, hc⟩ := List.forall_mem_append.mp hone
    rw [List.foldl_append, List.countP_append, List.countP_singleton]
    have hsum := ih hcs
    dsimp only [List.foldl_cons, List.foldl_nil]
    split
    · next hi =>
      rw [List.forall_mem_singleton.mp hc hi, if_pos (decide_eq_true hi)]
      exact hsum.add _ Nat.one_pos
    · next hi =>
      rw [if_neg (by simpa using hi)]
      exact hsum

end Points

end CoalescingQueue
