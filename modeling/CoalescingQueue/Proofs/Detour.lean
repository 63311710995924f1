import CoalescingQueue.Proofs.Handles
import CoalescingQueue.Proofs.Renaming
import CoalescingQueue.Proofs.Replies

/-!
# A handle that nobody needs

A handle is cloned, and later the clone is dropped. If nothing else is done with the clone, and
some other handle is held all the while, the rest of the scenario comes to the same as without the
two steps, apart from the numbers of the handles that are cloned later.
-/
namespace CoalescingQueue

/-- The number of a handle when there is none of number `i`, so that later ones move up. -/
def moveUp (i h : Nat) : Nat := if h ≤ i then h else h - 1

theorem moveUp_of_le {i h : Nat} (hle : h ≤ i) : moveUp i h = h := if_pos hle

theorem moveUp_of_lt {i h : Nat} (hlt : i < h) : moveUp i h = h - 1 := if_neg (by omega)

/-- The guise in which there is no handle of this number. -/
def Guise.without (i : Nat) : Guise where
  id s := s
  handle := moveUp i
  Uses h h' := h' = moveUp i h

/-- The handle of this number makes no difference to whether one is held. Once it is gone, it is
held no more. -/
def Bond.without (i : Nat) (IsGone : Prop) : Bond where
  Holds hs hs' := i < hs.length ∧ hs' = hs.eraseIdx i ∧ hs'.any id = hs.any id ∧
    (IsGone → hs.getD i false = false)
  any_eq h := h.2.2.1
  IsHeard := False

namespace Moment

/-- The action at hand, if there is one, is not on this handle. -/
def Spares (i : Nat) (x : Moment) : Prop := x.handle? ≠ some i

/-- Some other handle is held, and the action at hand does not drop it. -/
def KeepsAnother (i : Nat) (x : Moment) : Prop :=
  ∃ h, h ≠ i ∧ x.queue.holds h = true ∧ x.faced? ≠ some (.drop h)

end Moment

/-! ## Handles by number -/

section Numbers

variable {i h : Nat} {hs : List Bool}

theorem any_of_getD (hh : hs.getD h false = true) : hs.any id = true := by
  rw [List.getD_eq_getElem?_getD] at hh
  cases hget : hs[h]? with
  | none =>
    rw [hget] at hh
    contradiction
  | some held =>
    rw [hget] at hh
    exact List.any_eq_true.mpr ⟨held, List.mem_of_getElem? hget, hh⟩

theorem getD_eraseIdx (hne : h ≠ i) :
    (hs.eraseIdx i).getD (moveUp i h) false = hs.getD h false := by
  rw [List.getD_eq_getElem?_getD, List.getD_eq_getElem?_getD]
  rcases Nat.lt_or_gt_of_ne hne with hlt | hlt
  · rw [moveUp_of_le hlt.le, List.getElem?_eraseIdx, if_pos hlt]
  · rw [moveUp_of_lt hlt, List.getElem?_eraseIdx, if_neg (by omega), Nat.sub_add_cancel (by omega)]

theorem any_eraseIdx_of_another (hne : h ≠ i) (hh : hs.getD h false = true) :
    (hs.eraseIdx i).any id = hs.any id := by
  rw [any_of_getD hh]
  exact any_of_getD ((getD_eraseIdx hne).trans hh)

theorem any_eraseIdx_of_gone (hi : i < hs.length) (hgone : hs.getD i false = false) :
    (hs.eraseIdx i).any id = hs.any id := by
  rw [List.getD_eq_getElem _ _ hi] at hgone
  conv_rhs => rw [← List.take_append_drop i hs, List.drop_eq_getElem_cons hi, hgone]
  rw [List.eraseIdx_eq_take_drop_succ]
  simp

theorem eraseIdx_set (hne : h ≠ i) : (hs.set h false).eraseIdx i =
    (hs.eraseIdx i).set (moveUp i h) false := by
  rcases Nat.lt_or_gt_of_ne hne with hlt | hlt
  · rw [moveUp_of_le hlt.le, List.eraseIdx_set_gt hlt]
  · rw [moveUp_of_lt hlt, List.eraseIdx_set_lt hlt]

theorem getD_set_of_ne {k : Nat} (hne : k ≠ h) :
    (hs.set h false).getD k false = hs.getD k false := by
  rw [List.getD_eq_getElem?_getD, List.getD_eq_getElem?_getD, List.getElem?_set_ne hne.symm]

end Numbers

/-! ## Actions without the handle -/

namespace Action.Twin

variable {i : Nat} {a a' : Action} {hs hs' : List Bool}

theorem handle?_without (ha : a.Twin (.without i) a') :
    a'.handle? = a.handle?.map (moveUp i) := by
  cases ha with
  | add _ hu | burst _ hu | blockingAdd _ hu | shutdown hu | watch hu | describe hu =>
    exact congrArg some hu
  | _ => rfl

/-- Before there are so many handles, none of them moves up. -/
theorem agrees_before (ha : a.Twin (.without i) a') (hsame : hs' = hs) (hlength : hs.length ≤ i) :
    a.Agrees (.without i) Bond.same.Holds hs hs' a' := by
  subst hsame
  refine ⟨fun h h' hh hh' => ?_, fun _ _ _ => ⟨rfl, (moveUp_of_le hlength).symm⟩,
    fun h _ hheld => ?_⟩
  · rw [ha.handle?_without, hh, Option.map_some, Option.some.injEq] at hh'
    subst hh'
    rcases Nat.lt_or_ge i h with hlt | hle
    · rw [moveUp_of_lt hlt, List.getD_eq_default _ _ (by omega),
        List.getD_eq_default _ _ (by omega)]
    · rw [moveUp_of_le hle]
  · have hlt : h < hs'.length := by
      by_contra hge
      rw [List.getD_eq_default _ _ (by omega)] at hheld
      contradiction
    exact congrArg (fun k => hs'.set k false) (moveUp_of_le (by omega))

/-- An action that is not on the handle does the same without it, if another one remains or the
handle is gone. -/
theorem agrees_without {IsGone : Prop} (ha : a.Twin (.without i) a')
    (hb : (Bond.without i IsGone).Holds hs hs') (hspare : a.handle? ≠ some i)
    (hother : IsGone ∨ ∃ k, k ≠ i ∧ hs.getD k false = true ∧ a ≠ .drop k) :
    a.Agrees (.without i) (Bond.without i IsGone).Holds hs hs' a' := by
  obtain ⟨hi, rfl, hany, hgone⟩ := hb
  have hne {h : Nat} (hh : a.handle? = some h) : h ≠ i := by
    rintro rfl
    exact hspare hh
  refine ⟨fun h h' hh hh' => ?_, fun h hclone hheld => ⟨⟨?_, ?_, ?_, ?_⟩, ?_⟩,
    fun h hdrop hheld => ⟨?_, ?_, ?_, ?_⟩⟩
  · rw [ha.handle?_without, hh, Option.map_some, Option.some.injEq] at hh'
    rw [← hh', getD_eraseIdx (hne hh)]
  · rw [List.length_append]
    omega
  · rw [List.eraseIdx_append_of_lt_length hi]
  · rw [List.any_append, List.any_append, hany]
  · intro hg
    rw [List.getD_append _ _ _ _ hi]
    exact hgone hg
  · rw [List.length_eraseIdx_of_lt hi]
    exact (moveUp_of_lt hi).symm
  · rwa [List.length_set]
  · exact (eraseIdx_set (hne (congrArg Action.handle? hdrop))).symm
  · refine (congrArg (·.any id) (eraseIdx_set (hne (congrArg Action.handle? hdrop))).symm).trans ?_
    rcases hother with hg | ⟨k, hk, hkheld, hkept⟩
    · refine any_eraseIdx_of_gone (by rwa [List.length_set]) ?_
      rw [getD_set_of_ne (hne (congrArg Action.handle? hdrop)).symm]
      exact hgone hg
    · refine any_eraseIdx_of_another hk ?_
      rw [getD_set_of_ne]
      · exact hkheld
      · rintro rfl
        exact hkept hdrop
  · intro hg
    rw [getD_set_of_ne (hne (congrArg Action.handle? hdrop)).symm]
    exact hgone hg

end Action.Twin

/-! ## Handles are only ever added -/

theorem Action.twin_refl (a : Action) : a.Twin (.names fun s => s) a := by
  have hrename : a.rename (fun s => s) = a := by
    cases a with
    | burst rs handle => exact congrArg (Action.burst · handle) (List.map_id' rs)
    | _ => rfl
  have htwin := a.twin_rename fun s => s
  rwa [hrename] at htwin

theorem Hook.twin_refl (k : Hook) : k.Twin (.names fun s => s) k :=
  ⟨rfl, rfl, rfl, rfl, rfl, List.forall₂_same.mpr fun a _ => a.twin_refl⟩

theorem WorkScript.twin_refl (s : WorkScript) : s.Twin (.names fun s => s) s := by
  refine ⟨fun n => ?_, rfl, rfl⟩
  cases s.call n with
  | breakdown => exact .breakdown
  | run p =>
    exact .run ⟨rfl, List.forall₂_same.mpr fun a _ => a.twin_refl, rfl, rfl,
      List.forall₂_same.mpr fun a _ => a.twin_refl, rfl⟩

/-- Queues with the same handles, of which there are so many at least. -/
def Bond.wide (n : Nat) : Bond where
  Holds hs hs' := hs' = hs ∧ n ≤ hs.length
  any_eq h := congrArg (·.any id) h.1
  IsHeard := False

theorem Action.agrees_wide {n : Nat} {a a' : Action} {hs hs' : List Bool}
    (h : a.Twin (.names fun s => s) a') (hb : (Bond.wide n).Holds hs hs') :
    a.Agrees (.names fun s => s) (Bond.wide n).Holds hs hs' a' := by
  obtain ⟨rfl, hn⟩ := hb
  have hsame := h.agrees (fun s => s) (rfl : hs' = hs')
  refine ⟨hsame.held, fun handle hclone hheld => ⟨⟨rfl, ?_⟩, rfl⟩, fun handle hdrop hheld =>
    ⟨rfl, ?_⟩⟩
  · rw [List.length_append]
    exact hn.trans (Nat.le_add_right _ _)
  · rwa [List.length_set]

namespace Queue

/-- How many handles were handed out so far. -/
def width (q : Queue) : Nat := q.handles.length

/-- A queue that does not change when nothing in it gets another name. -/
def IsSound (q : Queue) : Prop := q.Twin (.names fun s => s) .same q

variable {q p : Queue} {script : WorkScript}

theorem IsSound.wide (h : q.IsSound) : q.Twin (.names fun s => s) (.wide q.width) q :=
  { h with handles := ⟨rfl, le_rfl⟩ }

theorem isSound_of_wide {n : Nat} (h : q.Twin (.names fun s => s) (.wide n) q) :
    q.IsSound ∧ n ≤ q.width :=
  ⟨{ h with handles := rfl }, h.handles.2⟩

theorem agree_wide {n : Nat} (h : q.Twin (.names fun s => s) (.wide n) q)
    (faced faced' : Option Action) : Agree (.names fun s => s) (.wide n) q q faced faced' :=
  fun _ _ _ _ ha => Action.agrees_wide ha h.handles

theorem IsSound.step? (h : q.IsSound) (hp : q.step? script = some p) :
    p.IsSound ∧ q.width ≤ p.width := by
  have hstep := h.wide.step? script.twin_refl (agree_wide h.wide _ _)
  rw [hp] at hstep
  cases hstep with
  | some htwin => exact isSound_of_wide htwin

theorem IsSound.attend? (h : q.IsSound) (hp : q.attend? = some p) :
    p.IsSound ∧ q.width ≤ p.width := by
  have hstep := h.wide.attend? (agree_wide h.wide _ _)
  rw [hp] at hstep
  cases hstep with
  | some htwin => exact isSound_of_wide htwin

theorem IsSound.begin (h : q.IsSound) (a : Action) :
    (begin { q with reply := .nothing } a).IsSound ∧
      q.width ≤ (begin { q with reply := .nothing } a).width := by
  have hq : { q with reply := .nothing }.Twin (.names fun s => s) (.wide q.width)
      { q with reply := .nothing } := { h.wide with reply_eq := False.elim }
  exact isSound_of_wide (hq.begin a.twin_refl (Action.agrees_wide a.twin_refl hq.handles))

/-- On this way there are never more handles than at its end, where the queue is sound. -/
structure Widening (q : Queue) (way : List Queue) : Prop where
  sound : (way.getLastD q).IsSound
  le : ∀ p ∈ q :: way, p.width ≤ (way.getLastD q).width

namespace Widening

theorem nil (h : q.IsSound) : Widening q [] := ⟨h, fun p hp => by
  rw [List.mem_singleton.mp hp]
  exact le_rfl⟩

theorem cons {way : List Queue} (hle : q.width ≤ p.width) (h : Widening p way) :
    Widening q (p :: way) := by
  refine ⟨?_, fun r hr => ?_⟩
  · rw [List.getLastD_cons]
    exact h.sound
  · rw [List.getLastD_cons]
    rcases List.mem_cons.mp hr with rfl | hr
    · exact hle.trans (h.le p List.mem_cons_self)
    · exact h.le r hr

theorem append {way way' : List Queue} (h : Widening q way)
    (h' : Widening (way.getLastD q) way') : Widening q (way ++ way') := by
  refine ⟨?_, fun r hr => ?_⟩
  · rw [getLastD_append]
    exact h'.sound
  · rw [getLastD_append]
    rcases List.mem_append.mp (List.cons_append ▸ hr) with hr | hr
    · exact (h.le r hr).trans (h'.le _ List.mem_cons_self)
    · exact h'.le r (List.mem_cons_of_mem _ hr)

theorem passed {next? : Queue → Option Queue}
    (hnext : ∀ {p p' : Queue}, p.IsSound → next? p = some p' → p'.IsSound ∧ p.width ≤ p'.width)
    (h : q.IsSound) (n : Nat) : Widening q (passed next? n q) := by
  induction n generalizing q with
  | zero => exact nil h
  | succ n ih =>
    unfold Queue.passed
    cases hp : next? q with
    | none => exact nil h
    | some p =>
      obtain ⟨hsound, hle⟩ := hnext h hp
      exact cons hle (ih hsound)

theorem settling (h : q.IsSound) (script : WorkScript) : Widening q (q.settling script) :=
  passed (fun hp => hp.step?) h _

theorem advancing (h : q.IsSound) (script : WorkScript) (time n : Nat) :
    Widening q (advancing script time n q) := by
  induction n generalizing q with
  | zero => exact nil h
  | succ n ih =>
    have hsettling := settling h script
    refine hsettling.append ?_
    have hsound := hsettling.sound
    rw [← settle_eq] at hsound ⊢
    generalize q.settle script = p at hsound
    have hclock (time : Nat) : Widening p [p.clockTo time] :=
      cons le_rfl (nil (hsound.clockTo time))
    have hwoken (time : Nat) : (p.wakeRunAt time).IsSound ∧ p.width ≤ (p.wakeRunAt time).width :=
      isSound_of_wide (hsound.wide.wakeRunAt time)
    split
    · split
      · next deadline _ =>
        split
        · exact cons (hwoken deadline).2 (ih (hwoken deadline).1)
        · split
          · exact cons (hwoken time).2 (nil (hwoken time).1)
          · exact hclock time
      · exact hclock time
    · exact nil hsound

theorem trail (h : q.IsSound) (script : WorkScript) (step : ScenarioStep) :
    Widening q (q.trail script step) := by
  cases step with
  | settle => exact settling h script
  | advance ms =>
    have hadvancing := advancing h script (q.now + ms) (q.now + ms - q.now)
    refine hadvancing.append ?_
    have hsound := hadvancing.sound
    rw [← advanceWithin_eq] at hsound ⊢
    exact settling hsound script
  | act a =>
    obtain ⟨hsound, hle⟩ := h.begin a
    exact cons hle (passed (fun hp => hp.attend?) hsound _)

theorem journey (h : q.IsSound) (script : WorkScript) (steps : List ScenarioStep) :
    Widening q (q.journey script steps) := by
  induction steps generalizing q with
  | nil => exact nil h
  | cons step rest ih =>
    have htrail := trail h script step
    refine htrail.append ?_
    rw [← take_eq]
    exact ih (take_eq script q step ▸ htrail.sound)

end Widening

theorem queue_mem_journey {steps : List ScenarioStep} {x : Moment}
    (hx : x ∈ q.moments script steps) : x.queue ∈ q :: q.journey script steps := by
  induction steps generalizing q with
  | nil => contradiction
  | cons step rest ih =>
    have hway {p : Queue} (hp : p ∈ q :: q.trail script step) :
        p ∈ q :: q.journey script (step :: rest) :=
      List.mem_append_left ((q.take script step).2.journey script rest) hp
    rcases List.mem_cons.mp hx with rfl | hx
    · exact List.mem_cons_self
    rcases List.mem_append.mp hx with hx | hx
    · obtain ⟨p, hp, rfl⟩ := List.mem_map.mp hx
      exact hway (List.mem_cons_of_mem _ hp)
    · rcases List.mem_cons.mp (ih hx) with heq | hlater
      · rw [heq, take_eq]
        exact hway List.getLastD_mem_cons
      · exact List.mem_cons_of_mem _ (List.mem_append_right _ hlater)

/-- At no moment of a scenario there are more handles than at its end. -/
theorem IsSound.width_le (h : q.IsSound) {steps : List ScenarioStep} {x : Moment}
    (hx : x ∈ q.moments script steps) : x.queue.width ≤ (q.play script steps).2.width := by
  rw [play_eq]
  exact (Widening.journey h script steps).le _ (queue_mem_journey hx)

theorem isSound_of_open? {config : QueueConfig} {hooks : List Hook}
    (hq : open? config hooks = some q) : q.IsSound := by
  have htwin : Option.Rel (Queue.Twin (.names fun s => s) .same) (open? config hooks)
      (open? config hooks) :=
    twin_open? (List.forall₂_same.mpr fun k (_ : k ∈ hooks) => k.twin_refl) rfl
  rw [hq] at htwin
  cases htwin with
  | some h => exact h

/-! ## Without the two steps -/

/-- A handle is cloned and dropped again. Nobody else uses it, some other handle is held all the
while, and the two steps do not interrupt anything. -/
structure Detour (script : WorkScript) (q : Queue) (before between after : List ScenarioStep)
    (h i : Nat) : Prop where
  index_eq : (q.play script before).2.width = i
  held : (q.play script before).2.holds h = true
  isFree_before : (q.play script before).2.IsFree
  spares : ∀ x ∈ (q.play script (before ++ [.act (.clone h)])).2.moments script between,
    x.Spares i ∧ x.KeepsAnother i
  another : ∃ k, k ≠ i ∧
    (q.play script (before ++ .act (.clone h) :: between)).2.holds k = true
  isFree_between : (q.play script (before ++ .act (.clone h) :: between)).2.IsFree
  spares_after : ∀ x ∈
    (q.play script (before ++ .act (.clone h) :: (between ++ [.act (.drop i)]))).2.moments script
      after, x.Spares i

/-- An action that is performed at once is all that happens. -/
theorem take_of_perform (script : WorkScript) {a : Action} {reply : Reply}
    (hbegin : begin { q with reply := .nothing } a =
      (perform { q with reply := .nothing } a).2.answer a (perform { q with reply := .nothing } a).1)
    (hperform : perform { q with reply := .nothing } a = (reply, p)) (hf : p.IsFree) :
    (q.take script (.act a)).2 = { p with reply } := by
  have hbegun : begin { q with reply := .nothing } a = { p with reply } := by
    rw [hbegin, hperform]
    exact if_neg (by rw [hf.turn_eq]; nofun)
  have hfree : IsFree { p with reply } := ⟨hf.turn_eq, hf.errand_eq, hf.due_eq⟩
  dsimp only [take, act]
  rw [hbegun]
  exact iterate_atRest hfree.attend? _

theorem take_clone (script : WorkScript) {h : Nat} (hf : q.IsFree) (hheld : q.holds h = true) :
    (q.take script (.act (.clone h))).2 =
      { q with handles := q.handles ++ [true], reply := .handle q.width } := by
  have hperform : perform { q with reply := .nothing } (.clone h) =
      (.handle q.width, { q with handles := q.handles ++ [true], reply := .nothing }) := if_pos hheld
  exact take_of_perform script rfl hperform ⟨hf.turn_eq, hf.errand_eq, hf.due_eq⟩

theorem set_of_getD_eq_false {hs : List Bool} {i : Nat} (hfalse : hs.getD i false = false) :
    hs.set i false = hs := by
  rcases Nat.lt_or_ge i hs.length with hlt | hge
  · rw [List.getD_eq_getElem _ _ hlt] at hfalse
    rw [← hfalse, List.set_getElem_self]
  · exact List.set_eq_of_length_le hge

/-- As long as another handle is held, nothing but the handle itself goes. -/
theorem take_drop (script : WorkScript) {i k : Nat} (hf : q.IsFree) (hk : k ≠ i)
    (hheld : q.holds k = true) : ∃ reply, (q.take script (.act (.drop i))).2 =
      { q with handles := q.handles.set i false, reply } := by
  have hkept : (q.handles.set i false).getD k false = true := (getD_set_of_ne hk).trans hheld
  have hdropped : drop { q with reply := .nothing } i =
      { q with handles := q.handles.set i false, reply := .nothing } :=
    wakeIfAbandoned_of_hasHandle (any_of_getD hkept)
  have hfree : IsFree { q with handles := q.handles.set i false, reply := .nothing } :=
    ⟨hf.turn_eq, hf.errand_eq, hf.due_eq⟩
  by_cases hi : q.holds i = true
  · have hperform : perform { q with reply := .nothing } (.drop i) =
        (.accepted, drop { q with reply := .nothing } i) := if_pos hi
    rw [hdropped] at hperform
    exact ⟨_, take_of_perform script rfl hperform hfree⟩
  · have hperform : perform { q with reply := .nothing } (.drop i) =
        (.noHandle, { q with reply := .nothing }) := if_neg hi
    have hsame : q.handles.set i false = q.handles :=
      set_of_getD_eq_false (Bool.eq_false_iff.mpr hi)
    rw [hsame] at hfree ⊢
    have htake := take_of_perform script rfl hperform hfree
    exact ⟨.noHandle, htake⟩

namespace Detour

variable {q' : Queue} {script' : WorkScript}
  {before between after before' between' after' : List ScenarioStep} {h i : Nat}

/-- Until the handle is cloned, everything is the same. -/
theorem play_before (hd : q.Detour script before between after h i) (hsound : q.IsSound)
    (hq : Alike (.without i) .same q q') (hs : script.Twin (.without i) script')
    (hbefore : List.Forall₂ (ScenarioStep.Twin (.without i)) before before') :
    List.Forall₂ (StepRecord.Twin (.without i)) (q.play script before).1
        (q'.play script' before').1 ∧
      Alike (.without i) .same (q.play script before).2 (q'.play script' before').2 := by
  refine hq.play hs hbefore fun x hx htwin a _ a' _ ha => ha.agrees_before htwin.handles ?_
  rw [← hd.index_eq]
  exact hsound.width_le (List.of_mem_zip hx).1

/-- While the clone is there, it makes no difference. -/
theorem play_between (hd : q.Detour script before between after h i)
    (hq : Alike (.without i) .same (q.play script before).2 q')
    (hs : script.Twin (.without i) script')
    (hbetween : List.Forall₂ (ScenarioStep.Twin (.without i)) between between') :
    List.Forall₂ (StepRecord.Twin (.without i))
        (((q.play script before).2.take script (.act (.clone h))).2.play script between).1
        (q'.play script' between').1 ∧
      Alike (.without i) (.without i False)
        (((q.play script before).2.take script (.act (.clone h))).2.play script between).2
        (q'.play script' between').2 := by
  have hspares := hd.spares
  rw [play_append, play_cons] at hspares
  have hfree := hd.isFree_before
  have hheld := hd.held
  have hindex := hd.index_eq
  generalize (q.play script before).2 = p at hq hspares hfree hheld hindex ⊢
  change ∀ x ∈ (p.take script (.act (.clone h))).2.moments script between, _ at hspares
  rw [take_clone script hfree hheld] at hspares ⊢
  have hhandles : (Bond.without i False).Holds (p.handles ++ [true]) q'.handles := by
    have hlength : p.handles.length = i := hindex
    have hsame : q'.handles = p.handles := hq.twin.handles
    refine ⟨?_, ?_, ?_, False.elim⟩
    · rw [List.length_append, hlength]
      exact Nat.lt_add_one i
    · rw [hsame, List.eraseIdx_append_of_length_le hlength.le, hlength, Nat.sub_self]
      exact (List.append_nil _).symm
    · rw [hsame, any_of_getD hheld, List.any_append]
      exact (Bool.or_true _).symm
  have htwin : { p with handles := p.handles ++ [true], reply := .handle p.width }.Twin
      (.without i) (.without i False) q' :=
    { hq.twin with handles := hhandles, reply_eq := False.elim }
  refine (htwin.alike ⟨hfree.turn_eq, hfree.errand_eq, hfree.due_eq⟩).play hs hbetween ?_
  intro x hx htwin a ha a' _ haa
  obtain ⟨hspare, k, hk, hkheld, hkept⟩ := hspares x.1 (List.of_mem_zip hx).1
  refine haa.agrees_without htwin.handles (fun hi => hspare ?_) (.inr ⟨k, hk, hkheld, ?_⟩)
  · exact Option.mem_bind_iff.mpr ⟨a, ha, hi⟩
  · rintro rfl
    exact hkept ha

/-- Once the clone is dropped, it makes no difference. -/
theorem play_after (hd : q.Detour script before between after h i)
    (hq : Alike (.without i) (.without i False)
      (((q.play script before).2.take script (.act (.clone h))).2.play script between).2 q')
    (hs : script.Twin (.without i) script')
    (hafter : List.Forall₂ (ScenarioStep.Twin (.without i)) after after') :
    List.Forall₂ (StepRecord.Twin (.without i))
        (((((q.play script before).2.take script (.act (.clone h))).2.play script between).2.take
          script (.act (.drop i))).2.play script after).1
        (q'.play script' after').1 ∧
      Alike (.without i) (.without i True)
        (((((q.play script before).2.take script (.act (.clone h))).2.play script between).2.take
          script (.act (.drop i))).2.play script after).2
        (q'.play script' after').2 := by
  have hspares := hd.spares_after
  have hfree := hd.isFree_between
  obtain ⟨k, hk, hheld⟩ := hd.another
  rw [play_append, play_cons] at hfree hheld
  rw [play_append, play_cons, play_append, play_cons] at hspares
  generalize (((q.play script before).2.take script (.act (.clone h))).2.play script between).2 = p
    at hq hspares hfree hheld ⊢
  change ∀ x ∈ (p.take script (.act (.drop i))).2.moments script after, _ at hspares
  obtain ⟨reply, htake⟩ := take_drop script hfree hk hheld
  rw [htake] at hspares ⊢
  have hhandles : (Bond.without i True).Holds (p.handles.set i false) q'.handles := by
    obtain ⟨hi, hsame, -, -⟩ := hq.twin.handles
    have hgone : (p.handles.set i false).getD i false = false := by
      rw [List.getD_eq_getElem?_getD, List.getElem?_set_self hi]
      rfl
    have hi' : i < (p.handles.set i false).length := by rwa [List.length_set]
    refine ⟨hi', ?_, ?_, fun _ => hgone⟩
    · rw [List.eraseIdx_set_eq, hsame]
    · rw [← any_eraseIdx_of_gone hi' hgone, List.eraseIdx_set_eq, hsame]
  have htwin : { p with handles := p.handles.set i false, reply }.Twin (.without i)
      (.without i True) q' := { hq.twin with handles := hhandles, reply_eq := False.elim }
  refine (htwin.alike ⟨hfree.turn_eq, hfree.errand_eq, hfree.due_eq⟩).play hs hafter ?_
  intro x hx htwin a ha a' _ haa
  refine haa.agrees_without htwin.handles (fun hi => ?_) (.inl trivial)
  exact hspares x.1 (List.of_mem_zip hx).1 (Option.mem_bind_iff.mpr ⟨a, ha, hi⟩)

end Detour
end Queue

/-- The answer without what was seen after the step of this number. -/
def Answer.omit (answer : Answer) (n : Nat) : Answer :=
  { answer with steps := answer.steps.eraseIdx n }

theorem eraseIdx_two {α : Type} {xs ys zs : List α} {y z : α} {m n : Nat} (hm : xs.length = m)
    (hn : ys.length = n) :
    ((xs ++ y :: (ys ++ z :: zs)).eraseIdx (m + 1 + n)).eraseIdx m = xs ++ (ys ++ zs) := by
  subst hm hn
  have hinner : (y :: (ys ++ z :: zs)).eraseIdx (1 + ys.length) = y :: (ys ++ zs) := by
    rw [Nat.add_comm, List.eraseIdx_cons_succ, List.eraseIdx_append_of_length_le le_rfl,
      Nat.sub_self, List.eraseIdx_cons_zero]
  rw [Nat.add_assoc, List.eraseIdx_append_of_length_le (Nat.le_add_right _ _),
    Nat.add_sub_cancel_left, hinner, List.eraseIdx_append_of_length_le le_rfl, Nat.sub_self,
    List.eraseIdx_cons_zero]

theorem exists_of_forall₂_append {α β : Type} {R : α → β → Prop} {xs ys : List α} {zs : List β}
    (h : List.Forall₂ R (xs ++ ys) zs) :
    ∃ xs' ys', zs = xs' ++ ys' ∧ List.Forall₂ R xs xs' ∧ List.Forall₂ R ys ys' := by
  have htake := List.forall₂_take xs.length h
  have hdrop := List.forall₂_drop xs.length h
  rw [List.take_left] at htake
  rw [List.drop_left] at hdrop
  exact ⟨_, _, (List.take_append_drop xs.length zs).symm, htake, hdrop⟩

namespace Scenario

variable {s s' : Scenario} {before between after : List ScenarioStep} {h i : Nat}

/-- Without the two steps everything else comes to the same, if later handles move up. -/
theorem answer?_detour
    (hsteps : s.steps = before ++ .act (.clone h) :: (between ++ .act (.drop i) :: after))
    (ht : Twin (.without i) { s with steps := before ++ (between ++ after) } s')
    (hd : ∀ q ∈ s.opened?, q.Detour s.script before between after h i) :
    s'.answer? = s.answer?.map fun answer =>
      ((answer.omit (before.length + 1 + between.length)).omit before.length).dress
        (.without i) := by
  obtain ⟨before', rest', hsteps', hbefore, hrest⟩ := exists_of_forall₂_append ht.steps
  obtain ⟨between', after', rfl, hbetween, hafter⟩ := exists_of_forall₂_append hrest
  unfold answer?
  rw [hsteps, hsteps']
  rcases rel_cases (ht.opened? (b := .same) rfl) with ⟨hq, hq'⟩ | ⟨q, q', hq, hq', htwin⟩
  · change s.opened? = none at hq
    rw [hq, hq']
    rfl
  · change s.opened? = some q at hq
    have hd := hd q hq
    obtain ⟨hrecords, hq₁⟩ := hd.play_before (Queue.isSound_of_open? hq)
      (htwin.alike (Queue.isFree_of_open? hq)) ht.script hbefore
    obtain ⟨hrecords', hq₂⟩ := hd.play_between hq₁ ht.script hbetween
    obtain ⟨hrecords'', hq₃⟩ := hd.play_after hq₂ ht.script hafter
    have hviews {rs rs' : List StepRecord} (h : List.Forall₂ (StepRecord.Twin (.without i)) rs rs') :
        rs'.map StepRecord.view = (rs.map StepRecord.view).map (·.dress (.without i)) :=
      map_eq_of_forall₂ (fun _ _ hr => StepRecord.Twin.view_eq hr) h
    rw [hq, hq']
    dsimp only [Option.map_some, Answer.dress, Answer.omit]
    rw [Queue.play_append, Queue.play_append, Queue.play_append, Queue.play_cons,
      Queue.play_append, Queue.play_cons, hq₃.twin.samples_eq, htwin.config_eq,
      htwin.published_eq]
    refine congrArg (fun steps => some (Answer.mk q.config q.published steps _)) ?_
    simp only [List.map_append, List.map_cons]
    rw [hviews hrecords, hviews hrecords', hviews hrecords'', ← List.map_append,
      ← List.map_append]
    refine congrArg (List.map _) (eraseIdx_two ?_ ?_).symm
    · rw [List.length_map, Queue.length_play]
    · rw [List.length_map, Queue.length_play]

/-- All handles are the same queue. An action may be performed on one handle as well as on another,
if both are held whenever the action looks at its handle, and a handle that is cloned, not used
and dropped again is of no account. -/
theorem handles_alike (s : Scenario) :
    (∀ s' : Scenario, s.Twin .redirected s' → UseHeld s.moments s'.moments →
      s'.answer? = s.answer?) ∧
    ∀ (s' : Scenario) (before between after : List ScenarioStep) (h i : Nat),
      s.steps = before ++ .act (.clone h) :: (between ++ .act (.drop i) :: after) →
      Twin (.without i) { s with steps := before ++ (between ++ after) } s' →
      (∀ q ∈ s.opened?, q.Detour s.script before between after h i) →
      s'.answer? = s.answer?.map fun answer =>
        ((answer.omit (before.length + 1 + between.length)).omit before.length).dress
          (.without i) :=
  ⟨fun _ ht hheld => ht.answer?_redirected hheld,
    fun _ _ _ _ _ _ hsteps ht hd => answer?_detour hsteps ht hd⟩

/-- A handle is cloned, one of the two is used, and the clone is dropped. -/
def withClone (h : Nat) : Scenario where
  config := { capacity := 2, capacity_pos := Nat.two_pos }
  script := .ofList [] (.run {})
  steps := [.act (.clone 0), .act (.add ⟨"x"⟩ h), .act (.watch h), .act (.drop 1)]

/-- The queue that it begins with. -/
def unused : Queue where
  config := { capacity := 2, capacity_pos := Nat.two_pos }
  mailbox := { free := 2 }

theorem detour_withClone : unused.Detour (withClone 0).script []
    [.act (.add ⟨"x"⟩ 0), .act (.watch 0)] [] 0 1 := by
  constructor
  · decide
  · decide
  · exact ⟨by rfl, by rfl, by rfl⟩
  · have hspares : ∀ x ∈ (unused.play (withClone 0).script ([] ++ [.act (.clone 0)])).2.moments
        (withClone 0).script [.act (.add ⟨"x"⟩ 0), .act (.watch 0)],
        x.handle? ≠ some 1 ∧ x.queue.holds 0 = true ∧ x.faced? ≠ some (.drop 0) := by decide
    exact fun x hx => ⟨(hspares x hx).1, 0, Nat.zero_ne_one, (hspares x hx).2⟩
  · exact ⟨0, Nat.zero_ne_one, by decide⟩
  · exact ⟨by rfl, by rfl, by rfl⟩
  · exact fun x hx => absurd hx List.not_mem_nil

/-- The request may as well be added on the clone, and the clone may as well not be there. -/
theorem handles_alike_withClone :
    (withClone 1).answer? = (withClone 0).answer? ∧
      { withClone 0 with steps := [.act (.add ⟨"x"⟩ 0), .act (.watch 0)] }.answer? =
        (withClone 0).answer?.map fun answer => ((answer.omit 3).omit 0).dress (.without 1) := by
  have hcall (m : Guise) (n : Nat) : Work.Twin m (.run {}) (.run {}) :=
    .run ⟨rfl, .nil, rfl, rfl, .nil, rfl⟩
  have hredirected : (withClone 0).Twin .redirected (withClone 1) :=
    ⟨rfl, .nil, ⟨hcall _, rfl, rfl⟩,
      .cons (.act (.clone 0)) (.cons (.act (.add _ trivial)) (.cons (.act (.watch trivial))
        (.cons (.act (.drop 1)) .nil)))⟩
  have hheld : UseHeld (withClone 0).moments (withClone 1).moments := by
    unfold UseHeld
    decide
  have hwithout : Twin (.without 1)
      { withClone 0 with steps := [] ++ ([.act (.add ⟨"x"⟩ 0), .act (.watch 0)] ++ []) }
      { withClone 0 with steps := [.act (.add ⟨"x"⟩ 0), .act (.watch 0)] } :=
    ⟨rfl, .nil, ⟨hcall _, rfl, rfl⟩, .cons (.act (.add _ rfl)) (.cons (.act (.watch rfl)) .nil)⟩
  have hdetour : ∀ q ∈ (withClone 0).opened?, q.Detour (withClone 0).script []
      [.act (.add ⟨"x"⟩ 0), .act (.watch 0)] [] 0 1 := by
    intro q hq
    obtain rfl : unused = q := Option.some.inj hq
    exact detour_withClone
  obtain ⟨hany, hnone⟩ := handles_alike (withClone 0)
  exact ⟨hany _ hredirected hheld, hnone _ _ _ _ _ _ rfl hwithout hdetour⟩

/-- Two requests are offered at once, and a hooked action drops a handle between the two. -/
def droppedBetween (h : Nat) : Scenario where
  config := { capacity := 2, capacity_pos := Nat.two_pos }
  hooks := [{ message := "enqueueing request", actions := [.drop 0] }]
  script := .ofList [] (.run {})
  steps := [.act (.clone 0), .act (.burst [⟨"x"⟩, ⟨"y"⟩] h)]

/-- How many requests are counted after each step. -/
def enqueued (s : Scenario) : Option (List (Option Nat)) :=
  s.answer?.map fun answer => answer.steps.map fun v => v.seen.stats.map (·.enqueued)

/-- Both handles are held when the two requests are offered, but each request looks for itself. -/
theorem burst_not_redirected :
    (droppedBetween 0).Twin .redirected (droppedBetween 1) ∧
      (∀ q ∈ (droppedBetween 0).opened?, ∀ h < 2,
        (q.play (droppedBetween 0).script [.act (.clone 0)]).2.holds h = true) ∧
      (droppedBetween 1).answer? ≠ (droppedBetween 0).answer? := by
  have hcall (n : Nat) : Work.Twin .redirected (.run {}) (.run {}) :=
    .run ⟨rfl, .nil, rfl, rfl, .nil, rfl⟩
  refine ⟨⟨rfl, ?_, ⟨hcall, rfl, rfl⟩, ?_⟩, by decide, fun heq => ?_⟩
  · exact .cons ⟨rfl, rfl, rfl, rfl, rfl, .cons (.drop 0) .nil⟩ .nil
  · exact .cons (.act (.clone 0)) (.cons (.act (.burst _ trivial)) .nil)
  · have hcounts : (droppedBetween 1).enqueued = (droppedBetween 0).enqueued :=
      congrArg (Option.map _) heq
    have htwo : (droppedBetween 1).enqueued = some [some 0, some 2] := by decide
    have hone : (droppedBetween 0).enqueued = some [some 0, some 1] := by decide
    rw [htwo, hone] at hcounts
    contradiction

end Scenario
end CoalescingQueue
