import CoalescingQueue.Proofs.Tracks

/-!
# Slots

Each slot of an open mailbox holds a request, is promised to a call that waits, or is free, and
no slot is free while a call waits without one. A slot that goes from hand to hand is missing in
between, so the mailbox is first looked at by itself, with the number of slots left open. Once
the mailbox is closed its slots mean nothing.
-/
namespace CoalescingQueue
namespace Mailbox

variable {m m' : Mailbox} {n : Nat}

/-- The mailbox accounts for `n` slots, none of which is free while somebody waits for one. -/
structure Fits (n : Nat) (m : Mailbox) : Prop where
  slots_eq : m.free + m.promised + m.buffer.length = n
  free_eq : ∀ w ∈ m.waiting, w.hasSlot = false → m.free = 0

/-- While a slot is free and nobody who waits was given one, nobody waits. -/
theorem Fits.waiting_eq_nil (h : m.Fits n) (hslot : ∀ w ∈ m.waiting, w.hasSlot = false)
    (hroom : 0 < m.free) : m.waiting = [] := by
  refine List.eq_nil_iff_forall_not_mem.mpr fun w hw => ?_
  have hfree := h.free_eq w hw (hslot w hw)
  omega

theorem free_of_put?_eq_some {r : Request} (hput : m.put? r = some m') : 0 < m.free := by
  unfold put? at hput
  split at hput
  · assumption
  · contradiction

theorem Fits.put {r : Request} (h : m.Fits n) (hput : m.put? r = some m') : m'.Fits n := by
  obtain rfl := eq_of_put? hput
  have hfree : 0 < m.free := free_of_put?_eq_some hput
  obtain ⟨hslots, hnone⟩ := h
  constructor
  · show m.free - 1 + m.promised + (m.buffer ++ [r]).length = n
    rw [List.length_append, List.length_singleton]
    omega
  · intro w hw hslot
    have hzero := hnone w hw hslot
    omega

theorem free_of_put?_eq_none {r : Request} (hput : m.put? r = none) : m.free = 0 := by
  unfold put? at hput
  split at hput
  · contradiction
  · omega

theorem Fits.enlist {w : Waiter} (h : m.Fits n) (hput : m.put? w.request = none)
    (hslot : w.hasSlot = false) : (m.enlist w).Fits n := by
  have hpromised : (m.enlist w).promised = m.promised := by
    simp [promised, Mailbox.enlist, List.countP_append, hslot]
  constructor
  · rw [hpromised]
    exact h.slots_eq
  · have hfree : m.free = 0 := free_of_put?_eq_none hput
    exact fun _ _ _ => hfree

/-- A call that goes away takes the slot it had with it. -/
theorem Fits.dismiss {w : Waiter} (h : m.Fits n) (hm : m.tickets.Nodup) (hw : w ∈ m.waiting) :
    (m.dismiss w.ticket).Fits (n - if w.hasSlot then 1 else 0) := by
  have hcount := (perm_dismiss hm hw).countP_eq (·.hasSlot)
  rw [List.countP_cons] at hcount
  obtain ⟨hslots, hnone⟩ := h
  constructor
  · show m.free + (m.dismiss w.ticket).promised + m.buffer.length = _
    have hpromised : m.promised = (m.dismiss w.ticket).promised + if w.hasSlot then 1 else 0 :=
      hcount
    omega
  · intro v hv
    exact hnone v (mem_of_mem_dismiss hv).1

theorem Fits.append {r : Request} (h : m.Fits n) : (m.append r).Fits (n + 1) := by
  obtain ⟨hslots, hnone⟩ := h
  constructor
  · show m.free + m.promised + (m.buffer ++ [r]).length = n + 1
    rw [List.length_append, List.length_singleton]
    omega
  · exact hnone

theorem hasSlot_of_grantFirst_eq_none {ws : List Waiter} (h : grantFirst ws = none) :
    ∀ w ∈ ws, w.hasSlot = true := by
  induction ws with
  | nil => exact fun _ hw => absurd hw List.not_mem_nil
  | cons v rest ih =>
    unfold grantFirst at h
    split at h
    · next hv =>
      rw [Option.map_eq_none_iff] at h
      exact List.forall_mem_cons.mpr ⟨hv, ih h⟩
    · contradiction

theorem Fits.release (h : m.Fits n) : m.release.2.Fits (n + 1) := by
  have hslots := m.release_slots
  have hbuffer := m.release_buffer
  constructor
  · rw [hbuffer, hslots]
    have heq := h.slots_eq
    omega
  · intro w hw hslot
    unfold Mailbox.release at hw ⊢
    split at hw
    · next g ws hg =>
      rcases mem_grantFirst hg hw with hold | ⟨-, -, rfl⟩
      · exact h.free_eq w hold hslot
      · contradiction
    · next hg =>
      have hgiven := hasSlot_of_grantFirst_eq_none hg w hw
      rw [hslot] at hgiven
      contradiction

theorem Fits.take {r : Request} (h : m.Fits n) (htake : m.take? = some (r, m')) :
    m'.Fits (n - 1) := by
  obtain ⟨hslots, hnone⟩ := h
  rw [eq_of_take? htake] at hslots hnone
  constructor
  · have hlen : m'.free + m'.promised + (m'.buffer.length + 1) = n := hslots
    omega
  · exact hnone

/-- A slot that is promised or filled is one of them. -/
theorem Fits.pos_of_mem {w : Waiter} (h : m.Fits n) (hw : w ∈ m.waiting) (hslot : w.hasSlot = true) :
    0 < n := by
  have hpos : 0 < m.promised := List.countP_pos_iff.mpr ⟨w, hw, hslot⟩
  have hslots := h.slots_eq
  omega

theorem Fits.pos_of_take {r : Request} (h : m.Fits n) (htake : m.take? = some (r, m')) :
    0 < n := by
  have hslots := h.slots_eq
  rw [take?_buffer htake, List.length_cons] at hslots
  omega

end Mailbox

namespace Queue

variable {script : WorkScript} {terms : Terms} {q q' : Queue}

/-- An open mailbox accounts for all its slots. -/
def Packed (q : Queue) : Prop := q.mailbox.isClosed = false → q.mailbox.Fits q.config.capacity

theorem packed_leave {w : Waiter} (hm : q.mailbox.tickets.Nodup) (hw : w ∈ q.mailbox.waiting)
    (h : q.Packed) : (q.leave w).Packed := by
  intro hclosed
  have hopen : q.mailbox.isClosed = false := (q.leave_isClosed w).symm.trans hclosed
  have hfits := h hopen
  have hleft := hfits.dismiss hm hw
  obtain ⟨more, heq⟩ := q.leave_more w
  rw [heq]
  cases hslot : w.hasSlot with
  | true =>
    have hpos := hfits.pos_of_mem hw hslot
    -- the slot it had goes to the next, or is free
    have hback := hleft.release
    rw [hslot, if_pos rfl, Nat.sub_add_cancel hpos] at hback
    simpa [hopen] using hback
  | false =>
    rw [hslot] at hleft
    simpa using hleft

theorem packed_of_isClosed (h : q.mailbox.isClosed = true) : q.Packed := by
  intro hopen
  rw [h] at hopen
  contradiction

theorem Shift.packed (h : Shift terms q q') (ho : q.Orderly) (hi : q.Packed) : q'.Packed := by
  cases h with
  | record | remark | call | rest | tick | await | clone | prepare | announce | proceed | go
  | desert => exact hi
  | wake =>
    obtain ⟨more, heq⟩ := q.enqueue_more .run
    rw [heq]
    exact hi
  | @put r mailbox hheld hopen hput =>
    obtain ⟨more, heq⟩ := wakeDispatcher_more ({ q with mailbox }.note (.admitted r))
    rw [heq]
    exact fun _ => (hi hopen).put hput
  | @enlist w hheld hopen hput hticket hslot =>
    obtain ⟨more, heq⟩ := q.lineUp_more w
    rw [heq]
    exact fun _ => (hi hopen).enlist hput hslot
  | @join w hopen hw hslot =>
    obtain ⟨more, heq⟩ := q.enter_more w
    have hfits := hi hopen
    have hjoined := (hfits.dismiss ho.nodup hw).append (r := w.request)
    rw [hslot, if_pos rfl, Nat.sub_add_cancel (hfits.pos_of_mem hw hslot)] at hjoined
    rw [heq]
    exact fun _ => hjoined
  | withdraw hw | forsake hlossy hw => exact packed_leave ho.nodup hw hi
  | cancel =>
    obtain ⟨more, heq⟩ := wakeAll_more { q with isCancelled := true }
    rw [heq]
    exact hi
  | permit n =>
    obtain ⟨more, heq⟩ := q.releasePermits_more n
    rw [heq]
    exact hi
  | drop handle =>
    obtain ⟨more, heq⟩ := q.drop_more handle
    rw [heq]
    exact hi
  | @offered e todo replies =>
    obtain ⟨more, heq⟩ := wakeIfAbandoned_more
      { q with errand := some { e with todo, isAnnounced := false, replies } }
    rw [heq]
    exact hi
  | @finish run =>
    obtain ⟨more, heq⟩ := (q.setStage run .ended).enqueue_more .dispatcher
    rw [heq]
    exact hi
  | @take r mailbox phase hturn hgoing hnext hexit htake =>
    obtain ⟨more, heq⟩ := releaseSlot_more { q with mailbox }
    rw [heq]
    intro hopen
    have hsame : q.mailbox.isClosed = mailbox.isClosed := by rw [Mailbox.eq_of_take? htake]
    have hfits := hi (hsame.trans ((Mailbox.release_isClosed _).symm.trans hopen))
    have htaken := (hfits.take htake).release
    rwa [Nat.sub_add_cancel (hfits.pos_of_take htake)] at htaken
  | @launch b run =>
    obtain ⟨more, heq⟩ := enqueue_more { q with phase := .awaiting b, run := some run } .run
    rw [heq]
    exact hi
  | @breakDown b =>
    obtain ⟨more, heq⟩ := closeMailbox_more { q with phase := .dead b }
    rw [releaseClosers_eq, heq]
    exact packed_of_isClosed rfl
  | close =>
    obtain ⟨more, heq⟩ := q.closeMailbox_more
    rw [releaseClosers_eq, heq]
    exact packed_of_isClosed rfl

theorem packed_of_open? {config : QueueConfig} {hooks : List Hook}
    (h : open? config hooks = some q) : q.Packed := by
  unfold open? at h
  split at h
  · obtain rfl := Option.some.inj h
    exact fun _ => ⟨rfl, fun _ hw => absurd hw List.not_mem_nil⟩
  · contradiction

theorem Reachable.packed (h : Reachable script q) : q.Packed :=
  h.keeps packed_of_open? fun ho hs hi => hs.packed ho hi

end Queue
end CoalescingQueue
