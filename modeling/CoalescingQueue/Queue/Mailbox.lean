import CoalescingQueue.Queue.Work

/-!
# The mailbox

A bounded buffer of requests in order of arrival, with the producers that wait for room. A slot
that gets free goes to the producer that has waited longest without one; its request enters the
buffer only when that producer goes on.
-/
namespace CoalescingQueue

/-- A producer call that waits for room, or was given a slot and has not used it yet. -/
structure Waiter where
  ticket : Nat
  request : Request
  caller : Caller
  hasSlot : Bool := false
  deriving DecidableEq, Repr

structure Mailbox where
  /-- The buffered requests, the oldest first. Closing leaves them where they are. -/
  buffer : List Request := []
  /-- Slots that nobody has. -/
  free : Nat
  /-- Waiting producers in the order of their calls. -/
  waiting : List Waiter := []
  isClosed : Bool := false
  deriving Repr

namespace Mailbox

/-- Waiting producers that were given a slot. -/
def promised (m : Mailbox) : Nat := m.waiting.countP (·.hasSlot)

def find? (m : Mailbox) (ticket : Nat) : Option Waiter := m.waiting.find? (·.ticket = ticket)

/-- A new request at the end of the buffer. -/
def append (m : Mailbox) (r : Request) : Mailbox := { m with buffer := m.buffer ++ [r] }

/-- Takes a free slot for a new request, if there is one. -/
def put? (m : Mailbox) (r : Request) : Option Mailbox :=
  if 0 < m.free then some { m.append r with free := m.free - 1 } else none

def enlist (m : Mailbox) (w : Waiter) : Mailbox := { m with waiting := m.waiting ++ [w] }

def dismiss (m : Mailbox) (ticket : Nat) : Mailbox :=
  { m with waiting := m.waiting.filter (·.ticket ≠ ticket) }

/-- Gives a slot to the first that has none. -/
def grantFirst : List Waiter → Option (Waiter × List Waiter)
  | [] => none
  | w :: rest =>
    if w.hasSlot then (grantFirst rest).map fun (granted, rest) => (granted, w :: rest)
    else some (w, { w with hasSlot := true } :: rest)

/-- A slot becomes free. Tells which producer was given it, if one was waiting. -/
def release (m : Mailbox) : Option Waiter × Mailbox :=
  match grantFirst m.waiting with
  | some (granted, waiting) => (some granted, { m with waiting })
  | none => (none, { m with free := m.free + 1 })

/-- Takes the oldest request out of the buffer, which leaves a slot to release. -/
def take? (m : Mailbox) : Option (Request × Mailbox) :=
  match m.buffer with
  | [] => none
  | r :: rest => some (r, { m with buffer := rest })

def close (m : Mailbox) : Mailbox := { m with isClosed := true }

@[simp] theorem append_buffer (m : Mailbox) (r : Request) :
    (m.append r).buffer = m.buffer ++ [r] := rfl

@[simp] theorem release_buffer (m : Mailbox) : m.release.2.buffer = m.buffer := by
  unfold release
  split <;> rfl

theorem take?_buffer {m m' : Mailbox} {r : Request} (h : m.take? = some (r, m')) :
    m.buffer = r :: m'.buffer := by
  unfold take? at h
  split at h
  · simp at h
  · next heq =>
    simp only [Option.some.injEq, Prod.mk.injEq] at h
    obtain ⟨rfl, rfl⟩ := h
    exact heq

theorem eq_of_put? {m m' : Mailbox} {r : Request} (h : m.put? r = some m') :
    m' = { m.append r with free := m.free - 1 } := by
  unfold put? at h
  split at h
  · exact (Option.some.inj h).symm
  · simp at h

theorem eq_of_take? {m m' : Mailbox} {r : Request} (h : m.take? = some (r, m')) :
    m = { m' with buffer := r :: m'.buffer } := by
  have hb := take?_buffer h
  unfold take? at h
  split at h
  · simp at h
  · simp only [Option.some.injEq, Prod.mk.injEq] at h
    obtain ⟨rfl, rfl⟩ := h
    rw [← hb]

theorem buffer_of_take?_eq_none {m : Mailbox} (h : m.take? = none) : m.buffer = [] := by
  unfold take? at h
  split at h
  · assumption
  · simp at h

/-- The tickets of those who wait, the longest waiting first. -/
def tickets (m : Mailbox) : List Nat := m.waiting.map (·.ticket)

theorem grantFirst_tickets {ws ws' : List Waiter} {w : Waiter}
    (h : grantFirst ws = some (w, ws')) : ws'.map (·.ticket) = ws.map (·.ticket) := by
  induction ws generalizing w ws' with
  | nil => simp [grantFirst] at h
  | cons v rest ih =>
    unfold grantFirst at h
    split at h
    · obtain ⟨⟨granted, tail⟩, hrest, heq⟩ := Option.map_eq_some_iff.mp h
      simp only [Prod.mk.injEq] at heq
      obtain ⟨rfl, rfl⟩ := heq
      simp only [List.map_cons, ih hrest]
    · simp only [Option.some.injEq, Prod.mk.injEq] at h
      obtain ⟨rfl, rfl⟩ := h
      rfl

@[simp] theorem release_tickets (m : Mailbox) : m.release.2.tickets = m.tickets := by
  unfold release
  split
  · next h => exact grantFirst_tickets h
  · rfl

@[simp] theorem release_isClosed (m : Mailbox) : m.release.2.isClosed = m.isClosed := by
  unfold release
  split <;> rfl

theorem dismiss_tickets (m : Mailbox) (ticket : Nat) :
    (m.dismiss ticket).tickets = m.tickets.filter (· ≠ ticket) := by
  simp only [tickets, dismiss, List.filter_map]
  rfl

/-- Granting a slot gives it to one producer and changes nothing else. -/
theorem grantFirst_countP {ws ws' : List Waiter} {w : Waiter}
    (h : grantFirst ws = some (w, ws')) :
    ws'.countP (·.hasSlot) = ws.countP (·.hasSlot) + 1 := by
  induction ws generalizing w ws' with
  | nil => simp [grantFirst] at h
  | cons v rest ih =>
    unfold grantFirst at h
    split at h
    · next hv =>
      obtain ⟨⟨granted, tail⟩, hrest, heq⟩ := Option.map_eq_some_iff.mp h
      simp only [Prod.mk.injEq] at heq
      obtain ⟨rfl, rfl⟩ := heq
      have := ih hrest
      simp [hv, this]
    · next hv =>
      simp only [Option.some.injEq, Prod.mk.injEq] at h
      obtain ⟨rfl, rfl⟩ := h
      simp [hv]

/-- A released slot is either free or with a waiting producer. -/
theorem release_slots (m : Mailbox) :
    m.release.2.free + m.release.2.promised = m.free + m.promised + 1 := by
  unfold release promised
  split
  · next h =>
    have := grantFirst_countP h
    simp only
    omega
  · simp only
    omega

end Mailbox

end CoalescingQueue
