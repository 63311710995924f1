import CoalescingQueue.Queue.State

/-!
# Offers

A producer offers a request: it is counted, and then it enters the mailbox, waits for room, or
is refused because the queue has stopped. A call that waits is decided later, and until then its
request is nowhere but in the count.
-/
namespace CoalescingQueue

/-- Whether a waiting call of this kind ends as soon as the queue is cancelled. -/
def Caller.heedsCancellation : Caller → Bool
  | .thread => false
  | _ => true

namespace Queue

/-- Passes a slot that has become free on to the producer that has waited longest. -/
def releaseSlot (q : Queue) : Queue :=
  match q.mailbox.release with
  | (some w, mailbox) =>
    let q := { q with mailbox }
    match w.caller with
    | .task => q.enqueue (.producer w.ticket)
    | _ => q
  | (none, mailbox) => { q with mailbox }

/-- Takes the oldest request out of the mailbox and passes its slot on. -/
def receive? (q : Queue) : Option (Request × Queue) :=
  match q.mailbox.take? with
  | some (r, mailbox) => some (r, { q with mailbox }.releaseSlot)
  | none => none

/-- The waiting call has used its slot. -/
def enter (q : Queue) (w : Waiter) : Queue :=
  { q with mailbox := (q.mailbox.dismiss w.ticket).append w.request }
    |>.note (.admitted w.request) |>.wakeDispatcher

/-- The waiting call is over without an entry: its place, and its slot if it has one, are free. -/
def leave (q : Queue) (w : Waiter) : Queue :=
  let q := { q with mailbox := q.mailbox.dismiss w.ticket }
  let q := if w.hasSlot && !q.mailbox.isClosed then q.releaseSlot else q
  q.wakeIfAbandoned

/-- The waiting call is refused, and no longer counted. -/
def withdraw (q : Queue) (w : Waiter) : Queue :=
  { q with stats := q.stats.retractOffer }.leave w

/-- The caller of a waiting call goes away without an answer. The offer stays counted, since
nobody is left to take it back. -/
def abandon (q : Queue) (ticket : Nat) : Queue :=
  match q.mailbox.find? ticket with
  | some w => (q.leave w).note (.forsaken ticket)
  | none => q

/-- What becomes of a waiting call now, if it is decided. -/
def decide? (q : Queue) (w : Waiter) : Option (Reply × Queue) :=
  if (w.caller.heedsCancellation && q.isCancelled) || q.mailbox.isClosed then
    some (.refused, q.withdraw w)
  else if w.hasSlot then some (.accepted, q.enter w)
  else none

/-- Ends the waiting call if it is decided. -/
def settleWaiter (q : Queue) (w : Waiter) : Queue :=
  match q.decide? w with
  | some (reply, q) => q.note (.ended w.ticket reply q.now)
  | none => q

/-- Ends all decided calls of threads. -/
def settleThreads (q : Queue) : Queue :=
  q.mailbox.waiting.foldl
    (fun q w => if w.caller = .thread then q.settleWaiter w else q) q

/-- Whether some thread's call is decided. -/
def hasDecidedThread (q : Queue) : Bool :=
  q.mailbox.waiting.any fun w => w.caller = .thread && (q.mailbox.isClosed || w.hasSlot)

/-- Logs an event. Threads come to rest before hooked actions get their chance. -/
def emit (q : Queue) (e : Event) (span : Option Span := none) : Queue :=
  let due := q.hooks.flatMap fun (h : Hook) => h.due e
  let hooks := q.hooks.map fun (h : Hook) => h.notice e
  let q := { q with hooks, due := q.due ++ due }
  (q.note (.logged ⟨e, span⟩)).settleThreads

/-- Offers a request: it is counted from now on. -/
def offer (q : Queue) (caller : Caller) (r : Request) : Reply × Queue :=
  if (caller.heedsCancellation && q.isCancelled) || q.mailbox.isClosed then (.refused, q)
  else
    let q := { q with stats := q.stats.countOffer }
    match q.mailbox.put? r with
    | some mailbox => (.accepted, { q with mailbox }.note (.admitted r) |>.wakeDispatcher)
    | none =>
      let ticket := q.tickets
      let q := { q with
        tickets := ticket + 1
        mailbox := q.mailbox.enlist { ticket, request := r, caller } }
      match caller with
      | .task => (.pending ticket, q.enqueue (.producer ticket))
      | _ => (.pending ticket, q)

/-- Offers a request without a word in the log. -/
def offerQuietly (q : Queue) (caller : Caller) (handle : Nat) (r : Request) : Reply × Queue :=
  if !q.holds handle then (.noHandle, q)
  else if q.isCancelled then (.refused, q)
  else q.offer caller r

def offerAllQuietly (q : Queue) (handle : Nat) : List Request → List Reply × Queue
  | [] => ([], q)
  | r :: rest =>
    let (reply, q) := q.offerQuietly .task handle r
    let (replies, q) := q.offerAllQuietly handle rest
    (reply :: replies, q)

/-- Wakes all tasks that wait for room, the first call first. -/
def wakeProducers (q : Queue) : Queue :=
  q.mailbox.waiting.foldl
    (fun q w => if w.caller = .task then q.enqueue (.producer w.ticket) else q) q

/-- Cancels the queue. The second time changes nothing. -/
def cancel (q : Queue) : Queue :=
  if q.isCancelled then q
  else { q with isCancelled := true }.wakeDispatcher.wakeProducers

/-- Cancels the queue and waits until the dispatcher has stopped. -/
def shutdown (q : Queue) : Reply × Queue :=
  let q := q.cancel
  if q.isOver then (.done, q)
  else (.pending q.tickets, { q with
    tickets := q.tickets + 1
    closers := q.closers ++ [q.tickets] })

/-- Ends all shutdown calls. -/
def releaseClosers (q : Queue) : Queue :=
  let q := q.closers.foldl (fun q ticket => q.note (.ended ticket .done q.now)) q
  { q with closers := [] }

/-- Adds permits to the gate, and wakes the run that waits there. -/
def releasePermits (q : Queue) (n : Nat) : Queue :=
  let q := { q with permits := q.permits + n }
  match q.run with
  | some run =>
    match run.stage with
    | .waiting => q.enqueue .run
    | _ => q
  | none => q

def drop (q : Queue) (handle : Nat) : Queue :=
  { q with handles := q.handles.set handle false }.wakeIfAbandoned

/-- Performs an action all at once. -/
def perform (q : Queue) (a : Action) : Reply × Queue :=
  match a with
  | .add r handle => q.offerQuietly .task handle r
  | .blockingAdd r handle => q.offerQuietly .thread handle r
  | .burst rs handle =>
    let (replies, q) := q.offerAllQuietly handle rs
    (.each replies, q)
  | .shutdown handle => if q.holds handle then q.shutdown else (.noHandle, q)
  | .cancel => (.accepted, q.cancel)
  | .release n => (.accepted, q.releasePermits n)
  | .clone handle =>
    if q.holds handle then
      (.handle q.handles.length, { q with handles := q.handles ++ [true] })
    else (.noHandle, q)
  | .drop handle => if q.holds handle then (.accepted, q.drop handle) else (.noHandle, q)
  | .watch handle => if q.holds handle then (.state q.published, q) else (.noHandle, q)
  | .describe handle =>
    if q.holds handle then (.description q.describeLine q.describeBlock, q) else (.noHandle, q)
  | .snapshot => (.nothing, q.note (.observed q.observe))

/-- Puts an action that was performed on record. A snapshot is a record of its own. -/
def noteAction (q : Queue) (a : Action) (reply : Reply) : Queue :=
  match a with
  | .snapshot => q
  | _ => q.note (.performed a reply)

/-- Performs an action that is hooked to an event. -/
def performHooked (q : Queue) (a : Action) : Queue :=
  let (reply, q) := q.perform a
  q.noteAction a reply

/-! Whoever is woken stands in line, and nothing else happens. -/

theorem enqueue_eq (q : Queue) (p : Party) : ∃ line, q.enqueue p = { q with line } := by
  unfold enqueue
  split
  · exact ⟨q.line, rfl⟩
  · exact ⟨_, rfl⟩

theorem wakeDispatcher_eq (q : Queue) : ∃ line, q.wakeDispatcher = { q with line } := by
  unfold wakeDispatcher
  split
  · split
    · exact ⟨q.line, rfl⟩
    · exact enqueue_eq q _
  · exact ⟨q.line, rfl⟩

theorem wakeIfAbandoned_eq (q : Queue) : ∃ line, q.wakeIfAbandoned = { q with line } := by
  unfold wakeIfAbandoned
  split
  · exact wakeDispatcher_eq q
  · exact ⟨q.line, rfl⟩

theorem wakeProducers_eq (q : Queue) : ∃ line, q.wakeProducers = { q with line } := by
  unfold wakeProducers
  generalize q.mailbox.waiting = ws
  induction ws generalizing q with
  | nil => exact ⟨q.line, rfl⟩
  | cons w ws ih =>
    rw [List.foldl_cons]
    split
    · obtain ⟨line, h⟩ := enqueue_eq q (.producer w.ticket)
      obtain ⟨line', h'⟩ := ih (q.enqueue (.producer w.ticket))
      rw [h', h]
      exact ⟨line', rfl⟩
    · exact ih q

theorem cancel_isCancelled (q : Queue) : q.cancel.isCancelled = true := by
  unfold cancel
  split
  · assumption
  · obtain ⟨line, h⟩ := wakeDispatcher_eq { q with isCancelled := true }
    obtain ⟨line', h'⟩ := wakeProducers_eq { q with isCancelled := true, line }
    rw [h, h']

end Queue

end CoalescingQueue
