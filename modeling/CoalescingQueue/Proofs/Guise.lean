import CoalescingQueue.Queue.Step
import Mathlib.Data.List.Forall2

/-!
# Queues in other guises

Two queues go through their lives side by side, where the one gets other identifiers than the
other and is used by other handles. A guise tells what becomes of identifiers and of handles, and
two queues are twins when the one is the other in this guise, down to every fact in the journal.
The queue never looks inside an identifier, so any function on identifiers will do. It does look
whether a handle is held, and this is where the actions of the two have to agree.
-/
namespace CoalescingQueue

/-! ## What identifiers become -/

def Request.rename (f : String → String) (r : Request) : Request := ⟨f r.id⟩

def Waiter.rename (f : String → String) (w : Waiter) : Waiter :=
  { w with request := w.request.rename f }

def Mailbox.rename (f : String → String) (m : Mailbox) : Mailbox := { m with
  buffer := m.buffer.map (·.rename f)
  waiting := m.waiting.map (·.rename f) }

def Batch.rename (f : String → String) (b : Batch) : Batch :=
  ⟨b.older.map (·.rename f), b.latest.rename f⟩

def Phase.rename (f : String → String) : Phase → Phase
  | .counting first => .counting (first.rename f)
  | .draining b left => .draining (b.rename f) left
  | .dropping b => .dropping (b.rename f)
  | .dispatching b => .dispatching (b.rename f)
  | .awaiting b => .awaiting (b.rename f)
  | .reported b ending => .reported (b.rename f) ending
  | .retiring b => .retiring (b.rename f)
  | .dead b => .dead (b.rename f)
  | p => p

def Stats.rename (f : String → String) (s : Stats) : Stats :=
  { s with lastDispatched := s.lastDispatched.map f }

def Snapshot.rename (f : String → String) (s : Snapshot) : Snapshot :=
  { s with stats := s.stats.map (·.rename f) }

def Span.rename (f : String → String) (s : Span) : Span := { s with request := s.request.map f }

/-- What an event tells of requests. No queue logs the submission of a burst. -/
def Event.rename (f : String → String) : Event → Event
  | .offered r => .offered (r.rename f)
  | .superseded r successor => .superseded (r.rename f) (successor.rename f)
  | .dropped r => .dropped (r.rename f)
  | .completed r count elapsed => .completed (r.rename f) count elapsed
  | .failed r elapsed reason => .failed (r.rename f) elapsed reason
  | e => e

def LogRecord.rename (f : String → String) (record : LogRecord) : LogRecord :=
  ⟨record.event.rename f, record.span.map (·.rename f)⟩

/-- What the handles in a reply become. -/
def Reply.renumber (f : Nat → Nat) : Reply → Reply
  | .handle index => .handle (f index)
  | reply => reply

namespace Batch

variable (f : String → String)

@[simp] theorem superseded_rename (b : Batch) : (b.rename f).superseded = b.superseded :=
  List.length_map _

@[simp] theorem rename_push (b : Batch) (r : Request) :
    (b.push r).rename f = (b.rename f).push (r.rename f) := by
  simp [push, rename]

@[simp] theorem span_rename (b : Batch) : (b.rename f).span = b.span.rename f := by
  simp [span, Span.rename]
  rfl

end Batch

namespace Mailbox

variable (f : String → String) (m : Mailbox)

theorem grantFirst_rename (ws : List Waiter) : grantFirst (ws.map (·.rename f)) =
    (grantFirst ws).map fun (granted, rest) => (granted.rename f, rest.map (·.rename f)) := by
  induction ws with
  | nil => rfl
  | cons w ws ih =>
    rw [List.map_cons, grantFirst, grantFirst, ih]
    have hslot : (w.rename f).hasSlot = w.hasSlot := rfl
    rw [hslot]
    split
    · rw [Option.map_map, Option.map_map]
      rfl
    · rfl

theorem release_rename : (m.rename f).release =
    (m.release.1.map (·.rename f), m.release.2.rename f) := by
  unfold release
  have hwaiting : (m.rename f).waiting = m.waiting.map (·.rename f) := rfl
  rw [hwaiting, grantFirst_rename]
  cases grantFirst m.waiting <;> rfl

theorem take?_rename :
    (m.rename f).take? = m.take?.map fun (r, m) => (r.rename f, m.rename f) := by
  unfold take?
  have hbuffer : (m.rename f).buffer = m.buffer.map (·.rename f) := rfl
  rw [hbuffer]
  cases m.buffer <;> rfl

theorem append_rename (r : Request) :
    (m.rename f).append (r.rename f) = (m.append r).rename f := by
  simp [append, rename]

theorem put?_rename (r : Request) :
    (m.rename f).put? (r.rename f) = (m.put? r).map (·.rename f) := by
  unfold put?
  rw [append_rename]
  have hfree : (m.rename f).free = m.free := rfl
  rw [hfree]
  split <;> rfl

theorem enlist_rename (w : Waiter) : (m.rename f).enlist (w.rename f) = (m.enlist w).rename f := by
  simp [enlist, rename]

theorem dismiss_rename (ticket : Nat) :
    (m.rename f).dismiss ticket = (m.dismiss ticket).rename f := by
  simp [dismiss, rename, List.filter_map, Function.comp_def, Waiter.rename]

theorem find?_rename (ticket : Nat) :
    (m.rename f).find? ticket = (m.find? ticket).map (·.rename f) := by
  unfold find?
  exact List.find?_map

end Mailbox

/-! ## Actions in another guise -/

/-- What becomes of identifiers, of the handles that come from clones, and which handle may be
used in the place of which. -/
structure Guise where
  id : String → String
  handle : Nat → Nat
  Uses : Nat → Nat → Prop

/-- The handle that an action is performed on. -/
def Action.handle? : Action → Option Nat
  | .add _ h | .burst _ h | .blockingAdd _ h | .shutdown h | .clone h | .drop h | .watch h
  | .describe h => some h
  | .cancel | .release _ | .snapshot => none

/-- An action in another guise. Whoever makes or gives up a handle names the very handle. -/
inductive Action.Twin (m : Guise) : Action → Action → Prop
  | add (r : Request) {h h' : Nat} (hu : m.Uses h h') : Twin m (.add r h) (.add (r.rename m.id) h')
  | burst (rs : List Request) {h h' : Nat} (hu : m.Uses h h') :
      Twin m (.burst rs h) (.burst (rs.map (·.rename m.id)) h')
  | blockingAdd (r : Request) {h h' : Nat} (hu : m.Uses h h') :
      Twin m (.blockingAdd r h) (.blockingAdd (r.rename m.id) h')
  | shutdown {h h' : Nat} (hu : m.Uses h h') : Twin m (.shutdown h) (.shutdown h')
  | cancel : Twin m .cancel .cancel
  | release (n : Nat) : Twin m (.release n) (.release n)
  | clone (h : Nat) : Twin m (.clone h) (.clone (m.handle h))
  | drop (h : Nat) : Twin m (.drop h) (.drop (m.handle h))
  | watch {h h' : Nat} (hu : m.Uses h h') : Twin m (.watch h) (.watch h')
  | describe {h h' : Nat} (hu : m.Uses h h') : Twin m (.describe h) (.describe h')
  | snapshot : Twin m .snapshot .snapshot

structure Hook.Twin (m : Guise) (k k' : Hook) : Prop where
  message_eq : k'.message = k.message
  before_eq : k'.before = k.before
  after_eq : k'.after = k.after
  nth_eq : k'.nth = k.nth
  seen_eq : k'.seen = k.seen
  actions : List.Forall₂ (Action.Twin m) k.actions k'.actions

structure RunPlan.Twin (m : Guise) (p p' : RunPlan) : Prop where
  isNarrated_eq : p'.isNarrated = p.isNarrated
  atStart : List.Forall₂ (Action.Twin m) p.atStart p'.atStart
  isGated_eq : p'.isGated = p.isGated
  duration_eq : p'.duration = p.duration
  atEnd : List.Forall₂ (Action.Twin m) p.atEnd p'.atEnd
  ending_eq : p'.ending = p.ending

inductive Work.Twin (m : Guise) : Work → Work → Prop
  | breakdown : Twin m .breakdown .breakdown
  | run {p p' : RunPlan} (hp : p.Twin m p') : Twin m (.run p) (.run p')

structure WorkScript.Twin (m : Guise) (s s' : WorkScript) : Prop where
  call : ∀ n, (s.call n).Twin m (s'.call n)
  listedWeight_eq : s'.listedWeight = s.listedWeight
  otherWeight_eq : s'.otherWeight = s.otherWeight

inductive Stage.Twin (m : Guise) : Stage → Stage → Prop
  | spawned : Twin m .spawned .spawned
  | opening {as as' : List Action} (ha : List.Forall₂ (Action.Twin m) as as') :
      Twin m (.opening as) (.opening as')
  | waiting : Twin m .waiting .waiting
  | sleeping (deadline : Nat) : Twin m (.sleeping deadline) (.sleeping deadline)
  | closing {as as' : List Action} (ha : List.Forall₂ (Action.Twin m) as as') :
      Twin m (.closing as) (.closing as')
  | ended : Twin m .ended .ended

structure Run.Twin (m : Guise) (r r' : Run) : Prop where
  call_eq : r'.call = r.call
  plan : r.plan.Twin m r'.plan
  began_eq : r'.began = r.began
  stage : r.stage.Twin m r'.stage

/-- The replies of an errand so far hand out no handle, so they are the same in any guise. -/
structure Errand.Twin (m : Guise) (e e' : Errand) : Prop where
  action : e.action.Twin m e'.action
  handle_eq : e.action.handle? = some e.handle
  handle_eq' : e'.action.handle? = some e'.handle
  caller_eq : e'.caller = e.caller
  todo_eq : e'.todo = e.todo.map (·.rename m.id)
  isAnnounced_eq : e'.isAnnounced = e.isAnnounced
  replies_eq : e'.replies = e.replies
  isPlain : ∀ reply ∈ e.replies, reply.renumber m.handle = reply

/-- What becomes of a fact that is not an action on record. -/
def Fact.rename (f : String → String) : Fact → Fact
  | .logged record => .logged (record.rename f)
  | .observed seen => .observed (seen.rename f)
  | .admitted r => .admitted (r.rename f)
  | .counted first backlog => .counted (first.rename f) (backlog.map (·.rename f))
  | .discarded b => .discarded (b.rename f)
  | .dispatched b => .dispatched (b.rename f)
  | fact => fact

def Fact.isPerformed : Fact → Bool
  | .performed _ _ => true
  | _ => false

inductive Fact.Twin (m : Guise) : Fact → Fact → Prop
  | performed {a a' : Action} (ha : a.Twin m a') (reply : Reply) :
      Twin m (.performed a reply) (.performed a' (reply.renumber m.handle))
  | told {fact : Fact} (h : fact.isPerformed = false) : Twin m fact (fact.rename m.id)

namespace Action.Twin

variable {m : Guise} {a a' : Action}

theorem label_eq (h : a.Twin m a') : a'.label = a.label := by
  cases h <;> rfl

theorem weight_eq (h : a.Twin m a') : a'.weight = a.weight := by
  cases h with
  | burst rs => exact congrArg (· + 1) (List.length_map _)
  | _ => rfl

theorem totalWeight_eq {as as' : List Action} (h : List.Forall₂ (Action.Twin m) as as') :
    totalWeight as' = totalWeight as := by
  induction h with
  | nil => rfl
  | cons ha _ ih => exact congrArg₂ (· + ·) ha.weight_eq ih

end Action.Twin

namespace Hook.Twin

variable {m : Guise} {k k' : Hook}

theorem matchesEvent_eq (h : k.Twin m k') (e : Event) :
    k'.matchesEvent (e.rename m.id) = k.matchesEvent e := by
  unfold matchesEvent
  rw [h.message_eq, h.before_eq, h.after_eq]
  cases e <;> rfl

theorem notice (h : k.Twin m k') (e : Event) : (k.notice e).Twin m (k'.notice (e.rename m.id)) := by
  unfold Hook.notice
  rw [h.matchesEvent_eq, h.seen_eq]
  split
  · exact { h with seen_eq := rfl }
  · exact h

theorem due (h : k.Twin m k') (e : Event) :
    List.Forall₂ (Action.Twin m) (k.due e) (k'.due (e.rename m.id)) := by
  unfold Hook.due
  rw [h.matchesEvent_eq, h.seen_eq, h.nth_eq]
  split
  · exact h.actions
  · exact .nil

theorem notice_all {ks ks' : List Hook} (h : List.Forall₂ (Hook.Twin m) ks ks') (e : Event) :
    List.Forall₂ (Hook.Twin m) (ks.map (·.notice e)) (ks'.map (·.notice (e.rename m.id))) := by
  rw [List.forall₂_map_left_iff, List.forall₂_map_right_iff]
  exact h.imp fun _ _ hk => hk.notice e

theorem due_all {ks ks' : List Hook} (h : List.Forall₂ (Hook.Twin m) ks ks') (e : Event) :
    List.Forall₂ (Action.Twin m) (ks.flatMap (·.due e)) (ks'.flatMap (·.due (e.rename m.id))) := by
  induction h with
  | nil => exact .nil
  | cons hk _ ih => exact List.rel_append (hk.due e) ih

end Hook.Twin

theorem Work.Twin.weight_eq {m : Guise} {w w' : Work} (h : w.Twin m w') : w'.weight = w.weight := by
  cases h with
  | breakdown => rfl
  | run hp =>
    exact congrArg (· + 1) (Action.Twin.totalWeight_eq (List.rel_append hp.atStart hp.atEnd))

theorem rel_cases {α β : Type} {R : α → β → Prop} {o : Option α} {o' : Option β}
    (h : Option.Rel R o o') :
    (o = none ∧ o' = none) ∨ ∃ a a', o = some a ∧ o' = some a' ∧ R a a' := by
  cases h with
  | none => exact .inl ⟨rfl, rfl⟩
  | some h => exact .inr ⟨_, _, rfl, rfl, h⟩

/-! ## Twin queues -/

/-- How the handles of two queues go together: as long as the one has one, so has the other. -/
structure Bond where
  Holds : List Bool → List Bool → Prop
  any_eq : ∀ {hs hs' : List Bool}, Holds hs hs' → hs'.any id = hs.any id
  /-- Whether the replies to the last action from outside go together as well. -/
  IsHeard : Prop

/-- The queue in another guise. -/
structure Queue.Twin (m : Guise) (b : Bond) (q q' : Queue) : Prop where
  config_eq : q'.config = q.config
  published_eq : q'.published = q.published
  phase_eq : q'.phase = q.phase.rename m.id
  mailbox_eq : q'.mailbox = q.mailbox.rename m.id
  isCancelled_eq : q'.isCancelled = q.isCancelled
  handles : b.Holds q.handles q'.handles
  closers_eq : q'.closers = q.closers
  stats_eq : q'.stats = q.stats.rename m.id
  run : Option.Rel (Run.Twin m) q.run q'.run
  calls_eq : q'.calls = q.calls
  permits_eq : q'.permits = q.permits
  now_eq : q'.now = q.now
  line_eq : q'.line = q.line
  turn_eq : q'.turn = q.turn
  errand : Option.Rel (Errand.Twin m) q.errand q'.errand
  reply_eq : b.IsHeard → q'.reply = q.reply.renumber m.handle
  hooks : List.Forall₂ (Hook.Twin m) q.hooks q'.hooks
  due : List.Forall₂ (Action.Twin m) q.due q'.due
  tickets_eq : q'.tickets = q.tickets
  journal : List.Forall₂ (Fact.Twin m) q.journal.toList q'.journal.toList

/-- The actions agree on whether their handle is held, and the handles still go together
afterwards. -/
structure Action.Agrees (m : Guise) (Holds : List Bool → List Bool → Prop) (hs hs' : List Bool)
    (a a' : Action) : Prop where
  held : ∀ h h', a.handle? = some h → a'.handle? = some h' → hs'.getD h' false = hs.getD h false
  cloned : ∀ h, a = .clone h → hs.getD h false = true →
    Holds (hs ++ [true]) (hs' ++ [true]) ∧ hs'.length = m.handle hs.length
  dropped : ∀ h, a = .drop h → hs.getD h false = true →
    Holds (hs.set h false) (hs'.set (m.handle h) false)

namespace Queue.Twin

variable {m : Guise} {b : Bond} {q q' : Queue}

theorem hasHandle_eq (h : q.Twin m b q') : q'.hasHandle = q.hasHandle := b.any_eq h.handles

theorem isOffering_eq (h : q.Twin m b q') : q'.isOffering = q.isOffering := by
  unfold isOffering
  have he := h.errand
  generalize q.errand = e at he
  generalize q'.errand = e' at he
  cases he with
  | none => rfl
  | some he => exact he.isAnnounced_eq

theorem isAbandoned_eq (h : q.Twin m b q') : q'.isAbandoned = q.isAbandoned := by
  unfold isAbandoned
  rw [h.hasHandle_eq, h.isOffering_eq, h.mailbox_eq, h.closers_eq]
  exact congrArg (fun isEmpty => !q.hasHandle && isEmpty && _ && _) List.isEmpty_map

theorem isStopped_eq (h : q.Twin m b q') : q'.isStopped = q.isStopped := by
  unfold isStopped
  rw [h.isCancelled_eq, h.mailbox_eq]
  rfl

theorem isOver_eq (h : q.Twin m b q') : q'.isOver = q.isOver := by
  unfold isOver
  rw [h.phase_eq]
  cases q.phase <;> rfl

theorem observe_eq (h : q.Twin m b q') : q'.observe = q.observe.rename m.id := by
  unfold observe
  rw [h.hasHandle_eq, h.published_eq, h.isStopped_eq, h.stats_eq]
  split <;> rfl

theorem describeFields_eq (h : q.Twin m b q') : q'.describeFields = q.describeFields := by
  unfold describeFields
  rw [h.config_eq, h.published_eq, h.isStopped_eq]

theorem describeLine_eq (h : q.Twin m b q') : q'.describeLine = q.describeLine := by
  unfold describeLine
  rw [h.describeFields_eq]

theorem describeBlock_eq (h : q.Twin m b q') : q'.describeBlock = q.describeBlock := by
  unfold describeBlock
  rw [h.describeFields_eq]

theorem span_eq (h : q.Twin m b q') : q'.span = q.span.map (·.rename m.id) := by
  unfold span
  rw [h.phase_eq]
  cases q.phase with
  | dispatching batch | awaiting batch | reported batch | retiring batch | dropping batch
  | dead batch => exact congrArg some (Batch.span_rename _ _)
  | _ => rfl

theorem note (h : q.Twin m b q') {fact fact' : Fact} (hf : fact.Twin m fact') :
    (q.note fact).Twin m b (q'.note fact') := by
  refine { h with journal := ?_ }
  rw [note_journal, note_journal]
  exact List.rel_append h.journal (.cons hf .nil)

theorem enqueue (h : q.Twin m b q') (p : Party) : (q.enqueue p).Twin m b (q'.enqueue p) := by
  unfold Queue.enqueue
  rw [h.line_eq]
  split
  · exact h
  · exact { h with line_eq := rfl }

theorem wakeDispatcher (h : q.Twin m b q') : q.wakeDispatcher.Twin m b q'.wakeDispatcher := by
  unfold Queue.wakeDispatcher
  rw [h.phase_eq, h.turn_eq]
  cases q.phase with
  | listening =>
    dsimp only [Phase.rename]
    split
    · exact h
    · exact h.enqueue _
  | _ => exact h

theorem wakeIfAbandoned (h : q.Twin m b q') : q.wakeIfAbandoned.Twin m b q'.wakeIfAbandoned := by
  unfold Queue.wakeIfAbandoned
  rw [h.isAbandoned_eq]
  split
  · exact h.wakeDispatcher
  · exact h

theorem yieldTurn (h : q.Twin m b q') : q.yieldTurn.Twin m b q'.yieldTurn :=
  { h with turn_eq := rfl }

theorem withMailbox (h : q.Twin m b q') (mailbox : Mailbox) :
    { q with mailbox }.Twin m b { q' with mailbox := mailbox.rename m.id } :=
  { h with mailbox_eq := rfl }

theorem releaseSlot (h : q.Twin m b q') : q.releaseSlot.Twin m b q'.releaseSlot := by
  unfold Queue.releaseSlot
  rw [h.mailbox_eq, Mailbox.release_rename]
  obtain ⟨granted, mailbox⟩ := q.mailbox.release
  cases granted with
  | none => exact h.withMailbox mailbox
  | some w =>
    have hcaller : (w.rename m.id).caller = w.caller := rfl
    dsimp only [Option.map_some]
    rw [hcaller]
    split
    · exact (h.withMailbox mailbox).enqueue _
    · exact h.withMailbox mailbox

theorem receive? (h : q.Twin m b q') :
    Option.Rel (fun x x' : Request × Queue => x'.1 = x.1.rename m.id ∧ x.2.Twin m b x'.2)
      q.receive? q'.receive? := by
  unfold Queue.receive?
  rw [h.mailbox_eq, Mailbox.take?_rename]
  cases q.mailbox.take? with
  | none => exact .none
  | some taken => exact .some ⟨rfl, (h.withMailbox taken.2).releaseSlot⟩

theorem enter (h : q.Twin m b q') (w : Waiter) :
    (q.enter w).Twin m b (q'.enter (w.rename m.id)) := by
  unfold Queue.enter
  have hticket : (w.rename m.id).ticket = w.ticket := rfl
  have hrequest : (w.rename m.id).request = w.request.rename m.id := rfl
  rw [h.mailbox_eq, hticket, hrequest, Mailbox.dismiss_rename, Mailbox.append_rename]
  exact ((h.withMailbox _).note (.told rfl)).wakeDispatcher

theorem leave (h : q.Twin m b q') (w : Waiter) :
    (q.leave w).Twin m b (q'.leave (w.rename m.id)) := by
  unfold Queue.leave
  have hticket : (w.rename m.id).ticket = w.ticket := rfl
  have hslot : (w.rename m.id).hasSlot = w.hasSlot := rfl
  have hclosed (mailbox : Mailbox) : (mailbox.rename m.id).isClosed = mailbox.isClosed := rfl
  dsimp only
  rw [h.mailbox_eq, hticket, hslot, Mailbox.dismiss_rename, hclosed]
  split
  · exact (h.withMailbox _).releaseSlot.wakeIfAbandoned
  · exact (h.withMailbox _).wakeIfAbandoned

theorem withdraw (h : q.Twin m b q') (w : Waiter) :
    (q.withdraw w).Twin m b (q'.withdraw (w.rename m.id)) := by
  have hstats : q'.stats.retractOffer = q.stats.retractOffer.rename m.id := by
    rw [h.stats_eq]
    rfl
  have hq : { q with stats := q.stats.retractOffer }.Twin m b
      { q' with stats := q'.stats.retractOffer } := { h with stats_eq := hstats }
  exact hq.leave w

theorem decide? (h : q.Twin m b q') (w : Waiter) :
    Option.Rel (fun x x' : Reply × Queue => x'.1 = x.1 ∧ x.2.Twin m b x'.2)
      (q.decide? w) (q'.decide? (w.rename m.id)) := by
  unfold Queue.decide?
  have hcaller : (w.rename m.id).caller = w.caller := rfl
  have hslot : (w.rename m.id).hasSlot = w.hasSlot := rfl
  have hclosed : q'.mailbox.isClosed = q.mailbox.isClosed := by rw [h.mailbox_eq]; rfl
  rw [hcaller, hslot, hclosed, h.isCancelled_eq]
  split
  · exact .some ⟨rfl, h.withdraw w⟩
  · split
    · exact .some ⟨rfl, h.enter w⟩
    · exact .none

theorem settleWaiter (h : q.Twin m b q') (w : Waiter) :
    (q.settleWaiter w).Twin m b (q'.settleWaiter (w.rename m.id)) := by
  unfold Queue.settleWaiter
  have hd := h.decide? w
  generalize q.decide? w = x at hd
  generalize q'.decide? (w.rename m.id) = x' at hd
  cases hd with
  | none => exact h
  | some hx =>
    dsimp only
    rw [hx.1, hx.2.now_eq]
    exact hx.2.note (.told rfl)

/-- What is done for each waiting call in turn, for its twin as well. -/
theorem foldl {step : Queue → Waiter → Queue}
    (hstep : ∀ {q q' : Queue} (w : Waiter), q.Twin m b q' →
      (step q w).Twin m b (step q' (w.rename m.id)))
    (ws : List Waiter) (h : q.Twin m b q') :
    (ws.foldl step q).Twin m b ((ws.map (·.rename m.id)).foldl step q') := by
  induction ws generalizing q q' with
  | nil => exact h
  | cons w ws ih => exact ih (hstep w h)

theorem settleThreads (h : q.Twin m b q') : q.settleThreads.Twin m b q'.settleThreads := by
  unfold Queue.settleThreads
  rw [h.mailbox_eq]
  refine foldl (fun w h => ?_) _ h
  have hcaller : (w.rename m.id).caller = w.caller := rfl
  rw [hcaller]
  split
  · exact h.settleWaiter w
  · exact h

theorem hasDecidedThread_eq (h : q.Twin m b q') : q'.hasDecidedThread = q.hasDecidedThread := by
  unfold hasDecidedThread
  rw [h.mailbox_eq]
  exact List.any_map

theorem emit (h : q.Twin m b q') (e : Event) {span : Option Span} :
    (q.emit e span).Twin m b (q'.emit (e.rename m.id) (span.map (·.rename m.id))) := by
  unfold Queue.emit
  have hq : { q with
      hooks := q.hooks.map fun (k : Hook) => k.notice e
      due := q.due ++ q.hooks.flatMap fun (k : Hook) => k.due e }.Twin m b { q' with
      hooks := q'.hooks.map fun (k : Hook) => k.notice (e.rename m.id)
      due := q'.due ++ q'.hooks.flatMap fun (k : Hook) => k.due (e.rename m.id) } :=
    { h with
      hooks := Hook.Twin.notice_all h.hooks e
      due := List.rel_append h.due (Hook.Twin.due_all h.hooks e) }
  have hfact : (Fact.logged ⟨e, span⟩).Twin m
      (.logged ⟨e.rename m.id, span.map (·.rename m.id)⟩) := .told rfl
  exact (hq.note hfact).settleThreads

/-! ## Offers and other actions -/

theorem offer (h : q.Twin m b q') (caller : Caller) (r : Request) :
    (q'.offer caller (r.rename m.id)).1 = (q.offer caller r).1 ∧
      (q.offer caller r).2.Twin m b (q'.offer caller (r.rename m.id)).2 := by
  have hrefused : ((caller.heedsCancellation && q'.isCancelled) || q'.mailbox.isClosed) =
      ((caller.heedsCancellation && q.isCancelled) || q.mailbox.isClosed) := by
    rw [h.isCancelled_eq, h.mailbox_eq]
    rfl
  have hput : q'.mailbox.put? (r.rename m.id) = (q.mailbox.put? r).map (·.rename m.id) := by
    rw [h.mailbox_eq, Mailbox.put?_rename]
  have hstats : q'.stats.countOffer = q.stats.countOffer.rename m.id := by
    rw [h.stats_eq]
    rfl
  have hcounted : { q with stats := q.stats.countOffer }.Twin m b
      { q' with stats := q'.stats.countOffer } := { h with stats_eq := hstats }
  unfold Queue.offer
  rw [hrefused]
  split
  · exact ⟨rfl, h⟩
  · dsimp only
    rw [hput]
    cases q.mailbox.put? r with
    | some mailbox =>
      have hfact : (Fact.admitted r).Twin m (.admitted (r.rename m.id)) := .told rfl
      exact ⟨rfl, ((hcounted.withMailbox mailbox).note hfact).wakeDispatcher⟩
    | none =>
      have hticket : { q with stats := q.stats.countOffer, tickets := q.tickets + 1 }.Twin m b
          { q' with stats := q'.stats.countOffer, tickets := q.tickets + 1 } :=
        { hcounted with tickets_eq := rfl }
      have hwaiting := hticket.withMailbox
        (q.mailbox.enlist { ticket := q.tickets, request := r, caller })
      rw [← Mailbox.enlist_rename, ← h.mailbox_eq] at hwaiting
      dsimp only [Option.map_none]
      rw [h.tickets_eq]
      cases caller with
      | task => exact ⟨rfl, hwaiting.enqueue _⟩
      | thread | foreground => exact ⟨rfl, hwaiting⟩

/-- A reply to an offer hands out no handle. -/
theorem renumber_offer (f : Nat → Nat) (q : Queue) (caller : Caller) (r : Request) :
    (q.offer caller r).1.renumber f = (q.offer caller r).1 := by
  unfold Queue.offer
  dsimp only
  split
  · rfl
  · split
    · rfl
    · split <;> rfl

theorem offerQuietly (h : q.Twin m b q') (caller : Caller) {handle handle' : Nat}
    (hh : q'.holds handle' = q.holds handle) (r : Request) :
    (q'.offerQuietly caller handle' (r.rename m.id)).1 = (q.offerQuietly caller handle r).1 ∧
      (q.offerQuietly caller handle r).2.Twin m b
        (q'.offerQuietly caller handle' (r.rename m.id)).2 := by
  unfold Queue.offerQuietly
  rw [hh, h.isCancelled_eq]
  split
  · exact ⟨rfl, h⟩
  · split
    · exact ⟨rfl, h⟩
    · exact h.offer caller r

theorem renumber_offerQuietly (f : Nat → Nat) (q : Queue) (caller : Caller) (handle : Nat)
    (r : Request) :
    (q.offerQuietly caller handle r).1.renumber f = (q.offerQuietly caller handle r).1 := by
  unfold Queue.offerQuietly
  split
  · rfl
  · split
    · rfl
    · exact renumber_offer f q caller r

theorem handles_offer (q : Queue) (caller : Caller) (r : Request) :
    (q.offer caller r).2.handles = q.handles := by
  unfold Queue.offer
  dsimp only
  split
  · rfl
  · split
    · exact congrArg (·.handles) (wakeDispatcher_eq _).choose_spec
    · split
      · exact congrArg (·.handles) (enqueue_eq _ _).choose_spec
      · rfl

theorem handles_offerQuietly (q : Queue) (caller : Caller) (handle : Nat) (r : Request) :
    (q.offerQuietly caller handle r).2.handles = q.handles := by
  unfold Queue.offerQuietly
  split
  · rfl
  · split
    · rfl
    · exact handles_offer q caller r

theorem offerAllQuietly (h : q.Twin m b q') {handle handle' : Nat}
    (hh : q'.holds handle' = q.holds handle) (rs : List Request) :
    (q'.offerAllQuietly handle' (rs.map (·.rename m.id))).1 = (q.offerAllQuietly handle rs).1 ∧
      (q.offerAllQuietly handle rs).2.Twin m b
        (q'.offerAllQuietly handle' (rs.map (·.rename m.id))).2 := by
  induction rs generalizing q q' with
  | nil => exact ⟨rfl, h⟩
  | cons r rs ih =>
    obtain ⟨hreply, hq⟩ := h.offerQuietly .task hh r
    have hheld : (q'.offerQuietly .task handle' (r.rename m.id)).2.holds handle' =
        (q.offerQuietly .task handle r).2.holds handle := by
      unfold holds
      rw [handles_offerQuietly, handles_offerQuietly]
      exact hh
    obtain ⟨hreplies, hrest⟩ := ih hq hheld
    exact ⟨congrArg₂ List.cons hreply hreplies, hrest⟩

theorem wakeProducers (h : q.Twin m b q') : q.wakeProducers.Twin m b q'.wakeProducers := by
  unfold Queue.wakeProducers
  rw [h.mailbox_eq]
  refine foldl (fun w h => ?_) _ h
  have hcaller : (w.rename m.id).caller = w.caller := rfl
  rw [hcaller]
  split
  · exact h.enqueue _
  · exact h

theorem cancel (h : q.Twin m b q') : q.cancel.Twin m b q'.cancel := by
  unfold Queue.cancel
  rw [h.isCancelled_eq]
  split
  · exact h
  · have hq : { q with isCancelled := true }.Twin m b { q' with isCancelled := true } :=
      { h with isCancelled_eq := rfl }
    exact hq.wakeDispatcher.wakeProducers

theorem shutdown (h : q.Twin m b q') : q'.shutdown.1 = q.shutdown.1 ∧
    q.shutdown.2.Twin m b q'.shutdown.2 := by
  unfold Queue.shutdown
  have hq := h.cancel
  dsimp only
  rw [hq.isOver_eq]
  split
  · exact ⟨rfl, hq⟩
  · rw [hq.tickets_eq, hq.closers_eq]
    exact ⟨rfl, { hq with tickets_eq := rfl, closers_eq := rfl }⟩

theorem renumber_shutdown (f : Nat → Nat) (q : Queue) :
    q.shutdown.1.renumber f = q.shutdown.1 := by
  unfold Queue.shutdown
  dsimp only
  split <;> rfl

theorem releaseClosers (h : q.Twin m b q') : q.releaseClosers.Twin m b q'.releaseClosers := by
  have hfold (tickets : List Nat) {q q' : Queue} (h : q.Twin m b q') :
      (tickets.foldl (fun q ticket => q.note (.ended ticket .done q.now)) q).Twin m b
        (tickets.foldl (fun q ticket => q.note (.ended ticket .done q.now)) q') := by
    induction tickets generalizing q q' with
    | nil => exact h
    | cons ticket tickets ih =>
      rw [List.foldl_cons, List.foldl_cons, h.now_eq]
      exact ih (h.note (.told rfl))
  unfold Queue.releaseClosers
  rw [h.closers_eq]
  exact { hfold q.closers h with closers_eq := rfl }

theorem wakeGated (h : q.Twin m b q') :
    Queue.Twin m b
      (match q.run with
        | some run =>
          match run.stage with
          | .waiting => q.enqueue .run
          | _ => q
        | none => q)
      (match q'.run with
        | some run =>
          match run.stage with
          | .waiting => q'.enqueue .run
          | _ => q'
        | none => q') := by
  rcases rel_cases h.run with ⟨hr, hr'⟩ | ⟨run, run', hr, hr', hrun⟩
  · rw [hr, hr']
    exact h
  · rw [hr, hr']
    have hstage := hrun.stage
    dsimp only
    generalize run.stage = stage at hstage
    generalize run'.stage = stage' at hstage
    cases hstage with
    | waiting => exact h.enqueue _
    | _ => exact h

theorem releasePermits (h : q.Twin m b q') (n : Nat) :
    (q.releasePermits n).Twin m b (q'.releasePermits n) := by
  have hq : { q with permits := q.permits + n }.Twin m b { q' with permits := q'.permits + n } :=
    { h with permits_eq := congrArg (· + n) h.permits_eq }
  exact hq.wakeGated

theorem drop (h : q.Twin m b q') {handle handle' : Nat}
    (hh : b.Holds (q.handles.set handle false) (q'.handles.set handle' false)) :
    (q.drop handle).Twin m b (q'.drop handle') := by
  have hq : { q with handles := q.handles.set handle false }.Twin m b
      { q' with handles := q'.handles.set handle' false } := { h with handles := hh }
  exact hq.wakeIfAbandoned

theorem holds_eq {a a' : Action} (hag : a.Agrees m b.Holds q.handles q'.handles a') {handle handle' : Nat}
    (hh : a.handle? = some handle) (hh' : a'.handle? = some handle') :
    q'.holds handle' = q.holds handle := hag.held handle handle' hh hh'

theorem perform (h : q.Twin m b q') {a a' : Action} (ha : a.Twin m a')
    (hag : a.Agrees m b.Holds q.handles q'.handles a') :
    (q'.perform a').1 = (q.perform a).1.renumber m.handle ∧
      (q.perform a).2.Twin m b (q'.perform a').2 := by
  cases ha with
  | add r | blockingAdd r =>
    obtain ⟨hreply, hq⟩ := h.offerQuietly _ (holds_eq hag rfl rfl) r
    exact ⟨hreply.trans (renumber_offerQuietly _ _ _ _ _).symm, hq⟩
  | burst rs =>
    obtain ⟨hreplies, hq⟩ := h.offerAllQuietly (holds_eq hag rfl rfl) rs
    exact ⟨congrArg Reply.each hreplies, hq⟩
  | shutdown =>
    unfold Queue.perform
    dsimp only
    rw [holds_eq hag rfl rfl]
    split
    · exact ⟨h.shutdown.1.trans (renumber_shutdown _ _).symm, h.shutdown.2⟩
    · exact ⟨rfl, h⟩
  | cancel => exact ⟨rfl, h.cancel⟩
  | release n => exact ⟨rfl, h.releasePermits n⟩
  | clone handle =>
    unfold Queue.perform
    dsimp only
    rw [holds_eq hag rfl rfl]
    split
    · next hheld =>
      obtain ⟨hhandles, hlength⟩ := hag.cloned handle rfl hheld
      exact ⟨congrArg Reply.handle hlength, { h with handles := hhandles }⟩
    · exact ⟨rfl, h⟩
  | drop handle =>
    unfold Queue.perform
    dsimp only
    rw [holds_eq hag rfl rfl]
    split
    · next hheld => exact ⟨rfl, h.drop (hag.dropped handle rfl hheld)⟩
    · exact ⟨rfl, h⟩
  | watch =>
    unfold Queue.perform
    dsimp only
    rw [holds_eq hag rfl rfl]
    split
    · exact ⟨congrArg Reply.state h.published_eq, h⟩
    · exact ⟨rfl, h⟩
  | describe =>
    unfold Queue.perform
    dsimp only
    rw [holds_eq hag rfl rfl]
    split
    · exact ⟨congrArg₂ Reply.description h.describeLine_eq h.describeBlock_eq, h⟩
    · exact ⟨rfl, h⟩
  | snapshot =>
    have hfact : (Fact.observed q.observe).Twin m (.observed q'.observe) := by
      rw [h.observe_eq]
      exact .told rfl
    exact ⟨rfl, h.note hfact⟩

theorem noteAction (h : q.Twin m b q') {a a' : Action} (ha : a.Twin m a') (reply : Reply) :
    (q.noteAction a reply).Twin m b (q'.noteAction a' (reply.renumber m.handle)) := by
  have hfact := Fact.Twin.performed ha reply
  cases ha with
  | snapshot => exact h
  | _ => exact h.note hfact

theorem performHooked (h : q.Twin m b q') {a a' : Action} (ha : a.Twin m a')
    (hag : a.Agrees m b.Holds q.handles q'.handles a') :
    (q.performHooked a).Twin m b (q'.performHooked a') := by
  obtain ⟨hreply, hq⟩ := h.perform ha hag
  unfold Queue.performHooked
  dsimp only
  rw [hreply]
  exact hq.noteAction ha _

end Queue.Twin
end CoalescingQueue
