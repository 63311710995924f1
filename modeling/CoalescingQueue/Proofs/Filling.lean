import CoalescingQueue.Proofs.Bursts
import CoalescingQueue.Scenario

/-!
# Filling the mailbox of an idle queue

A task offers requests from outside, one by one or several at once, and nobody has a turn in
between. Each of them enters the buffer or, once that is full, waits behind the others.
-/
namespace CoalescingQueue

/-- A request has entered, or its call is one of those that wait. -/
inductive Reply.IsWelcome (m : Mailbox) : Reply → Prop
  | accepted : IsWelcome m .accepted
  | pending {ticket : Nat} (hw : ticket ∈ m.tickets) : IsWelcome m (.pending ticket)

theorem Reply.IsWelcome.mono {m m' : Mailbox} {reply : Reply} (h : reply.IsWelcome m)
    (hsub : m.tickets ⊆ m'.tickets) : reply.IsWelcome m' := by
  cases h with
  | accepted => exact .accepted
  | pending hw => exact .pending (hsub hw)

/-- The answers that a reply consists of, one for each request. -/
def Reply.parts : Reply → List Reply
  | .each replies => replies
  | reply => [reply]

theorem Reply.IsWelcome.parts_eq {m : Mailbox} {reply : Reply} (h : reply.IsWelcome m) :
    reply.parts = [reply] := by
  cases h <;> rfl

namespace Queue

/-- By this action a task offers these requests, on a handle that is held. -/
inductive Pushes (q : Queue) : Action → List Request → Prop
  | add (r : Request) {handle : Nat} (hheld : q.holds handle = true) : Pushes q (.add r handle) [r]
  | burst (rs : List Request) {handle : Nat} (hheld : q.holds handle = true) :
      Pushes q (.burst rs handle) rs

/-- These requests were offered to an idle queue, and nobody has had a turn since. -/
structure Loading (q₀ : Queue) (rs : List Request) (q : Queue) : Prop where
  alone : q.IsAlone
  packed : q.Packed
  turn_eq : q.turn = none
  phase_eq : q.phase = .listening
  run_eq : q.run = none
  config_eq : q.config = q₀.config
  handles_eq : q.handles = q₀.handles
  calls_eq : q.calls = q₀.calls
  permits_eq : q.permits = q₀.permits
  dispatched_eq : q.flow.journal.dispatched = q₀.flow.journal.dispatched
  offered_eq : q.mailbox.buffer ++ q.requests = rs
  hasSlot_eq : ∀ w ∈ q.mailbox.waiting, w.hasSlot = false

variable {script : WorkScript} {q₀ q q' : Queue} {rs : List Request}

namespace Loading

theorem isPaused (h : q₀.Loading rs q) : q.IsPaused :=
  ⟨h.turn_eq, h.hasSlot_eq, fun _ _ => h.alone.going.isClosed_eq⟩

/-- What is logged changes nothing. -/
theorem log (h : q₀.Loading rs q) (record : LogRecord) :
    q₀.Loading rs (q.note (.logged record)) := by
  obtain ⟨hhooks, hdue, herrand, ⟨hc, hopen⟩, hheld, htasks, hworking, hbare⟩ := h.alone
  have hdispatched : (q.note (.logged record)).flow.journal.dispatched =
      q₀.flow.journal.dispatched := by
    rw [← h.dispatched_eq, flow_note]
    exact History.gather_concat_of_eq_none _ rfl
  exact { h with
    alone := ⟨hhooks, hdue, herrand, ⟨hc, hopen⟩, hheld, htasks, hworking, hbare⟩
    dispatched_eq := hdispatched }

/-- What the caller is told changes nothing. -/
theorem unoccupied (h : q₀.Loading rs q) (reply : Reply) :
    q₀.Loading rs { q with errand := none, reply } := by
  obtain ⟨hhooks, hdue, -, ⟨hc, hopen⟩, hheld, htasks, hworking, hbare⟩ := h.alone
  exact { h with alone := ⟨hhooks, hdue, rfl, ⟨hc, hopen⟩, hheld, htasks, hworking, hbare⟩ }

/-- A request that enters is the last of all, since nobody waits while there is room. -/
theorem enter {r : Request} {stats : Stats} {line : List Party} (h : q₀.Loading rs q)
    (hroom : 0 < q.mailbox.free) :
    q₀.Loading (rs ++ [r]) { q with
      stats
      mailbox := { q.mailbox.append r with free := q.mailbox.free - 1 }
      journal := q.journal.push (.admitted r)
      line } := by
  obtain ⟨hhooks, hdue, herrand, ⟨hc, hopen⟩, hheld, htasks, hworking, hbare⟩ := h.alone
  have hfits : q.mailbox.Fits q.config.capacity := h.packed hopen
  have hput : q.mailbox.put? r = some { q.mailbox.append r with free := q.mailbox.free - 1 } :=
    if_pos hroom
  have hrequests : q.requests = [] :=
    requests_eq_nil (hfits.waiting_eq_nil h.hasSlot_eq hroom)
  have hbuffer : q.mailbox.buffer = rs := by
    have hall := h.offered_eq
    rwa [hrequests, List.append_nil] at hall
  have hoffered : (q.mailbox.buffer ++ [r]) ++ q.requests = rs ++ [r] := by
    rw [hrequests, hbuffer, List.append_nil]
  have hdispatched : History.dispatched (q.journal.push (.admitted r)).toList =
      q₀.flow.journal.dispatched := by
    rw [Array.toList_push, ← h.dispatched_eq]
    exact History.gather_concat_of_eq_none _ rfl
  exact { h with
    alone := ⟨hhooks, hdue, herrand, ⟨hc, hopen⟩, hheld, htasks, hworking, hbare⟩
    packed := fun _ => hfits.put hput
    dispatched_eq := hdispatched
    offered_eq := hoffered }

/-- A call that has to wait is the last of those that wait. -/
theorem enlist {w : Waiter} {stats : Stats} {tickets : Nat} {line : List Party}
    (h : q₀.Loading rs q) (hfull : q.mailbox.free = 0) (hcaller : w.caller = .task)
    (hslot : w.hasSlot = false) :
    q₀.Loading (rs ++ [w.request]) { q with
      stats
      mailbox := q.mailbox.enlist w
      tickets
      line } := by
  obtain ⟨hhooks, hdue, herrand, ⟨hc, hopen⟩, hheld, htasks, hworking, hbare⟩ := h.alone
  have hfits : q.mailbox.Fits q.config.capacity := h.packed hopen
  have hput : q.mailbox.put? w.request = none := if_neg (by omega)
  have hoffered : q.mailbox.buffer ++ (q.mailbox.enlist w).calls.map (·.request) =
      rs ++ [w.request] := by
    rw [Mailbox.calls_enlist, List.map_append, ← List.append_assoc, ← h.offered_eq]
    rfl
  exact { h with
    alone := ⟨hhooks, hdue, herrand, ⟨hc, hopen⟩, hheld,
      List.forall_mem_append.mpr ⟨htasks, List.forall_mem_singleton.mpr hcaller⟩, hworking, hbare⟩
    packed := fun _ => hfits.enlist hput hslot
    offered_eq := hoffered
    hasSlot_eq := List.forall_mem_append.mpr
      ⟨h.hasSlot_eq, List.forall_mem_singleton.mpr hslot⟩ }

/-- A request that is offered comes behind the others. -/
theorem offer {r : Request} {reply : Reply} (h : q₀.Loading rs { q with errand := none })
    (ho : Offered q .task r (reply, q')) :
    q₀.Loading (rs ++ [r]) { q' with errand := none } ∧
      q.mailbox.tickets ⊆ q'.mailbox.tickets ∧ reply.IsWelcome q'.mailbox := by
  obtain ⟨hc, hopen⟩ := h.alone.going
  cases ho with
  | refused hrefused =>
    rcases hrefused with ⟨-, hcancelled⟩ | hclosed
    · exact absurd (hc.symm.trans hcancelled) Bool.false_ne_true
    · exact absurd (hopen.symm.trans hclosed) Bool.false_ne_true
  | accepted line hgoing hroom => exact ⟨h.enter hroom, fun _ ht => ht, .accepted⟩
  | pending line hgoing hfull =>
    let w : Waiter := { ticket := q.tickets, request := r, caller := .task }
    have htickets : (q.mailbox.enlist w).tickets = q.mailbox.tickets ++ [w.ticket] :=
      List.map_append
    refine ⟨h.enlist (w := w) hfull rfl rfl, fun _ ht => ?_, .pending ?_⟩
    · rw [htickets]
      exact List.mem_append_left _ ht
    · rw [htickets]
      exact List.mem_append_right _ List.mem_cons_self

theorem isFree (h : q₀.Loading rs q) : q.IsFree := ⟨h.turn_eq, h.alone.errand_eq, h.alone.due_eq⟩

end Loading

/-- What it comes to when these requests are offered behind others, and these are the replies. -/
structure Pushed (script : WorkScript) (q₀ : Queue) (rs todo : List Request) (replies : List Reply)
    (q q' : Queue) : Prop where
  loading : q₀.Loading (rs ++ todo) q'
  driven : Driven script IsUnprompted (true, q) (true, q')
  tickets_sub : q.mailbox.tickets ⊆ q'.mailbox.tickets
  length_eq : replies.length = todo.length
  welcome : ∀ reply ∈ replies, reply.IsWelcome q'.mailbox

namespace Pushed

variable {todo todo' : List Request} {replies replies' : List Reply} {q'' : Queue}

/-- A move after which no more requests have been offered. -/
theorem of_move (h : q₀.Loading rs q') (hm : IsUnprompted q ∧ Drive script (true, q) (true, q'))
    (hmailbox : q'.mailbox = q.mailbox) : Pushed script q₀ rs [] [] q q' := by
  refine ⟨?_, .single hm, ?_, rfl, List.forall_mem_nil _⟩
  · rw [List.append_nil]
    exact h
  · rw [hmailbox]
    exact fun _ ht => ht

theorem refl (h : q₀.Loading rs q) : Pushed script q₀ rs [] [] q q := by
  refine ⟨?_, .refl, fun _ ht => ht, rfl, List.forall_mem_nil _⟩
  rw [List.append_nil]
  exact h

theorem trans (h : Pushed script q₀ rs todo replies q q')
    (h' : Pushed script q₀ (rs ++ todo) todo' replies' q' q'') :
    Pushed script q₀ rs (todo ++ todo') (replies ++ replies') q q'' := by
  refine ⟨?_, h.driven.trans h'.driven, fun _ ht => h'.tickets_sub (h.tickets_sub ht), ?_, ?_⟩
  · rw [← List.append_assoc]
    exact h'.loading
  · rw [List.length_append, List.length_append, h.length_eq, h'.length_eq]
  · exact List.forall_mem_append.mpr
      ⟨fun reply hmem => (h.welcome reply hmem).mono h'.tickets_sub, h'.welcome⟩

end Pushed

namespace Loading

/-- An errand goes through its requests and is answered. -/
theorem pushed (script : WorkScript) {todo : List Request} {e : Errand}
    (h : q₀.Loading rs { q with errand := none }) (he : q.errand = some e)
    (hcaller : e.caller = .task) (hholds : q.holds e.handle = true) (hnew : e.isAnnounced = false)
    (htodo : e.todo = todo) {n : Nat} (hn : 2 * todo.length + 1 ≤ n) :
    ∃ replies, Pushed script q₀ rs todo replies q (iterate attend? n q) ∧
      (iterate attend? n q).reply = Errand.reply { e with replies := e.replies ++ replies } := by
  have hunprompted : q.IsUnprompted := isUnprompted_of_due_eq h.alone.due_eq
  induction todo generalizing q rs e n with
  | nil =>
    obtain ⟨m, rfl⟩ : ∃ m, n = m + 1 := ⟨n - 1, by omega⟩
    let answered : Queue := { q with errand := none, reply := Errand.reply e }
    have hstep : q.attend? = some answered :=
      attend?_of_errand h.alone.due_eq he (stepErrand_answer h.turn_eq htodo)
    have hloading : q₀.Loading rs answered := h.unoccupied _
    rw [iterate_succ hstep, iterate_atRest hloading.isFree.attend?]
    refine ⟨[], .of_move hloading ⟨hunprompted, .attend hstep⟩ rfl, ?_⟩
    rw [List.append_nil]
  | cons r rest ih =>
    obtain ⟨m, rfl⟩ : ∃ m, n = m + 2 := ⟨n - 2, by rw [List.length_cons] at hn; omega⟩
    have hpaused : q.IsPaused := h.isPaused.congr rfl rfl fun _ hw => hw
    let announced : Queue := { q with errand := some { e with isAnnounced := true } }.note
      (.logged ⟨.offered r, none⟩)
    have hfirst : q.attend? = some announced :=
      attend?_of_errand h.alone.due_eq he (stepErrand_announce hpaused h.alone.hooks_eq
        h.alone.going.isCancelled_eq hholds htodo hnew)
    obtain ⟨reply, q₁, hoffer⟩ : ∃ reply q₁, announced.offer .task r = (reply, q₁) := ⟨_, _, rfl⟩
    obtain ⟨hloading, hsub, hwelcome⟩ :=
      (h.log ⟨.offered r, none⟩).offer (q := announced) (hoffer ▸ announced.offered .task r)
    let e₁ : Errand := { e with
      todo := rest
      isAnnounced := false
      replies := e.replies ++ [reply] }
    have hmade : announced.offer e.caller r = (reply, q₁) := by rw [hcaller, hoffer]
    have hsecond : announced.attend? = some { q₁ with errand := some e₁ } :=
      attend?_of_errand h.alone.due_eq rfl (stepErrand_offer (e := { e with isAnnounced := true })
        htodo rfl h.alone.held hmade)
    have hheld₁ : q₁.holds e.handle = true := by
      have hhandles : q₁.handles = q.handles := hloading.handles_eq.trans h.handles_eq.symm
      rwa [holds, hhandles]
    obtain ⟨replies, hpushed, hreply⟩ := ih (q := { q₁ with errand := some e₁ }) (e := e₁) (n := m)
      hloading rfl hcaller hheld₁ rfl rfl (by rw [List.length_cons] at hn; omega)
      (isUnprompted_of_due_eq hloading.alone.due_eq)
    have hstep : Driven script IsUnprompted (true, q) (true, { q₁ with errand := some e₁ }) :=
      .head ⟨hunprompted, .attend hfirst⟩ (.single ⟨hunprompted, .attend hsecond⟩)
    rw [iterate_succ hfirst, iterate_succ hsecond]
    refine ⟨reply :: replies, ⟨?_, hstep.trans hpushed.driven,
      fun _ ht => hpushed.tickets_sub (hsub ht), ?_, ?_⟩, ?_⟩
    · rw [← List.singleton_append, ← List.append_assoc]
      exact hpushed.loading
    · rw [List.length_cons, List.length_cons, hpushed.length_eq]
    · exact List.forall_mem_cons.mpr
        ⟨hwelcome.mono hpushed.tickets_sub, hpushed.welcome⟩
    · rw [hreply]
      show Errand.reply { e with replies := (e.replies ++ [reply]) ++ replies } = _
      rw [List.append_assoc]
      rfl

/-- The patience of a queue outlasts the errand it is on. -/
theorem errand_le_patience (script : WorkScript) {e : Errand} (he : q.errand = some e) :
    2 * e.todo.length + 1 ≤ q.patience script := by
  have hload : e.todo.length + 1 ≤ q.load := by
    unfold load
    rw [he]
    dsimp only
    omega
  have hpatience := load_le_patience script q
  omega

/-- An action by which requests are offered. -/
theorem pushed_act (script : WorkScript) {a : Action} {todo : List Request}
    (h : q₀.Loading rs q) (ha : q₀.Pushes a todo) :
    Pushed script q₀ rs todo (q.act script a).1.parts q (q.act script a).2 := by
  have hholds {handle : Nat} (hheld : q₀.holds handle = true) : q.holds handle = true := by
    rw [holds, h.handles_eq]
    exact hheld
  -- the action begins as an errand
  have hbegun (e : Errand) (hbegin : { q with reply := .nothing }.begin a =
        { q with reply := .nothing, errand := some e })
      (hcaller : e.caller = .task) (hhandle : q.holds e.handle = true)
      (hnew : e.isAnnounced = false) (htodo : e.todo = todo) (hnone : e.replies = []) :
      ∃ replies, Pushed script q₀ rs todo replies q (q.act script a).2 ∧
        (q.act script a).1 = Errand.reply { e with replies } := by
    have hloading : q₀.Loading rs { q with reply := .nothing, errand := none } := h.unoccupied _
    have hpatience := errand_le_patience script
      (q := { q with reply := .nothing, errand := some e }) rfl
    rw [htodo] at hpatience
    obtain ⟨replies, hpushed, hreply⟩ := hloading.pushed script
      (q := { q with reply := .nothing, errand := some e }) rfl hcaller hhandle hnew htodo hpatience
    rw [hnone, List.nil_append] at hreply
    have hact : Drive script (true, q) (true, { q with reply := .nothing, errand := some e }) :=
      hbegin ▸ .act h.isFree a
    unfold act
    dsimp only
    rw [hbegin]
    exact ⟨replies, { hpushed with
      driven := .head ⟨h.alone.isUnprompted, hact⟩ hpushed.driven }, hreply⟩
  cases ha with
  | add r hheld =>
    obtain ⟨replies, hpushed, hreply⟩ := hbegun _ rfl rfl (hholds hheld) rfl rfl rfl
    obtain ⟨reply, rfl⟩ := List.length_eq_one_iff.mp hpushed.length_eq
    rw [hreply]
    show Pushed script q₀ rs [r] reply.parts q _
    rw [(hpushed.welcome reply List.mem_cons_self).parts_eq]
    exact hpushed
  | burst rs hheld =>
    obtain ⟨replies, hpushed, hreply⟩ := hbegun _ rfl rfl (hholds hheld) rfl rfl rfl
    rw [hreply]
    exact hpushed

/-- One such action after the other. -/
theorem pushed_play (script : WorkScript) {actions : List Action} {parts : List (List Request)}
    (h : q₀.Loading rs q) (hall : List.Forall₂ q₀.Pushes actions parts) :
    Pushed script q₀ rs parts.flatten
      ((q.play script (actions.map .act)).1.flatMap (·.reply.parts)) q
      (q.play script (actions.map .act)).2 := by
  induction hall generalizing q rs with
  | nil => exact .refl h
  | @cons a part actions parts ha _ ih =>
    have hfirst := h.pushed_act script ha
    rw [List.map_cons, play_cons, List.flatMap_cons, List.flatten_cons]
    exact hfirst.trans (ih hfirst.loading)

end Loading

/-! ## Before and after -/

section Idle

variable (h : Reachable script q) (hr : q.AtRest script) (hidle : q.published = .idle)
include h hr hidle

/-- The dispatcher of an idle queue that is at rest listens. -/
theorem Reachable.phase_of_idle : q.phase = .listening := by
  rcases h.phase_atRest hr with hp | ⟨b, hp⟩ | hp | hdead
  · exact hp
  · exact nomatch hidle.symm.trans (h.flow.posture.published_eq _ (congrArg Phase.shown? hp))
  · exact nomatch hidle.symm.trans (h.flow.posture.published_eq _ (congrArg Phase.shown? hp))
  · exact nomatch hidle.symm.trans (h.flow.posture.published_eq _ (Phase.shown_of_isDead hdead))

theorem Reachable.loading (hhooks : q.hooks = []) : q.Loading [] q := by
  have hphase := h.phase_of_idle hr hidle
  have hrests := h.rests_idle hr hphase
  have hnone : q.mailbox.waiting = [] := hrests.waiting_eq
  have hopen : q.mailbox.isClosed = false := by
    rw [h.parts.isClosed_eq, hphase]
    rfl
  constructor
  · refine ⟨hhooks, hr.isFree.due_eq, hr.isStill.errand_eq, ⟨hrests.isCancelled_eq, hopen⟩,
      hrests.hasHandle_eq, ?_, ?_, ?_⟩
    · rw [hnone]
      exact List.forall_mem_nil _
    · rw [hphase]
      rfl
    · intro run hrun
      rw [hrests.run_eq] at hrun
      contradiction
  · exact h.packed
  · exact hr.isStill.turn_eq
  · exact hphase
  · exact hrests.run_eq
  · rfl
  · rfl
  · rfl
  · rfl
  · rfl
  · rw [hrests.buffer_eq, requests_eq_nil hnone]
    rfl
  · rw [hnone]
    exact List.forall_mem_nil _

/-- Such a queue may be acted on. -/
theorem Reachable.steady_of_idle : q.Steady true := by
  have hnone : q.mailbox.waiting = [] := (h.rests_idle hr (h.phase_of_idle hr hidle)).waiting_eq
  have hgiven : q.mailbox.given = [] := by rw [Mailbox.given, hnone]; rfl
  have htasks : q.mailbox.tasks = [] := by rw [Mailbox.tasks, hnone]; rfl
  refine ⟨fun _ => h.calm hr, fun hpaused => absurd hpaused.symm Bool.false_ne_true, fun _ => ?_⟩
  constructor <;> simp [hr.isStill.turn_eq, hr.isStill.line_eq, hgiven, htasks, producers]

end Idle

variable {rs : List Request}

theorem Loading.burst (h : q₀.Loading rs q) : q.Burst rs q := by
  have hnone : q.calls - q.calls = 0 := Nat.sub_self _
  constructor
  · rfl
  · exact le_rfl
  · refine ⟨[], (List.append_nil _).symm, ?_⟩
    rw [hnone]
    rfl
  · rw [hnone, Nat.zero_mul, List.drop_zero, outstanding, h.phase_eq]
    exact h.offered_eq
  · have hpos := q.config.capacity_pos
    rw [hnone]
    omega
  · intro batch hmem
    rw [h.phase_eq] at hmem
    contradiction
  · exact fun _ => h.hasSlot_eq
  · exact fun _ ht => .inl ht

theorem Loading.supplied (h : q₀.Loading rs q) {n : Nat}
    (hends : script.EndsAlone q₀.calls n q₀.permits) : q.Supplied script (q.calls + n) := by
  have htoll : q.toll = 0 := by rw [toll, h.run_eq]
  constructor
  · rw [htoll]
    exact Nat.zero_le _
  · rw [htoll, Nat.add_sub_cancel_left, h.calls_eq, h.permits_eq]
    exact hends

end Queue
end CoalescingQueue
