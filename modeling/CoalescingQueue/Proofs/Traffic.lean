import CoalescingQueue.Proofs.Entries
import CoalescingQueue.Proofs.Ranks

/-!
# Who comes and who goes

Most of what a queue does leaves those alone who call it. What remains of a shift, seen from those
who wait and from what is written down about requests, is small: a request enters at once or begins
to wait, and a waiting call joins or leaves. Once requests are no longer taken in, they never are
again. In which order calls join is not said here.
-/
namespace CoalescingQueue
namespace Mailbox

/-- The calls that wait, be it with a slot or without. -/
def calls (m : Mailbox) : List Waiter := m.waiting.map fun w => { w with hasSlot := false }

theorem calls_release (m : Mailbox) : m.release.2.calls = m.calls := by
  unfold release
  split
  · next g ws hg =>
    obtain ⟨before, rest, hwaiting, rfl, -, -⟩ := exists_of_grantFirst hg
    simp [calls, hwaiting]
  · rfl

end Mailbox

namespace Queue

variable {terms : Terms} {q q' : Queue}

/-- The request that was announced and is not yet offered. -/
def announced (q : Queue) : List Request :=
  match q.errand with
  | some e => if e.isAnnounced then e.todo.take 1 else []
  | none => []

theorem announced_eq_nil (h : q.isOffering = false) : q.announced = [] := by
  unfold isOffering at h
  unfold announced
  split
  · next e he =>
    rw [he] at h
    rw [if_neg (Bool.eq_false_iff.mp h)]
  · rfl

/-- An errand that comes to its next request has not announced it yet. -/
theorem announced_errand {errand : Option Errand}
    (hnew : ∀ e, errand = some e → e.isAnnounced = false) : { q with errand }.announced = [] := by
  refine announced_eq_nil ?_
  unfold isOffering
  dsimp only
  split
  · next e => exact hnew e rfl
  · rfl

/-- Facts that are about no request's entry, and no call's that goes away by itself. -/
def Unrelated (terms : Terms) (facts : History) : Prop :=
  ∀ f ∈ facts, f.admitted? = none ∧ f.accepted? = none ∧ f.forsaken? = none ∧
    (terms.isOffering = false → f.offered? = none)

theorem unrelated_nil (terms : Terms) : Unrelated terms [] := nofun

/-- What happens to those who call. -/
inductive Passage (terms : Terms) (q q' : Queue) : Prop
  | still (facts : History) (hcalls : q'.mailbox.calls = q.mailbox.calls)
      (hjournal : q'.flow.journal = q.flow.journal ++ facts) (hfacts : Unrelated terms facts)
  | put (r : Request) (hoffering : terms.isOffering = true)
      (hcalls : q'.mailbox.calls = q.mailbox.calls)
      (hjournal : q'.flow.journal = q.flow.journal ++ [.admitted r])
  | enlist {w : Waiter} (hoffering : terms.isOffering = true) (hticket : w.ticket = q.tickets)
      (hcalls : q'.mailbox.calls = (q.mailbox.enlist w).calls)
      (hjournal : q'.flow.journal = q.flow.journal)
  | join {w : Waiter} (hopen : q.mailbox.isClosed = false) (hw : w ∈ q.mailbox.waiting)
      (hslot : w.hasSlot = true)
      (htask : w.caller = .task → q.isCancelled = false ∧ q.turn = some (.producer w.ticket))
      (hcalls : q'.mailbox.calls = (q.mailbox.dismiss w.ticket).calls)
      (hjournal : q'.flow.journal =
        q.flow.journal ++ [.admitted w.request] ++ [.ended w.ticket .accepted q.now])
  | refuse {w : Waiter} (hw : w ∈ q.mailbox.waiting) (hgoing : ¬ q.IsGoing)
      (hcalls : q'.mailbox.calls = (q.mailbox.dismiss w.ticket).calls)
      (hjournal : q'.flow.journal = q.flow.journal ++ [.ended w.ticket .refused q.now])
  | forsake {w : Waiter} (hlossy : terms.isLossy = true) (hw : w ∈ q.mailbox.waiting)
      (hcalls : q'.mailbox.calls = (q.mailbox.dismiss w.ticket).calls)
      (hjournal : q'.flow.journal = q.flow.journal ++ [.forsaken w.ticket])

/-- A shift as it is seen from those who call. -/
structure Traffic (terms : Terms) (q q' : Queue) : Prop where
  isGoing : q'.IsGoing → q.IsGoing
  announced_eq : terms.isOffering = false → q'.announced = q.announced
  passage : Passage terms q q'

theorem calls_leave (q : Queue) (w : Waiter) :
    (q.leave w).mailbox.calls = (q.mailbox.dismiss w.ticket).calls := by
  obtain ⟨more, heq⟩ := q.leave_more w
  rw [heq]
  dsimp only
  split
  · exact Mailbox.calls_release _
  · rfl

theorem journal_leave (q : Queue) (w : Waiter) {f : Fact} :
    ((q.leave w).note f).flow.journal = q.flow.journal ++ [f] := by
  obtain ⟨more, heq⟩ := q.leave_more w
  refine ((q.leave w).note_journal f).trans ?_
  rw [heq]
  rfl

theorem isGoing_leave {w : Waiter} {f : Fact} (h : ((q.leave w).note f).IsGoing) : q.IsGoing := by
  obtain ⟨hc, hclosed⟩ := h
  obtain ⟨more, heq⟩ := q.leave_more w
  have hcancelled : (q.leave w).isCancelled = q.isCancelled := by rw [heq]
  exact ⟨hcancelled.symm.trans hc, (q.leave_isClosed w).symm.trans hclosed⟩

theorem announced_leave {w : Waiter} {f : Fact} : ((q.leave w).note f).announced = q.announced := by
  obtain ⟨more, heq⟩ := q.leave_more w
  have herrand : (q.leave w).errand = q.errand := by rw [heq]
  show (q.leave w).announced = q.announced
  rw [announced, herrand, announced]

/-- Those who waited for the end are told, and no request is concerned. -/
theorem unrelated_closers (terms : Terms) (tickets : List Nat) (time : Nat) :
    Unrelated terms (tickets.map fun ticket => Fact.ended ticket .done time) := by
  intro f hf
  obtain ⟨ticket, -, rfl⟩ := List.mem_map.mp hf
  exact ⟨rfl, rfl, rfl, fun _ => rfl⟩

theorem journal_releaseClosers (q : Queue) : q.releaseClosers.flow.journal =
    q.flow.journal ++ q.closers.map fun ticket => Fact.ended ticket .done q.now := by
  rw [releaseClosers_eq]
  show (q.journal ++ _).toList = _
  rw [Array.toList_append]
  rfl

theorem Shift.traffic (h : Shift terms q q') : Traffic terms q q' := by
  have hquiet {q' : Queue} (hc : q'.isCancelled = q.isCancelled) (hm : q'.mailbox = q.mailbox)
      (hjournal : q'.journal = q.journal)
      (hannounced : terms.isOffering = false → q'.announced = q.announced) :
      Traffic terms q q' := by
    refine ⟨fun hgoing => ?_, hannounced, .still [] ?_ ?_ (unrelated_nil terms)⟩
    · exact ⟨hc ▸ hgoing.isCancelled_eq, hm ▸ hgoing.isClosed_eq⟩
    · rw [hm]
    · rw [List.append_nil]
      exact congrArg Array.toList hjournal
  have hstill {q' : Queue} (hc : q'.isCancelled = q.isCancelled) (hm : q'.mailbox = q.mailbox)
      (hjournal : q'.journal = q.journal) (he : q'.errand = q.errand) : Traffic terms q q' := by
    refine hquiet hc hm hjournal fun _ => ?_
    rw [announced, he, announced]
  have hrefuse (hoffering : terms.isOffering = true) (hnot : terms.isOffering = false) : False := by
    rw [hoffering] at hnot
    contradiction
  cases h with
  | record | call | rest | tick | await | clone | proceed | go | desert =>
    exact hstill rfl rfl rfl rfl
  | @remark f hf hadmitted hrelease hoffered =>
    refine ⟨fun hgoing => ⟨hgoing.1, hgoing.2⟩, fun _ => rfl, .still [f] rfl (q.note_journal f) ?_⟩
    intro g hg
    rw [List.mem_singleton.mp hg]
    refine ⟨hadmitted, ?_, ?_, hoffered⟩
    · cases f <;> first | rfl | contradiction
    · cases f <;> first | rfl | contradiction
  | wake =>
    obtain ⟨more, heq⟩ := q.enqueue_more .run
    rw [heq]
    exact hstill rfl rfl rfl rfl
  | @put r mailbox hheld hopen hput hoffering =>
    obtain ⟨more, heq⟩ := wakeDispatcher_more ({ q with mailbox }.note (.admitted r))
    obtain rfl := Mailbox.eq_of_put? hput
    rw [heq]
    exact ⟨fun hgoing => ⟨hgoing.1, hgoing.2⟩, fun hnot => (hrefuse hoffering hnot).elim,
      .put r hoffering rfl (note_journal _ _)⟩
  | @enlist w hheld hopen hput hticket hslot hcaller hcancelled hclear hoffering =>
    obtain ⟨more, heq⟩ := q.lineUp_more w
    rw [heq]
    exact ⟨fun hgoing => ⟨hgoing.1, hgoing.2⟩, fun hnot => (hrefuse hoffering hnot).elim,
      .enlist hoffering hticket rfl rfl⟩
  | @join w hopen hw hslot htask =>
    obtain ⟨more, heq⟩ := q.enter_more w
    have hjournal : (q.enter w).flow.journal = q.flow.journal ++ [.admitted w.request] := by
      rw [heq]
      exact q.note_journal (.admitted w.request)
    refine ⟨fun hgoing => ?_, fun _ => ?_, .join hopen hw hslot htask ?_ ?_⟩
    · obtain ⟨hc, hclosed⟩ := hgoing
      have hc : (q.enter w).isCancelled = false := hc
      rw [heq] at hc
      exact ⟨hc, hopen⟩
    · have herrand : (q.enter w).errand = q.errand := by rw [heq]
      show (q.enter w).announced = q.announced
      rw [announced, herrand, announced]
    · show (q.enter w).mailbox.calls = _
      rw [heq]
      rfl
    · exact ((q.enter w).note_journal _).trans (congrArg (· ++ _) hjournal)
  | @withdraw w hw hrefused =>
    exact ⟨isGoing_leave, fun _ => announced_leave,
      .refuse hw (fun hg => hg.not_refused hrefused) (q.calls_leave w) (q.journal_leave w)⟩
  | @forsake w hlossy hw =>
    exact ⟨isGoing_leave, fun _ => announced_leave, .forsake hlossy hw (q.calls_leave w)
      (q.journal_leave w)⟩
  | cancel hc =>
    obtain ⟨more, heq⟩ := wakeAll_more { q with isCancelled := true }
    rw [heq]
    refine ⟨fun hgoing => absurd hgoing.1.symm Bool.false_ne_true, fun _ => rfl,
      .still [] rfl ?_ (unrelated_nil terms)⟩
    rw [List.append_nil]
    rfl
  | permit n =>
    obtain ⟨more, heq⟩ := q.releasePermits_more n
    rw [heq]
    exact hstill rfl rfl rfl rfl
  | drop handle =>
    obtain ⟨more, heq⟩ := q.drop_more handle
    rw [heq]
    exact hstill rfl rfl rfl rfl
  | @prepare errand hidle hnew =>
    refine hquiet rfl rfl rfl fun _ => ?_
    rw [announced_eq_nil hidle, announced_errand fun e he => (hnew e he).1]
  | announce he htodo hheld hoffering =>
    exact hquiet rfl rfl rfl fun hnot => (hrefuse hoffering hnot).elim
  | @offered e todo replies he hoffering =>
    obtain ⟨more, heq⟩ := wakeIfAbandoned_more
      { q with errand := some { e with todo, isAnnounced := false, replies } }
    rw [heq]
    exact hquiet rfl rfl rfl fun hnot => (hrefuse hoffering hnot).elim
  | @finish run =>
    obtain ⟨more, heq⟩ := (q.setStage run .ended).enqueue_more .dispatcher
    rw [heq]
    exact hstill rfl rfl rfl rfl
  | @take r mailbox phase hturn hover hnext hexit htake =>
    obtain ⟨more, heq⟩ := releaseSlot_more { q with mailbox }
    have hmailbox := Mailbox.eq_of_take? htake
    rw [heq]
    refine ⟨fun hgoing => ⟨hgoing.1, ?_⟩, fun _ => rfl, .still [] ?_ ?_ (unrelated_nil terms)⟩
    · have hclosed : mailbox.release.2.isClosed = false := hgoing.2
      rw [Mailbox.release_isClosed] at hclosed
      rw [hmailbox]
      exact hclosed
    · have hcalls : q.mailbox.calls = mailbox.calls := by rw [hmailbox]; rfl
      exact mailbox.calls_release.trans hcalls.symm
    · rw [List.append_nil]
      rfl
  | @launch b run =>
    obtain ⟨more, heq⟩ := enqueue_more { q with phase := .awaiting b, run := some run } .run
    rw [heq]
    exact hstill rfl rfl rfl rfl
  | @breakDown b =>
    obtain ⟨more, heq⟩ := closeMailbox_more { q with phase := .dead b }
    have hjournal := journal_releaseClosers (closeMailbox { q with phase := .dead b })
    refine ⟨fun hgoing => ?_, fun _ => ?_,
      .still (q.closers.map fun ticket => .ended ticket .done q.now) ?_ (hjournal.trans ?_)
      (unrelated_closers terms _ _)⟩
    · have hclosed := hgoing.isClosed_eq
      rw [releaseClosers_eq, heq] at hclosed
      contradiction
    · rw [releaseClosers_eq, heq]
      rfl
    · rw [releaseClosers_eq, heq]
      rfl
    · rw [heq]
      rfl
  | close =>
    obtain ⟨more, heq⟩ := q.closeMailbox_more
    have hjournal := journal_releaseClosers
      { q.closeMailbox with published := .stopped, phase := .stopped }
    refine ⟨fun hgoing => ?_, fun _ => ?_,
      .still (q.closers.map fun ticket => .ended ticket .done q.now) ?_ (hjournal.trans ?_)
      (unrelated_closers terms _ _)⟩
    · have hclosed := hgoing.isClosed_eq
      rw [releaseClosers_eq, heq] at hclosed
      contradiction
    · rw [releaseClosers_eq, heq]
      rfl
    · rw [releaseClosers_eq, heq]
      rfl
    · rw [heq]
      rfl

end Queue
end CoalescingQueue
