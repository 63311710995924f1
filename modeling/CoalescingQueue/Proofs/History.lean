import CoalescingQueue.Queue.State
import Mathlib.Data.List.Infix

/-!
# Reading a history

A history is a journal as a list. Each reading below keeps one kind of fact, in the order in
which it happened, and `Always` says something about each fact and the facts before it. Nothing
here knows how a queue moves.
-/
namespace CoalescingQueue

/-- What happened so far, the oldest first. -/
abbrev History := List Fact

namespace Fact

@[simp] def admitted? : Fact → Option Request
  | .admitted r => some r
  | _ => none

/-- A request with the backlog that was found behind it. -/
@[simp] def counted? : Fact → Option (List Request)
  | .counted first backlog => some (first :: backlog)
  | _ => none

@[simp] def dispatched? : Fact → Option Batch
  | .dispatched b => some b
  | _ => none

@[simp] def discarded? : Fact → Option Batch
  | .discarded b => some b
  | _ => none

@[simp] def launched? : Fact → Option Nat
  | .launched call => some call
  | _ => none

@[simp] def returned? : Fact → Option Nat
  | .returned call => some call
  | _ => none

@[simp] def outcome? : Fact → Option Bool
  | .concluded isSuccess _ => some isSuccess
  | _ => none

@[simp] def forsaken? : Fact → Option Nat
  | .forsaken ticket => some ticket
  | _ => none

@[simp] def observed? : Fact → Option Snapshot
  | .observed s => some s
  | _ => none

/-- A request that was superseded, with the one that took its place. -/
@[simp] def replaced? : Fact → Option (Request × Request)
  | .logged ⟨.superseded r successor, _⟩ => some (r, successor)
  | _ => none

/-- The request that is named when a run has ended. -/
@[simp] def reported? : Fact → Option Request
  | .logged ⟨.completed r _ _, _⟩ => some r
  | .logged ⟨.failed r _ _, _⟩ => some r
  | _ => none

end Fact

namespace History

/-- What the facts of one kind say, in the order in which they happened. -/
def gather {α : Type} (kind : Fact → Option α) (h : History) : List α := h.filterMap kind

section gather

variable {α : Type} (kind : Fact → Option α) (h k : History) (f : Fact)

@[simp] theorem gather_nil : gather kind [] = [] := rfl

@[simp] theorem gather_append : gather kind (h ++ k) = gather kind h ++ gather kind k :=
  List.filterMap_append

@[simp] theorem gather_cons : gather kind (f :: h) = (kind f).toList ++ gather kind h := by
  unfold gather
  rw [List.filterMap_cons]
  cases kind f <;> rfl

theorem gather_concat_of_eq_none {kind : Fact → Option α} {f : Fact} (hf : kind f = none) :
    gather kind (h ++ [f]) = gather kind h := by
  rw [gather_append, gather_cons, hf]
  simp

end gather

variable (h : History)

/-- The requests that entered the mailbox, in order of arrival. -/
abbrev arrivals : List Request := h.gather Fact.admitted?

/-- What the dispatcher found at each count of the backlog. -/
abbrev counts : List (List Request) := h.gather Fact.counted?

/-- The batches the work function was called for, one for each call. -/
abbrev dispatched : List Batch := h.gather Fact.dispatched?

abbrev discarded : List Batch := h.gather Fact.discarded?

/-- The calls that made a run. -/
abbrev launched : List Nat := h.gather Fact.launched?

/-- The calls of which the run has come to its end. -/
abbrev returned : List Nat := h.gather Fact.returned?

abbrev outcomes : List Bool := h.gather Fact.outcome?

/-- The waiting calls that went away without an answer. -/
abbrev forsaken : List Nat := h.gather Fact.forsaken?

abbrev observed : List Snapshot := h.gather Fact.observed?

abbrev replaced : List (Request × Request) := h.gather Fact.replaced?

abbrev reported : List Request := h.gather Fact.reported?

/-- Each fact came at a moment at which it stood in this relation to the facts before it. -/
def Always (P : History → Fact → Prop) (h : History) : Prop :=
  ∀ (before : History) (f : Fact), before ++ [f] <+: h → P before f

theorem always_nil (P : History → Fact → Prop) : Always P [] := by
  intro before f hf
  simpa using hf.length_le

theorem always_concat {P : History → Fact → Prop} {h : History} {f : Fact} :
    Always P (h ++ [f]) ↔ Always P h ∧ P h f := by
  constructor
  · intro ha
    refine ⟨fun before g hg => ha before g (hg.trans (List.prefix_append h [f])), ?_⟩
    exact ha h f List.prefix_rfl
  · rintro ⟨ha, hf⟩ before g hg
    rcases List.prefix_concat_iff.mp hg with heq | hlt
    · obtain ⟨rfl, hfg⟩ := List.append_inj' heq rfl
      obtain rfl := List.singleton_inj.mp hfg
      exact hf
    · exact ha before g hlt

end History
end CoalescingQueue
