import CoalescingQueue.Proofs.Coalescing

/-!
# Entries

Requests may look alike, so what happened to one of them is said of its entry into the mailbox:
the entries are the arrivals, each with the ticket of its call if that had to wait. The batches
that were taken out of the mailbox are cut from the entries in their order, and an event that
says what became of a request speaks of an entry. Nothing here says when an entry is made.
-/
namespace CoalescingQueue
namespace Fact

/-- The ticket of a call that was accepted after it had waited. -/
@[simp] def accepted? : Fact → Option Nat
  | .ended ticket .accepted _ => some ticket
  | _ => none

end Fact

namespace History

/-- A call that had to wait is told that it was accepted right when its request enters. -/
def entries : History → List (Option Nat × Request)
  | .admitted r :: .ended ticket .accepted _ :: rest => (some ticket, r) :: entries rest
  | .admitted r :: rest => (none, r) :: entries rest
  | _ :: rest => entries rest
  | [] => []

/-- The requests whose fate was told: what took their place or was dispatched or reported. -/
def named (h : History) : List Request :=
  h.replaced.flatMap (fun (r, successor) => [r, successor]) ++ h.dispatched.flatMap Batch.toList ++
    h.reported

theorem entries_cons_of_admitted_eq_none {f : Fact} (hf : f.admitted? = none) (h : History) :
    entries (f :: h) = entries h := by
  cases f with
  | admitted r => contradiction
  | _ => rw [entries] <;> nofun

/-- A request that is not followed by the answer to a call had not to wait. -/
theorem entries_cons_admitted (r : Request) {h : History}
    (hh : ∀ f ∈ h.head?, f.accepted? = none) :
    entries (.admitted r :: h) = (none, r) :: entries h := by
  rw [entries]
  rintro ticket time rest rfl
  exact nomatch hh _ rfl

theorem entries_cons_accepted (r : Request) (ticket time : Nat) (h : History) :
    entries (.admitted r :: .ended ticket .accepted time :: h) =
      (some ticket, r) :: entries h := by
  rw [entries]

/-- What follows does not change how an entry is read, unless it begins with such an answer. -/
theorem entries_append (h : History) {k : History} (hk : ∀ f ∈ k.head?, f.accepted? = none) :
    entries (h ++ k) = entries h ++ entries k := by
  induction h using entries.induct with
  | case1 r ticket time rest ih =>
    rw [List.cons_append, List.cons_append, entries_cons_accepted, entries_cons_accepted, ih]
    rfl
  | case2 r rest hnot ih =>
    have hrest : ∀ f ∈ rest.head?, f.accepted? = none := by
      intro f hf
      cases rest with
      | nil => contradiction
      | cons g tail =>
        obtain rfl := Option.some.inj hf
        by_contra hne
        cases g with
        | ended ticket reply time =>
          cases reply with
          | accepted => exact hnot ticket time tail rfl
          | _ => exact hne rfl
        | _ => exact hne rfl
    have hboth : ∀ f ∈ (rest ++ k).head?, f.accepted? = none := by
      cases rest with
      | nil => exact hk
      | cons g tail => exact hrest
    rw [List.cons_append, entries_cons_admitted r hboth, entries_cons_admitted r hrest, ih]
    rfl
  | case3 f rest hnot hnot' ih =>
    have hf : f.admitted? = none := by
      cases f with
      | admitted r => exact (hnot' r rfl).elim
      | _ => rfl
    rw [List.cons_append, entries_cons_of_admitted_eq_none hf,
      entries_cons_of_admitted_eq_none hf, ih]
  | case4 => rfl

theorem entries_concat (h : History) {f : Fact} (hf : f.accepted? = none) :
    entries (h ++ [f]) = entries h ++ (f.admitted?.toList.map fun r => (none, r)) := by
  have hlast : entries [f] = f.admitted?.toList.map fun r => (none, r) := by
    cases f with
    | admitted r => exact entries_cons_admitted r nofun
    | _ => exact entries_cons_of_admitted_eq_none rfl []
  rw [entries_append h (by simpa using hf), hlast]

/-- The entry of a call that had to wait. -/
theorem entries_join (h : History) (r : Request) (ticket time : Nat) :
    entries (h ++ [.admitted r] ++ [.ended ticket .accepted time]) =
      entries h ++ [(some ticket, r)] := by
  rw [List.append_assoc]
  exact entries_append h (by simp)

/-- Entries are the arrivals. -/
theorem map_entries (h : History) : (entries h).map Prod.snd = h.arrivals := by
  induction h using entries.induct with
  | case1 r ticket time rest ih =>
    rw [entries_cons_accepted, List.map_cons, ih]
    simp
  | case2 r rest hnot ih =>
    rw [entries, List.map_cons, ih]
    · simp
    · exact hnot
  | case3 f rest hnot hnot' ih =>
    have hf : f.admitted? = none := by
      cases f with
      | admitted r => exact (hnot' r rfl).elim
      | _ => rfl
    have hgather : arrivals (f :: rest) = f.admitted?.toList ++ arrivals rest :=
      gather_cons Fact.admitted? rest f
    rw [entries_cons_of_admitted_eq_none hf, ih, hgather, hf]
    rfl
  | case4 => rfl

/-- Only a call that was accepted made an entry. -/
theorem accepted_of_mem_entries {h : History} {ticket : Nat} {r : Request}
    (hmem : (some ticket, r) ∈ entries h) : ∃ time, .ended ticket .accepted time ∈ h := by
  induction h using entries.induct with
  | case1 r' ticket' time rest ih =>
    rw [entries_cons_accepted] at hmem
    rcases List.mem_cons.mp hmem with heq | hrest
    · obtain ⟨hticket, -⟩ := Prod.mk.inj heq
      obtain rfl := Option.some.inj hticket
      exact ⟨time, by simp⟩
    · obtain ⟨time', hin⟩ := ih hrest
      exact ⟨time', by simp [hin]⟩
  | case2 r' rest hnot ih =>
    rw [entries] at hmem
    · rcases List.mem_cons.mp hmem with heq | hrest
      · exact nomatch (Prod.mk.inj heq).1
      · obtain ⟨time, hin⟩ := ih hrest
        exact ⟨time, List.mem_cons_of_mem _ hin⟩
    · exact hnot
  | case3 f rest hnot hnot' ih =>
    have hf : f.admitted? = none := by
      cases f with
      | admitted r => exact (hnot' r rfl).elim
      | _ => rfl
    rw [entries_cons_of_admitted_eq_none hf] at hmem
    obtain ⟨time, hin⟩ := ih hmem
    exact ⟨time, List.mem_cons_of_mem _ hin⟩
  | case4 => contradiction

end History

namespace Queue

variable {script : WorkScript} {q : Queue}

end Queue
end CoalescingQueue
