import CoalescingQueue.Text.Blank

/-!
# Cutting texts

A list cut at every separator. There is always one piece more than there are separators, and
putting the separators back gives the list again.
-/
namespace CoalescingQueue.Text

variable {α : Type} [DecidableEq α]

/-- The pieces between the separators, empty ones included. -/
def cut (separator : α) : List α → List (List α)
  | [] => [[]]
  | c :: rest =>
    if c = separator then [] :: cut separator rest
    else
      match cut separator rest with
      | [] => [[c]]
      | piece :: pieces => (c :: piece) :: pieces

theorem cut_ne_nil (separator : α) (cs : List α) : cut separator cs ≠ [] := by
  cases cs with
  | nil => simp [cut]
  | cons c rest =>
    unfold cut
    split
    · simp
    · split <;> simp

theorem not_mem_of_mem_cut {separator : α} {cs piece : List α} (h : piece ∈ cut separator cs) :
    separator ∉ piece := by
  induction cs generalizing piece with
  | nil => simp only [cut, List.mem_singleton] at h; simp [h]
  | cons c rest ih =>
    unfold cut at h
    split at h
    · rcases List.mem_cons.mp h with rfl | h
      · simp
      · exact ih h
    · next hc =>
      split at h
      · next heq => exact absurd heq (cut_ne_nil separator rest)
      · next first pieces heq =>
        have ih' : ∀ p ∈ first :: pieces, separator ∉ p := fun p hp => ih (heq ▸ hp)
        rcases List.mem_cons.mp h with rfl | h
        · have := ih' first (by simp)
          simp only [List.mem_cons, not_or]
          exact ⟨fun e => hc e.symm, this⟩
        · exact ih' piece (by simp [h])

theorem intercalate_cut (separator : α) (cs : List α) :
    [separator].intercalate (cut separator cs) = cs := by
  induction cs with
  | nil => rfl
  | cons c rest ih =>
    unfold cut
    split
    · next hc =>
      obtain ⟨piece, pieces, heq⟩ := List.exists_cons_of_ne_nil (cut_ne_nil separator rest)
      rw [heq] at ih ⊢
      simp [List.intercalate_cons_cons, ih, hc]
    · obtain ⟨piece, pieces, heq⟩ := List.exists_cons_of_ne_nil (cut_ne_nil separator rest)
      rw [heq] at ih ⊢
      cases pieces with
      | nil => simpa using ih
      | cons next pieces =>
        simp only [List.intercalate_cons_cons] at ih ⊢
        simpa using ih

end CoalescingQueue.Text
