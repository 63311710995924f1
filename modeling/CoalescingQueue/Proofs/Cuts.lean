import CoalescingQueue.Text.Split
import Mathlib.Data.List.DropRight

/-!
# Cutting and trimming

Cutting at a separator is the library's `splitOn`, so pieces that are put together with separators
come apart again. A text that arrives in two parts is cut like the whole once its second part is put
behind the last piece of the first. Trimming leaves what stands between blanks, which begins and
ends with something else.
-/
namespace CoalescingQueue.Text

section Cut

variable {α : Type} [DecidableEq α] {separator c : α}

@[simp] theorem cut_cons_self (separator : α) (cs : List α) :
    cut separator (separator :: cs) = [] :: cut separator cs := by
  rw [cut, if_pos rfl]

theorem cut_cons_of_ne (hc : c ≠ separator) (cs : List α) :
    cut separator (c :: cs) = (cut separator cs).modifyHead (c :: ·) := by
  obtain ⟨piece, pieces, heq⟩ := List.exists_cons_of_ne_nil (cut_ne_nil separator cs)
  rw [cut, if_neg hc, heq]
  rfl

theorem cut_eq_splitOn (separator : α) (cs : List α) : cut separator cs = cs.splitOn separator := by
  rw [List.splitOn_eq_splitOnP]
  induction cs with
  | nil => rfl
  | cons c cs ih =>
    rw [List.splitOnP_cons_eq_if_modifyHead]
    by_cases hc : c = separator
    · rw [hc, cut_cons_self, ih, if_pos (beq_self_eq_true _)]
    · rw [cut_cons_of_ne hc, ih, if_neg (by simpa using hc)]

/-- Pieces without separators come apart again. -/
theorem cut_intercalate {pieces : List (List α)} (hpieces : ∀ piece ∈ pieces, separator ∉ piece)
    (hne : pieces ≠ []) : cut separator ([separator].intercalate pieces) = pieces := by
  rw [cut_eq_splitOn]
  exact List.splitOn_intercalate separator hpieces hne

theorem cut_append_of_notMem {piece : List α} (h : separator ∉ piece) (cs : List α) :
    cut separator (piece ++ cs) = (cut separator cs).modifyHead (piece ++ ·) := by
  induction piece with
  | nil =>
    obtain ⟨first, rest, heq⟩ := List.exists_cons_of_ne_nil (cut_ne_nil separator cs)
    rw [List.nil_append, heq]
    rfl
  | cons c piece ih =>
    obtain ⟨hc, hrest⟩ := not_or.mp (List.mem_cons.not.mp h)
    rw [List.cons_append, cut_cons_of_ne (Ne.symm hc), ih hrest, List.modifyHead_modifyHead]
    rfl

/-- What comes later goes on with the last piece. -/
theorem cut_append {cs last : List α} {pieces : List (List α)}
    (hcut : cut separator cs = pieces ++ [last]) (more : List α) :
    cut separator (cs ++ more) = pieces ++ cut separator (last ++ more) := by
  induction cs generalizing pieces last with
  | nil =>
    obtain ⟨rfl, hlast⟩ := List.append_inj' ((List.nil_append _).trans hcut) rfl
    rw [← List.singleton_inj.mp hlast]
    rfl
  | cons c cs ih =>
    rcases List.eq_nil_or_concat' (cut separator cs) with hnone | ⟨before, tail, hbefore⟩
    · exact absurd hnone (cut_ne_nil separator cs)
    · by_cases hc : c = separator
      · subst hc
        rw [cut_cons_self, hbefore, ← List.cons_append] at hcut
        obtain ⟨rfl, hlast⟩ := List.append_inj' hcut rfl
        obtain rfl := List.singleton_inj.mp hlast
        rw [List.cons_append, cut_cons_self, ih hbefore, List.cons_append]
      · rw [cut_cons_of_ne hc, hbefore] at hcut
        rw [List.cons_append, cut_cons_of_ne hc, ih hbefore]
        cases before with
        | nil =>
          obtain ⟨rfl, hlast⟩ := List.append_inj' ((List.nil_append _).trans hcut) rfl
          obtain rfl := List.singleton_inj.mp hlast
          rw [List.nil_append, List.nil_append, List.cons_append, cut_cons_of_ne hc]
        | cons first before =>
          rw [List.cons_append, List.modifyHead_cons, ← List.cons_append] at hcut
          obtain ⟨rfl, hlast⟩ := List.append_inj' hcut rfl
          obtain rfl := List.singleton_inj.mp hlast
          rfl

end Cut

/-! ## Blanks around a text -/

/-- Nothing but blanks. -/
def AreBlank (cs : List Char) : Prop := ∀ c ∈ cs, isBlank c = true

/-- A text that neither begins nor ends with a blank. -/
structure IsTrimmed (cs : List Char) : Prop where
  head_eq : ∀ c ∈ cs.head?, isBlank c = false
  last_eq : ∀ c ∈ cs.getLast?, isBlank c = false

variable {cs left right : List Char}

theorem trim_eq (cs : List Char) : trim cs = (cs.dropWhile isBlank).rdropWhile isBlank := rfl

theorem trim_eq_nil_iff : trim cs = [] ↔ AreBlank cs := by
  rw [trim_eq, List.rdropWhile_eq_nil_iff]
  constructor
  · intro hrest c hc
    rw [← List.takeWhile_append_dropWhile (p := isBlank) (l := cs)] at hc
    rcases List.mem_append.mp hc with hleft | hright
    · exact List.mem_takeWhile_imp hleft
    · exact hrest c hright
  · exact fun hall c hc => hall c ((List.dropWhile_sublist _).subset hc)

theorem isTrimmed_trim (cs : List Char) : IsTrimmed (trim cs) := by
  have hlast {c : Char} (hc : c ∈ (trim cs).getLast?) : isBlank c = false := by
    obtain ⟨hne, rfl⟩ := List.mem_getLast?_eq_getLast hc
    exact Bool.eq_false_iff.mpr (List.rdropWhile_last_not isBlank (cs.dropWhile isBlank) hne)
  refine ⟨fun c hc => ?_, fun c => hlast⟩
  -- what is dropped at the end leaves the first character where it is
  obtain ⟨rest, hrest⟩ := List.rdropWhile_prefix isBlank (cs.dropWhile isBlank)
  have hhead := List.head?_dropWhile_not isBlank cs
  have hfirst : (cs.dropWhile isBlank).head? = some c := by
    rw [← hrest, List.head?_append, ← trim_eq, Option.mem_def.mp hc]
    rfl
  rwa [hfirst] at hhead

/-- A text is what trimming leaves of it between blanks. -/
theorem exists_blanks (cs : List Char) :
    ∃ left right, AreBlank left ∧ AreBlank right ∧ cs = left ++ (trim cs ++ right) := by
  have hright : AreBlank ((cs.dropWhile isBlank).rtakeWhile isBlank) :=
    fun c hc => List.mem_rtakeWhile_imp hc
  refine ⟨cs.takeWhile isBlank, _, fun c hc => List.mem_takeWhile_imp hc, hright, ?_⟩
  rw [trim_eq, List.rdropWhile_append_rtakeWhile, List.takeWhile_append_dropWhile]

/-- Blanks around a text go, and no others. -/
theorem trim_between (hleft : AreBlank left) (hright : AreBlank right) (h : IsTrimmed cs)
    (hne : cs ≠ []) : trim (left ++ (cs ++ right)) = cs := by
  obtain ⟨hhead, hlast⟩ := h
  have hdrop : (left ++ (cs ++ right)).dropWhile isBlank = cs ++ right := by
    obtain ⟨c, rest, rfl⟩ := List.exists_cons_of_ne_nil hne
    have hc : ¬ isBlank c = true := by
      rw [hhead c rfl]
      exact Bool.false_ne_true
    rw [List.dropWhile_append_of_pos hleft, List.cons_append, List.dropWhile_cons_of_neg hc]
  have hend : cs.rdropWhile isBlank = cs := by
    rw [List.rdropWhile_eq_self_iff]
    intro hne
    simp [hlast _ (List.getLast_mem_getLast? hne)]
  rw [trim_eq, hdrop, List.rdropWhile, List.reverse_append,
    List.dropWhile_append_of_pos (fun c hc => hright c (List.mem_reverse.mp hc))]
  exact hend

end CoalescingQueue.Text
