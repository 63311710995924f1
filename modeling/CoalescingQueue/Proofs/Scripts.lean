import CoalescingQueue.Console.Bursts
import CoalescingQueue.Proofs.Cuts

/-!
# What a burst script spells

A script spells bursts of identifiers if it has them in order, with commas and semicolons between
them and blanks around the identifiers; further commas, semicolons and blanks may stand anywhere
between. Every script spells exactly one list of bursts, which is the one that is read off it, and
each list of bursts is spelled by the script it is written as.
-/
namespace CoalescingQueue.Console

open Text

/-- Some of the pieces mean nothing, and the others these values in order. -/
inductive Row {α : Type} (Void : List Char → Prop) (Means : List Char → α → Prop) :
    List (List Char) → List α → Prop
  | nil : Row Void Means [] []
  | void {piece : List Char} {pieces : List (List Char)} {values : List α} (hvoid : Void piece)
      (hrest : Row Void Means pieces values) : Row Void Means (piece :: pieces) values
  | entry {piece : List Char} {value : α} {pieces : List (List Char)} {values : List α}
      (hmeans : Means piece value) (hrest : Row Void Means pieces values) :
      Row Void Means (piece :: pieces) (value :: values)

/-- An identifier with blanks around it. -/
def Padded (piece : List Char) (id : String) : Prop :=
  ∃ left right, AreBlank left ∧ AreBlank right ∧ piece = left ++ (id.toList ++ right)

/-- The identifiers of a burst with commas between them. -/
def SpellsBurst (part : List Char) (ids : List String) : Prop :=
  ∃ pieces, part = [','].intercalate pieces ∧ Row AreBlank Padded pieces ids

/-- Bursts with semicolons between them. -/
def Spells (text : List Char) (bs : List (List String)) : Prop :=
  ∃ parts, text = [';'].intercalate parts ∧ Row (SpellsBurst · []) SpellsBurst parts bs

structure IsIdentifier (id : String) : Prop where
  ne_nil : id.toList ≠ []
  trimmed : IsTrimmed id.toList
  comma : ',' ∉ id.toList
  semicolon : ';' ∉ id.toList

structure IsBurst (ids : List String) : Prop where
  ne_nil : ids ≠ []
  identifiers : ∀ id ∈ ids, IsIdentifier id

/-- Bursts as a script. -/
def render (bs : List (List String)) : String := ";".intercalate (bs.map (",".intercalate ·))

/-! ## Rows -/

section Row

variable {α β : Type} {Void Void' : List Char → Prop} {Means Means' : List Char → α → Prop}
  {pieces : List (List Char)} {values : List α}

theorem Row.imp (h : Row Void Means pieces values) (hvoid : ∀ p ∈ pieces, Void p → Void' p)
    (hmeans : ∀ p ∈ pieces, ∀ v ∈ values, Means p v → Means' p v) :
    Row Void' Means' pieces values := by
  induction h with
  | nil => exact .nil
  | void hp _ ih =>
    exact .void (hvoid _ List.mem_cons_self hp)
      (ih (fun p hp => hvoid p (List.mem_cons_of_mem _ hp))
        fun p hp => hmeans p (List.mem_cons_of_mem _ hp))
  | entry hp _ ih =>
    exact .entry (hmeans _ List.mem_cons_self _ List.mem_cons_self hp)
      (ih (fun p hp => hvoid p (List.mem_cons_of_mem _ hp))
        fun p hp v hv => hmeans p (List.mem_cons_of_mem _ hp) v (List.mem_cons_of_mem _ hv))

theorem Row.forall_value {P : α → Prop} (h : Row Void Means pieces values)
    (hmeans : ∀ p ∈ pieces, ∀ v, Means p v → P v) : ∀ v ∈ values, P v := by
  induction h with
  | nil => exact List.forall_mem_nil P
  | void _ _ ih => exact ih fun p hp => hmeans p (List.mem_cons_of_mem _ hp)
  | entry hp _ ih =>
    refine List.forall_mem_cons.mpr ⟨hmeans _ List.mem_cons_self _ hp, ?_⟩
    exact ih fun p hp => hmeans p (List.mem_cons_of_mem _ hp)

theorem Row.forall_piece {P : List Char → Prop} (h : Row Void Means pieces values)
    (hvoid : ∀ p, Void p → P p) (hmeans : ∀ v ∈ values, ∀ p, Means p v → P p) :
    ∀ p ∈ pieces, P p := by
  induction h with
  | nil => exact List.forall_mem_nil P
  | void hp _ ih => exact List.forall_mem_cons.mpr ⟨hvoid _ hp, ih hmeans⟩
  | entry hp _ ih =>
    refine List.forall_mem_cons.mpr ⟨hmeans _ List.mem_cons_self _ hp, ?_⟩
    exact ih fun v hv => hmeans v (List.mem_cons_of_mem _ hv)

theorem row_map {spelled : α → List Char} (h : ∀ v ∈ values, Means (spelled v) v) :
    Row Void Means (values.map spelled) values := by
  induction values with
  | nil => exact .nil
  | cons v values ih =>
    obtain ⟨hv, hrest⟩ := List.forall_mem_cons.mp h
    exact .entry hv (ih hrest)

/-- What is left of some pieces once each is read and those without content are left out. -/
theorem row_filter_iff {content : List Char → List β} {value : List β → α} :
    ((pieces.map content).filter (!·.isEmpty)).map value = values ↔
      Row (content · = []) (fun p v => content p ≠ [] ∧ value (content p) = v) pieces values := by
  induction pieces generalizing values with
  | nil =>
    constructor
    · rintro rfl
      exact .nil
    · rintro ⟨⟩
      rfl
  | cons p pieces ih =>
    by_cases hp : content p = []
    · rw [List.map_cons, List.filter_cons_of_neg (by simp [hp]), ih]
      constructor
      · exact .void hp
      · intro h
        cases h with
        | void _ hrest => exact hrest
        | entry hmeans => exact absurd hp hmeans.1
    · rw [List.map_cons, List.filter_cons_of_pos (by simpa using hp), List.map_cons]
      constructor
      · rintro rfl
        exact .entry ⟨hp, rfl⟩ (ih.mp rfl)
      · intro h
        cases h with
        | void hvoid => exact absurd hvoid hp
        | entry hmeans hrest => rw [hmeans.2, ih.mpr hrest]

/-- Pieces without separators are those of the text they make up. -/
theorem Row.cut {separator : Char} (h : Row Void Means pieces values) (hnil : Void [])
    (hpieces : ∀ p ∈ pieces, separator ∉ p) :
    Row Void Means (Text.cut separator ([separator].intercalate pieces)) values := by
  by_cases hne : pieces = []
  · subst hne
    exact .void hnil h
  · rwa [cut_intercalate hpieces hne]

end Row

/-! ## Bursts -/

theorem notMem_of_areBlank {cs : List Char} {c : Char} (h : AreBlank cs) (hc : isBlank c = false) :
    c ∉ cs := by
  intro hmem
  rw [h c hmem] at hc
  contradiction

theorem Padded.notMem {piece : List Char} {id : String} {c : Char} (h : Padded piece id)
    (hc : isBlank c = false) (hid : c ∉ id.toList) : c ∉ piece := by
  obtain ⟨left, right, hleft, hright, rfl⟩ := h
  rw [List.mem_append, List.mem_append]
  rintro (hmem | hmem | hmem)
  · exact notMem_of_areBlank hleft hc hmem
  · exact hid hmem
  · exact notMem_of_areBlank hright hc hmem

theorem mem_intercalate_iff {separator c : Char} (hc : c ≠ separator) {pieces : List (List Char)} :
    c ∈ [separator].intercalate pieces ↔ ∃ p ∈ pieces, c ∈ p := by
  induction pieces with
  | nil => simp
  | cons p pieces ih =>
    cases pieces with
    | nil => simp
    | cons next pieces =>
      rw [List.intercalate_cons_cons, List.mem_append, List.mem_append, ih, List.mem_singleton,
        or_iff_left hc]
      exact (List.exists_mem_cons_iff (c ∈ ·) p (next :: pieces)).symm

theorem SpellsBurst.semicolon {part : List Char} {ids : List String} (h : SpellsBurst part ids)
    (hids : ∀ id ∈ ids, ';' ∉ id.toList) : ';' ∉ part := by
  obtain ⟨pieces, rfl, hrow⟩ := h
  have hpieces : ∀ p ∈ pieces, ';' ∉ p := by
    refine hrow.forall_piece ?_ ?_
    · exact fun p hp => notMem_of_areBlank hp (by decide)
    · exact fun id hid p hp => hp.notMem (by decide) (hids id hid)
  rw [mem_intercalate_iff (by decide)]
  rintro ⟨p, hp, hmem⟩
  exact hpieces p hp hmem

/-- What trimming leaves of a piece is an identifier but for the separators in it. -/
theorem padded_trim (piece : List Char) : Padded piece (String.ofList (trim piece)) := by
  obtain ⟨left, right, hleft, hright, heq⟩ := exists_blanks piece
  exact ⟨left, right, hleft, hright, by rw [String.toList_ofList]; exact heq⟩

theorem trim_subset (cs : List Char) : trim cs ⊆ cs := by
  obtain ⟨left, right, -, -, heq⟩ := exists_blanks cs
  intro c hc
  rw [heq]
  exact List.mem_append_right _ (List.mem_append_left _ hc)

theorem semicolon_of_mem_parseBurst {part id : List Char} (h : id ∈ parseBurst part)
    (hid : ';' ∈ id) : ';' ∈ part := by
  obtain ⟨piece, hpiece, rfl⟩ := List.mem_map.mp (List.mem_filter.mp h).1
  rw [← intercalate_cut ',' part, mem_intercalate_iff (by decide)]
  exact ⟨piece, hpiece, trim_subset piece hid⟩

/-- What is read off a burst is what it spells. -/
theorem parseBurst_eq_iff {part : List Char} {ids : List String} :
    (parseBurst part).map String.ofList = ids ↔
      (∀ id ∈ ids, id.toList ≠ [] ∧ IsTrimmed id.toList ∧ ',' ∉ id.toList) ∧
        SpellsBurst part ids := by
  unfold parseBurst
  rw [row_filter_iff]
  constructor
  · intro h
    refine ⟨h.forall_value ?_, _, (intercalate_cut ',' part).symm, h.imp ?_ ?_⟩
    · rintro p hp id ⟨hne, rfl⟩
      rw [String.toList_ofList]
      exact ⟨hne, isTrimmed_trim p, fun hmem => not_mem_of_mem_cut hp (trim_subset p hmem)⟩
    · exact fun p _ => trim_eq_nil_iff.mp
    · rintro p - id - ⟨-, rfl⟩
      exact padded_trim p
  · rintro ⟨hids, pieces, rfl, h⟩
    have hcomma : ∀ p ∈ pieces, ',' ∉ p := by
      refine h.forall_piece ?_ ?_
      · exact fun p hp => notMem_of_areBlank hp (by decide)
      · exact fun id hid p hp => hp.notMem (by decide) (hids id hid).2.2
    refine (h.cut (List.forall_mem_nil _) hcomma).imp ?_ ?_
    · exact fun p _ => trim_eq_nil_iff.mpr
    · rintro p - id hid ⟨left, right, hleft, hright, rfl⟩
      obtain ⟨hne, htrimmed, -⟩ := hids id hid
      rw [trim_between hleft hright htrimmed hne]
      exact ⟨hne, String.ofList_toList⟩

theorem parseBurst_eq_nil_iff {part : List Char} : parseBurst part = [] ↔ SpellsBurst part [] := by
  rw [← List.map_eq_nil_iff (f := String.ofList), parseBurst_eq_iff]
  exact and_iff_right (List.forall_mem_nil _)

/-! ## Scripts -/

/-- What is read off a script is what it spells. -/
theorem bursts_eq_iff {script : String} {bs : List (List String)} :
    bursts script = bs ↔ (∀ ids ∈ bs, IsBurst ids) ∧ Spells script.toList bs := by
  unfold bursts parseBursts
  rw [row_filter_iff]
  constructor
  · intro h
    refine ⟨h.forall_value ?_, _, (intercalate_cut ';' _).symm, h.imp ?_ ?_⟩
    · rintro p hp ids ⟨hne, hids⟩
      obtain ⟨hclean, -⟩ := parseBurst_eq_iff.mp hids
      subst hids
      refine ⟨by simpa using hne, fun id hid => ?_⟩
      obtain ⟨hne, htrimmed, hcomma⟩ := hclean id hid
      refine ⟨hne, htrimmed, hcomma, fun hmem => ?_⟩
      obtain ⟨cs, hcs, rfl⟩ := List.mem_map.mp hid
      rw [String.toList_ofList] at hmem
      exact not_mem_of_mem_cut hp (semicolon_of_mem_parseBurst hcs hmem)
    · exact fun p _ => parseBurst_eq_nil_iff.mp
    · exact fun p _ ids _ hids => (parseBurst_eq_iff.mp hids.2).2
  · rintro ⟨hbs, parts, heq, h⟩
    have hsemicolon : ∀ p ∈ parts, ';' ∉ p := by
      refine h.forall_piece ?_ ?_
      · exact fun p hp => hp.semicolon (List.forall_mem_nil _)
      · exact fun ids hids p hp => hp.semicolon fun id hid =>
          ((hbs ids hids).identifiers id hid).semicolon
    rw [heq]
    refine (h.cut ⟨[], rfl, .nil⟩ hsemicolon).imp ?_ ?_
    · exact fun p _ => parseBurst_eq_nil_iff.mpr
    · intro p _ ids hids hp
      obtain ⟨hne, hidentifiers⟩ := hbs ids hids
      have hread : (parseBurst p).map String.ofList = ids :=
        parseBurst_eq_iff.mpr ⟨fun id hid =>
          ⟨(hidentifiers id hid).ne_nil, (hidentifiers id hid).trimmed,
            (hidentifiers id hid).comma⟩, hp⟩
      refine ⟨fun hnil => hne ?_, hread⟩
      rw [← hread, hnil]
      rfl

theorem spellsBurst_intercalate (ids : List String) :
    SpellsBurst (",".intercalate ids).toList ids := by
  refine ⟨ids.map String.toList, String.toList_intercalate, row_map fun id _ => ?_⟩
  exact ⟨[], [], List.forall_mem_nil _, List.forall_mem_nil _, (List.append_nil _).symm⟩

theorem spells_render (bs : List (List String)) : Spells (render bs).toList bs := by
  refine ⟨bs.map fun ids => (",".intercalate ids).toList, ?_, ?_⟩
  · rw [render, String.toList_intercalate, List.map_map]
    rfl
  · exact row_map fun ids _ => spellsBurst_intercalate ids

/-- A script is cut at semicolons and commas, blanks around identifiers go, and so do empty
identifiers and then empty bursts. It yields the bursts that it spells and no others, and to write
them down and read them again changes nothing. -/
theorem bursts_spelled (script : String) :
    bursts script = (((script.toList.splitOn ';').map fun part =>
      ((part.splitOn ',').map trim).filter (!·.isEmpty)).filter (!·.isEmpty)).map
        (·.map String.ofList) ∧
    (∀ ids ∈ bursts script, IsBurst ids) ∧
    (∀ bs, bursts script = bs ↔ (∀ ids ∈ bs, IsBurst ids) ∧ Spells script.toList bs) ∧
    bursts (render (bursts script)) = bursts script ∧
    render (bursts (render (bursts script))) = render (bursts script) := by
  have hbursts : ∀ ids ∈ bursts script, IsBurst ids := (bursts_eq_iff.mp rfl).1
  have hagain : bursts (render (bursts script)) = bursts script :=
    bursts_eq_iff.mpr ⟨hbursts, spells_render _⟩
  refine ⟨?_, hbursts, fun _ => bursts_eq_iff, hagain, congrArg render hagain⟩
  unfold bursts parseBursts parseBurst
  simp only [cut_eq_splitOn]

/-- Blanks, empty identifiers and empty bursts make no difference. -/
theorem bursts_spelled_loosely : bursts " a ,,b c; ,;d;" = [["a", "b c"], ["d"]] ∧
    Spells " a ,,b c; ,;d;".toList [["a", "b c"], ["d"]] ∧
    bursts (render [["a", "b c"], ["d"]]) = [["a", "b c"], ["d"]] := by
  have hbursts : bursts " a ,,b c; ,;d;" = [["a", "b c"], ["d"]] := by decide
  obtain ⟨-, -, hspelled, hagain, -⟩ := bursts_spelled " a ,,b c; ,;d;"
  rw [hbursts] at hagain
  exact ⟨hbursts, ((hspelled _).mp hbursts).2, hagain⟩

end CoalescingQueue.Console
