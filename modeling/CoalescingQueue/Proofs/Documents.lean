import CoalescingQueue.Json.Model
import CoalescingQueue.Proofs.Records

/-!
# Documents are read as they were written

What is written of a record spells an object in which each field stands once with its value, by
whatever gaps its members are laid out. So requests, statistics and states come back from each of
their forms, and no two of them have a form in common.
-/
namespace CoalescingQueue.Json

variable {members : Members} {fields : List (String × FieldKind)}

/-! ## Layouts -/

/-- The gaps in front of a member, in front of its value, and in front of the closing bracket. -/
structure Layout where
  before : List Char := []
  inside : List Char := []
  after : List Char := []
  before_gaps : AreGaps before := by decide
  inside_gaps : AreGaps inside := by decide
  after_gaps : AreGaps after := by decide

namespace Layout

def compact : Layout := {}

def wide : Layout where
  before := ['\n', ' ', ' ']
  inside := [' ']
  after := ['\n']

def member (l : Layout) (m : String × Scalar) : List Char := l.before ++ writeMember l.inside m

def document (l : Layout) (members : Members) : String :=
  String.ofList ('\x7b' :: [','].intercalate (members.map l.member) ++ (l.after ++ ['\x7d']))

end Layout

theorem compactObject_eq (members : Members) :
    compactObject members = Layout.compact.document members := rfl

theorem wideObject_eq (members : Members) :
    wideObject members = Layout.wide.document members := rfl

/-! ## Spellings -/

def Scalar.value : Scalar → Value
  | .null => .null
  | .number n => .natural n
  | .text s => .text s

theorem Scalar.spells (s : Scalar) : Spells s.value s.write := by
  cases s with
  | null => exact .null
  | number n =>
    have hspells := Spells.natural (isWhole_toDigits n)
    rwa [Nat.ofDigitChars_ten_toDigits] at hspells
  | text s => exact .text (spellsText_escape s)

namespace Layout

/-- A written member, with gaps behind it. -/
def entry (l : Layout) (m : String × Scalar) (after : List Char) (hafter : AreGaps after) :
    Entry where
  name := m.1
  spelled := m.1.toList.flatMap escape
  item := { value := m.2.value, body := m.2.write, before := l.inside, after := after,
            before_gaps := l.inside_gaps, after_gaps := hafter }
  before := l.before
  spells_name := spellsText_escape m.1
  before_gaps := l.before_gaps

/-- The members of a document. The gaps before its end stand behind the last of them. -/
def entries (l : Layout) : Members → List Entry
  | [] => []
  | [m] => [l.entry m l.after l.after_gaps]
  | m :: m' :: members => l.entry m [] areGaps_nil :: l.entries (m' :: members)

theorem written_entry (l : Layout) (m : String × Scalar) {after : List Char}
    (hafter : AreGaps after) : (l.entry m after hafter).written = l.member m ++ after := by
  simp [entry, Entry.written, Item.written, member, writeMember, writeText]

theorem intercalate_entries (l : Layout) (m : String × Scalar) (members : Members) :
    [','].intercalate ((l.entries (m :: members)).map Entry.written) =
      [','].intercalate ((m :: members).map l.member) ++ l.after := by
  induction members generalizing m with
  | nil =>
    rw [entries, List.map_singleton, List.map_singleton, List.intercalate_singleton,
      List.intercalate_singleton, written_entry]
  | cons m' members ih =>
    have hfirst : (l.entry m [] areGaps_nil).written = l.member m := by
      rw [written_entry, List.append_nil]
    obtain ⟨e, es, heq⟩ : ∃ e es, l.entries (m' :: members) = e :: es := by
      cases members <;> exact ⟨_, _, rfl⟩
    have hrest := ih m'
    rw [heq, List.map_cons, List.map_cons] at hrest
    rw [entries, heq, List.map_cons, List.map_cons, List.map_cons, List.map_cons,
      List.intercalate_cons_cons, List.intercalate_cons_cons, hrest, hfirst,
      List.append_assoc, List.append_assoc, List.append_assoc]

theorem spells_entries (l : Layout) (members : Members) :
    ∀ e ∈ l.entries members, Spells e.item.value e.item.body := by
  induction members with
  | nil => exact List.forall_mem_nil _
  | cons m members ih =>
    cases members with
    | nil => exact List.forall_mem_singleton.mpr m.2.spells
    | cons m' members => exact List.forall_mem_cons.mpr ⟨m.2.spells, ih⟩

theorem member_entries (l : Layout) (members : Members) :
    (l.entries members).map Entry.member = members.map fun m => (m.1, m.2.value) := by
  induction members with
  | nil => rfl
  | cons m members ih =>
    cases members with
    | nil => rfl
    | cons m' members => exact congrArg ((m.1, m.2.value) :: ·) ih

theorem isDocument (l : Layout) (m : String × Scalar) (members : Members) :
    IsDocument (.map ((m :: members).map fun m => (m.1, m.2.value)))
      (l.document (m :: members)) := by
  have hspells := Spells.map areGaps_nil (l.spells_entries (m :: members))
  rw [member_entries, intercalate_entries] at hspells
  refine ⟨{ value := _, body := _ }, rfl, hspells, ?_⟩
  rw [document, String.toList_ofList]
  simp [Item.written]

end Layout

/-! ## Records -/

/-- These members are the fields in their order. -/
def AreFields (fields : List (String × FieldKind)) (members : Members) : Prop :=
  List.Forall₂ (fun field m => m.1 = field.1 ∧ field.2.Suits m.2) fields members

theorem FieldKind.Suits.scalar?_value {kind : FieldKind} {x : Scalar} (h : kind.Suits x) :
    kind.scalar? x.value = some x := by
  cases h with
  | counter hn =>
    rw [Scalar.value, scalar?, Value.counter?, if_pos hn]
    rfl
  | _ => rfl

theorem valuesOf_of_notMem {name : String} {members : List (String × Value)}
    (h : name ∉ members.map Prod.fst) : valuesOf name members = [] := by
  rw [valuesOf, List.filter_eq_nil_iff.mpr, List.map_nil]
  intro m hm hname
  exact h (of_decide_eq_true hname ▸ List.mem_map_of_mem hm)

/-- Where no name stands twice, a name has one value. -/
theorem valuesOf_of_nodup {members : List (String × Value)} {m : String × Value}
    (h : (members.map Prod.fst).Nodup) (hm : m ∈ members) : valuesOf m.1 members = [m.2] := by
  induction members with
  | nil => contradiction
  | cons m' members ih =>
    obtain ⟨hnew, hrest⟩ := List.nodup_cons.mp h
    rcases List.mem_cons.mp hm with rfl | hm
    · rw [valuesOf_cons_self, valuesOf_of_notMem hnew]
    · have hne : m'.1 ≠ m.1 := fun heq => hnew (heq ▸ List.mem_map_of_mem hm)
      rw [valuesOf_cons_of_ne hne, ih hrest hm]

theorem finish?_of_areFields (h : AreFields fields members) (all : List (String × Value))
    (hall : ∀ m ∈ members, valuesOf m.1 all = [m.2.value]) :
    Slots.finish? all (fields.map (·, none)) = some (members.map Prod.snd) := by
  induction h with
  | nil => rfl
  | @cons field m fields members hm _ ih =>
    obtain ⟨hvalue, hrest⟩ := List.forall_mem_cons.mp hall
    rw [List.map_cons, Slots.finish?, ← hm.1, hvalue, ih hrest, FieldKind.finish?,
      hm.2.scalar?_value]
    rfl

/-- A record with at least one field, in any layout. -/
theorem Shape.read_document (shape : Shape) (l : Layout) (h : AreFields shape.fields members)
    (hnames : (shape.fields.map Prod.fst).Nodup) (hne : shape.fields ≠ []) :
    endDocument (shape.read (l.document members).toList) = .ok (members.map Prod.snd) := by
  have hfst : members.map Prod.fst = shape.fields.map Prod.fst := by
    generalize shape.fields = fields at h
    induction h with
    | nil => rfl
    | cons hm _ ih => rw [List.map_cons, List.map_cons, ih, hm.1]
  have hmembers : ((members.map fun m => (m.1, m.2.value)).map Prod.fst).Nodup := by
    rw [List.map_map]
    exact hfst ▸ hnames
  have hvalues := finish?_of_areFields h (members.map fun m => (m.1, m.2.value))
    fun m hm => valuesOf_of_nodup hmembers (List.mem_map_of_mem hm)
  cases members with
  | nil => exact absurd (List.map_eq_nil_iff.mp hfst.symm) hne
  | cons m members =>
    have hread := (l.isDocument m members).toOption_read hnames hne
    exact toOption_eq_some_iff.mp (hread.trans hvalues)

end CoalescingQueue.Json

namespace CoalescingQueue

open Json

/-! ## The data model -/

section Faithful

variable {α : Type}

/-- Each of the texts that are written of a value is read as that value again, which then has the
same texts. No two values have a text in common. -/
structure Faithful (IsValid : α → Prop) (writers : List (α → String))
    (read : String → Except Fault α) : Prop where
  reads : ∀ write ∈ writers, ∀ a, IsValid a → read (write a) = .ok a
  rewrites : ∀ write ∈ writers, ∀ again ∈ writers, ∀ a b, IsValid a →
    read (write a) = .ok b → again b = again a
  distinct : ∀ write ∈ writers, ∀ write' ∈ writers, ∀ a b, IsValid a → IsValid b → a ≠ b →
    write a ≠ write' b

theorem Faithful.of_reads {IsValid : α → Prop} {writers : List (α → String)}
    {read : String → Except Fault α}
    (h : ∀ write ∈ writers, ∀ a, IsValid a → read (write a) = .ok a) :
    Faithful IsValid writers read where
  reads := h
  rewrites write hwrite again _ a b ha hb := by
    rw [h write hwrite a ha] at hb
    rw [Except.ok.inj hb]
  distinct write hwrite write' hwrite' a b ha hb hne heq := by
    have hread := h write hwrite a ha
    rw [heq, h write' hwrite' b hb] at hread
    exact hne (Except.ok.inj hread).symm

end Faithful

/-- Every counter fits in a word. -/
structure Stats.Fits (s : Stats) : Prop where
  enqueued : s.enqueued ≤ 2 ^ 64 - 1
  executed : s.executed ≤ 2 ^ 64 - 1
  succeeded : s.succeeded ≤ 2 ^ 64 - 1
  failed : s.failed ≤ 2 ^ 64 - 1
  superseded : s.superseded ≤ 2 ^ 64 - 1

theorem Stats.Fits.areFields {s : Stats} (h : s.Fits) : AreFields Stats.shape.fields s.members := by
  have hcounter {n : Nat} (hn : n ≤ 2 ^ 64 - 1) : FieldKind.counter.Suits (.number n) :=
    .counter (Nat.lt_of_le_pred (by decide) hn)
  have hlast : FieldKind.textOrNull.Suits (Stats.lastScalar s.lastDispatched) := by
    cases s.lastDispatched with
    | none => exact .null
    | some id => exact .textOrNull id
  exact .cons ⟨rfl, hcounter h.enqueued⟩ <| .cons ⟨rfl, hcounter h.executed⟩ <|
    .cons ⟨rfl, hcounter h.succeeded⟩ <| .cons ⟨rfl, hcounter h.failed⟩ <|
    .cons ⟨rfl, hcounter h.superseded⟩ <| .cons ⟨rfl, hlast⟩ .nil

theorem Stats.ofJson?_document {s : Stats} (h : s.Fits) (l : Layout) :
    Stats.ofJson? (l.document s.members) = .ok s := by
  rw [ofJson?, Shape.read_document shape l h.areFields (by decide) nofun]
  dsimp only
  rw [ofScalars?_members]

theorem Request.ofJson?_document (r : Request) (l : Layout) :
    Request.ofJson? (l.document r.members) = .ok r := by
  have hfields : AreFields shape.fields r.members := .cons ⟨rfl, .text r.id⟩ .nil
  rw [ofJson?, Shape.read_document shape l hfields (by decide) nofun]
  rfl

theorem DispatchState.ofJson?_toJson (s : DispatchState) :
    DispatchState.ofJson? s.toJson = .ok s := by
  cases s <;> rfl

/-- Requests, statistics and states survive being written and read, in the compact form and in the
wide form, with any identifier and with counters up to the limit of a word. -/
theorem documents_faithful :
    Faithful Stats.Fits [fun s => compactObject s.members, fun s => wideObject s.members]
      Stats.ofJson? ∧
    Faithful (fun _ => True) [fun r => compactObject r.members, fun r => wideObject r.members]
      Request.ofJson? ∧
    Faithful (fun _ => True) [DispatchState.toJson] DispatchState.ofJson? := by
  refine ⟨.of_reads ?_, .of_reads ?_, .of_reads ?_⟩
  · refine List.forall_mem_cons.mpr ⟨fun s hs => ?_, List.forall_mem_singleton.mpr fun s hs => ?_⟩
    · dsimp only
      rw [compactObject_eq]
      exact s.ofJson?_document hs .compact
    · rw [wideObject_eq]
      exact s.ofJson?_document hs .wide
  · refine List.forall_mem_cons.mpr ⟨fun r _ => ?_, List.forall_mem_singleton.mpr fun r _ => ?_⟩
    · dsimp only
      rw [compactObject_eq]
      exact r.ofJson?_document .compact
    · rw [wideObject_eq]
      exact r.ofJson?_document .wide
  · exact List.forall_mem_singleton.mpr fun s _ => s.ofJson?_toJson

/-- The largest counter, a zero, and an identifier of quotes, controls and a character beyond the
basic plane. -/
theorem documents_faithful_extreme :
    let s : Stats := ⟨2 ^ 64 - 1, 0, 10, 2 ^ 63, 7, some "\"\\/\x00\n\x1f\x7f\u20ac😀"⟩
    s.Fits ∧ Stats.ofJson? (compactObject s.members) = .ok s ∧
      Stats.ofJson? (wideObject s.members) = .ok s := by
  intro s
  have hfits : s.Fits := ⟨Nat.le_refl _, by decide, by decide, by decide, by decide⟩
  obtain ⟨hreads, -, -⟩ := documents_faithful.1
  exact ⟨hfits, hreads _ List.mem_cons_self s hfits,
    hreads _ (List.mem_cons_of_mem _ List.mem_cons_self) s hfits⟩

end CoalescingQueue
