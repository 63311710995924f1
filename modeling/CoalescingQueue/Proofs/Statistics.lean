import CoalescingQueue.Proofs.Documents

/-!
# Statistics in any layout

An object is read as statistics exactly if each counter stands in it once, as digits alone whose
number fits in a word, and the last identifier at most once, as null or as a text. What is read
depends on these values and not on their order, on other members or on how anything is spelled. A
list of the values in the order of the fields is read as the same, and no list of another length is
read at all.
-/
namespace CoalescingQueue

open Json

variable {members members' : List (String × Value)} {text : String} {s : Stats}

/-- The only value of this name is a natural number that fits in a word. -/
def CountsOnce (members : List (String × Value)) (name : String) (n : Nat) : Prop :=
  valuesOf name members = [.natural n] ∧ n ≤ 2 ^ 64 - 1

/-- The values of the last identifier: none at all, a null, or a text. -/
inductive NamesLast : List Value → Option String → Prop
  | absent : NamesLast [] none
  | null : NamesLast [.null] none
  | text (id : String) : NamesLast [.text id] (some id)

/-- There is at most one value, so that there is no order among them. -/
theorem NamesLast.of_perm {vs vs' : List Value} {last : Option String} (h : NamesLast vs last)
    (hperm : vs.Perm vs') : NamesLast vs' last := by
  have heq : vs' = vs := by
    cases h with
    | absent => exact List.perm_nil.mp hperm.symm
    | null => exact List.perm_singleton.mp hperm.symm
    | text id => exact List.perm_singleton.mp hperm.symm
  rwa [heq]

namespace Stats

/-- The members say what these statistics are. -/
structure IsGivenBy (s : Stats) (members : List (String × Value)) : Prop where
  enqueued : CountsOnce members "enqueued" s.enqueued
  executed : CountsOnce members "executed" s.executed
  succeeded : CountsOnce members "succeeded" s.succeeded
  failed : CountsOnce members "failed" s.failed
  superseded : CountsOnce members "superseded" s.superseded
  lastDispatched : NamesLast (valuesOf "last_dispatched" members) s.lastDispatched

/-- The members that stand for fields. -/
def known (members : List (String × Value)) : List (String × Value) :=
  members.filter fun m => m.1 ∈ shape.fields.map Prod.fst

/-- The values of the fields in their order, with a null for one that is absent. -/
def fieldValues (members : List (String × Value)) : List Value :=
  shape.fields.map fun field => (valuesOf field.1 members).head?.getD .null

theorem toOption_ofJson? {v : Value} (h : IsDocument v text) :
    (ofJson? text).toOption = (shape.scalars? v).bind ofScalars? := by
  have hnames : (shape.fields.map Prod.fst).Nodup := by decide
  rw [← h.toOption_read hnames (List.cons_ne_nil _ _), ofJson?]
  cases endDocument (shape.read text.toList) with
  | error fault => rfl
  | ok values =>
    rw [toOption_ok, Option.bind_some]
    dsimp only
    cases ofScalars? values <;> rfl

/-! ## Objects -/

theorem finish?_counter {vs : List Value} {value : Scalar} :
    FieldKind.counter.finish? none vs = some value ↔
      ∃ n, (vs = [.natural n] ∧ n ≤ 2 ^ 64 - 1) ∧ value = .number n := by
  have hlimit {n : Nat} : n < Text.wordLimit ↔ n ≤ 2 ^ 64 - 1 := Nat.lt_iff_le_pred (by decide)
  rw [FieldKind.finish?_eq_some_iff]
  constructor
  · rintro (⟨-, hkind, -⟩ | ⟨v, rfl, hvalue⟩)
    · contradiction
    · obtain ⟨n, hcounter, rfl⟩ := Option.map_eq_some_iff.mp hvalue
      obtain ⟨rfl, hn⟩ := Value.counter?_eq_some_iff.mp hcounter
      exact ⟨n, ⟨rfl, hlimit.mp hn⟩, rfl⟩
  · rintro ⟨n, ⟨rfl, hn⟩, rfl⟩
    have hcounter := Value.counter?_eq_some_iff.mpr ⟨rfl, hlimit.mpr hn⟩
    exact .inr ⟨_, rfl, Option.map_eq_some_iff.mpr ⟨n, hcounter, rfl⟩⟩

theorem finish?_textOrNull {vs : List Value} {value : Scalar} :
    FieldKind.textOrNull.finish? none vs = some value ↔
      ∃ last, NamesLast vs last ∧ value = lastScalar last := by
  rw [FieldKind.finish?_eq_some_iff]
  constructor
  · rintro (⟨rfl, -, rfl⟩ | ⟨v, rfl, hvalue⟩)
    · exact ⟨none, .absent, rfl⟩
    · cases v with
      | null => exact ⟨none, .null, (Option.some.inj hvalue).symm⟩
      | text id => exact ⟨some id, .text id, (Option.some.inj hvalue).symm⟩
      | _ => contradiction
  · rintro ⟨last, hlast, rfl⟩
    cases hlast with
    | absent => exact .inl ⟨rfl, rfl, rfl⟩
    | null => exact .inr ⟨_, rfl, rfl⟩
    | text id => exact .inr ⟨_, rfl, rfl⟩

theorem finish?_cons_counter {name : String} {slots : Slots} {values : List Scalar} :
    Slots.finish? members (((name, .counter), none) :: slots) = some values ↔
      ∃ n rest, CountsOnce members name n ∧ slots.finish? members = some rest ∧
        values = .number n :: rest := by
  rw [Slots.finish?, Option.bind_eq_some_iff]
  constructor
  · rintro ⟨_, hvalue, hmap⟩
    obtain ⟨n, hcounts, rfl⟩ := finish?_counter.mp hvalue
    obtain ⟨rest, hrest, rfl⟩ := Option.map_eq_some_iff.mp hmap
    exact ⟨n, rest, hcounts, hrest, rfl⟩
  · rintro ⟨n, rest, hcounts, hrest, rfl⟩
    exact ⟨_, finish?_counter.mpr ⟨n, hcounts, rfl⟩, Option.map_eq_some_iff.mpr ⟨rest, hrest, rfl⟩⟩

theorem finish?_lastDispatched {values : List Scalar} :
    Slots.finish? members [(("last_dispatched", .textOrNull), none)] = some values ↔
      ∃ last, NamesLast (valuesOf "last_dispatched" members) last ∧
        values = [lastScalar last] := by
  rw [Slots.finish?, Option.bind_eq_some_iff]
  constructor
  · rintro ⟨_, hvalue, hmap⟩
    obtain ⟨last, hlast, rfl⟩ := finish?_textOrNull.mp hvalue
    exact ⟨last, hlast, (Option.some.inj hmap).symm⟩
  · rintro ⟨last, hlast, rfl⟩
    exact ⟨_, finish?_textOrNull.mpr ⟨last, hlast, rfl⟩, rfl⟩

theorem finish?_eq_some_iff {values : List Scalar} : shape.slots.finish? members = some values ↔
    ∃ s : Stats, s.IsGivenBy members ∧ values = s.members.map Prod.snd := by
  simp only [shape, Shape.slots, List.map_cons, List.map_nil, finish?_cons_counter,
    finish?_lastDispatched]
  constructor
  · rintro ⟨a, _, ha, ⟨b, _, hb, ⟨c, _, hc, ⟨d, _, hd, ⟨e, _, he, ⟨last, hlast, rfl⟩, rfl⟩, rfl⟩,
      rfl⟩, rfl⟩, rfl⟩
    exact ⟨⟨a, b, c, d, e, last⟩, ⟨ha, hb, hc, hd, he, hlast⟩, rfl⟩
  · rintro ⟨⟨a, b, c, d, e, last⟩, ⟨ha, hb, hc, hd, he, hlast⟩, rfl⟩
    exact ⟨a, _, ha, ⟨b, _, hb, ⟨c, _, hc, ⟨d, _, hd, ⟨e, _, he, ⟨last, hlast, rfl⟩, rfl⟩, rfl⟩,
      rfl⟩, rfl⟩, rfl⟩

theorem ofJson?_eq_ok_iff (h : IsDocument (.map members) text) :
    ofJson? text = .ok s ↔ s.IsGivenBy members := by
  rw [← toOption_eq_some_iff, toOption_ofJson? h, Shape.scalars?, Option.bind_eq_some_iff]
  constructor
  · rintro ⟨values, hvalues, hstats⟩
    obtain ⟨s', hgiven, rfl⟩ := finish?_eq_some_iff.mp hvalues
    rw [ofScalars?_members] at hstats
    exact Option.some.inj hstats ▸ hgiven
  · intro hgiven
    exact ⟨_, finish?_eq_some_iff.mpr ⟨s, hgiven, rfl⟩, ofScalars?_members s⟩

/-! ## The order of members -/

theorem valuesOf_perm {name : String} (hname : name ∈ shape.fields.map Prod.fst)
    (h : (known members).Perm (known members')) :
    (valuesOf name members).Perm (valuesOf name members') := by
  have hknown (members : List (String × Value)) :
      (known members).filter (·.1 = name) = members.filter (·.1 = name) := by
    rw [known, List.filter_filter]
    refine List.filter_congr fun m _ => ?_
    by_cases hm : m.1 = name
    · simp [hm, hname]
    · simp [hm]
  have hfilter := h.filter fun m => m.1 = name
  rw [hknown, hknown] at hfilter
  exact hfilter.map Prod.snd

theorem IsGivenBy.of_perm (hgiven : s.IsGivenBy members)
    (h : (known members).Perm (known members')) : s.IsGivenBy members' := by
  have hcounts {name : String} {n : Nat} (hname : name ∈ shape.fields.map Prod.fst)
      (hcounts : CountsOnce members name n) : CountsOnce members' name n := by
    have hperm := valuesOf_perm hname h
    rw [hcounts.1] at hperm
    exact ⟨List.perm_singleton.mp hperm.symm, hcounts.2⟩
  refine ⟨hcounts (by decide) hgiven.enqueued, hcounts (by decide) hgiven.executed,
    hcounts (by decide) hgiven.succeeded, hcounts (by decide) hgiven.failed,
    hcounts (by decide) hgiven.superseded, ?_⟩
  exact hgiven.lastDispatched.of_perm (valuesOf_perm (by decide) h)

/-! ## Lists -/

/-- A field takes the first value of its name if there are no more, and else a null. -/
theorem elements?_map (fields : List (String × FieldKind))
    (h : ∀ field ∈ fields, (valuesOf field.1 members).length ≤ 1) :
    elements? fields (fields.map fun field => (valuesOf field.1 members).head?.getD .null) =
      Slots.finish? members (fields.map (·, none)) := by
  induction fields with
  | nil => rfl
  | cons field fields ih =>
    obtain ⟨hfield, hfields⟩ := List.forall_mem_cons.mp h
    rw [List.map_cons, List.map_cons, elements?, Slots.finish?, ih hfields,
      FieldKind.finish?_of_length_le field.2 hfield]

theorem ofJson?_list {text' : String} (h : IsDocument (.map members) text)
    (h' : IsDocument (.list (fieldValues members)) text')
    (honce : ∀ field ∈ shape.fields, (valuesOf field.1 members).length ≤ 1) :
    (ofJson? text').toOption = (ofJson? text).toOption := by
  rw [toOption_ofJson? h, toOption_ofJson? h', Shape.scalars?, fieldValues, elements?_map _ honce]
  rfl

theorem ofJson?_of_length_ne {vs : List Value} (h : IsDocument (.list vs) text)
    (hlength : vs.length ≠ 6) : ∃ fault, ofJson? text = .error fault := by
  have hnone : elements? shape.fields vs = none :=
    Option.eq_none_iff_forall_ne_some.mpr fun values hvalues =>
      hlength (length_eq_of_elements? hvalues)
  have hread := toOption_ofJson? h
  rw [Shape.scalars?, hnone, Option.bind_none] at hread
  cases hjson : ofJson? text with
  | ok s => rw [hjson] at hread; contradiction
  | error fault => exact ⟨fault, rfl⟩

/-! ## Any layout -/

/-- How an object with these members is read. -/
structure IsReadAs (members : List (String × Value)) (text : String) : Prop where
  /-- It is refused for no other reason than its counters or its last identifier. -/
  accepts_iff : (∃ s, ofJson? text = .ok s) ↔
    (∀ name ∈ ["enqueued", "executed", "succeeded", "failed", "superseded"],
      ∃ n, CountsOnce members name n) ∧
    ∃ last, NamesLast (valuesOf "last_dispatched" members) last
  reads_iff : ∀ s, ofJson? text = .ok s ↔ s.IsGivenBy members
  /-- Members in another order, among other unknown members, are read as the same. -/
  reordered : ∀ members' text', IsDocument (.map members') text' →
    (known members).Perm (known members') →
    ∀ s, ofJson? text' = .ok s ↔ ofJson? text = .ok s
  /-- The list of the values is read as the same. -/
  listed : ∀ text', (∀ field ∈ shape.fields, (valuesOf field.1 members).length ≤ 1) →
    IsDocument (.list (fieldValues members)) text' →
    ∀ s, ofJson? text' = .ok s ↔ ofJson? text = .ok s

theorem exists_isGivenBy_iff : (∃ s : Stats, s.IsGivenBy members) ↔
    (∀ name ∈ ["enqueued", "executed", "succeeded", "failed", "superseded"],
      ∃ n, CountsOnce members name n) ∧
    ∃ last, NamesLast (valuesOf "last_dispatched" members) last := by
  rw [List.forall_mem_cons, List.forall_mem_cons, List.forall_mem_cons, List.forall_mem_cons,
    List.forall_mem_singleton]
  constructor
  · rintro ⟨s, h⟩
    exact ⟨⟨⟨_, h.enqueued⟩, ⟨_, h.executed⟩, ⟨_, h.succeeded⟩, ⟨_, h.failed⟩, ⟨_, h.superseded⟩⟩,
      ⟨_, h.lastDispatched⟩⟩
  · rintro ⟨⟨⟨a, ha⟩, ⟨b, hb⟩, ⟨c, hc⟩, ⟨d, hd⟩, ⟨e, he⟩⟩, ⟨last, hlast⟩⟩
    exact ⟨⟨a, b, c, d, e, last⟩, ⟨ha, hb, hc, hd, he, hlast⟩⟩

theorem isReadAs (h : IsDocument (.map members) text) : IsReadAs members text where
  accepts_iff := (exists_congr fun _ => ofJson?_eq_ok_iff h).trans exists_isGivenBy_iff
  reads_iff _ := ofJson?_eq_ok_iff h
  reordered members' text' h' hperm s := by
    rw [ofJson?_eq_ok_iff h, ofJson?_eq_ok_iff h']
    exact ⟨fun hgiven => hgiven.of_perm hperm.symm, fun hgiven => hgiven.of_perm hperm⟩
  listed text' honce h' s := by
    rw [← toOption_eq_some_iff, ← toOption_eq_some_iff, ofJson?_list h h' honce]

end Stats

/-! ## An object in a disorder -/

/-- The name of a field whose first character is escaped by its number. -/
theorem spellsText_executed : SpellsText "executed" "\\u0065xecuted".toList := by
  have hhex (d : Nat) (hd : d < 16) : IsHex (Nat.digitChar d) d := ⟨hd, .inl rfl⟩
  have hunit : SpellsUnit "0065".toList 'e'.toNat :=
    .digits (hhex 0 (by decide)) (hhex 0 (by decide)) (hhex 6 (by decide)) (hhex 5 (by decide))
  obtain ⟨pieces, hpieces, heq⟩ := spellsText_escape "xecuted"
  refine ⟨"\\u0065".toList :: pieces, .cons (.number hunit) hpieces, ?_⟩
  rw [List.flatten_cons, ← heq]
  rfl

/-- A value with no gaps around it. -/
def bare (v : Value) (body : List Char) : Item where
  value := v
  body := body
  before_gaps := areGaps_nil
  after_gaps := areGaps_nil

/-- A value with values inside. -/
def layered : Item := bare (.list [.number, .list []]) "[-1e5,[]]".toList

theorem spells_layered : Spells layered.value layered.body := by
  have hempty : Spells (.list []) "[]".toList :=
    @Spells.list [] [] areGaps_nil (List.forall_mem_nil _)
  have hnumber : Spells .number "-1e5".toList := by
    have hone : IsWhole ['1'] := isWhole_toDigits 1
    have hfive : IsWhole ['5'] := isWhole_toDigits 5
    refine .number (.parts (.inr rfl) hone .absent
      (.present (.inl rfl) (.inl rfl) hfive.areDigits)) fun h => ?_
    exact absurd (h.areDigits.isDigit '-' List.mem_cons_self) (by decide)
  exact @Spells.list [] [bare _ _, bare _ _] areGaps_nil
    (List.forall_mem_cons.mpr ⟨hnumber, List.forall_mem_singleton.mpr hempty⟩)

def scalarEntry (name : String) (s : Scalar) : Entry :=
  Layout.compact.entry (name, s) [] areGaps_nil

/-- The fields in a disorder, with an unknown member among them. -/
def oddEntries : List Entry :=
  [scalarEntry "superseded" (.number (2 ^ 64 - 1)),
    { name := "trace", spelled := "trace".toList, item := layered,
      spells_name := spellsText_escape "trace", before_gaps := areGaps_nil,
      between_gaps := areGaps_nil },
    { name := "executed", spelled := "\\u0065xecuted".toList, item := bare (.natural 3) ['3'],
      between := ['\t'], spells_name := spellsText_executed, before_gaps := areGaps_nil },
    scalarEntry "last_dispatched" (.text "r"), scalarEntry "failed" (.number 1),
    scalarEntry "enqueued" (.number 9), scalarEntry "succeeded" (.number 2)]

def oddText : String :=
  "\x7b\"superseded\":18446744073709551615,\"trace\":[-1e5,[]],\"\\u0065xecuted\"\t:3," ++
    "\"last_dispatched\":\"r\",\"failed\":1,\"enqueued\":9,\"succeeded\":2\x7d "

theorem isDocument_oddText : IsDocument (.map (oddEntries.map Entry.member)) oddText := by
  have hscalar (name : String) (s : Scalar) :
      Spells (scalarEntry name s).item.value (scalarEntry name s).item.body := s.spells
  have hspells : ∀ e ∈ oddEntries, Spells e.item.value e.item.body := by
    simp only [oddEntries, List.forall_mem_cons, hscalar, spells_layered, true_and]
    exact ⟨Scalar.spells (.number 3), List.forall_mem_nil _⟩
  exact ⟨{ value := _, body := _, after := [' '] }, rfl, .map areGaps_nil hspells,
    by decide +kernel⟩

/-! ## Statistics -/

/-- Whatever the spelling of an object, it is read as statistics exactly if each counter stands in
it once, as digits alone that fit in a word, and the last identifier at most once, as null or a
text. Neither the order of the members nor those that are unknown matter, and the list of the six
values is read as the same. Lists of another length are refused. -/
theorem statistics_in_any_layout :
    (∀ members text, IsDocument (.map members) text → Stats.IsReadAs members text) ∧
    ∀ vs text, IsDocument (.list vs) text → vs.length ≠ 6 →
      ∃ fault, Stats.ofJson? text = .error fault :=
  ⟨fun _ _ => Stats.isReadAs, fun _ _ => Stats.ofJson?_of_length_ne⟩

theorem statistics_in_any_layout_odd :
    (IsDocument (.map (oddEntries.map Entry.member)) oddText ∧
      Stats.IsReadAs (oddEntries.map Entry.member) oddText ∧
      Stats.ofJson? oddText = .ok ⟨9, 3, 2, 1, 2 ^ 64 - 1, some "r"⟩) ∧
    IsDocument (.list []) "[]" ∧ ∃ fault, Stats.ofJson? "[]" = .error fault := by
  have hread := statistics_in_any_layout.1 _ _ isDocument_oddText
  have hgiven : Stats.IsGivenBy ⟨9, 3, 2, 1, 2 ^ 64 - 1, some "r"⟩ (oddEntries.map Entry.member) :=
    ⟨⟨rfl, by decide⟩, ⟨rfl, by decide⟩, ⟨rfl, by decide⟩, ⟨rfl, by decide⟩, ⟨rfl, by decide⟩,
      .text "r"⟩
  have hlist : IsDocument (.list []) "[]" :=
    ⟨bare _ _, rfl, @Spells.list [] [] areGaps_nil (List.forall_mem_nil _), rfl⟩
  exact ⟨⟨isDocument_oddText, hread, (hread.reads_iff _).mpr hgiven⟩, hlist,
    statistics_in_any_layout.2 _ _ hlist (by decide)⟩

end CoalescingQueue
