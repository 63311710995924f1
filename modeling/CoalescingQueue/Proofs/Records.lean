import CoalescingQueue.Proofs.Sweeping
import Mathlib.Data.List.Nodup

/-!
# Records in any spelling

What a record is read as depends on the value that is spelled and on nothing else. A list has to
hold the fields in their order, each with a value of its kind. An object is looked at name by name:
each field takes the only value that stands under its name, or does without one if it may be null,
and values under other names have no part in it. What the fault is where reading fails is not said.
-/
namespace CoalescingQueue.Json

variable {cs gap rest : List Char} {n : Nat} {v : Value} {fields : List (String × FieldKind)}
  {slots : Slots} {name : String}

section Except

variable {ε α β : Type}

theorem toOption_eq_some_iff {x : Except ε α} {a : α} : x.toOption = some a ↔ x = .ok a := by
  cases x <;> simp [Except.toOption]

theorem toOption_ok (a : α) : (.ok a : Except ε α).toOption = some a := rfl

theorem toOption_bind (x : Except ε α) (f : α → Except ε β) :
    (x >>= f).toOption = x.toOption.bind fun a => (f a).toOption := by
  cases x <;> rfl

theorem toOption_map (x : Except ε α) (f : α → β) :
    (x.map f).toOption = x.toOption.map f := by
  cases x <;> rfl

end Except

/-! ## Values of fields -/

namespace Value

def text? : Value → Option String
  | .text s => some s
  | _ => none

/-- The value of a counter, if it is small enough. -/
def counter? : Value → Option Nat
  | .natural n => if n < Text.wordLimit then some n else none
  | _ => none

theorem counter?_eq_some_iff : v.counter? = some n ↔ v = .natural n ∧ n < Text.wordLimit := by
  cases v with
  | natural m =>
    rw [counter?, Option.ite_none_right_eq_some, Option.some.injEq, Value.natural.injEq]
    constructor
    · rintro ⟨hm, rfl⟩
      exact ⟨rfl, hm⟩
    · rintro ⟨rfl, hm⟩
      exact ⟨hm, rfl⟩
  | _ => exact ⟨nofun, nofun⟩

end Value

/-- What a field of this kind takes from a value. -/
def FieldKind.scalar? : FieldKind → Value → Option Scalar
  | .text, v => v.text?.map .text
  | .counter, v => v.counter?.map .number
  | .textOrNull, .null => some .null
  | .textOrNull, v => v.text?.map .text

theorem BeginsWith.unique {n' : Nat} {rest' : List Char} (h : BeginsWith cs n rest)
    (h' : BeginsWith cs n' rest') : n = n' ∧ rest = rest' := by
  obtain ⟨digits, rfl, hwhole, hrest, rfl⟩ := h
  obtain ⟨digits', heq, hwhole', hrest', rfl⟩ := h'
  have hspan := spanDigits_append hwhole.areDigits.isDigit hrest.isDigit_eq
  rw [heq, spanDigits_append hwhole'.areDigits.isDigit hrest'.isDigit_eq] at hspan
  obtain ⟨rfl, rfl⟩ := Prod.mk.inj hspan
  exact ⟨rfl, rfl⟩

theorem BeginsWith.exists_digit (h : BeginsWith cs n rest) :
    ∃ c tail, cs = c :: tail ∧ c.isDigit = true := by
  obtain ⟨digits, rfl, hwhole, -, -⟩ := h
  obtain ⟨c, tail, rfl, hc⟩ := hwhole.exists_digit
  exact ⟨c, tail ++ rest, rfl, hc⟩

/-- A numeral that is read as a natural number has no sign, no fraction and no exponent. -/
theorem IsNumeral.isWhole_of_beginsWith {rest' : List Char} (h : IsNumeral cs)
    (hrest : EndsNumber rest) (hbegins : BeginsWith (cs ++ rest) n rest') : IsWhole cs := by
  obtain @⟨sign, whole, fraction, exponent, hsign, hwhole, hfraction, hexponent⟩ := h
  rcases hsign with rfl | rfl
  · obtain ⟨digits, heq, hdigits, hend, -⟩ := hbegins
    have hhead : ∀ c ∈ (fraction ++ (exponent ++ rest)).head?, c.isDigit = false := by
      cases hfraction with
      | present =>
        rintro _ ⟨⟩
        rfl
      | absent =>
        cases hexponent with
        | present hletter =>
          rintro _ ⟨⟩
          rcases hletter with rfl | rfl <;> rfl
        | absent => exact hrest.isDigit_eq
    have hspan := spanDigits_append hwhole.areDigits.isDigit hhead
    rw [List.nil_append, List.append_assoc, List.append_assoc] at heq
    rw [heq, spanDigits_append hdigits.areDigits.isDigit hend.isDigit_eq] at hspan
    obtain ⟨rfl, rfl⟩ := Prod.mk.inj hspan
    cases hfraction with
    | present => exact absurd rfl (hend '.' rfl).2.1
    | absent =>
      cases hexponent with
      | present hletter =>
        obtain ⟨-, -, hnot⟩ := hend _ rfl
        rcases hletter with rfl | rfl <;> contradiction
      | absent => simpa using hwhole
  · obtain ⟨c, tail, heq, hc⟩ := hbegins.exists_digit
    obtain ⟨rfl, -⟩ := List.cons.inj heq
    contradiction

theorem readScalarText_of_ne {expected : String} {c : Char} (hc : c ≠ '"') :
    (readScalarText expected (c :: cs)).toOption = none := by
  unfold readScalarText
  split
  · next heq => exact absurd (List.cons.inj heq).1 hc
  · rfl

theorem readCounter_of_ge (h : ∀ n rest, BeginsWith cs n rest → Text.wordLimit ≤ n) :
    (readCounter cs).toOption = none := by
  cases hread : readCounter cs with
  | error fault => rfl
  | ok read =>
    obtain ⟨n, -, hbegins, hlt⟩ := readCounter_eq_ok_iff.mp hread
    exact absurd (h n _ hbegins) (Nat.not_le_of_lt hlt)

namespace Spells

theorem readScalarText (h : Spells v cs) (expected : String) (rest : List Char) :
    (Json.readScalarText expected (cs ++ rest)).toOption = v.text?.map (·, rest) := by
  cases h with
  | text h =>
    have hread := h.readText_append rest
    rw [List.cons_append, List.append_assoc]
    exact toOption_eq_some_iff.mpr hread
  | natural h =>
    obtain ⟨c, tail, rfl, hc⟩ := h.exists_digit
    exact readScalarText_of_ne (by rintro rfl; contradiction)
  | number h =>
    obtain ⟨c, tail, rfl, rfl | hc⟩ := h.exists_begins
    · rfl
    · exact readScalarText_of_ne (by rintro rfl; contradiction)
  | _ => rfl

/-- A counter is read from a natural number that is small enough. -/
theorem readCounter (h : Spells v cs) (hrest : EndsNumber rest) :
    (Json.readCounter (cs ++ rest)).toOption = v.counter?.map (.number ·, rest) := by
  cases h with
  | natural h =>
    have hbegins : BeginsWith (cs ++ rest) (Nat.ofDigitChars 10 cs 0) rest :=
      ⟨cs, rfl, h, hrest, rfl⟩
    by_cases hlimit : Nat.ofDigitChars 10 cs 0 < Text.wordLimit
    · rw [Value.counter?, if_pos hlimit]
      exact toOption_eq_some_iff.mpr (readCounter_eq_ok_iff.mpr ⟨_, rfl, hbegins, hlimit⟩)
    · rw [Value.counter?, if_neg hlimit]
      refine readCounter_of_ge fun n rest' h' => ?_
      rw [(h'.unique hbegins).1]
      exact Nat.le_of_not_lt hlimit
  | number h hnot =>
    exact readCounter_of_ge fun n rest' h' => absurd (h.isWhole_of_beginsWith hrest h') hnot
  | _ =>
    refine readCounter_of_ge fun n rest' h' => ?_
    obtain ⟨c, tail, heq, hc⟩ := h'.exists_digit
    obtain ⟨rfl, -⟩ := List.cons.inj heq
    contradiction

theorem eq_null {tail : List Char} (h : Spells v cs) (heq : cs ++ rest = 'n' :: tail) :
    v = .null := by
  cases h with
  | null => rfl
  | natural h =>
    obtain ⟨c, digits, rfl, hc⟩ := h.exists_digit
    obtain ⟨rfl, -⟩ := List.cons.inj heq
    contradiction
  | number h =>
    obtain ⟨c, digits, rfl, hc⟩ := h.exists_begins
    obtain ⟨rfl, -⟩ := List.cons.inj heq
    rcases hc with hc | hc <;> contradiction
  | _ => exact absurd (List.cons.inj heq).1 (by decide)

/-- What the value of a field is read as. -/
theorem readField (h : Spells v cs) (kind : FieldKind) (hgap : AreGaps gap)
    (hrest : EndsNumber rest) :
    (kind.read (gap ++ (cs ++ rest))).toOption = (kind.scalar? v).map (·, rest) := by
  unfold FieldKind.read
  rw [h.skipGaps_append hgap]
  cases kind with
  | text =>
    rw [toOption_map, h.readScalarText, FieldKind.scalar?, Option.map_map, Option.map_map]
    rfl
  | counter =>
    rw [h.readCounter hrest, FieldKind.scalar?, Option.map_map]
    rfl
  | textOrNull =>
    dsimp only
    split
    · next tail heq =>
      obtain rfl := h.eq_null heq
      cases h
      obtain ⟨-, rfl⟩ := List.cons.inj heq
      rfl
    · next hnull =>
      have hscalar : FieldKind.textOrNull.scalar? v = v.text?.map .text := by
        cases h with
        | null => exact absurd rfl (hnull _)
        | _ => rfl
      rw [toOption_map, h.readScalarText, hscalar, Option.map_map, Option.map_map]
      rfl

end Spells

/-! ## Objects -/

/-- The values that stand under a name, in their order. -/
def valuesOf (name : String) (members : List (String × Value)) : List Value :=
  (members.filter (·.1 = name)).map Prod.snd

theorem valuesOf_cons_self (name : String) (v : Value) (members : List (String × Value)) :
    valuesOf name ((name, v) :: members) = v :: valuesOf name members := by
  simp [valuesOf]

theorem valuesOf_cons_of_ne {key : String} (h : key ≠ name) (v : Value)
    (members : List (String × Value)) :
    valuesOf name ((key, v) :: members) = valuesOf name members := by
  simp [valuesOf, h]

/-- What a field ends up with, given what it has and the values that are still to come. -/
def FieldKind.finish? (kind : FieldKind) : Option Scalar → List Value → Option Scalar
  | some s, [] => some s
  | none, [] => if kind = .textOrNull then some .null else none
  | none, [v] => kind.scalar? v
  | _, _ => none

theorem FieldKind.finish?_cons (kind : FieldKind) (v : Value) (vs : List Value) :
    kind.finish? none (v :: vs) = (kind.scalar? v).bind fun s => kind.finish? (some s) vs := by
  cases vs with
  | nil => cases h : kind.scalar? v <;> simp [finish?, h]
  | cons v' vs => cases h : kind.scalar? v <;> simp [finish?]

theorem FieldKind.finish?_eq_some_iff {kind : FieldKind} {vs : List Value} {s : Scalar} :
    kind.finish? none vs = some s ↔
      (vs = [] ∧ kind = .textOrNull ∧ s = .null) ∨ ∃ v, vs = [v] ∧ kind.scalar? v = some s := by
  match vs with
  | [] => simp [finish?, eq_comm]
  | [v] => simp [finish?]
  | v :: v' :: vs => simp [finish?]

/-- A field that may be null takes a null where there is no value. -/
theorem FieldKind.finish?_of_length_le (kind : FieldKind) {vs : List Value} (h : vs.length ≤ 1) :
    kind.scalar? (vs.head?.getD .null) = kind.finish? none vs := by
  match vs, h with
  | [], _ => cases kind <;> rfl
  | [v], _ => rfl

namespace Slots

/-- The slots after one more member. -/
def take? (slots : Slots) (name : String) (v : Value) : Option Slots :=
  match slots.find? name with
  | some (_, some _) => none
  | some ((_, kind), none) => (kind.scalar? v).map (slots.fill name)
  | none => some slots

/-- The values of all fields, given the members that are still to come. -/
def finish? (members : List (String × Value)) : Slots → Option (List Scalar)
  | [] => some []
  | (field, entry) :: slots =>
    (field.2.finish? entry (valuesOf field.1 members)).bind fun s =>
      (finish? members slots).map (s :: ·)

theorem toOption_values (slots : Slots) : slots.values.toOption = slots.finish? [] := by
  induction slots with
  | nil => rfl
  | cons slot slots ih =>
    obtain ⟨⟨name, kind⟩, entry⟩ := slot
    cases entry with
    | some s =>
      rw [values, toOption_map, ih]
      rfl
    | none =>
      cases kind with
      | textOrNull =>
        rw [values, toOption_map, ih]
        rfl
      | _ => rfl

/-- Members under other names have no part in the values. -/
theorem finish?_cons_of_notMem (hname : name ∉ slots.map (·.1.1)) (v : Value)
    (members : List (String × Value)) :
    slots.finish? ((name, v) :: members) = slots.finish? members := by
  induction slots with
  | nil => rfl
  | cons slot slots ih =>
    obtain ⟨hne, hrest⟩ := not_or.mp (List.mem_cons.not.mp hname)
    rw [finish?, finish?, ih hrest, valuesOf_cons_of_ne hne]

theorem fill_of_notMem (hname : name ∉ slots.map (·.1.1)) (value : Scalar) :
    slots.fill name value = slots := by
  rw [fill]
  refine (List.map_congr_left fun slot hslot => if_neg fun heq => ?_).trans (List.map_id' _)
  exact hname (heq ▸ List.mem_map_of_mem hslot)

theorem take?_cons_of_ne {slot : (String × FieldKind) × Option Scalar} (hne : slot.1.1 ≠ name)
    (slots : Slots) (v : Value) :
    take? (slot :: slots) name v = (slots.take? name v).map (slot :: ·) := by
  have hfind : find? (slot :: slots) name = slots.find? name :=
    List.find?_cons_of_neg (by simpa using hne)
  have hfill (value : Scalar) :
      fill (slot :: slots) name value = slot :: slots.fill name value := by
    rw [fill, List.map_cons, if_neg hne]
    rfl
  unfold take?
  rw [hfind]
  split
  · rfl
  · next kind _ =>
    rw [Option.map_map]
    exact Option.map_congr fun value _ => hfill value
  · rfl

/-- A member goes to the field of its name. -/
theorem bind_take? (hnodup : (slots.map (·.1.1)).Nodup) (v : Value)
    (members : List (String × Value)) :
    ((slots.take? name v).bind fun slots => slots.finish? members) =
      slots.finish? ((name, v) :: members) := by
  induction slots with
  | nil => rfl
  | cons slot slots ih =>
    obtain ⟨hnew, hrest⟩ := List.nodup_cons.mp hnodup
    obtain ⟨⟨field, kind⟩, entry⟩ := slot
    by_cases hname : field = name
    · subst hname
      have hfind : find? (((field, kind), entry) :: slots) field = some ((field, kind), entry) :=
        List.find?_cons_of_pos (decide_eq_true rfl)
      rw [take?, hfind, finish?, valuesOf_cons_self, finish?_cons_of_notMem hnew]
      cases entry with
      | some s => rfl
      | none =>
        have hfill (value : Scalar) : fill (((field, kind), none) :: slots) field value =
            ((field, kind), some value) :: slots := by
          rw [fill, List.map_cons, if_pos rfl, ← fill, fill_of_notMem hnew]
        rw [FieldKind.finish?_cons, Option.bind_assoc]
        dsimp only
        rw [Option.bind_map]
        refine Option.bind_congr fun value _ => ?_
        rw [Function.comp, hfill, finish?]
    · rw [take?_cons_of_ne hname, Option.bind_map, finish?, valuesOf_cons_of_ne (Ne.symm hname),
        ← ih hrest]
      cases take? slots name v with
      | none => exact (Option.bind_fun_none _).symm
      | some slots => rfl

theorem names_take? {slots' : Slots} (h : slots.take? name v = some slots') :
    slots'.map (·.1.1) = slots.map (·.1.1) := by
  unfold take? at h
  split at h
  · contradiction
  · obtain ⟨value, -, rfl⟩ := Option.map_eq_some_iff.mp h
    rw [fill, List.map_map]
    refine List.map_congr_left fun slot _ => ?_
    rw [Function.comp]
    split <;> rfl
  · obtain rfl := Option.some.inj h
    rfl

end Slots

theorem readKeyQuote_append (hgap : AreGaps gap) (cs : List Char) :
    readKeyQuote (gap ++ '"' :: cs) = .ok cs := by
  rw [readKeyQuote, skipGaps_append hgap, skipGaps_of_head (by decide)]
  rfl

theorem readColon_append (hgap : AreGaps gap) (cs : List Char) :
    readColon (gap ++ ':' :: cs) = .ok cs := by
  rw [readColon, skipGaps_append hgap, skipGaps_of_head (by decide)]
  rfl

namespace Entry

variable {e : Entry}

theorem written_append (e : Entry) (rest : List Char) :
    e.written ++ rest = e.before ++ '"' :: (e.spelled ++ '"' :: (e.between ++ ':' ::
      (e.item.before ++ (e.item.body ++ (e.item.after ++ rest))))) := by
  simp [written, Item.written]

/-- A member without its opening quote. -/
theorem readMember (h : Spells e.item.value e.item.body) (slots : Slots) (hrest : EndsNumber rest) :
    (Json.readMember slots (e.spelled ++ '"' :: (e.between ++ ':' ::
        (e.item.before ++ (e.item.body ++ rest))))).toOption =
      (slots.take? e.name e.item.value).map (·, rest) := by
  have hread := e.spells_name.readText_append
    (e.between ++ ':' :: (e.item.before ++ (e.item.body ++ rest)))
  have hcolon := readColon_append e.between_gaps (e.item.before ++ (e.item.body ++ rest))
  unfold Json.readMember Slots.take?
  rw [toOption_bind, hread, toOption_ok, Option.bind_some]
  dsimp only
  cases slots.find? e.name with
  | none =>
    dsimp only
    rw [hcolon, toOption_bind, toOption_ok, Option.bind_some,
      h.skipValue_append e.item.before_gaps hrest]
    rfl
  | some slot =>
    obtain ⟨⟨field, kind⟩, _ | s⟩ := slot
    · dsimp only
      rw [hcolon, toOption_bind, toOption_ok, Option.bind_some, toOption_bind,
        h.readField kind e.item.before_gaps hrest, Option.bind_map, Option.map_map,
        Option.map_eq_bind]
      rfl
    · rfl

end Entry

/-- What comes of an object once its members have been read. -/
def finished (result : Except Fault (Slots × List Char)) : Option (List Scalar × List Char) :=
  result.toOption.bind fun (slots, rest) => slots.values.toOption.map (·, rest)

/-- A member, and then the members behind it. -/
theorem Entry.finished_readMember {e : Entry} {members : List (String × Value)} {room : Nat}
    {rest' : List Char} (h : Spells e.item.value e.item.body)
    (hnodup : (slots.map (·.1.1)).Nodup) (hrest : EndsNumber (e.item.after ++ rest))
    (hmore : ∀ slots : Slots, (slots.map (·.1.1)).Nodup →
      finished (readMembers slots false (e.item.after ++ rest) room) =
        (slots.finish? members).map (·, rest')) :
    finished (Json.readMember slots (e.spelled ++ '"' :: (e.between ++ ':' ::
        (e.item.before ++ (e.item.body ++ (e.item.after ++ rest))))) >>=
          fun p => readMembers p.1 false p.2 room) =
      (slots.finish? (e.member :: members)).map (·, rest') := by
  rw [finished, toOption_bind, e.readMember h slots hrest, Option.bind_map, Option.bind_assoc,
    member, ← Slots.bind_take? hnodup, Option.map_bind]
  refine Option.bind_congr fun slots' htake => hmore slots' ?_
  rwa [Slots.names_take? htake]

theorem readMembers_row {entries : List Entry} {room : Nat} (hnodup : (slots.map (·.1.1)).Nodup)
    (h : ∀ e ∈ entries, Spells e.item.value e.item.body) (hgap : AreGaps gap)
    (hroom : entries.length < room) (rest : List Char) :
    finished (readMembers slots false
        (gap ++ ((entries.map Entry.written).flatMap (',' :: ·) ++ '\x7d' :: rest)) room) =
      (slots.finish? (entries.map Entry.member)).map (·, rest) := by
  induction entries generalizing slots gap room with
  | nil =>
    obtain ⟨room, rfl⟩ := Nat.exists_eq_add_one.mpr hroom
    rw [readMembers, skipGaps_append hgap]
    change slots.values.toOption.map (·, rest) = _
    rw [Slots.toOption_values]
    rfl
  | cons e entries ih =>
    obtain ⟨room, rfl⟩ := Nat.exists_eq_add_one.mpr (Nat.zero_lt_of_lt hroom)
    obtain ⟨he, hentries⟩ := List.forall_mem_cons.mp h
    have hend := endsNumber_row (by decide : '\x7d' ∈ ['\x7d', ']']) e.item.after_gaps
      (entries.map Entry.written) rest
    rw [readMembers, skipGaps_append hgap, List.map_cons, List.flatMap_cons, List.cons_append,
      List.cons_append, skipGaps_of_head (by decide), List.append_assoc, e.written_append]
    change finished ((readKeyQuote _).bind _) = _
    rw [readKeyQuote_append e.before_gaps]
    exact e.finished_readMember he hnodup hend fun slots' hnodup' =>
      ih hnodup' hentries e.item.after_gaps (Nat.lt_of_succ_lt_succ hroom)

/-- All members of an object, up to its closing bracket. -/
theorem readMembers_object {entries : List Entry} {room : Nat} (hnodup : (slots.map (·.1.1)).Nodup)
    (h : ∀ e ∈ entries, Spells e.item.value e.item.body) (hgap : AreGaps gap)
    (hroom : entries.length ≤ room) (rest : List Char) :
    finished (readMembers slots true
        (gap ++ ([','].intercalate (entries.map Entry.written) ++ '\x7d' :: rest)) (room + 1)) =
      (slots.finish? (entries.map Entry.member)).map (·, rest) := by
  cases entries with
  | nil =>
    rw [readMembers, skipGaps_append hgap]
    change slots.values.toOption.map (·, rest) = _
    rw [Slots.toOption_values]
    rfl
  | cons e entries =>
    obtain ⟨he, hentries⟩ := List.forall_mem_cons.mp h
    have hend := endsNumber_row (by decide : '\x7d' ∈ ['\x7d', ']']) e.item.after_gaps
      (entries.map Entry.written) rest
    rw [readMembers, skipGaps_append hgap, List.map_cons, intercalate_comma, List.append_assoc,
      e.written_append, skipGaps_append e.before_gaps, skipGaps_of_head (by decide)]
    exact e.finished_readMember he hnodup hend fun slots' hnodup' =>
      readMembers_row hnodup' hentries e.item.after_gaps hroom rest

/-! ## Lists -/

/-- The values of fields, each from the element in its place. -/
def elements? : List (String × FieldKind) → List Value → Option (List Scalar)
  | [], [] => some []
  | field :: fields, v :: vs =>
    (field.2.scalar? v).bind fun s => (elements? fields vs).map (s :: ·)
  | _, _ => none

theorem length_eq_of_elements? {vs : List Value} {values : List Scalar}
    (h : elements? fields vs = some values) : vs.length = fields.length := by
  induction fields generalizing vs values with
  | nil =>
    cases vs with
    | nil => rfl
    | cons v vs => contradiction
  | cons field fields ih =>
    cases vs with
    | nil => contradiction
    | cons v vs =>
      obtain ⟨s, -, hmap⟩ := Option.bind_eq_some_iff.mp h
      obtain ⟨values, hvalues, -⟩ := Option.map_eq_some_iff.mp hmap
      rw [List.length_cons, List.length_cons, ih hvalues]

theorem Spells.head?_ne (h : Spells v cs) (rest : List Char) : (cs ++ rest).head? ≠ some ']' := by
  obtain ⟨c, tail, rfl, hc⟩ := h.exists_begins
  intro heq
  obtain rfl := Option.some.inj heq
  exact hc.notMem (by decide)

theorem Item.skipGaps_written {x : Item} (h : Spells x.value x.body) (rest : List Char) :
    skipGaps (x.written ++ rest) = x.body ++ (x.after ++ rest) := by
  rw [written, List.append_assoc, List.append_assoc, h.skipGaps_append x.before_gaps]

/-- An element, and then the elements behind it. -/
theorem Item.readElement {x : Item} {k : Nat} {vs : List Value} {rest' : List Char} (shape : Shape)
    (field : String × FieldKind) (h : Spells x.value x.body) (hrest : EndsNumber (x.after ++ rest))
    (hmore : (shape.readElements k (x.after ++ rest) fields).toOption =
      (elements? fields vs).map (·, rest')) :
    (do let (value, rest) ← field.2.read (x.body ++ (x.after ++ rest))
        let (values, rest) ← shape.readElements k rest fields
        return (value :: values, rest) : Except Fault (List Scalar × List Char)).toOption =
      (elements? (field :: fields) (x.value :: vs)).map (·, rest') := by
  have hread := h.readField field.2 areGaps_nil hrest
  rw [List.nil_append] at hread
  rw [toOption_bind, hread, Option.bind_map, elements?, Option.map_bind]
  refine Option.bind_congr fun s _ => ?_
  rw [Function.comp, Function.comp, toOption_bind, hmore, Option.bind_map, Option.map_map,
    Option.map_eq_bind]
  rfl

theorem readElements_row {items : List Item} (shape : Shape) (fields : List (String × FieldKind))
    (k : Nat) (h : ∀ x ∈ items, Spells x.value x.body) (hgap : AreGaps gap) (rest : List Char) :
    (shape.readElements (k + 1)
        (gap ++ ((items.map Item.written).flatMap (',' :: ·) ++ ']' :: rest)) fields).toOption =
      (elements? fields (items.map Item.value)).map (·, rest) := by
  induction fields generalizing items gap k with
  | nil =>
    rw [Shape.readElements, skipGaps_append hgap]
    cases items with
    | nil => rfl
    | cons x items => rfl
  | cons field fields ih =>
    rw [Shape.readElements, skipGaps_append hgap]
    cases items with
    | nil => rfl
    | cons x items =>
      obtain ⟨hx, hitems⟩ := List.forall_mem_cons.mp h
      have hend := endsNumber_row (by decide : ']' ∈ ['\x7d', ']']) x.after_gaps
        (items.map Item.written) rest
      have hread := Item.readElement shape field hx hend (ih (k + 1) hitems x.after_gaps)
      have hskip := x.skipGaps_written hx
        ((items.map Item.written).flatMap (',' :: ·) ++ ']' :: rest)
      rw [List.map_cons, List.flatMap_cons, List.cons_append, List.cons_append,
        skipGaps_of_head (by decide), List.append_assoc]
      change (if (skipGaps (x.written ++ _)).head? = some ']' then _ else _ :
        Except Fault (List Scalar × List Char)).toOption = _
      rw [hskip, if_neg (hx.head?_ne _)]
      exact hread

/-- The elements of a list, up to its closing bracket, for a record that has a field. -/
theorem readElements_list {items : List Item} (shape : Shape) (field : String × FieldKind)
    (fields : List (String × FieldKind)) (h : ∀ x ∈ items, Spells x.value x.body)
    (hgap : AreGaps gap) (rest : List Char) :
    (shape.readElements 0 (gap ++ ([','].intercalate (items.map Item.written) ++ ']' :: rest))
        (field :: fields)).toOption =
      (elements? (field :: fields) (items.map Item.value)).map (·, rest) := by
  rw [Shape.readElements, skipGaps_append hgap]
  cases items with
  | nil => rfl
  | cons x items =>
    obtain ⟨hx, hitems⟩ := List.forall_mem_cons.mp h
    have hend := endsNumber_row (by decide : ']' ∈ ['\x7d', ']']) x.after_gaps
      (items.map Item.written) rest
    have hread := Item.readElement shape field hx hend
      (readElements_row shape fields 0 hitems x.after_gaps rest)
    have hskip := x.skipGaps_written hx
      ((items.map Item.written).flatMap (',' :: ·) ++ ']' :: rest)
    rw [List.map_cons, intercalate_comma, List.append_assoc, hskip, if_neg (hx.head?_ne _)]
    exact hread

/-! ## Documents -/

/-- What the fields of a record take from a value. -/
def Shape.scalars? (shape : Shape) : Value → Option (List Scalar)
  | .list vs => elements? shape.fields vs
  | .map members => shape.slots.finish? members
  | _ => none

theorem toOption_read_list (shape : Shape) (cs : List Char) :
    (shape.read ('[' :: cs)).toOption = (shape.readElements 0 cs shape.fields).toOption := by
  rw [Shape.read, skipGaps_of_head (by decide)]
  rfl

theorem toOption_read_map (shape : Shape) (cs : List Char) :
    (shape.read ('\x7b' :: cs)).toOption =
      finished (readMembers shape.slots true cs (cs.length + 1)) := by
  unfold Shape.read
  rw [skipGaps_of_head (by decide), finished]
  split
  · next heq => exact absurd (List.cons.inj heq).1 (by decide)
  · next heq =>
    obtain ⟨-, rfl⟩ := List.cons.inj heq
    cases readMembers shape.slots true cs (cs.length + 1) with
    | error fault => rfl
    | ok result => exact toOption_map _ _
  · next hmap => exact absurd rfl (hmap cs)

/-- Every member takes some room. -/
theorem length_le_intercalate (entries : List Entry) :
    entries.length ≤ ([','].intercalate (entries.map Entry.written)).length := by
  have hmore (pieces : List (List Char)) :
      pieces.length ≤ (pieces.flatMap (',' :: ·)).length := by
    induction pieces with
    | nil => exact Nat.le_refl 0
    | cons piece pieces ih =>
      rw [List.flatMap_cons, List.length_append, List.length_cons, List.length_cons]
      omega
  cases entries with
  | nil => exact Nat.zero_le _
  | cons e entries =>
    have hrest := hmore (entries.map Entry.written)
    rw [List.map_cons, intercalate_comma, List.length_append, Entry.written, List.length_append,
      List.length_cons, List.length_cons]
    rw [List.length_map] at hrest
    omega

/-- Neither a list nor an object begins here. -/
theorem Shape.read_of_head {shape : Shape} {c : Char} (hgap : isGap c = false) (hlist : c ≠ '[')
    (hmap : c ≠ '\x7b') (cs : List Char) : (shape.read (c :: cs)).toOption = none := by
  unfold Shape.read
  rw [skipGaps_of_head hgap]
  split
  · next heq => exact absurd (List.cons.inj heq).1 hlist
  · next heq => exact absurd (List.cons.inj heq).1 hmap
  · rfl

theorem Shape.read_spells {shape : Shape} (hnames : (shape.fields.map Prod.fst).Nodup)
    (hne : shape.fields ≠ []) (h : Spells v cs) (hgap : AreGaps gap) (rest : List Char) :
    (shape.read (gap ++ (cs ++ rest))).toOption = (shape.scalars? v).map (·, rest) := by
  have hread : shape.read (gap ++ (cs ++ rest)) = shape.read (cs ++ rest) := by
    rw [Shape.read, skipGaps_append hgap]
    rfl
  rw [hread]
  cases h with
  | @list gap' items hgap' h =>
    obtain ⟨field, fields, hfields⟩ := List.exists_cons_of_ne_nil hne
    rw [scalars?, List.cons_append, toOption_read_list, List.append_assoc, List.append_assoc,
      hfields]
    exact readElements_list shape field fields h hgap' rest
  | @map gap' entries hgap' h =>
    have hslots : (shape.slots.map (·.1.1)).Nodup := by
      rw [slots, List.map_map]
      exact hnames
    rw [scalars?, List.cons_append, toOption_read_map, List.append_assoc, List.append_assoc]
    refine readMembers_object hslots h hgap' ?_ rest
    have hroom := length_le_intercalate entries
    rw [List.length_append, List.length_append]
    omega
  | natural h =>
    obtain ⟨c, tail, rfl, hc⟩ := h.exists_digit
    exact read_of_head (isGap_of_isDigit hc) (by rintro rfl; contradiction)
      (by rintro rfl; contradiction) _
  | number h =>
    obtain ⟨c, tail, rfl, rfl | hc⟩ := h.exists_begins
    · exact read_of_head (by decide) (by decide) (by decide) _
    · exact read_of_head (isGap_of_isDigit hc) (by rintro rfl; contradiction)
        (by rintro rfl; contradiction) _
  | _ => exact read_of_head (by decide) (by decide) (by decide) _

theorem toOption_endDocument {α : Type} (result : Except Fault (α × List Char)) :
    (endDocument result).toOption =
      result.toOption.bind fun p => if (skipGaps p.2).isEmpty then some p.1 else none := by
  cases result with
  | error fault => rfl
  | ok p =>
    rw [endDocument, toOption_ok, Option.bind_some]
    split <;> rfl

/-- What a document is read as depends on its value alone. -/
theorem IsDocument.toOption_read {shape : Shape} {text : String} (h : IsDocument v text)
    (hnames : (shape.fields.map Prod.fst).Nodup) (hne : shape.fields ≠ []) :
    (endDocument (shape.read text.toList)).toOption = shape.scalars? v := by
  obtain ⟨x, rfl, hx, htext⟩ := h
  have hend : skipGaps x.after = [] := by
    have hskip := skipGaps_append x.after_gaps []
    rwa [List.append_nil] at hskip
  rw [htext, Item.written, toOption_endDocument, Shape.read_spells hnames hne hx x.before_gaps,
    Option.bind_map]
  simp only [Function.comp_def, hend, List.isEmpty_nil, if_pos]
  exact Option.bind_fun_some _

end CoalescingQueue.Json
