import CoalescingQueue.Proofs.Literals

/-!
# Values and how they are spelled

A JSON value has many spellings: gaps may stand around everything, characters of a text may be
escaped in several ways, and members of an object come in any order and may share a name. Numerals
count as natural numbers if they are digits alone, and of all others only that they are numerals is
kept. The escapes of a text name whole characters, so that a surrogate never stands on its own.
Nothing is said of texts that spell no value.
-/
namespace CoalescingQueue.Json

variable {cs rest gap : List Char} {n : Nat}

inductive Value
  | null
  | boolean (b : Bool)
  | natural (n : Nat)
  /-- A numeral with a sign, a fraction or an exponent. -/
  | number
  | text (s : String)
  | list (elements : List Value)
  | map (members : List (String × Value))

/-! ## Numerals -/

/-- A point with digits behind it, or nothing. -/
inductive IsFraction : List Char → Prop
  | absent : IsFraction []
  | present {digits : List Char} (h : Text.AreDigits digits) : IsFraction ('.' :: digits)

/-- The letter of an exponent with digits behind it, perhaps after a sign, or nothing. -/
inductive IsExponent : List Char → Prop
  | absent : IsExponent []
  | present {letter : Char} {sign digits : List Char} (hletter : letter = 'e' ∨ letter = 'E')
      (hsign : sign = [] ∨ sign = ['+'] ∨ sign = ['-']) (h : Text.AreDigits digits) :
      IsExponent (letter :: (sign ++ digits))

inductive IsNumeral : List Char → Prop
  | parts {sign whole fraction exponent : List Char} (hsign : sign = [] ∨ sign = ['-'])
      (hwhole : IsWhole whole) (hfraction : IsFraction fraction)
      (hexponent : IsExponent exponent) : IsNumeral (sign ++ (whole ++ (fraction ++ exponent)))

/-! ## Layout -/

/-- A value with its spelling and the gaps around it. -/
structure Item where
  value : Value
  body : List Char
  before : List Char := []
  after : List Char := []
  before_gaps : AreGaps before := by decide
  after_gaps : AreGaps after := by decide

def Item.written (x : Item) : List Char := x.before ++ (x.body ++ x.after)

/-- A member of an object: a spelled name, and a value behind a colon. -/
structure Entry where
  name : String
  spelled : List Char
  item : Item
  before : List Char := []
  between : List Char := []
  spells_name : SpellsText name spelled
  before_gaps : AreGaps before := by decide
  between_gaps : AreGaps between := by decide

namespace Entry

def member (e : Entry) : String × Value := (e.name, e.item.value)

def written (e : Entry) : List Char :=
  e.before ++ '"' :: (e.spelled ++ '"' :: (e.between ++ ':' :: e.item.written))

end Entry

/-- The text is a spelling of this value, with no gaps around it. -/
inductive Spells : Value → List Char → Prop
  | null : Spells .null ['n', 'u', 'l', 'l']
  | true : Spells (.boolean true) ['t', 'r', 'u', 'e']
  | false : Spells (.boolean false) ['f', 'a', 'l', 's', 'e']
  | natural {cs : List Char} (h : IsWhole cs) : Spells (.natural (Nat.ofDigitChars 10 cs 0)) cs
  | number {cs : List Char} (h : IsNumeral cs) (hnot : ¬ IsWhole cs) : Spells .number cs
  | text {s : String} {cs : List Char} (h : SpellsText s cs) :
      Spells (.text s) ('"' :: (cs ++ ['"']))
  | list {gap : List Char} {items : List Item} (hgap : AreGaps gap)
      (h : ∀ x ∈ items, Spells x.value x.body) :
      Spells (.list (items.map Item.value))
        ('[' :: (gap ++ ([','].intercalate (items.map Item.written) ++ [']'])))
  | map {gap : List Char} {entries : List Entry} (hgap : AreGaps gap)
      (h : ∀ e ∈ entries, Spells e.item.value e.item.body) :
      Spells (.map (entries.map Entry.member))
        ('\x7b' :: (gap ++ ([','].intercalate (entries.map Entry.written) ++ ['\x7d'])))

/-- A text that spells this value, perhaps with gaps around it. -/
def IsDocument (v : Value) (text : String) : Prop :=
  ∃ x : Item, x.value = v ∧ Spells x.value x.body ∧ text.toList = x.written

/-! ## How spellings begin and go on -/

/-- Values begin with these characters. -/
def Begins (c : Char) : Prop := c.isDigit = true ∨ c ∈ ['n', 't', 'f', '-', '"', '[', '\x7b']

instance : DecidablePred Begins := fun _ => inferInstanceAs (Decidable (_ ∨ _))

theorem Begins.isGap_eq {c : Char} (h : Begins c) : isGap c = false := by
  rcases h with hc | hc
  · exact isGap_of_isDigit hc
  · simp only [List.mem_cons, List.not_mem_nil, or_false] at hc
    rcases hc with rfl | rfl | rfl | rfl | rfl | rfl | rfl <;> rfl

theorem Begins.notMem {c : Char} (h : Begins c) : c ∉ [',', '\x7d', ']'] := by
  intro hc
  simp only [List.mem_cons, List.not_mem_nil, or_false] at hc
  rcases hc with rfl | rfl | rfl <;> exact absurd h (by decide)

theorem IsNumeral.exists_begins (h : IsNumeral cs) :
    ∃ c tail, cs = c :: tail ∧ (c = '-' ∨ c.isDigit = true) := by
  obtain ⟨hsign, hwhole, -, -⟩ := h
  rcases hsign with rfl | rfl
  · obtain ⟨c, digits, rfl, hc⟩ := hwhole.exists_digit
    exact ⟨c, _, rfl, .inr hc⟩
  · exact ⟨'-', _, rfl, .inl rfl⟩

theorem Spells.exists_begins {v : Value} (h : Spells v cs) :
    ∃ c tail, cs = c :: tail ∧ Begins c := by
  cases h with
  | natural h =>
    obtain ⟨c, tail, rfl, hc⟩ := h.exists_digit
    exact ⟨c, tail, rfl, .inl hc⟩
  | number h =>
    obtain ⟨c, tail, rfl, rfl | hc⟩ := h.exists_begins
    · exact ⟨'-', tail, rfl, .inr (by decide)⟩
    · exact ⟨c, tail, rfl, .inl hc⟩
  | _ => exact ⟨_, _, rfl, .inr (by decide)⟩

/-- No gap is left in front of a value. -/
theorem Spells.skipGaps_append {v : Value} (h : Spells v cs) (hgap : AreGaps gap)
    (rest : List Char) : skipGaps (gap ++ (cs ++ rest)) = cs ++ rest := by
  obtain ⟨c, tail, rfl, hc⟩ := h.exists_begins
  rw [Json.skipGaps_append hgap]
  exact skipGaps_of_head hc.isGap_eq _

theorem intercalate_comma (piece : List Char) (pieces : List (List Char)) :
    [','].intercalate (piece :: pieces) = piece ++ pieces.flatMap (',' :: ·) := by
  induction pieces generalizing piece with
  | nil => rw [List.intercalate_singleton, List.flatMap_nil, List.append_nil]
  | cons next pieces ih =>
    rw [List.intercalate_cons_cons, ih, List.flatMap_cons, List.append_assoc]
    rfl

/-- What stands behind a value in brackets does not go on with a number. -/
theorem endsNumber_row {close : Char} (hclose : close ∈ ['\x7d', ']']) (hgap : AreGaps gap)
    (pieces : List (List Char)) (rest : List Char) :
    EndsNumber (gap ++ (pieces.flatMap (',' :: ·) ++ close :: rest)) := by
  refine .gaps_append hgap ?_
  cases pieces with
  | nil => exact .of_token (.inr (List.mem_cons_of_mem _ hclose)) rest
  | cons piece pieces => exact .of_token (.inr List.mem_cons_self) _

end CoalescingQueue.Json
