import CoalescingQueue.Proofs.Values

/-!
# Values are swept over

Whatever a value is, and whatever brackets are open around it, the sweep comes out just behind its
spelling. Pieces of a spelling bring it from one place to another, and the pieces are put together
along the grammar: the parts of a numeral, the characters of a text, the elements and members of
what stands in brackets.
-/
namespace CoalescingQueue.Json

variable {brackets : List Bracket} {cs gap rest : List Char} {isKey : Bool}
  {place place' place'' : SkipPlace}

/-- These characters bring the sweep from one place to another, with the same brackets open. -/
def Passes (brackets : List Bracket) (place : SkipPlace) (cs : List Char) (place' : SkipPlace) :
    Prop :=
  ∀ rest, skipFrom place brackets (cs ++ rest) = skipFrom place' brackets rest

theorem Passes.refl : Passes brackets place [] place := fun _ => rfl

theorem Passes.append {ds : List Char} (h : Passes brackets place cs place')
    (h' : Passes brackets place' ds place'') : Passes brackets place (cs ++ ds) place'' := by
  intro rest
  rw [List.append_assoc, h, h']

/-- What is left to sweep over once a value has ended. -/
def resume (brackets : List Bracket) (rest : List Char) : Except Fault (List Char) :=
  if brackets.isEmpty then .ok rest else skipFrom .done brackets rest

/-- The sweep passes over these characters as over a value. -/
def Skips (cs : List Char) : Prop :=
  ∀ brackets rest, EndsNumber rest → skipFrom .value brackets (cs ++ rest) = resume brackets rest

/-! ## Gaps -/

/-- Gaps may stand here. -/
inductive SkipPlace.Waits : SkipPlace → Prop
  | value : Waits .value
  | opened : Waits .opened
  | done : Waits .done
  | key : Waits .key
  | colon : Waits .colon

theorem SkipPlace.Waits.passes (h : place.Waits) (hgap : AreGaps gap) :
    Passes brackets place gap place := by
  induction gap with
  | nil => exact .refl
  | cons c gap ih =>
    obtain ⟨hc, hrest⟩ := List.forall_mem_cons.mp hgap
    have hgo : Passes brackets place [c] place := by
      intro rest
      cases h <;> simp [skipFrom, isLeftBy, endsNumber, overruns, step, hc]
    exact hgo.append (ih hrest)

/-! ## Texts -/

theorem SpellsUnit.passes {n : Nat} (h : SpellsUnit cs n) :
    Passes brackets (.digits isKey 4) cs (.text isKey) := by
  have hdigit {c : Char} {d left : Nat} (hc : IsHex c d) : Passes brackets (.digits isKey left) [c]
      (if left ≤ 1 then .text isKey else .digits isKey (left - 1)) := by
    intro rest
    by_cases hleft : left ≤ 1 <;>
      simp [skipFrom, SkipPlace.isLeftBy, SkipPlace.endsNumber, SkipPlace.overruns, SkipPlace.step,
        hc.hexValue?_eq, hleft]
  obtain ⟨ha, hb, hc, hd⟩ := h
  exact (hdigit ha).append ((hdigit hb).append ((hdigit hc).append (hdigit hd)))

theorem SpellsUnit.passes_escape {n : Nat} (h : SpellsUnit cs n) :
    Passes brackets (.text isKey) ('\\' :: 'u' :: cs) (.text isKey) := by
  have hstart : Passes brackets (.text isKey) ['\\'] (.escaped isKey) := fun _ => rfl
  refine hstart.append fun rest => ?_
  have hfour := h.hasFourBytes_append rest
  rw [List.cons_append, ← h.passes]
  simp [skipFrom, SkipPlace.isLeftBy, SkipPlace.endsNumber, SkipPlace.overruns, SkipPlace.step,
    hfour]

theorem SpellsChar.passes {c : Char} (h : SpellsChar c cs) :
    Passes brackets (.text isKey) cs (.text isKey) := by
  cases h with
  | plain hquote hslash hcontrol =>
    intro rest
    simp [skipFrom, SkipPlace.isLeftBy, SkipPlace.endsNumber, SkipPlace.overruns, SkipPlace.step,
      hquote, hslash, Nat.not_lt_of_le hcontrol]
  | letter h =>
    simp only [letters, List.mem_cons, Prod.mk.injEq, List.not_mem_nil, or_false] at h
    rcases h with ⟨rfl, rfl⟩ | ⟨rfl, rfl⟩ | ⟨rfl, rfl⟩ | ⟨rfl, rfl⟩ | ⟨rfl, rfl⟩ | ⟨rfl, rfl⟩ |
      ⟨rfl, rfl⟩ | ⟨rfl, rfl⟩ <;> exact fun _ => rfl
  | number h => exact h.passes_escape
  | pair hfirst hsecond => exact hfirst.passes_escape.append hsecond.passes_escape

theorem SpellsText.passes {s : String} (h : SpellsText s cs) :
    Passes brackets (.text isKey) cs (.text isKey) := by
  obtain ⟨pieces, hpieces, rfl⟩ := h
  generalize s.toList = chars at hpieces
  induction hpieces with
  | nil => exact .refl
  | cons hc _ ih => exact hc.passes.append ih

/-! ## Numerals -/

/-- Digits may go on here. -/
inductive SkipPlace.Counts : SkipPlace → Prop
  | whole : Counts .whole
  | places : Counts .places
  | power : Counts .power

theorem SkipPlace.Counts.passes {digits : List Char} (h : place.Counts)
    (hdigits : ∀ c ∈ digits, c.isDigit = true) : Passes brackets place digits place := by
  induction digits with
  | nil => exact .refl
  | cons c digits ih =>
    obtain ⟨hc, hrest⟩ := List.forall_mem_cons.mp hdigits
    have hgo : Passes brackets place [c] place := by
      intro rest
      cases h <;> simp [skipFrom, isLeftBy, endsNumber, overruns, step, number?, hc]
    exact hgo.append (ih hrest)

/-- The first digit leads to where more of them may go on. -/
theorem passes_of_areDigits {digits : List Char} (h : Text.AreDigits digits)
    (hplace : place' = .places ∧ place = .point ∨
      place' = .power ∧ (place = .exponent ∨ place = .exponentSign)) :
    Passes brackets place digits place' := by
  obtain ⟨c, more, rfl⟩ := List.exists_cons_of_ne_nil h.ne_nil
  obtain ⟨hc, hmore⟩ := List.forall_mem_cons.mp h.isDigit
  have hfirst : Passes brackets place [c] place' := by
    intro rest
    rcases hplace with ⟨rfl, rfl⟩ | ⟨rfl, rfl | rfl⟩ <;>
      simp [skipFrom, SkipPlace.isLeftBy, SkipPlace.endsNumber, SkipPlace.overruns, SkipPlace.step,
        SkipPlace.number?, hc]
  refine hfirst.append (SkipPlace.Counts.passes ?_ hmore)
  rcases hplace with ⟨rfl, -⟩ | ⟨rfl, -⟩
  · exact .places
  · exact .power

theorem beginValue?_of_isDigit {c : Char} (hc : c.isDigit = true) (hzero : c ≠ '0') :
    beginValue? c brackets = some (.whole, brackets) := by
  unfold beginValue?
  split
  case h_5 => contradiction
  case h_9 => rw [if_pos hc]
  all_goals contradiction

/-- A value or the digits behind a sign have to begin here. -/
theorem IsWhole.passes (h : IsWhole cs) (brackets : List Bracket)
    (hplace : place = .value ∨ place = .minus) :
    ∃ place', Passes brackets place cs place' ∧ (place' = .zero ∨ place' = .whole) := by
  obtain ⟨c, digits, rfl, hc⟩ := h.exists_digit
  by_cases hzero : c = '0'
  · subst hzero
    obtain rfl := h.eq_nil _ rfl
    refine ⟨.zero, ?_, .inl rfl⟩
    rcases hplace with rfl | rfl <;> exact fun _ => rfl
  · have hgap := isGap_of_isDigit hc
    have hfirst : Passes brackets place [c] .whole := by
      intro rest
      rcases hplace with rfl | rfl <;>
        simp [skipFrom, SkipPlace.isLeftBy, SkipPlace.endsNumber, SkipPlace.overruns,
          SkipPlace.step, stepValue, beginValue?_of_isDigit hc hzero, SkipPlace.number?, hgap,
          hzero, hc]
    obtain ⟨-, hmore⟩ := List.forall_mem_cons.mp h.areDigits.isDigit
    exact ⟨.whole, hfirst.append (SkipPlace.Counts.whole.passes hmore), .inr rfl⟩

theorem IsFraction.passes (h : IsFraction cs) (brackets : List Bracket)
    (hplace : place = .zero ∨ place = .whole) :
    ∃ place', Passes brackets place cs place' ∧
      (place' = .zero ∨ place' = .whole ∨ place' = .places) := by
  cases h with
  | absent => exact ⟨place, .refl, hplace.imp_right .inl⟩
  | @present digits h =>
    have hpoint : Passes brackets place ['.'] .point := by
      rcases hplace with rfl | rfl <;> exact fun _ => rfl
    have hdigits : Passes brackets .point digits .places :=
      passes_of_areDigits h (.inl ⟨rfl, rfl⟩)
    exact ⟨.places, hpoint.append hdigits, .inr (.inr rfl)⟩

theorem IsExponent.passes (h : IsExponent cs) (brackets : List Bracket)
    (hplace : place = .zero ∨ place = .whole ∨ place = .places) :
    ∃ place', Passes brackets place cs place' ∧ place'.endsNumber = true := by
  cases h with
  | absent => exact ⟨place, .refl, by rcases hplace with rfl | rfl | rfl <;> rfl⟩
  | @present letter sign digits hletter hsign h =>
    have hbegin : Passes brackets place [letter] .exponent := by
      rcases hletter with rfl | rfl <;> rcases hplace with rfl | rfl | rfl <;> exact fun _ => rfl
    have hsigned : Passes brackets .exponent (sign ++ digits) .power := by
      rcases hsign with rfl | hsign
      · exact passes_of_areDigits h (.inr ⟨rfl, .inl rfl⟩)
      · have hgo : Passes brackets .exponent sign .exponentSign := by
          rcases hsign with rfl | rfl <;> exact fun _ => rfl
        exact hgo.append (passes_of_areDigits h (.inr ⟨rfl, .inr rfl⟩))
    exact ⟨.power, hbegin.append hsigned, rfl⟩

/-- A number ends where something follows that belongs to no numeral. -/
theorem skipFrom_of_endsNumber (hplace : place.endsNumber = true) (hrest : EndsNumber rest) :
    skipFrom place brackets rest = resume brackets rest := by
  cases rest with
  | nil => cases brackets <;> cases place <;> first | contradiction | rfl
  | cons c rest =>
    obtain ⟨hdigit, hpoint, hletter⟩ := hrest c rfl
    have hleft : place.isLeftBy c = true := by
      simp only [startsExponent, Bool.or_eq_false_iff, decide_eq_false_iff_not] at hletter
      cases place <;>
        first
        | contradiction
        | simp [SkipPlace.isLeftBy, SkipPlace.endsNumber, SkipPlace.number?, hdigit, hpoint,
            hletter]
    cases brackets with
    | nil =>
      rw [skipFrom]
      simp [hleft, resume]
    | cons b brackets =>
      have hover : place.overruns c rest = false := by cases place <;> first | contradiction | rfl
      rw [skipFrom, hleft, hover]
      rfl

theorem IsNumeral.passes (h : IsNumeral cs) (brackets : List Bracket) :
    ∃ place', Passes brackets .value cs place' ∧ place'.endsNumber = true := by
  obtain @⟨sign, whole, fraction, exponent, hsign, hwhole, hfraction, hexponent⟩ := h
  have hsigned :
      ∃ place, Passes brackets .value sign place ∧ (place = .value ∨ place = .minus) := by
    rcases hsign with rfl | rfl
    · exact ⟨.value, .refl, .inl rfl⟩
    · exact ⟨.minus, fun _ => rfl, .inr rfl⟩
  obtain ⟨place, hsigned, hplace⟩ := hsigned
  obtain ⟨place₁, hwhole, hplace₁⟩ := hwhole.passes brackets hplace
  obtain ⟨place₂, hfraction, hplace₂⟩ := hfraction.passes brackets hplace₁
  obtain ⟨place₃, hexponent, hplace₃⟩ := hexponent.passes brackets hplace₂
  exact ⟨place₃, hsigned.append (hwhole.append (hfraction.append hexponent)), hplace₃⟩

theorem IsNumeral.skips (h : IsNumeral cs) : Skips cs := by
  intro brackets rest hrest
  obtain ⟨place, hpasses, hplace⟩ := h.passes brackets
  rw [hpasses, skipFrom_of_endsNumber hplace hrest]

theorem IsWhole.isNumeral (h : IsWhole cs) : IsNumeral cs := by
  have hparts := IsNumeral.parts (.inl rfl) h .absent .absent
  rwa [List.append_nil, List.append_nil, List.nil_append] at hparts

/-! ## Brackets -/

theorem SpellsText.skips {s : String} (h : SpellsText s cs) : Skips ('"' :: (cs ++ ['"'])) := by
  intro brackets rest _
  have hopen : Passes brackets .value ['"'] (.text false) := fun _ => rfl
  have hbody := (hopen.append h.passes) ('"' :: rest)
  rw [List.cons_append, List.append_assoc]
  refine hbody.trans ?_
  cases brackets <;> rfl

def Bracket.opening : Bracket → Char
  | .list => '['
  | .map => '\x7b'

/-- What has to begin behind a comma. -/
def Bracket.next : Bracket → SkipPlace
  | .list => .value
  | .map => .key

/-- The piece may stand in a bracket, behind a comma or as the first one. -/
def Fills (b : Bracket) (piece : List Char) : Prop :=
  ∀ place, place = b.next ∨ place = .opened → ∀ brackets rest, EndsNumber rest →
    skipFrom place (b :: brackets) (piece ++ rest) = skipFrom .done (b :: brackets) rest

theorem Spells.skipFrom_opened {v : Value} (h : Spells v cs) (rest : List Char) :
    skipFrom .opened (.list :: brackets) (cs ++ rest) =
      skipFrom .value (.list :: brackets) (cs ++ rest) := by
  obtain ⟨c, tail, rfl, hc⟩ := h.exists_begins
  have hclose : c ≠ ']' := by
    rintro rfl
    exact hc.notMem (by decide)
  simp [skipFrom, SkipPlace.isLeftBy, SkipPlace.endsNumber, SkipPlace.overruns, SkipPlace.step,
    hc.isGap_eq, stepOpened, Bracket.closing, hclose]

theorem Item.fills {x : Item} (hx : Spells x.value x.body) (h : Skips x.body) :
    Fills .list x.written := by
  intro place hplace brackets rest hrest
  have hwaits : place.Waits := by
    rcases hplace with rfl | rfl
    · exact .value
    · exact .opened
  have hvalue : skipFrom place (.list :: brackets) (x.body ++ (x.after ++ rest)) =
      skipFrom .value (.list :: brackets) (x.body ++ (x.after ++ rest)) := by
    rcases hplace with rfl | rfl
    · rfl
    · exact hx.skipFrom_opened _
  calc
    _ = skipFrom place (.list :: brackets) (x.body ++ (x.after ++ rest)) := by
      rw [written, List.append_assoc, List.append_assoc, hwaits.passes x.before_gaps]
    _ = skipFrom .done (.list :: brackets) (x.after ++ rest) :=
      hvalue.trans (h _ _ (.gaps_append x.after_gaps hrest))
    _ = _ := SkipPlace.Waits.done.passes x.after_gaps rest

theorem Entry.fills {e : Entry} (h : Skips e.item.body) : Fills .map e.written := by
  intro place hplace brackets rest hrest
  have hwaits : place.Waits := by
    rcases hplace with rfl | rfl
    · exact .key
    · exact .opened
  have hopen : Passes (.map :: brackets) place ['"'] (.text true) := by
    rcases hplace with rfl | rfl <;> exact fun _ => rfl
  have hclose : Passes (.map :: brackets) (.text true) ['"'] .colon := fun _ => rfl
  have hcolon : Passes (.map :: brackets) .colon [':'] .value := fun _ => rfl
  have hfront := (hwaits.passes e.before_gaps).append (hopen.append (e.spells_name.passes.append
    (hclose.append ((SkipPlace.Waits.colon.passes e.between_gaps).append
      (hcolon.append (SkipPlace.Waits.value.passes e.item.before_gaps))))))
  calc
    _ = skipFrom .value (.map :: brackets) (e.item.body ++ (e.item.after ++ rest)) := by
      rw [← hfront]
      simp [written, Item.written]
    _ = skipFrom .done (.map :: brackets) (e.item.after ++ rest) :=
      h _ _ (.gaps_append e.item.after_gaps hrest)
    _ = _ := SkipPlace.Waits.done.passes e.item.after_gaps rest

/-- After a value in a bracket: what stands behind it, and the end of the bracket. -/
theorem skipFrom_row {b : Bracket} {pieces : List (List Char)} (h : ∀ piece ∈ pieces, Fills b piece)
    (rest : List Char) :
    skipFrom .done (b :: brackets) (pieces.flatMap (',' :: ·) ++ b.closing :: rest) =
      resume brackets rest := by
  induction pieces with
  | nil => cases b <;> cases brackets <;> rfl
  | cons piece pieces ih =>
    obtain ⟨hpiece, hrest⟩ := List.forall_mem_cons.mp h
    have hcomma : Passes (b :: brackets) .done [','] b.next := by cases b <;> exact fun _ => rfl
    have hclose : b.closing ∈ ['\x7d', ']'] := by cases b <;> decide
    have hend := endsNumber_row hclose areGaps_nil pieces rest
    calc
      _ = skipFrom b.next (b :: brackets)
          (piece ++ (pieces.flatMap (',' :: ·) ++ b.closing :: rest)) := by
        rw [List.flatMap_cons, List.append_assoc]
        exact hcomma _
      _ = _ := (hpiece _ (.inl rfl) _ _ hend).trans (ih hrest)

theorem skips_brackets {b : Bracket} {pieces : List (List Char)}
    (h : ∀ piece ∈ pieces, Fills b piece) (hgap : AreGaps gap) :
    Skips (b.opening :: (gap ++ ([','].intercalate pieces ++ [b.closing]))) := by
  intro brackets rest _
  have hopen (cs : List Char) : skipFrom .value brackets (b.opening :: cs) =
      skipFrom .opened (b :: brackets) cs := by cases b <;> rfl
  rw [List.cons_append, hopen, List.append_assoc, SkipPlace.Waits.opened.passes hgap,
    List.append_assoc]
  cases pieces with
  | nil => cases b <;> cases brackets <;> rfl
  | cons piece pieces =>
    obtain ⟨hpiece, hrest⟩ := List.forall_mem_cons.mp h
    have hclose : b.closing ∈ ['\x7d', ']'] := by cases b <;> decide
    have hend := endsNumber_row hclose areGaps_nil pieces rest
    rw [intercalate_comma, List.append_assoc]
    exact (hpiece _ (.inr rfl) _ _ hend).trans (skipFrom_row hrest rest)

/-- Every value is passed over, in whatever brackets it stands. -/
theorem Spells.skips {v : Value} (h : Spells v cs) : Skips cs := by
  induction h with
  | null | true | false =>
    intro brackets rest _
    cases brackets <;> rfl
  | natural h => exact h.isNumeral.skips
  | number h => exact h.skips
  | text h => exact h.skips
  | @list gap items hgap h ih =>
    refine skips_brackets (b := .list) (List.forall_mem_map.mpr fun x hx => ?_) hgap
    exact Item.fills (h x hx) (ih x hx)
  | @map gap entries hgap h ih =>
    refine skips_brackets (b := .map) (List.forall_mem_map.mpr fun e he => ?_) hgap
    exact Entry.fills (ih e he)

theorem Spells.skipValue_append {v : Value} (h : Spells v cs) (hgap : AreGaps gap)
    (hrest : EndsNumber rest) : skipValue (gap ++ (cs ++ rest)) = .ok rest := by
  rw [skipValue, SkipPlace.Waits.value.passes hgap, h.skips _ _ hrest]
  rfl

end CoalescingQueue.Json
