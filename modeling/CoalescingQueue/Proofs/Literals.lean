import CoalescingQueue.Json.Record
import CoalescingQueue.Proofs.Numerals
import Mathlib.Data.List.Forall2
import Mathlib.Data.List.TakeDrop
import Mathlib.Tactic.IntervalCases

/-!
# Scalars in any spelling

A text comes back character by character, whichever way each of them is escaped. A number is read
as a natural one exactly if it has neither a sign nor a fraction nor an exponent and fits in a word.
Its digits have no zero in front, and they end where something follows that belongs to no numeral.
-/
namespace CoalescingQueue.Json

variable {cs digits gap rest seen : List Char} {n value : Nat}

/-! ## Texts -/

/-- A hexadecimal digit, in either case. -/
def IsHex (c : Char) (d : Nat) : Prop :=
  d < 16 ∧ (c = Nat.digitChar d ∨ c = (Nat.digitChar d).toUpper)

/-- Four hexadecimal digits. -/
inductive SpellsUnit : List Char → Nat → Prop
  | digits {a b c d : Char} {i j k l : Nat} (ha : IsHex a i) (hb : IsHex b j) (hc : IsHex c k)
      (hd : IsHex d l) : SpellsUnit [a, b, c, d] (((i * 16 + j) * 16 + k) * 16 + l)

/-- The letters of escapes, each with the character it stands for. -/
def letters : List (Char × Char) :=
  [('"', '"'), ('\\', '\\'), ('/', '/'), ('b', '\x08'), ('f', '\x0c'), ('n', '\n'), ('r', '\r'),
    ('t', '\t')]

/-- One character of a text: as it is, by a letter, by its number, or by a pair of surrogates. -/
inductive SpellsChar (c : Char) : List Char → Prop
  | plain (hquote : c ≠ '"') (hslash : c ≠ '\\') (hcontrol : 0x20 ≤ c.toNat) : SpellsChar c [c]
  | letter {e : Char} (h : (e, c) ∈ letters) : SpellsChar c ['\\', e]
  | number {unit : List Char} (h : SpellsUnit unit c.toNat) : SpellsChar c ('\\' :: 'u' :: unit)
  | pair {first second : List Char} {high low : Nat} (hfirst : SpellsUnit first high)
      (hsecond : SpellsUnit second low) (hhigh : 0xD800 ≤ high ∧ high ≤ 0xDBFF)
      (hlow : 0xDC00 ≤ low ∧ low ≤ 0xDFFF)
      (hvalue : c.toNat = 0x10000 + (high - 0xD800) * 0x400 + (low - 0xDC00)) :
      SpellsChar c ('\\' :: 'u' :: (first ++ '\\' :: 'u' :: second))

/-- The characters of a text one by one. -/
def SpellsText (s : String) (body : List Char) : Prop :=
  ∃ pieces, List.Forall₂ SpellsChar s.toList pieces ∧ body = pieces.flatten

theorem IsHex.hexValue?_eq {c : Char} {d : Nat} (h : IsHex c d) : hexValue? c = some d := by
  obtain ⟨hd, hc⟩ := h
  interval_cases d <;> rcases hc with rfl | rfl <;> rfl

/-- Characters take at least a byte each. -/
theorem SpellsUnit.hasFourBytes_append (h : SpellsUnit cs n) (rest : List Char) :
    hasFourBytes (cs ++ rest) = true := by
  obtain @⟨a, b, c, d⟩ := h
  have ha := a.utf8Size_pos
  have hb := b.utf8Size_pos
  have hc := c.utf8Size_pos
  have hd := d.utf8Size_pos
  refine decide_eq_true ?_
  simp only [List.cons_append, List.take_succ_cons, List.take_zero, byteCount, List.foldr_cons,
    List.foldr_nil]
  omega

theorem readTextFrom_digit {high : Option Nat} {left d : Nat} {c : Char}
    (hc : hexValue? c = some d) (hleft : 1 < left) :
    readTextFrom (.digits high left value) seen (c :: rest) =
      readTextFrom (.digits high (left - 1) (value * 16 + d)) seen rest := by
  rw [readTextFrom, hc]
  exact if_neg (Nat.not_le_of_lt hleft)

/-- Where the reader goes on once an escape by number is complete. -/
def afterUnit (seen rest : List Char) : Except Fault (Char ⊕ Nat) → Reading String
  | .ok (.inl c) => readTextFrom .plain (c :: seen) rest
  | .ok (.inr high) => readTextFrom (.paired high) seen rest
  | .error fault => .error fault

theorem readTextFrom_lastDigit {high : Option Nat} {d : Nat} {c : Char}
    (hc : hexValue? c = some d) : readTextFrom (.digits high 1 value) seen (c :: rest) =
      afterUnit seen rest (joinUnit high (value * 16 + d)) := by
  rw [readTextFrom, hc]
  dsimp only
  rw [if_pos (Nat.le_refl 1)]
  unfold afterUnit
  rfl

theorem SpellsUnit.readTextFrom_append {high : Option Nat} (h : SpellsUnit cs n)
    (seen rest : List Char) : readTextFrom (.digits high 4 0) seen (cs ++ rest) =
      afterUnit seen rest (joinUnit high n) := by
  obtain ⟨ha, hb, hc, hd⟩ := h
  rw [List.cons_append, readTextFrom_digit ha.hexValue?_eq (by decide), List.cons_append,
    readTextFrom_digit hb.hexValue?_eq (by decide), List.cons_append,
    readTextFrom_digit hc.hexValue?_eq (by decide), List.cons_append,
    readTextFrom_lastDigit hd.hexValue?_eq, Nat.zero_mul, Nat.zero_add]
  rfl

theorem joinUnit_toNat (c : Char) : joinUnit none c.toNat = .ok (.inl c) := by
  have hvalid : c.toNat < 0xD800 ∨ 0xDFFF < c.toNat ∧ c.toNat < 0x110000 := c.valid
  have hlow : isLowSurrogate c.toNat = false := by
    simp [isLowSurrogate]
    omega
  have hhigh : isHighSurrogate c.toNat = false := by
    simp [isHighSurrogate]
    omega
  simp [joinUnit, hlow, hhigh, Char.ofNat_toNat]

theorem SpellsChar.readTextFrom_append {c : Char} (h : SpellsChar c cs) (seen rest : List Char) :
    readTextFrom .plain seen (cs ++ rest) = readTextFrom .plain (c :: seen) rest := by
  cases h with
  | plain hquote hslash hcontrol =>
    rw [List.singleton_append, readTextFrom, if_neg hquote, if_neg hslash,
      if_neg (Nat.not_lt_of_le hcontrol)]
  | letter h =>
    simp only [letters, List.mem_cons, Prod.mk.injEq, List.not_mem_nil, or_false] at h
    rcases h with ⟨rfl, rfl⟩ | ⟨rfl, rfl⟩ | ⟨rfl, rfl⟩ | ⟨rfl, rfl⟩ | ⟨rfl, rfl⟩ | ⟨rfl, rfl⟩ |
      ⟨rfl, rfl⟩ | ⟨rfl, rfl⟩ <;> rfl
  | @number unit h =>
    calc
      _ = readTextFrom (.digits none 4 0) seen (unit ++ rest) :=
        if_pos (h.hasFourBytes_append rest)
      _ = _ := by
        rw [h.readTextFrom_append, joinUnit_toNat]
        rfl
  | @pair first second high low hfirst hsecond hhigh hlow hvalue =>
    have hwait : joinUnit none high = .ok (.inr high) := by
      have hnot : isLowSurrogate high = false := by
        simp [isLowSurrogate]
        omega
      simp [joinUnit, hnot, isHighSurrogate, hhigh]
    have hjoin : joinUnit (some high) low = .ok (.inl c) := by
      simp [joinUnit, isLowSurrogate, hlow, joinSurrogates, ← hvalue, Char.ofNat_toNat]
    rw [List.cons_append, List.cons_append, List.append_assoc]
    calc
      _ = readTextFrom (.digits none 4 0) seen (first ++ '\\' :: 'u' :: (second ++ rest)) :=
        if_pos (hfirst.hasFourBytes_append _)
      _ = readTextFrom (.paired high) seen ('\\' :: 'u' :: (second ++ rest)) := by
        rw [hfirst.readTextFrom_append, hwait]
        rfl
      _ = readTextFrom (.digits (some high) 4 0) seen (second ++ rest) :=
        if_pos (hsecond.hasFourBytes_append _)
      _ = _ := by
        rw [hsecond.readTextFrom_append, hjoin]
        rfl

/-- A text without its opening quote. -/
theorem SpellsText.readText_append {s : String} (h : SpellsText s cs) (rest : List Char) :
    readText (cs ++ '"' :: rest) = .ok (s, rest) := by
  have hfrom {chars seen : List Char} {pieces : List (List Char)}
      (h : List.Forall₂ SpellsChar chars pieces) :
      readTextFrom .plain seen (pieces.flatten ++ '"' :: rest) =
        .ok (String.ofList (seen.reverse ++ chars), rest) := by
    induction h generalizing seen with
    | nil =>
      rw [List.append_nil]
      rfl
    | cons hc _ ih =>
      rw [List.flatten_cons, List.append_assoc, hc.readTextFrom_append, ih, List.reverse_cons,
        List.append_assoc]
      rfl
  obtain ⟨pieces, hpieces, rfl⟩ := h
  rw [readText, hfrom hpieces, List.reverse_nil, List.nil_append, String.ofList_toList]

/-- Each character is written in one of the ways in which it may be spelled. -/
theorem spellsChar_escape (c : Char) : SpellsChar c (escape c) := by
  unfold escape
  -- seven characters have a letter of their own
  iterate 7
    split
    · next hc =>
      subst hc
      exact .letter (by decide)
  split
  · next hc =>
    have hhex (n : Nat) : IsHex (hexDigit n) (n % 16) := ⟨Nat.mod_lt n (by decide), .inl rfl⟩
    have hzero : IsHex '0' 0 := ⟨by decide, .inl rfl⟩
    have hunit := SpellsUnit.digits hzero hzero (hhex (c.toNat / 16)) (hhex c.toNat)
    have hvalue : ((0 * 16 + 0) * 16 + c.toNat / 16 % 16) * 16 + c.toNat % 16 = c.toNat := by omega
    rw [hvalue] at hunit
    exact .number hunit
  · next hquote hslash _ _ _ _ _ hc => exact .plain hquote hslash (Nat.le_of_not_lt hc)

theorem spellsText_escape (s : String) : SpellsText s (s.toList.flatMap escape) := by
  refine ⟨s.toList.map escape, ?_, List.flatMap_def⟩
  exact List.forall₂_map_right_iff.mpr (List.forall₂_same.mpr fun c _ => spellsChar_escape c)

/-! ## Numbers -/

/-- What follows does not go on with a number. -/
def EndsNumber (rest : List Char) : Prop :=
  ∀ c ∈ rest.head?, c.isDigit = false ∧ c ≠ '.' ∧ startsExponent c = false

theorem EndsNumber.isDigit_eq (h : EndsNumber rest) : ∀ c ∈ rest.head?, c.isDigit = false :=
  fun c hc => (h c hc).1

theorem spanDigits_append (hdigits : ∀ c ∈ digits, c.isDigit = true)
    (hrest : ∀ c ∈ rest.head?, c.isDigit = false) :
    spanDigits (digits ++ rest) = (digits, rest) := by
  rw [spanDigits, List.span_eq_takeWhile_dropWhile, List.takeWhile_append_of_pos hdigits,
    List.dropWhile_append_of_pos hdigits]
  cases rest with
  | nil => rw [List.takeWhile_nil, List.append_nil, List.dropWhile_nil]
  | cons c rest =>
    have hc : ¬ c.isDigit = true := Bool.eq_false_iff.mp (hrest c rfl)
    rw [List.takeWhile_cons_of_neg hc, List.append_nil, List.dropWhile_cons_of_neg hc]

theorem of_spanDigits (h : spanDigits cs = (digits, rest)) :
    cs = digits ++ rest ∧ (∀ c ∈ digits, c.isDigit = true) ∧
      ∀ c ∈ rest.head?, c.isDigit = false := by
  rw [spanDigits, List.span_eq_takeWhile_dropWhile] at h
  obtain ⟨rfl, rfl⟩ := Prod.mk.inj h
  refine ⟨List.takeWhile_append_dropWhile.symm, fun c => List.mem_takeWhile_imp, ?_⟩
  intro c hc
  have hnot := List.head?_dropWhile_not Char.isDigit cs
  rwa [hc] at hnot

/-- Digits of a number below the limit are all absorbed. -/
theorem absorb_eq (h : Nat.ofDigitChars 10 cs value < Text.wordLimit) :
    absorb value cs = (Nat.ofDigitChars 10 cs value, 0) := by
  induction cs generalizing value with
  | nil => rw [Nat.ofDigitChars_nil, absorb]
  | cons c cs ih =>
    rw [Nat.ofDigitChars_cons, Nat.mul_comm 10 value] at h ⊢
    have hnext : value * 10 + Text.digitValue c < Text.wordLimit :=
      (Text.le_ofDigitChars cs _).trans_lt h
    rw [absorb, if_pos hnext]
    exact ih h

/-- Digits that are not all absorbed make too large a number. -/
theorem lt_of_absorb (hvalue : value < Text.wordLimit) (h : (absorb value cs).2 = 0) :
    Nat.ofDigitChars 10 cs value < Text.wordLimit := by
  induction cs generalizing value with
  | nil => rwa [Nat.ofDigitChars_nil]
  | cons c cs ih =>
    by_cases hnext : value * 10 + Text.digitValue c < Text.wordLimit
    · rw [absorb, if_pos hnext] at h
      rw [Nat.ofDigitChars_cons, Nat.mul_comm 10 value]
      exact ih hnext h
    · rw [absorb, if_neg hnext] at h
      contradiction

/-- Only the numeral of zero begins with a zero. -/
theorem eq_zero_of_toDigits (h : Nat.toDigits 10 n = '0' :: cs) : n = 0 := by
  induction n using Nat.strongRecOn generalizing cs with
  | ind n ih =>
    by_cases hn : n < 10
    · rw [Nat.toDigits_of_lt_base hn] at h
      exact Nat.digitChar_eq_zero.mp (List.cons.inj h).1
    · rw [Nat.toDigits_of_base_le (by decide) (Nat.le_of_not_lt hn)] at h
      obtain ⟨d, ds, htens⟩ := List.exists_cons_of_ne_nil (@Nat.toDigits_ne_nil (n / 10) 10)
      rw [htens, List.cons_append] at h
      obtain ⟨rfl, -⟩ := List.cons.inj h
      have hzero := ih (n / 10) (by omega) htens
      omega

/-- Digits of which the first is no zero, or a zero alone. -/
structure IsWhole (cs : List Char) : Prop where
  areDigits : Text.AreDigits cs
  eq_nil : ∀ rest, cs = '0' :: rest → rest = []

theorem isWhole_toDigits (n : Nat) : IsWhole (Nat.toDigits 10 n) where
  areDigits :=
    ⟨Nat.toDigits_ne_nil, fun _ => Nat.isDigit_of_mem_toDigits (by decide) (Nat.le_refl 10)⟩
  eq_nil rest h := by
    obtain rfl := eq_zero_of_toDigits h
    rw [Nat.toDigits_zero] at h
    exact (List.cons.inj h).2.symm

theorem readUnsigned_whole (h : IsWhole digits)
    (hlimit : Nat.ofDigitChars 10 digits 0 < Text.wordLimit) (hrest : EndsNumber rest) :
    readUnsigned false (digits ++ rest) = .ok (.natural (Nat.ofDigitChars 10 digits 0), rest) := by
  rw [readUnsigned, spanDigits_append h.areDigits.isDigit hrest.isDigit_eq]
  dsimp only
  split
  · exact absurd rfl h.areDigits.ne_nil
  · exact absurd rfl h.areDigits.ne_nil
  · exact absurd (h.eq_nil _ rfl) (List.cons_ne_nil _ _)
  · rw [absorb_eq hlimit]
    dsimp only
    split
    · exact absurd rfl (hrest '.' rfl).2.1
    · rw [(hrest _ rfl).2.2]
      rfl
    · rfl

theorem floatingNumber_ne_natural {isNegative : Bool} {significand : Nat} {exponent : Int} :
    floatingNumber isNegative significand exponent ≠ .ok (.natural n) := by
  unfold floatingNumber
  split <;> nofun

/-- A number with an exponent, or with more digits than fit, is no natural number. -/
theorem readScaled_ne_natural {isNegative : Bool} {significand : Nat} {exponent : Int} :
    readScaled isNegative significand exponent cs ≠ .ok (.natural n, rest) := by
  have hmap {significand : Nat} {exponent : Int} (rest' : List Char) :
      (floatingNumber isNegative significand exponent).map (·, rest') ≠
        .ok (.natural n, rest) := by
    intro h
    cases hnumber : floatingNumber isNegative significand exponent with
    | error fault => rw [hnumber] at h; contradiction
    | ok number =>
      rw [hnumber] at h
      obtain ⟨rfl, -⟩ := Prod.mk.inj (Except.ok.inj h)
      exact floatingNumber_ne_natural hnumber
  unfold readScaled
  split
  · split
    · split
      · exact hmap _
      · nofun
    · exact hmap _
  · exact hmap _

theorem wholeNumber_eq_natural {isNegative : Bool} {significand : Nat}
    (h : wholeNumber isNegative significand = .natural n) :
    isNegative = false ∧ significand = n := by
  unfold wholeNumber at h
  split at h
  · next hsign => exact ⟨by simpa using hsign, Number.natural.inj h⟩
  · split at h <;> contradiction

/-- A natural number stands at the beginning, and what follows does not go on with it. -/
def BeginsWith (cs : List Char) (n : Nat) (rest : List Char) : Prop :=
  ∃ digits, cs = digits ++ rest ∧ IsWhole digits ∧ EndsNumber rest ∧
    Nat.ofDigitChars 10 digits 0 = n

/-- Only digits without sign, point and exponent are read as a natural number. -/
theorem readUnsigned_eq_natural {isNegative : Bool}
    (h : readUnsigned isNegative cs = .ok (.natural n, rest)) :
    isNegative = false ∧ BeginsWith cs n rest ∧ n < Text.wordLimit := by
  unfold readUnsigned at h
  obtain ⟨digits, tail, hspan⟩ := Prod.exists.mp ⟨_, Eq.refl (spanDigits cs)⟩
  obtain ⟨rfl, hdigits, hhead⟩ := of_spanDigits hspan
  rw [hspan] at h
  dsimp only at h
  split at h
  · cases h
  · cases h
  · cases h
  · next hzero hends hgoes =>
    have hwhole : IsWhole digits := by
      refine ⟨⟨fun hnil => ?_, hdigits⟩, fun more hmore => ?_⟩
      · cases tail with
        | nil => exact hends hnil rfl
        | cons c tail => exact hgoes c tail hnil rfl
      · cases more with
        | nil => rfl
        | cons c more => exact absurd hmore (hzero c more)
    have hvalue (hdropped : (absorb 0 digits).2 = 0)
        (hnumber : wholeNumber isNegative (absorb 0 digits).1 = .natural n) :
        isNegative = false ∧ Nat.ofDigitChars 10 digits 0 = n ∧ n < Text.wordLimit := by
      have hlimit := lt_of_absorb (by decide) hdropped
      rw [absorb_eq hlimit] at hnumber
      obtain ⟨hsign, rfl⟩ := wholeNumber_eq_natural hnumber
      exact ⟨hsign, rfl, hlimit⟩
    split at h
    · split at h
      · contradiction
      · contradiction
      · exact absurd h readScaled_ne_natural
    · next c tail hpoint =>
      split at h
      · exact absurd h readScaled_ne_natural
      · next hmore =>
        simp only [Bool.or_eq_true, decide_eq_true_eq, not_or, Bool.not_eq_true, Nat.not_lt,
          Nat.le_zero] at hmore
        obtain ⟨hnumber, rfl⟩ := Prod.mk.inj (Except.ok.inj h)
        obtain ⟨hsign, hn, hlimit⟩ := hvalue hmore.2 hnumber
        refine ⟨hsign, ⟨digits, rfl, hwhole, ?_, hn⟩, hlimit⟩
        rintro _ ⟨⟩
        exact ⟨hhead c rfl, fun hc => hpoint hc, hmore.1⟩
    · split at h
      · exact absurd h readScaled_ne_natural
      · next hmore =>
        obtain ⟨hnumber, rfl⟩ := Prod.mk.inj (Except.ok.inj h)
        obtain ⟨hsign, hn, hlimit⟩ := hvalue (by omega) hnumber
        exact ⟨hsign, ⟨digits, rfl, hwhole, nofun, hn⟩, hlimit⟩

theorem IsWhole.exists_digit (h : IsWhole digits) :
    ∃ c cs, digits = c :: cs ∧ c.isDigit = true := by
  obtain ⟨c, cs, rfl⟩ := List.exists_cons_of_ne_nil h.areDigits.ne_nil
  exact ⟨c, cs, rfl, h.areDigits.isDigit c List.mem_cons_self⟩

theorem readNumber_eq_natural_iff :
    readNumber cs = .ok (.natural n, rest) ↔ BeginsWith cs n rest ∧ n < Text.wordLimit := by
  constructor
  · intro h
    unfold readNumber at h
    split at h
    · exact absurd (readUnsigned_eq_natural h).1 nofun
    · exact (readUnsigned_eq_natural h).2
  · rintro ⟨⟨digits, rfl, hwhole, hrest, rfl⟩, hlimit⟩
    obtain ⟨c, cs, rfl, hc⟩ := hwhole.exists_digit
    unfold readNumber
    split
    · next hsign =>
      obtain ⟨rfl, -⟩ := List.cons.inj hsign
      contradiction
    · exact readUnsigned_whole hwhole hlimit hrest

/-! ## Gaps -/

/-- Only blanks that may stand between tokens. -/
def AreGaps (cs : List Char) : Prop := ∀ c ∈ cs, isGap c = true

instance : DecidablePred AreGaps :=
  fun cs => decidable_of_iff (cs.all isGap = true) List.all_eq_true

theorem areGaps_nil : AreGaps [] := List.forall_mem_nil _

/-- Neither a gap nor what separates and ends values goes on with a number. -/
theorem EndsNumber.of_token {c : Char} (hc : isGap c = true ∨ c ∈ [',', '\x7d', ']'])
    (rest : List Char) : EndsNumber (c :: rest) := by
  simp only [isGap, Bool.or_eq_true, decide_eq_true_eq, List.mem_cons, List.not_mem_nil,
    or_false] at hc
  rintro _ ⟨⟩
  rcases hc with (((rfl | rfl) | rfl) | rfl) | rfl | rfl | rfl <;> decide

theorem EndsNumber.gaps_append (hgap : AreGaps gap) (hrest : EndsNumber rest) :
    EndsNumber (gap ++ rest) := by
  cases gap with
  | nil => exact hrest
  | cons c gap => exact .of_token (.inl (hgap c List.mem_cons_self)) _

theorem skipGaps_append (hgap : AreGaps gap) (cs : List Char) :
    skipGaps (gap ++ cs) = skipGaps cs := List.dropWhile_append_of_pos hgap

theorem skipGaps_of_head {c : Char} (hc : isGap c = false) (cs : List Char) :
    skipGaps (c :: cs) = c :: cs :=
  List.dropWhile_cons_of_neg (Bool.eq_false_iff.mp hc)

theorem isGap_of_isDigit {c : Char} (hc : c.isDigit = true) : isGap c = false := by
  have hblank := Text.isBlank_of_isDigit hc
  by_contra hgap
  simp only [isGap, Bool.not_eq_false, Bool.or_eq_true, decide_eq_true_eq] at hgap
  rcases hgap with ((rfl | rfl) | rfl) | rfl <;> contradiction

/-! ## Fields -/

/-- A field of this kind can have this value. -/
inductive FieldKind.Suits : FieldKind → Scalar → Prop
  | text (s : String) : Suits .text (.text s)
  | counter {n : Nat} (hn : n < Text.wordLimit) : Suits .counter (.number n)
  | null : Suits .textOrNull .null
  | textOrNull (s : String) : Suits .textOrNull (.text s)

/-- Exactly the natural numbers below the limit are read as counters. -/
theorem readCounter_eq_ok_iff {value : Scalar} : readCounter cs = .ok (value, rest) ↔
    ∃ n, value = .number n ∧ BeginsWith cs n rest ∧ n < Text.wordLimit := by
  constructor
  · intro h
    unfold readCounter at h
    split at h
    · contradiction
    · split at h
      · split at h
        · next n rest' hread =>
          obtain ⟨rfl, rfl⟩ := Prod.mk.inj (Except.ok.inj h)
          exact ⟨n, rfl, readNumber_eq_natural_iff.mp hread⟩
        · contradiction
        · contradiction
        · contradiction
      · contradiction
  · rintro ⟨n, rfl, hbegins, hlimit⟩
    have hread := readNumber_eq_natural_iff.mpr ⟨hbegins, hlimit⟩
    obtain ⟨digits, rfl, hwhole, -, -⟩ := hbegins
    obtain ⟨c, cs, rfl, hc⟩ := hwhole.exists_digit
    rw [List.cons_append] at hread ⊢
    have hnumeric : (c = '-' || c.isDigit) = true := by rw [hc, Bool.or_true]
    rw [readCounter, if_pos hnumeric, hread]

end CoalescingQueue.Json
