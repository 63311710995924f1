import CoalescingQueue.Proofs.Cuts
import CoalescingQueue.Text.Numeral

/-!
# What a numeral denotes

A numeral is a row of decimal digits, at least one, perhaps behind a plus sign, and what it denotes
is a number of any size. Reading goes from digit to digit and stops at the limit. Nothing that comes
after could bring the number back below it, so exactly the numerals are read that denote a number
below the limit, however many zeros they begin with. Which fault is found in any other text is not
said.
-/
namespace CoalescingQueue.Text

variable {cs : List Char} {limit value n : Nat}

/-- Decimal digits, at least one. -/
structure AreDigits (cs : List Char) : Prop where
  ne_nil : cs ≠ []
  isDigit : ∀ c ∈ cs, c.isDigit = true

/-- The text is this number in decimal digits, perhaps with a plus sign in front. -/
def Denotes (cs : List Char) (n : Nat) : Prop :=
  ∃ digits, AreDigits digits ∧ (cs = digits ∨ cs = '+' :: digits) ∧
    Nat.ofDigitChars 10 digits 0 = n

/-- A numeral with blanks around it. -/
def SpellsNumber (cs : List Char) (n : Nat) : Prop :=
  ∃ left body right, AreBlank left ∧ AreBlank right ∧ cs = left ++ (body ++ right) ∧ Denotes body n

/-! ## Digits -/

/-- A number only grows with more digits. -/
theorem le_ofDigitChars (cs : List Char) (value : Nat) : value ≤ Nat.ofDigitChars 10 cs value := by
  induction cs generalizing value with
  | nil => rw [Nat.ofDigitChars_nil]
  | cons c cs ih =>
    rw [Nat.ofDigitChars_cons]
    have hrest := ih (10 * value + (c.toNat - '0'.toNat))
    omega

theorem readDigits_eq_ok_iff (hvalue : value < limit) : readDigits limit value cs = .ok n ↔
    (∀ c ∈ cs, c.isDigit = true) ∧ Nat.ofDigitChars 10 cs value = n ∧ n < limit := by
  induction cs generalizing value with
  | nil =>
    rw [readDigits, Nat.ofDigitChars_nil, Except.ok.injEq]
    refine ⟨fun h => ⟨List.forall_mem_nil _, h, h ▸ hvalue⟩, fun h => h.2.1⟩
  | cons c cs ih =>
    rw [readDigits, List.forall_mem_cons, Nat.ofDigitChars_cons, Nat.mul_comm 10 value]
    by_cases hc : c.isDigit = true
    · rw [if_pos hc]
      dsimp only
      by_cases hnext : value * 10 + digitValue c < limit
      · rw [if_pos hnext, ih hnext, and_iff_right hc]
        rfl
      · rw [if_neg hnext]
        constructor
        · intro h
          contradiction
        · rintro ⟨-, hn, hlt⟩
          have hle := le_ofDigitChars cs (value * 10 + (c.toNat - '0'.toNat))
          rw [hn] at hle
          exact absurd (hle.trans_lt hlt) hnext
    · rw [if_neg hc]
      constructor
      · intro h
        contradiction
      · exact fun h => absurd h.1.1 hc

/-! ## Numerals -/

theorem AreDigits.head_ne (h : AreDigits cs) (rest : List Char) : cs ≠ '+' :: rest := by
  rintro rfl
  exact absurd (h.isDigit '+' List.mem_cons_self) (by decide)

/-- Exactly the numerals are read that denote a number below the limit. -/
theorem readNumeral_eq_ok_iff (hlimit : 0 < limit) :
    readNumeral limit cs = .ok n ↔ Denotes cs n ∧ n < limit := by
  have hread {digits : List Char} (hne : digits ≠ []) : readDigits limit 0 digits = .ok n ↔
      (AreDigits digits ∧ Nat.ofDigitChars 10 digits 0 = n) ∧ n < limit := by
    rw [readDigits_eq_ok_iff hlimit, ← and_assoc]
    exact and_congr_left fun _ => and_congr_left fun _ => ⟨fun h => ⟨hne, h⟩, fun h => h.isDigit⟩
  unfold readNumeral Denotes
  split
  · refine ⟨nofun, ?_⟩
    rintro ⟨⟨digits, hdigits, rfl | hcs, -⟩, -⟩
    · exact absurd rfl hdigits.ne_nil
    · contradiction
  · refine ⟨nofun, ?_⟩
    rintro ⟨⟨digits, hdigits, rfl | hcs, -⟩, -⟩
    · exact absurd rfl (hdigits.head_ne [])
    · exact absurd (List.cons.inj hcs).2.symm hdigits.ne_nil
  · next digits hne =>
    rw [hread hne]
    refine and_congr_left fun _ => ⟨fun h => ⟨digits, h.1, .inr rfl, h.2⟩, ?_⟩
    rintro ⟨digits', hdigits, hcs | hcs, hn⟩
    · exact absurd hcs.symm (hdigits.head_ne digits)
    · obtain rfl := (List.cons.inj hcs).2
      exact ⟨hdigits, hn⟩
  · next hne _ hsign =>
    rw [hread hne]
    refine and_congr_left fun _ => ⟨fun h => ⟨cs, h.1, .inl rfl, h.2⟩, ?_⟩
    rintro ⟨digits', hdigits, rfl | hcs, hn⟩
    · exact ⟨hdigits, hn⟩
    · exact absurd hcs (hsign digits')

/-! ## Blanks around a numeral -/

theorem isBlank_of_isDigit {c : Char} (hc : c.isDigit = true) : isBlank c = false := by
  have hrange : 48 ≤ c.toNat ∧ c.toNat ≤ 57 := by
    simpa [Char.isDigit, UInt32.le_iff_toNat_le] using hc
  simp [isBlank]
  omega

theorem Denotes.ne_nil (h : Denotes cs n) : cs ≠ [] := by
  obtain ⟨digits, hdigits, rfl | rfl, -⟩ := h
  · exact hdigits.ne_nil
  · exact List.cons_ne_nil _ _

theorem Denotes.isBlank_eq (h : Denotes cs n) : ∀ c ∈ cs, isBlank c = false := by
  obtain ⟨digits, hdigits, rfl | rfl, -⟩ := h
  · exact fun c hc => isBlank_of_isDigit (hdigits.isDigit c hc)
  · refine List.forall_mem_cons.mpr ⟨by decide, fun c hc => ?_⟩
    exact isBlank_of_isDigit (hdigits.isDigit c hc)

/-- A numeral is left if blanks are trimmed off. -/
theorem denotes_trim_iff : Denotes (trim cs) n ↔ SpellsNumber cs n := by
  constructor
  · intro h
    obtain ⟨left, right, hleft, hright, hcs⟩ := exists_blanks cs
    exact ⟨left, trim cs, right, hleft, hright, hcs, h⟩
  · rintro ⟨left, body, right, hleft, hright, rfl, hbody⟩
    have htrimmed : IsTrimmed body :=
      ⟨fun c hc => hbody.isBlank_eq c (List.mem_of_mem_head? hc),
        fun c hc => hbody.isBlank_eq c (List.mem_of_getLast? hc)⟩
    rwa [trim_between hleft hright htrimmed hbody.ne_nil]

end CoalescingQueue.Text
