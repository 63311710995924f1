import CoalescingQueue.Proofs.Cuts
import CoalescingQueue.Text.Utf8
import Mathlib.Tactic.IntervalCases

/-!
# Texts and their bytes

Decoding undoes the library's encoding, and nothing else can be decoded. What may follow the first
byte of a longer character is said once, by what is known of the character then.
-/
namespace CoalescingQueue.Text

/-- The bytes of a text. -/
def encode (cs : List Char) : List UInt8 := cs.flatMap String.utf8EncodeChar

theorem encode_cons (c : Char) (cs : List Char) :
    encode (c :: cs) = String.utf8EncodeChar c ++ encode cs := List.flatMap_cons

/-- The bytes that complete a character of which something is known. -/
inductive Ends : Lead → List UInt8 → Char → Prop
  | last {l : Lead} {b : UInt8} (hlow : l.low ≤ b.toNat) (hhigh : b.toNat ≤ l.high)
      (howed : l.owed ≤ 1) : Ends l [b] (Char.ofNat (l.value * 64 + (b.toNat - 0x80)))
  | more {l : Lead} {b : UInt8} {tail : List UInt8} {c : Char} (hlow : l.low ≤ b.toNat)
      (hhigh : b.toNat ≤ l.high) (howed : 1 < l.owed)
      (hrest : Ends ⟨l.seen + 1, l.owed - 1, l.value * 64 + (b.toNat - 0x80), 0x80, 0xBF⟩ tail c) :
      Ends l (b :: tail) c

variable {l : Lead} {b : UInt8} {c : Char} {cs : List Char} {bytes tail : List UInt8} {start : Nat}

/-! ## One character -/

theorem Ends.decodeFrom_append (h : Ends l tail c) (start : Nat) (rest : List UInt8) :
    ∃ start', decodeFrom start (some l) (tail ++ rest) =
      (decodeFrom start' none rest).map (c :: ·) := by
  induction h with
  | last hlow hhigh howed =>
    rw [List.singleton_append, decodeFrom]
    dsimp only
    rw [if_pos ⟨hlow, hhigh⟩, if_pos howed]
    exact ⟨_, rfl⟩
  | more hlow hhigh howed hrest ih =>
    obtain ⟨start', hdecode⟩ := ih
    refine ⟨start', ?_⟩
    rw [List.cons_append, decodeFrom]
    dsimp only
    rw [if_pos ⟨hlow, hhigh⟩, if_neg (Nat.not_le_of_lt howed), hdecode]

theorem toNat_ofNat_of_isValidChar {n : Nat} (h : n.isValidChar) : (Char.ofNat n).toNat = n := by
  unfold Char.ofNat
  rw [dif_pos h]
  rfl

theorem utf8EncodeChar_of_lt (hc : c.toNat < 0x80) :
    String.utf8EncodeChar c = [UInt8.ofNat c.toNat] := by
  unfold String.utf8EncodeChar
  exact if_pos (Nat.le_of_lt_succ hc)

theorem exists_cons_of_map_eq_ok {c : Char} {e : Except Utf8Fault (List Char)}
    (h : e.map (c :: ·) = .ok cs) : ∃ cs', cs = c :: cs' ∧ e = .ok cs' := by
  cases e with
  | error fault => contradiction
  | ok cs' => exact ⟨cs', (Except.ok.inj h).symm, rfl⟩

theorem exists_ends (h : decodeFrom start (some l) bytes = .ok cs) :
    ∃ c tail rest cs' start', bytes = tail ++ rest ∧ Ends l tail c ∧ cs = c :: cs' ∧
      decodeFrom start' none rest = .ok cs' := by
  induction bytes generalizing l with
  | nil => contradiction
  | cons b rest ih =>
    rw [decodeFrom] at h
    dsimp only at h
    split at h
    · next hin =>
      split at h
      · next howed =>
        obtain ⟨cs', hcs, hrest⟩ := exists_cons_of_map_eq_ok h
        exact ⟨_, [b], rest, cs', _, rfl, .last hin.1 hin.2 howed, hcs, hrest⟩
      · next howed =>
        obtain ⟨c, tail, rest', cs', start', hbytes, hends, hcs, hrest⟩ := ih h
        refine ⟨c, b :: tail, rest', cs', start', by rw [hbytes, List.cons_append], ?_, hcs, hrest⟩
        exact .more hin.1 hin.2 (Nat.lt_of_not_le howed) hends
    · contradiction

theorem lead?_two {n : Nat} (hlow : 2 ≤ n) (hhigh : n < 32) :
    lead? (n + 192) = some ⟨1, 1, n, 0x80, 0xBF⟩ := by
  rw [lead?, if_pos ⟨by omega, by omega⟩, Nat.add_sub_cancel]

theorem lead?_three {n : Nat} (hhigh : n < 16) : lead? (n + 224) =
    some ⟨1, 2, n, if n = 0 then 0xA0 else 0x80, if n = 13 then 0x9F else 0xBF⟩ := by
  interval_cases n <;> rfl

theorem lead?_four {n : Nat} (hhigh : n < 5) : lead? (n + 240) =
    some ⟨1, 3, n, if n = 0 then 0x90 else 0x80, if n = 4 then 0x8F else 0xBF⟩ := by
  interval_cases n <;> rfl

/-- The first bytes of longer characters. -/
theorem exists_of_lead? {n : Nat} (h : lead? n = some l) :
    (∃ k, 2 ≤ k ∧ k < 32 ∧ n = k + 192) ∨ (∃ k, k < 16 ∧ n = k + 224) ∨
      ∃ k, k < 5 ∧ n = k + 240 := by
  by_cases htwo : 0xC2 ≤ n ∧ n ≤ 0xDF
  · exact .inl ⟨n - 192, by omega, by omega, by omega⟩
  · by_cases hthree : 0xE0 ≤ n ∧ n ≤ 0xEF
    · exact .inr (.inl ⟨n - 224, by omega, by omega⟩)
    · by_cases hfour : 0xF0 ≤ n ∧ n ≤ 0xF4
      · exact .inr (.inr ⟨n - 240, by omega, by omega⟩)
      · rw [lead?, if_neg htwo, if_neg (by omega), if_neg (by omega), if_neg (by omega),
          if_neg (by omega), if_neg (by omega), if_neg (by omega)] at h
        contradiction

theorem not_lt_of_lead? {n : Nat} (h : lead? n = some l) : ¬ n < 0x80 := by
  rcases exists_of_lead? h with ⟨k, -, -, rfl⟩ | ⟨k, -, rfl⟩ | ⟨k, -, rfl⟩ <;> omega

/-- A byte that stands behind the first one of a character. -/
def IsTail (b : UInt8) : Prop := 0x80 ≤ b.toNat ∧ b.toNat ≤ 0xBF

/-- Several bytes that stand for a code point. -/
inductive Forms (b : UInt8) : List UInt8 → Nat → Prop
  | two {b₁ : UInt8} {n : Nat} (hb : b.toNat = n + 192) (hlow : 2 ≤ n) (hhigh : n < 32)
      (h₁ : IsTail b₁) : Forms b [b₁] (n * 64 + (b₁.toNat - 0x80))
  | three {b₁ b₂ : UInt8} {n v : Nat} (hb : b.toNat = n + 224) (hhigh : n < 16) (h₁ : IsTail b₁)
      (h₂ : IsTail b₂) (hv : v = (n * 64 + (b₁.toNat - 0x80)) * 64 + (b₂.toNat - 0x80))
      (hlong : 0x800 ≤ v) (hvalid : v < 0xD800 ∨ 0xDFFF < v) : Forms b [b₁, b₂] v
  | four {b₁ b₂ b₃ : UInt8} {n v : Nat} (hb : b.toNat = n + 240) (hhigh : n < 5) (h₁ : IsTail b₁)
      (h₂ : IsTail b₂) (h₃ : IsTail b₃)
      (hv : v = ((n * 64 + (b₁.toNat - 0x80)) * 64 + (b₂.toNat - 0x80)) * 64 + (b₃.toNat - 0x80))
      (hlong : 0x10000 ≤ v) (hvalid : v < 0x110000) : Forms b [b₁, b₂, b₃] v

variable {v : Nat}

theorem Forms.isValidChar (h : Forms b tail v) : v.isValidChar := by
  cases h with
  | two hb hlow hhigh h₁ =>
    have hle := h₁.2
    exact .inl (by omega)
  | three hb hhigh h₁ h₂ hv hlong hvalid =>
    have hle := h₁.2
    have hle' := h₂.2
    exact hvalid.imp id fun hlt => ⟨hlt, by omega⟩
  | four hb hhigh h₁ h₂ h₃ hv hlong hvalid => exact .inr ⟨by omega, hvalid⟩

theorem Forms.encode_eq (h : Forms b tail c.toNat) : String.utf8EncodeChar c = b :: tail := by
  have hvalue : c.val.toNat = c.toNat := rfl
  have hbyte {n : Nat} {b : UInt8} (heq : n = b.toNat) : UInt8.ofNat n = b := by
    rw [heq, UInt8.ofNat_toNat]
  unfold String.utf8EncodeChar
  dsimp only
  rw [hvalue]
  generalize c.toNat = v at h
  cases h with
  | @two b₁ n hb hlow hhigh h₁ =>
    obtain ⟨hge, hle⟩ := h₁
    rw [if_neg (by omega), if_pos (by omega), hbyte (b := b) (by omega),
      hbyte (b := b₁) (by omega)]
  | @three b₁ b₂ n v hb hhigh h₁ h₂ hv hlong hvalid =>
    obtain ⟨hge, hle⟩ := h₁
    obtain ⟨hge', hle'⟩ := h₂
    rw [if_neg (by omega), if_neg (by omega), if_pos (by omega), hbyte (b := b) (by omega),
      hbyte (b := b₁) (by omega), hbyte (b := b₂) (by omega)]
  | @four b₁ b₂ b₃ n v hb hhigh h₁ h₂ h₃ hv hlong hvalid =>
    obtain ⟨hge, hle⟩ := h₁
    obtain ⟨hge', hle'⟩ := h₂
    obtain ⟨hge'', hle''⟩ := h₃
    rw [if_neg (by omega), if_neg (by omega), if_neg (by omega), hbyte (b := b) (by omega),
      hbyte (b := b₁) (by omega), hbyte (b := b₂) (by omega), hbyte (b := b₃) (by omega)]

theorem Forms.not_plain (h : Forms b tail v) : ∀ b' ∈ b :: tail, 0x80 ≤ b'.toNat := by
  refine List.forall_mem_cons.mpr ?_
  cases h with
  | two hb _ _ h₁ => exact ⟨by omega, by simpa using h₁.1⟩
  | three hb _ h₁ h₂ => exact ⟨by omega, by simpa using ⟨h₁.1, h₂.1⟩⟩
  | four hb _ h₁ h₂ h₃ => exact ⟨by omega, by simpa using ⟨h₁.1, h₂.1, h₃.1⟩⟩

/-- Every code point that is not plain takes several bytes. -/
theorem exists_forms (hvalid : v.isValidChar) (hv : 0x80 ≤ v) : ∃ b tail, Forms b tail v := by
  have hbyte {n : Nat} (hn : n < 256) : ∃ b : UInt8, b.toNat = n :=
    ⟨UInt8.ofNat n, UInt8.toNat_ofNat'.trans (Nat.mod_eq_of_lt hn)⟩
  have htail (n : Nat) : ∃ b : UInt8, IsTail b ∧ b.toNat - 0x80 = n % 64 := by
    obtain ⟨b, hb⟩ := hbyte (show n % 64 + 0x80 < 256 by omega)
    exact ⟨b, ⟨by omega, by omega⟩, by omega⟩
  have hrange : v < 0xD800 ∨ 0xDFFF < v ∧ v < 0x110000 := hvalid
  obtain ⟨b₁, h₁, hb₁⟩ := htail v
  obtain ⟨b₂, h₂, hb₂⟩ := htail (v / 64)
  obtain ⟨b₃, h₃, hb₃⟩ := htail (v / 4096)
  by_cases htwo : v < 0x800
  · obtain ⟨b, hb⟩ := hbyte (show v / 64 + 192 < 256 by omega)
    have hforms := Forms.two hb (by omega) (by omega) h₁
    rw [hb₁, show v / 64 * 64 + v % 64 = v by omega] at hforms
    exact ⟨b, _, hforms⟩
  · by_cases hthree : v < 0x10000
    · obtain ⟨b, hb⟩ := hbyte (show v / 4096 + 224 < 256 by omega)
      exact ⟨b, _, .three hb (by omega) h₂ h₁ (by omega) (by omega) (by omega)⟩
    · obtain ⟨b, hb⟩ := hbyte (show v / 262144 + 240 < 256 by omega)
      exact ⟨b, _, .four hb (by omega) h₃ h₂ h₁ (by omega) (by omega) (by omega)⟩

theorem Forms.exists_ends (h : Forms b tail v) :
    ∃ l, lead? b.toNat = some l ∧ Ends l tail (Char.ofNat v) := by
  cases h with
  | two hb hlow hhigh h₁ =>
    exact ⟨_, (congrArg lead? hb).trans (lead?_two hlow hhigh), .last h₁.1 h₁.2 (Nat.le_refl 1)⟩
  | three hb hhigh h₁ h₂ hv hlong hvalid =>
    refine ⟨_, (congrArg lead? hb).trans (lead?_three hhigh), ?_⟩
    obtain ⟨hge, hle⟩ := h₁
    obtain ⟨hge', hle'⟩ := h₂
    rw [hv]
    refine .more ?_ ?_ Nat.one_lt_two (.last hge' hle' (Nat.le_refl 1))
    · dsimp only
      split <;> omega
    · dsimp only
      split <;> omega
  | four hb hhigh h₁ h₂ h₃ hv hlong hvalid =>
    refine ⟨_, (congrArg lead? hb).trans (lead?_four hhigh), ?_⟩
    obtain ⟨hge, hle⟩ := h₁
    obtain ⟨hge', hle'⟩ := h₂
    obtain ⟨hge'', hle''⟩ := h₃
    rw [hv]
    refine .more ?_ ?_ (Nat.lt_succ_of_lt Nat.one_lt_two) (.more hge' hle' Nat.one_lt_two
      (.last hge'' hle'' (Nat.le_refl 1)))
    · dsimp only
      split <;> omega
    · dsimp only
      split <;> omega

theorem Ends.exists_forms (h : Ends l tail c) (hl : lead? b.toNat = some l) :
    ∃ v, Forms b tail v ∧ c = Char.ofNat v := by
  rcases exists_of_lead? hl with ⟨n, hlow, hhigh, hb⟩ | ⟨n, hhigh, hb⟩ | ⟨n, hhigh, hb⟩
  · rw [hb, lead?_two hlow hhigh] at hl
    obtain rfl := Option.some.inj hl
    cases h with
    | last h₁ h₁' => exact ⟨_, .two hb hlow hhigh ⟨h₁, h₁'⟩, rfl⟩
    | more _ _ howed => exact absurd howed (Nat.lt_irrefl 1)
  · rw [hb, lead?_three hhigh] at hl
    obtain rfl := Option.some.inj hl
    cases h with
    | last _ _ howed => exact absurd howed (Nat.not_le_of_lt Nat.one_lt_two)
    | more h₁ h₁' _ hrest =>
      cases hrest with
      | last h₂ h₂' =>
        refine ⟨_, .three hb hhigh ⟨?_, ?_⟩ ⟨h₂, h₂'⟩ rfl ?_ ?_, rfl⟩ <;>
          dsimp only at h₁ h₁' h₂ h₂'
        all_goals split at h₁ <;> split at h₁' <;> omega
      | more _ _ howed => exact absurd howed (Nat.lt_irrefl 1)
  · rw [hb, lead?_four hhigh] at hl
    obtain rfl := Option.some.inj hl
    cases h with
    | last _ _ howed => exact absurd howed (Nat.not_le_of_lt (Nat.lt_succ_of_lt Nat.one_lt_two))
    | more h₁ h₁' _ hrest =>
      cases hrest with
      | last _ _ howed => exact absurd howed (Nat.not_le_of_lt Nat.one_lt_two)
      | more h₂ h₂' _ hrest =>
        cases hrest with
        | last h₃ h₃' =>
          refine ⟨_, .four hb hhigh ⟨?_, ?_⟩ ⟨h₂, h₂'⟩ ⟨h₃, h₃'⟩ rfl ?_ ?_, rfl⟩ <;>
            dsimp only at h₁ h₁' h₂ h₂' h₃ h₃'
          all_goals split at h₁ <;> split at h₁' <;> omega
        | more _ _ howed => exact absurd howed (Nat.lt_irrefl 1)

/-! ## Whole texts -/

theorem decodeFrom_encode (cs : List Char) (start : Nat) :
    decodeFrom start none (encode cs) = .ok cs := by
  induction cs generalizing start with
  | nil => rfl
  | cons c cs ih =>
    rw [encode_cons]
    by_cases hplain : c.toNat < 0x80
    · have hbyte : (UInt8.ofNat c.toNat).toNat = c.toNat :=
        UInt8.toNat_ofNat'.trans (Nat.mod_eq_of_lt (by omega))
      rw [utf8EncodeChar_of_lt hplain, List.singleton_append, decodeFrom_ascii]
      · rw [hbyte, ih, Char.ofNat_toNat]
        rfl
      · rwa [hbyte]
    · have hvalid : c.toNat.isValidChar := c.valid
      obtain ⟨b, tail, hforms⟩ := exists_forms hvalid (Nat.le_of_not_lt hplain)
      obtain ⟨l, hl, hends⟩ := hforms.exists_ends
      obtain ⟨start', hdecode⟩ := hends.decodeFrom_append start (encode cs)
      rw [hforms.encode_eq, List.cons_append, decodeFrom]
      simp only [if_neg (not_lt_of_lead? hl), hl]
      rw [hdecode, ih, Char.ofNat_toNat]
      rfl

/-- What can be decoded is what the text encodes as. -/
theorem eq_encode_of_decodeFrom (h : decodeFrom start none bytes = .ok cs) : bytes = encode cs := by
  induction hn : bytes.length using Nat.strongRecOn generalizing bytes cs start with
  | ind n ih =>
    cases bytes with
    | nil =>
      obtain rfl := Except.ok.inj h
      rfl
    | cons b rest =>
      rw [decodeFrom] at h
      split at h
      · next hplain =>
        obtain ⟨cs', rfl, hrest⟩ := exists_cons_of_map_eq_ok h
        have hc := toNat_ofNat_of_isValidChar (n := b.toNat) (.inl (by omega))
        have hencode := utf8EncodeChar_of_lt (hc.symm ▸ hplain)
        rw [hc, UInt8.ofNat_toNat] at hencode
        rw [ih _ (hn ▸ Nat.lt_succ_self _) hrest rfl, encode_cons, hencode]
        rfl
      · split at h
        · next l hl =>
          obtain ⟨c, tail, rest', cs', start', rfl, hends, rfl, hrest⟩ := exists_ends h
          obtain ⟨v, hforms, rfl⟩ := hends.exists_forms hl
          have hc := toNat_ofNat_of_isValidChar hforms.isValidChar
          have hencode := Forms.encode_eq (c := Char.ofNat v) (hc.symm ▸ hforms)
          have hlt : rest'.length < n := by
            rw [← hn, List.length_cons, List.length_append]
            omega
          rw [ih _ hlt hrest rfl, encode_cons, hencode]
          rfl
        · contradiction

/-- Bytes are a text exactly if they are its encoding. -/
theorem decode_eq_ok_iff : decode bytes = .ok cs ↔ bytes = encode cs := by
  constructor
  · exact eq_encode_of_decodeFrom
  · rintro rfl
    exact decodeFrom_encode cs 0

theorem eq_encode_of_toByteArray {text : String} (h : bytes.toByteArray = text.toUTF8) :
    bytes = encode text.toList :=
  List.toByteArray_inj.mp (h.trans String.utf8Encode_toList.symm)

theorem isValidUTF8_iff : bytes.toByteArray.IsValidUTF8 ↔ ∃ cs, decode bytes = .ok cs := by
  constructor
  · rintro ⟨cs, hcs⟩
    exact ⟨cs, decode_eq_ok_iff.mpr (List.toByteArray_inj.mp hcs)⟩
  · rintro ⟨cs, hcs⟩
    rw [decode_eq_ok_iff.mp hcs]
    exact ⟨cs, rfl⟩

/-! ## Lines -/

/-- The byte of a line end stands in no other character. -/
theorem lineEnd_notMem (hc : c ≠ '\n') : (0x0A : UInt8) ∉ String.utf8EncodeChar c := by
  by_cases hplain : c.toNat < 0x80
  · have hbyte : (UInt8.ofNat c.toNat).toNat = c.toNat :=
      UInt8.toNat_ofNat'.trans (Nat.mod_eq_of_lt (by omega))
    rw [utf8EncodeChar_of_lt hplain, List.mem_singleton]
    intro heq
    have hten : c.toNat = 10 := by rw [← hbyte, ← heq]; rfl
    exact hc (by rw [← Char.ofNat_toNat c, hten])
  · have hvalid : c.toNat.isValidChar := c.valid
    obtain ⟨b, tail, hforms⟩ := exists_forms hvalid (Nat.le_of_not_lt hplain)
    rw [hforms.encode_eq]
    intro hmem
    have hge : 0x80 ≤ 10 := hforms.not_plain _ hmem
    omega

/-- A text is cut into lines before or after it is encoded. -/
theorem cut_encode (cs : List Char) : cut 0x0A (encode cs) = (cut '\n' cs).map encode := by
  induction cs with
  | nil => rfl
  | cons c cs ih =>
    by_cases hc : c = '\n'
    · subst hc
      rw [cut_cons_self, List.map_cons, ← ih]
      exact cut_cons_self _ _
    · obtain ⟨line, lines, heq⟩ := List.exists_cons_of_ne_nil (cut_ne_nil '\n' cs)
      rw [encode_cons, cut_append_of_notMem (lineEnd_notMem hc), ih, cut_cons_of_ne hc, heq]
      rfl

end CoalescingQueue.Text
