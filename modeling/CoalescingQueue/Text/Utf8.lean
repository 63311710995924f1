/-!
# UTF-8

Texts out of bytes. A sequence is given up at the first byte that rules it out, and the fault
says where the character that failed begins and how many of its bytes were well formed.
-/
namespace CoalescingQueue.Text

/-- Where a byte sequence stops being text. Without a `length` the bytes end inside a character. -/
structure Utf8Fault where
  start : Nat
  length : Option Nat
  deriving DecidableEq, Repr

def Utf8Fault.message (f : Utf8Fault) : String :=
  match f.length with
  | some n => s!"invalid utf-8 sequence of {n} bytes from index {f.start}"
  | none => s!"incomplete utf-8 byte sequence from index {f.start}"

/-- A character of which `seen` bytes are known and `owed` are to come, the next one between
`low` and `high`. -/
structure Lead where
  seen : Nat
  owed : Nat
  value : Nat
  low : Nat
  high : Nat
  deriving DecidableEq, Repr

/-- What the first byte of a longer character announces. The narrower bounds shut out long
spellings, surrogates and values past the last code point. -/
def lead? (b : Nat) : Option Lead :=
  if 0xC2 ≤ b ∧ b ≤ 0xDF then some ⟨1, 1, b - 0xC0, 0x80, 0xBF⟩
  else if b = 0xE0 then some ⟨1, 2, 0, 0xA0, 0xBF⟩
  else if b = 0xED then some ⟨1, 2, 0xD, 0x80, 0x9F⟩
  else if 0xE1 ≤ b ∧ b ≤ 0xEF then some ⟨1, 2, b - 0xE0, 0x80, 0xBF⟩
  else if b = 0xF0 then some ⟨1, 3, 0, 0x90, 0xBF⟩
  else if 0xF1 ≤ b ∧ b ≤ 0xF3 then some ⟨1, 3, b - 0xF0, 0x80, 0xBF⟩
  else if b = 0xF4 then some ⟨1, 3, 4, 0x80, 0x8F⟩
  else none

/-- Reads on from byte `start`, where a character begins, perhaps with its `lead` already read. -/
def decodeFrom (start : Nat) (lead : Option Lead) : List UInt8 → Except Utf8Fault (List Char)
  | [] =>
    match lead with
    | none => .ok []
    | some _ => .error ⟨start, none⟩
  | byte :: rest =>
    let b := byte.toNat
    match lead with
    | none =>
      if b < 0x80 then (decodeFrom (start + 1) none rest).map (Char.ofNat b :: ·)
      else
        match lead? b with
        | some l => decodeFrom start (some l) rest
        | none => .error ⟨start, some 1⟩
    | some l =>
      if l.low ≤ b ∧ b ≤ l.high then
        let value := l.value * 64 + (b - 0x80)
        if l.owed ≤ 1 then
          (decodeFrom (start + l.seen + 1) none rest).map (Char.ofNat value :: ·)
        else decodeFrom start (some ⟨l.seen + 1, l.owed - 1, value, 0x80, 0xBF⟩) rest
      else .error ⟨start, some l.seen⟩

def decode (bytes : List UInt8) : Except Utf8Fault (List Char) := decodeFrom 0 none bytes

/-- The bytes as a text, if they are one. -/
def text? (bytes : List UInt8) : Option String :=
  match decode bytes with
  | .ok cs => some (String.ofList cs)
  | .error _ => none

/-- Plain bytes are their own characters. -/
theorem decodeFrom_ascii {start : Nat} {b : UInt8} {rest : List UInt8} (h : b.toNat < 0x80) :
    decodeFrom start none (b :: rest) =
      (decodeFrom (start + 1) none rest).map (Char.ofNat b.toNat :: ·) := by
  simp [decodeFrom, h]

end CoalescingQueue.Text
