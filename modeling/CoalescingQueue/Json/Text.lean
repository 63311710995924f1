import CoalescingQueue.Json.Fault

/-!
# JSON texts

A text stands between double quotes. Quotes, backslashes and control characters are escaped;
everything else is written as it is. Reading accepts every escape of the standard, among them
pairs of surrogates, but no surrogate on its own.
-/
namespace CoalescingQueue.Json

def hexDigit (n : Nat) : Char := Nat.digitChar (n % 16)

/-- One character of a written text. -/
def escape (c : Char) : List Char :=
  if c = '"' then ['\\', '"']
  else if c = '\\' then ['\\', '\\']
  else if c = '\x08' then ['\\', 'b']
  else if c = '\x0c' then ['\\', 'f']
  else if c = '\n' then ['\\', 'n']
  else if c = '\r' then ['\\', 'r']
  else if c = '\t' then ['\\', 't']
  else if c.toNat < 0x20 then ['\\', 'u', '0', '0', hexDigit (c.toNat / 16), hexDigit c.toNat]
  else [c]

def writeText (s : String) : List Char := '"' :: s.toList.flatMap escape ++ ['"']

/-- The character that a one-letter escape stands for. -/
def shortEscape? (c : Char) : Option Char :=
  match c with
  | '"' => some '"'
  | '\\' => some '\\'
  | '/' => some '/'
  | 'b' => some '\x08'
  | 'f' => some '\x0c'
  | 'n' => some '\n'
  | 'r' => some '\r'
  | 't' => some '\t'
  | _ => none

def hexValue? (c : Char) : Option Nat :=
  if c.isDigit then some (c.toNat - '0'.toNat)
  else if 'a' ≤ c && c ≤ 'f' then some (c.toNat - 'a'.toNat + 10)
  else if 'A' ≤ c && c ≤ 'F' then some (c.toNat - 'A'.toNat + 10)
  else none

def byteCount (cs : List Char) : Nat := cs.foldr (fun c n => c.utf8Size + n) 0

/-- Whether four more bytes follow. -/
def hasFourBytes (cs : List Char) : Bool := 4 ≤ byteCount (cs.take 4)

def isHighSurrogate (n : Nat) : Bool := 0xD800 ≤ n && n ≤ 0xDBFF

def isLowSurrogate (n : Nat) : Bool := 0xDC00 ≤ n && n ≤ 0xDFFF

def joinSurrogates (high low : Nat) : Char :=
  Char.ofNat (0x10000 + (high - 0xD800) * 0x400 + (low - 0xDC00))

/-- Where the reader of a text stands. -/
inductive TextPlace
  | plain
  /-- After a backslash. -/
  | escaped
  /-- In an escape by number, with `left` digits to come, perhaps after a high surrogate. -/
  | digits (high : Option Nat) (left : Nat) (value : Nat)
  /-- After a high surrogate, where a second escape has to follow. -/
  | paired (high : Nat)
  | pairedEscape (high : Nat)

/-- The character of a complete escape by number, or the high surrogate that wants a second. -/
def joinUnit (high : Option Nat) (value : Nat) : Except Fault (Char ⊕ Nat) :=
  match high with
  | some h =>
    if isLowSurrogate value then .ok (.inl (joinSurrogates h value)) else .error .malformed
  | none =>
    if isLowSurrogate value then .error .malformed
    else if isHighSurrogate value then .ok (.inr value)
    else .ok (.inl (Char.ofNat value))

/-- Reads on to the closing quote. The characters read so far are in `seen`, the last one first. -/
def readTextFrom (place : TextPlace) (seen : List Char) : List Char → Reading String
  | [] => .error .truncated
  | c :: rest =>
    match place with
    | .plain =>
      if c = '"' then .ok (String.ofList seen.reverse, rest)
      else if c = '\\' then readTextFrom .escaped seen rest
      else if c.toNat < 0x20 then .error .malformed
      else readTextFrom .plain (c :: seen) rest
    | .escaped =>
      if c = 'u' then
        if hasFourBytes rest then readTextFrom (.digits none 4 0) seen rest
        else .error .truncated
      else
        match shortEscape? c with
        | some e => readTextFrom .plain (e :: seen) rest
        | none => .error .malformed
    | .digits high left value =>
      match hexValue? c with
      | none => .error .malformed
      | some d =>
        if left ≤ 1 then
          match joinUnit high (value * 16 + d) with
          | .ok (.inl e) => readTextFrom .plain (e :: seen) rest
          | .ok (.inr h) => readTextFrom (.paired h) seen rest
          | .error fault => .error fault
        else readTextFrom (.digits high (left - 1) (value * 16 + d)) seen rest
    | .paired high =>
      if c = '\\' then readTextFrom (.pairedEscape high) seen rest else .error .malformed
    | .pairedEscape high =>
      if c = 'u' then
        if hasFourBytes rest then readTextFrom (.digits (some high) 4 0) seen rest
        else .error .truncated
      else .error .malformed

/-- Reads a text of which the opening quote has been read. -/
def readText (cs : List Char) : Reading String := readTextFrom .plain [] cs

end CoalescingQueue.Json
