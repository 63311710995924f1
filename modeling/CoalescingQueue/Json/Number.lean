import CoalescingQueue.Json.Fault
import CoalescingQueue.Text.Numeral

/-!
# JSON numbers

A numeral without point and exponent is an integer as long as it fits in sixty-four bits, and a
floating point number otherwise. A floating point number is made from the digits that fit in
sixty-four bits, scaled by a power of ten in floating point arithmetic.
-/
namespace CoalescingQueue.Json

inductive Number
  | natural (n : Nat)
  | negative (n : Nat)
  | floating (x : Float)

def Number.found : Number → Found
  | .natural n => .integer n
  | .negative n => .integer (-n)
  | .floating x => .floating x

/-- Appends digits to a significand as long as it stays below the word limit, and tells how many
digits were left over. -/
def absorb (significand : Nat) : List Char → Nat × Nat
  | [] => (significand, 0)
  | c :: rest =>
    let next := significand * 10 + Text.digitValue c
    if next < Text.wordLimit then absorb next rest else (significand, rest.length + 1)

def powerOfTen (n : Nat) : Float := Float.ofScientific 1 false n

/-- Divides by ten to the power `n` in steps that stay in range. -/
def scaleDown (x : Float) (n : Nat) : Nat → Float
  | 0 => x
  | steps + 1 =>
    if n ≤ 308 then x / powerOfTen n
    else if x == 0 then x
    else scaleDown (x / powerOfTen 308) (n - 308) steps

/-- The significand times a power of ten, unless that is out of range. -/
def scale? (significand : Nat) (exponent : Int) : Option Float :=
  let x := significand.toFloat
  if exponent < 0 then some (scaleDown x exponent.natAbs 5)
  else if exponent ≤ 308 then
    let y := x * powerOfTen exponent.natAbs
    if y.isInf then none else some y
  else if significand = 0 then some x
  else none

def floatingNumber (isNegative : Bool) (significand : Nat) (exponent : Int) : Except Fault Number :=
  match scale? significand exponent with
  | some x => .ok (.floating (if isNegative then -x else x))
  | none => .error .malformed

def spanDigits (cs : List Char) : List Char × List Char := cs.span Char.isDigit

def startsExponent (c : Char) : Bool := c = 'e' || c = 'E'

/-- Reads an exponent of which the letter has been read. -/
def readExponent (cs : List Char) : Reading Int :=
  let (isNegative, cs) :=
    match cs with
    | '+' :: rest => (false, rest)
    | '-' :: rest => (true, rest)
    | _ => (false, cs)
  match spanDigits cs with
  | ([], []) => .error .truncated
  | ([], _ :: _) => .error .malformed
  | (digits, rest) =>
    let n : Int := digits.foldl (fun n c => n * 10 + Text.digitValue c) 0
    .ok (if isNegative then -n else n, rest)

/-- Reads what may follow the digits of a floating point number. -/
def readScaled (isNegative : Bool) (significand : Nat) (exponent : Int) (cs : List Char) :
    Reading Number :=
  match cs with
  | c :: rest =>
    if startsExponent c then
      match readExponent rest with
      | .ok (extra, rest) =>
        (floatingNumber isNegative significand (exponent + extra)).map (·, rest)
      | .error fault => .error fault
    else (floatingNumber isNegative significand exponent).map (·, cs)
  | [] => (floatingNumber isNegative significand exponent).map (·, cs)

/-- A whole number that fits is an integer, where zero has no sign. -/
def wholeNumber (isNegative : Bool) (n : Nat) : Number :=
  if !isNegative then .natural n
  else if 0 < n && n ≤ Nat.pow 2 63 then .negative n
  else .floating (-n.toFloat)

/-- Reads a number of which the sign has been read. -/
def readUnsigned (isNegative : Bool) (cs : List Char) : Reading Number :=
  let (digits, rest) := spanDigits cs
  match digits, rest with
  | [], [] => .error .truncated
  | [], _ :: _ => .error .malformed
  | '0' :: _ :: _, _ => .error .malformed
  | _, _ =>
    let (significand, dropped) := absorb 0 digits
    match rest with
    | '.' :: fraction =>
      let (places, rest) := spanDigits fraction
      match places, rest with
      | [], [] => .error .truncated
      | [], _ :: _ => .error .malformed
      | _, _ =>
        let (significand, left) := absorb significand places
        let taken := places.length - left
        readScaled isNegative significand ((dropped : Int) - taken) rest
    | c :: _ =>
      if startsExponent c || 0 < dropped then readScaled isNegative significand dropped rest
      else .ok (wholeNumber isNegative significand, rest)
    | [] =>
      if 0 < dropped then readScaled isNegative significand dropped rest
      else .ok (wholeNumber isNegative significand, [])

/-- Reads a number that begins here. -/
def readNumber (cs : List Char) : Reading Number :=
  match cs with
  | '-' :: rest => readUnsigned true rest
  | _ => readUnsigned false cs

end CoalescingQueue.Json
