/-!
# Unsigned numerals

The decimal spelling of a number below a limit: an optional plus sign and one or more digits.
Reading goes from left to right, so a sign that does not belong is met before a number that is
too large, unless the number has overrun the limit by then.
-/
namespace CoalescingQueue.Text

/-- The values of a sixty-four bit counter lie below this. -/
def wordLimit : Nat := Nat.pow 2 64

inductive NumeralFault
  | empty
  | invalidDigit
  | tooLarge
  deriving DecidableEq, Repr

def NumeralFault.message : NumeralFault → String
  | .empty => "cannot parse integer from empty string"
  | .invalidDigit => "invalid digit found in string"
  | .tooLarge => "number too large to fit in target type"

def digitValue (c : Char) : Nat := c.toNat - '0'.toNat

/-- The digits read so far make `value`; the whole has to stay below `limit`. -/
def readDigits (limit : Nat) (value : Nat) : List Char → Except NumeralFault Nat
  | [] => .ok value
  | c :: rest =>
    if c.isDigit then
      let next := value * 10 + digitValue c
      if next < limit then readDigits limit next rest else .error .tooLarge
    else .error .invalidDigit

/-- The number that the text spells, with at most one plus sign in front. -/
def readNumeral (limit : Nat) : List Char → Except NumeralFault Nat
  | [] => .error .empty
  | ['+'] => .error .invalidDigit
  | '+' :: digits => readDigits limit 0 digits
  | digits => readDigits limit 0 digits

end CoalescingQueue.Text
