import CoalescingQueue.Text.Property

/-!
# Quoted texts

How a text is shown inside a message or a description: between double quotes, with every
character that would not be seen as itself written as an escape.
-/
namespace CoalescingQueue.Text

/-- The number in base sixteen, in lower case and without leading zeros. -/
def hexadecimal (n : Nat) : List Char := Nat.toDigits 16 n

/-- One character of a quoted text. A single quote stands for itself. -/
def escape (c : Char) : List Char :=
  if c = '\x00' then ['\\', '0']
  else if c = '\t' then ['\\', 't']
  else if c = '\r' then ['\\', 'r']
  else if c = '\n' then ['\\', 'n']
  else if c = '"' then ['\\', '"']
  else if c = '\\' then ['\\', '\\']
  else if isGraphemeExtend c || isInvisible c then
    '\\' :: 'u' :: '\x7b' :: hexadecimal c.toNat ++ ['\x7d']
  else [c]

def quotedChars (cs : List Char) : List Char := '"' :: cs.flatMap escape ++ ['"']

/-- The text between double quotes, with escapes for what would not be seen. -/
def quoted (s : String) : String := String.ofList (quotedChars s.toList)

end CoalescingQueue.Text
