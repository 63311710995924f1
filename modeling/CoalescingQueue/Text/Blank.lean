/-!
# Blank characters

The characters that separate words: those with the Unicode property White_Space. Trimming
removes them at both ends of a text and nowhere else.
-/
namespace CoalescingQueue.Text

/-- The Unicode property White_Space, which the zero width characters do not have. -/
def isBlank (c : Char) : Bool :=
  let n := c.toNat
  (0x09 ≤ n && n ≤ 0x0D) || n == 0x20 || n == 0x85 || n == 0xA0 || n == 0x1680 ||
    (0x2000 ≤ n && n ≤ 0x200A) || n == 0x2028 || n == 0x2029 || n == 0x202F || n == 0x205F ||
    n == 0x3000

def trimLeft (cs : List Char) : List Char := cs.dropWhile isBlank

def trimRight (cs : List Char) : List Char := (cs.reverse.dropWhile isBlank).reverse

/-- The text without the blank characters around it. -/
def trim (cs : List Char) : List Char := trimRight (trimLeft cs)

end CoalescingQueue.Text
