import CoalescingQueue.Request

/-!
# Random identifiers

An identifier for a request that was given none: a universally unique identifier of version
four, which is thirty-two random digits in five groups, apart from the digit that names the
version and the one that names the variant.
-/
namespace CoalescingQueue.Identifier

/-- The lengths of the groups between the hyphens. -/
def groups : List Nat := [8, 4, 4, 4, 12]

def split (lengths : List Nat) (cs : List Char) : List (List Char) :=
  match lengths with
  | [] => []
  | n :: rest => cs.take n :: split rest (cs.drop n)

/-- Names the version and the variant in a row of digits. -/
def stamp (digits : List Nat) : List Nat := (digits.set 12 4).modify 16 fun d => 8 + d % 4

def ofDigits (digits : List Nat) : String :=
  let parts := split groups ((stamp digits).map Nat.digitChar)
  "-".intercalate (parts.map String.ofList)

def isLowerHex (c : Char) : Bool := c.isDigit || ('a' ≤ c && c ≤ 'f')

/-- Lower case, hyphenated, of version four and of the common variant. -/
def isVersionFour (s : String) : Bool :=
  let cs := s.toList
  cs.length = 36 &&
    cs.zipIdx.all fun (c, i) =>
      if i = 8 || i = 13 || i = 18 || i = 23 then c = '-'
      else if i = 14 then c = '4'
      else if i = 19 then "89ab".toList.contains c
      else isLowerHex c

def drawDigits (source : StdGen) : Nat → List Nat × StdGen
  | 0 => ([], source)
  | count + 1 =>
    let (digit, source) := randNat source 0 15
    let (digits, source) := drawDigits source count
    (digit :: digits, source)

/-- The next request with an identifier of its own. -/
def generate (source : StdGen) : Request × StdGen :=
  let (digits, source) := drawDigits source 32
  (⟨ofDigits digits⟩, source)

/-- The next `count` requests. -/
def generateMany (source : StdGen) : Nat → List Request
  | 0 => []
  | count + 1 =>
    let (request, source) := generate source
    request :: generateMany source count

end CoalescingQueue.Identifier
