/-!
# Endpoints

The address that telemetry is exported to, as far as its form is checked: an optional scheme, an
authority, and after a scheme also a path and a query.
-/
namespace CoalescingQueue

inductive EndpointFault
  | invalidCharacter
  | invalidAuthority
  | invalidFormat
  | schemeTooLong
  | tooLong
  deriving DecidableEq, Repr

def EndpointFault.message : EndpointFault → String
  | .invalidCharacter => "invalid uri character"
  | .invalidAuthority => "invalid authority"
  | .invalidFormat => "invalid format"
  | .schemeTooLong => "scheme too long"
  | .tooLong => "uri too long"

namespace Endpoint

def maxLength : Nat := 65534

def maxSchemeLength : Nat := 64

def isSchemeChar (c : Char) : Bool := c.isAlphanum || "+-.~".toList.contains c

def isAddressChar (c : Char) : Bool := c.isAlphanum || "!#$&'()*+,-./:;=?@[]_~".toList.contains c

def isPathChar (c : Char) : Bool :=
  let n := c.toNat
  n = 0x21 || (0x24 ≤ n && n ≤ 0x3B) || n = 0x3D || (0x40 ≤ n && n ≤ 0x5F) ||
    (0x61 ≤ n && n ≤ 0x7E) || 0x7F ≤ n || c = '"'

def isQueryChar (c : Char) : Bool :=
  let n := c.toNat
  n = 0x21 || (0x24 ≤ n && n ≤ 0x3B) || n = 0x3D || 0x3F ≤ n

/-- The number of characters in front of a scheme's end mark, if there is one. -/
def schemeLength? : List Char → Option Nat
  | ':' :: '/' :: '/' :: _ => some 0
  | c :: rest => if isSchemeChar c then (schemeLength? rest).map (· + 1) else none
  | [] => none

/-- What follows the scheme, or nothing if there is no scheme. -/
def afterScheme? (cs : List Char) : Except EndpointFault (Option (List Char)) :=
  if cs.length ≤ 3 then .ok none
  else
    match schemeLength? cs with
    | none => .ok none
    | some n => if maxSchemeLength < n then .error .schemeTooLong else .ok (some (cs.drop (n + 3)))

/-- What has been seen of an authority. A user name may hold colons and percent signs, and so may
an address in brackets; elsewhere there is one colon at most. -/
structure Authority where
  colons : Nat := 0
  isOpened : Bool := false
  isClosed : Bool := false
  hasPercent : Bool := false
  endsWithUser : Bool := false

namespace Authority

def step (a : Authority) (c : Char) : Except EndpointFault Authority :=
  let a := { a with endsWithUser := false }
  if c = ':' then
    if 8 ≤ a.colons then .error .invalidAuthority else .ok { a with colons := a.colons + 1 }
  else if c = '[' then
    if a.hasPercent || a.isOpened then .error .invalidAuthority
    else .ok { a with isOpened := true }
  else if c = ']' then
    if !a.isOpened || a.isClosed then .error .invalidAuthority
    else .ok { a with isClosed := true, colons := 0, hasPercent := false }
  else if c = '@' then .ok { a with colons := 0, hasPercent := false, endsWithUser := true }
  else if c = '%' then .ok { a with hasPercent := true }
  else if isAddressChar c then .ok a
  else .error .invalidCharacter

def isWellFormed (a : Authority) : Bool :=
  a.isOpened == a.isClosed && a.colons ≤ 1 && !a.endsWithUser && !a.hasPercent

end Authority

def endsAuthority (c : Char) : Bool := c = '/' || c = '?' || c = '#'

/-- Reads an authority and yields what follows it. -/
def readAuthority (a : Authority) : List Char → Except EndpointFault (List Char)
  | [] => if a.isWellFormed then .ok [] else .error .invalidAuthority
  | c :: rest =>
    if endsAuthority c then if a.isWellFormed then .ok (c :: rest) else .error .invalidAuthority
    else
      match a.step c with
      | .ok a => readAuthority a rest
      | .error fault => .error fault

/-- The part in front of a fragment. -/
def beforeFragment (cs : List Char) : List Char := cs.takeWhile (· ≠ '#')

/-- Checks a path and a query. -/
def checkPath (cs : List Char) : Except EndpointFault Unit :=
  let cs := beforeFragment cs
  let path := cs.takeWhile (· ≠ '?')
  let query := cs.drop (path.length + 1)
  if path.all isPathChar && query.all isQueryChar then .ok () else .error .invalidCharacter

/-- Checks an address that begins with neither a path nor a star. -/
def checkFull (cs : List Char) : Except EndpointFault Unit := do
  match ← afterScheme? cs with
  | none =>
    let rest ← readAuthority {} cs
    if rest.isEmpty then return () else .error .invalidFormat
  | some cs =>
    let rest ← readAuthority {} cs
    if rest.length = cs.length then .error .invalidFormat else checkPath rest

def checkChars (cs : List Char) : Except EndpointFault Unit :=
  match cs with
  | ['*'] => .ok ()
  | ['?'] | ['#'] => .error .invalidCharacter
  | '/' :: _ => checkPath cs
  | _ => checkFull cs

/-- Checks the form of an address. -/
def check (s : String) : Except EndpointFault Unit :=
  if maxLength < s.utf8ByteSize then .error .tooLong else checkChars s.toList

end Endpoint

end CoalescingQueue
