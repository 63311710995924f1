import CoalescingQueue.Json.Text

/-!
# Values nobody asked for

A value that is not kept is passed over in one sweep that looks at each character once and
remembers the open brackets. It has to follow the grammar, but it may be nested to any depth,
and its texts may hold surrogates in any order.
-/
namespace CoalescingQueue.Json

inductive Bracket
  | list
  | map
  deriving DecidableEq, Repr

def Bracket.closing : Bracket → Char
  | .list => ']'
  | .map => '}'

/-- Where the sweep stands. -/
inductive SkipPlace
  /-- A value has to begin. -/
  | value
  /-- Just after an opening bracket. -/
  | opened
  /-- After a value inside a bracket. -/
  | done
  /-- A key has to begin. -/
  | key
  /-- After a key. -/
  | colon
  | text (isKey : Bool)
  | escaped (isKey : Bool)
  | digits (isKey : Bool) (left : Nat)
  /-- Inside a word, with its last letters to come. -/
  | word (left : List Char)
  /-- After a minus sign. -/
  | minus
  /-- After a leading zero. -/
  | zero
  | whole
  /-- After a point. -/
  | point
  | places
  /-- After the letter of an exponent. -/
  | exponent
  | exponentSign
  | power

/-- Whether a value may end here. -/
def SkipPlace.endsNumber : SkipPlace → Bool
  | .zero | .whole | .places | .power => true
  | _ => false

/-- The place after the first character of a value, with the brackets then open. -/
def beginValue? (c : Char) (brackets : List Bracket) : Option (SkipPlace × List Bracket) :=
  match c with
  | 'n' => some (.word ['u', 'l', 'l'], brackets)
  | 't' => some (.word ['r', 'u', 'e'], brackets)
  | 'f' => some (.word ['a', 'l', 's', 'e'], brackets)
  | '-' => some (.minus, brackets)
  | '0' => some (.zero, brackets)
  | '"' => some (.text false, brackets)
  | '[' => some (.opened, .list :: brackets)
  | '\x7b' => some (.opened, .map :: brackets)
  | _ => if c.isDigit then some (.whole, brackets) else none

/-- One step inside a number: where it goes on, if the character belongs to it. -/
def SkipPlace.number? (place : SkipPlace) (c : Char) : Option SkipPlace :=
  match place with
  | .minus => if c = '0' then some .zero else if c.isDigit then some .whole else none
  | .zero =>
    if c = '.' then some .point else if c = 'e' || c = 'E' then some .exponent else none
  | .whole =>
    if c.isDigit then some .whole
    else if c = '.' then some .point
    else if c = 'e' || c = 'E' then some .exponent
    else none
  | .point => if c.isDigit then some .places else none
  | .places =>
    if c.isDigit then some .places else if c = 'e' || c = 'E' then some .exponent else none
  | .exponent =>
    if c.isDigit then some .power
    else if c = '+' || c = '-' then some .exponentSign
    else none
  | .exponentSign => if c.isDigit then some .power else none
  | .power => if c.isDigit then some .power else none
  | _ => none

/-- What a step inside brackets comes to. -/
inductive SkipStep
  | go (place : SkipPlace) (brackets : List Bracket)
  /-- The value ended with this character. -/
  | finished
  | broken

/-- After a value: on in the enclosing bracket, or the end. -/
def afterValue (brackets : List Bracket) : SkipStep :=
  if brackets.isEmpty then .finished else .go .done brackets

/-- A character after a value inside a bracket, and no gap. -/
def stepDone (c : Char) : List Bracket → SkipStep
  | [] => .broken
  | b :: outer =>
    if c = ',' then .go (match b with | .list => .value | .map => .key) (b :: outer)
    else if c = b.closing then afterValue outer
    else .broken

def stepValue (c : Char) (brackets : List Bracket) : SkipStep :=
  match beginValue? c brackets with
  | some (place, brackets) => .go place brackets
  | none => .broken

/-- A character just after an opening bracket, and no gap. -/
def stepOpened (c : Char) : List Bracket → SkipStep
  | [] => .broken
  | b :: outer =>
    if c = b.closing then afterValue outer
    else
      match b with
      | .list => stepValue c (b :: outer)
      | .map => if c = '"' then .go (.text true) (b :: outer) else .broken

/-- The end of a text that is a key or a value. -/
def afterText (isKey : Bool) (brackets : List Bracket) : SkipStep :=
  if isKey then .go .colon brackets else afterValue brackets

/-- One character of the sweep. -/
def SkipPlace.step (place : SkipPlace) (brackets : List Bracket) (c : Char) : SkipStep :=
  match place with
  | .value => if isGap c then .go .value brackets else stepValue c brackets
  | .opened => if isGap c then .go .opened brackets else stepOpened c brackets
  | .done => if isGap c then .go .done brackets else stepDone c brackets
  | .key =>
    if isGap c then .go .key brackets
    else if c = '"' then .go (.text true) brackets
    else .broken
  | .colon =>
    if isGap c then .go .colon brackets
    else if c = ':' then .go .value brackets
    else .broken
  | .text isKey =>
    if c = '"' then afterText isKey brackets
    else if c = '\\' then .go (.escaped isKey) brackets
    else if c.toNat < 0x20 then .broken
    else .go (.text isKey) brackets
  | .escaped isKey =>
    if c = 'u' then .go (.digits isKey 4) brackets
    else if (shortEscape? c).isSome then .go (.text isKey) brackets
    else .broken
  | .digits isKey left =>
    if (hexValue? c).isNone then .broken
    else if left ≤ 1 then .go (.text isKey) brackets
    else .go (.digits isKey (left - 1)) brackets
  | .word [] => .broken
  | .word (w :: left) =>
    if c ≠ w then .broken
    else if left.isEmpty then afterValue brackets
    else .go (.word left) brackets
  | place =>
    match place.number? c with
    | some next => .go next brackets
    | none => .broken

/-- The end of the text in the middle of a value. A number that has no end is broken. -/
def SkipPlace.atEnd (place : SkipPlace) : Fault :=
  match place with
  | .minus | .point | .exponent | .exponentSign => .malformed
  | _ => .truncated

/-- Whether a number ended before this character. A digit that cannot follow does not end it. -/
def SkipPlace.isLeftBy (place : SkipPlace) (c : Char) : Bool :=
  place.endsNumber && (place.number? c).isNone && !c.isDigit

/-- An escape by number for which the text has too few bytes left. -/
def SkipPlace.overruns (place : SkipPlace) (c : Char) (rest : List Char) : Bool :=
  match place with
  | .escaped _ => c = 'u' && !hasFourBytes rest
  | _ => false

/-- Passes over a value and yields what follows it. A number ends before the first character
that does not belong to it. -/
def skipFrom (place : SkipPlace) (brackets : List Bracket) :
    List Char → Except Fault (List Char)
  | [] => if place.endsNumber && brackets.isEmpty then .ok [] else .error place.atEnd
  | c :: rest =>
    let isLeft := place.isLeftBy c
    if isLeft && brackets.isEmpty then .ok (c :: rest)
    else if place.overruns c rest then .error .truncated
    else
      match (if isLeft then SkipPlace.done else place).step brackets c with
      | .go place brackets => skipFrom place brackets rest
      | .finished => .ok rest
      | .broken => .error .malformed

/-- Passes over the value that begins here, perhaps after gaps. -/
def skipValue (cs : List Char) : Except Fault (List Char) := skipFrom .value [] cs

end CoalescingQueue.Json
