/-!
# The shortest decimal of a binary fraction

A double stands for every real number that rounds to it. Its shortest decimal is the one with
the fewest digits among those numbers, and of several the nearest to the double itself. All
comparisons are made on natural numbers.
-/
namespace CoalescingQueue.Text

/-- The positive number `mantissa · 2 ^ exponent`. At a power of two the neighbour below is
twice as near as the one above, which is what `narrow` says. -/
structure BinaryFraction where
  mantissa : Nat
  exponent : Int
  narrow : Bool
  deriving DecidableEq, Repr

/-- The bit in front of the fraction of a double, which is not written down. -/
def hiddenBit : Nat := Nat.pow 2 52

/-- The magnitude of a finite double. -/
def BinaryFraction.ofBits (bits : Nat) : BinaryFraction :=
  let biased : Nat := bits / hiddenBit % 2048
  let fraction : Nat := bits % hiddenBit
  if biased = 0 then ⟨fraction, -1074, false⟩
  else ⟨hiddenBit + fraction, (biased : Int) - 1075, fraction = 0 && 1 < biased⟩

/-- The number `digits · 10 ^ exponent`. -/
structure Decimal where
  digits : Nat
  exponent : Int
  deriving DecidableEq, Repr

/-- The multiple of `10 ^ k` that is nearest to the number, if it rounds to the number. Halves
go to the even multiple, and the ends of the interval belong to it when the mantissa is even. -/
def BinaryFraction.nearest? (b : BinaryFraction) (k : Int) : Option Nat :=
  let scale := Nat.pow 2 (b.exponent - 2).toNat * Nat.pow 10 (-k).toNat
  let grid := Nat.pow 2 (2 - b.exponent).toNat * Nat.pow 10 k.toNat
  let value := 4 * b.mantissa * scale
  let low := (4 * b.mantissa - if b.narrow then 1 else 2) * scale
  let high := (4 * b.mantissa + 2) * scale
  let inside (d : Nat) : Bool :=
    if b.mantissa % 2 = 0 then low ≤ d * grid && d * grid ≤ high
    else low < d * grid && d * grid < high
  let below := value / grid
  let above := below + 1
  match inside below, inside above with
  | true, true =>
    let down := value - below * grid
    let up := above * grid - value
    if down < up || (down = up && below % 2 = 0) then some below else some above
  | true, false => some below
  | false, true => some above
  | false, false => none

/-- The first hit on ever finer grids. -/
def BinaryFraction.search (b : BinaryFraction) (k : Int) : Nat → Decimal
  | 0 => ⟨0, 0⟩
  | grids + 1 =>
    match b.nearest? k with
    | some d => ⟨d, k⟩
    | none => b.search (k - 1) grids

/-- The shortest decimal that rounds to the number: the coarsest grid on which one lies. -/
def BinaryFraction.shortest (b : BinaryFraction) : Decimal :=
  if b.mantissa = 0 then ⟨0, 0⟩ else b.search 309 660

/-- Which numbers are written out in full, by the exponent of their first digit, and how wide
an exponent is written at least. -/
structure DecimalLayout where
  least : Int
  most : Int
  exponentWidth : Nat

/-- Numbers from a hundred thousandth to below ten to the sixteenth are written out. -/
def plainLayout : DecimalLayout := ⟨-5, 15, 2⟩

def padLeft (width : Nat) (cs : List Char) : List Char :=
  List.replicate (width - cs.length) '0' ++ cs

/-- The text of a decimal: always with a point, or with an exponent that carries its sign. -/
def Decimal.render (layout : DecimalLayout) (d : Decimal) : List Char :=
  let ds := Nat.toDigits 10 d.digits
  let lead : Int := d.exponent + ds.length - 1
  if d.digits = 0 then ['0', '.', '0']
  else if layout.least ≤ lead && lead ≤ layout.most then
    if 0 ≤ d.exponent then ds ++ List.replicate d.exponent.toNat '0' ++ ['.', '0']
    else
      let places := (-d.exponent).toNat
      let padded := padLeft (places + 1) ds
      padded.take (padded.length - places) ++ '.' :: padded.drop (padded.length - places)
  else
    let fraction := if ds.length = 1 then [] else '.' :: ds.drop 1
    let sign := if lead < 0 then '-' else '+'
    ds.take 1 ++ fraction ++ 'e' :: sign ::
      padLeft layout.exponentWidth (Nat.toDigits 10 lead.natAbs)

/-- The digits of a finite double, without its sign. -/
def shortestDecimal (x : Float) : Decimal := (BinaryFraction.ofBits x.toBits.toNat).shortest

/-- The text of a finite double, where zero keeps its sign. -/
def floatText (x : Float) : String :=
  let sign := if x.toBits.toNat < Nat.pow 2 63 then [] else ['-']
  String.ofList (sign ++ (shortestDecimal x).render plainLayout)

end CoalescingQueue.Text
