import Stencil.Number.Double

/-!
The shortest decimal of a double.

A decimal is an integer and a power of ten. `Double.shortest` finds, among
the decimals that round to a double, one with the fewest digits, and of
those the nearest: it takes the coarsest decimal grid that has a point in
the interval of reals that round to the double. If a grid has one, then
one of the double's two neighbours on the grid is such a point, so two
candidates a grid suffice.
-/

namespace Stencil

/-- The number `digits * 10 ^ exponent`. -/
structure Decimal where
  digits : Nat
  exponent : Int
  deriving DecidableEq

/-- Which of two equally near neighbours is taken. -/
inductive Tie
  | up
  | even
  deriving DecidableEq

namespace Double

/-- The absolute value and the ends of the interval of reals that round to it,
in units of a quarter of the last binary digit. -/
structure Interval where
  low : Nat
  value : Nat
  high : Nat
  closed : Bool

/-- The gap below a power of two is half as wide as the gap above it. -/
def interval (x : Double) : Interval :=
  let m := x.significand
  let narrow := m == binade && x.exponent != -1074
  { low := 4 * m - (if narrow then 1 else 2), value := 4 * m, high := 4 * m + 2,
    closed := m % 2 == 0 }

/-- The point of the grid of multiples of `10 ^ g` that is nearest to the
absolute value, if one of the two neighbours rounds to `x`. -/
def gridPoint? (tie : Tie) (x : Double) (g : Int) : Option Nat :=
  let i := x.interval
  let unit := x.exponent - 2
  let up := scaleUp 10 (scaleUp 2 1 unit) (-g)
  let down := scaleUp 10 (scaleUp 2 1 (-unit)) g
  let inside (c : Nat) : Bool :=
    if i.closed then i.low * up ≤ c * down && c * down ≤ i.high * up
    else i.low * up < c * down && c * down < i.high * up
  let below := i.value * up / down
  let left := i.value * up % down
  let nearer :=
    if 2 * left < down then below
    else if 2 * left > down then below + 1
    else if tie = .even && below % 2 == 0 then below else below + 1
  let other := if nearer = below then below + 1 else below
  if inside nearer then some nearer else if inside other then some other else none

/-- The first of `n` grids that has a point, starting from `10 ^ g` and
getting finer. -/
def coarsest (tie : Tie) (x : Double) (g : Int) : Nat → Decimal
  | 0 => ⟨0, g⟩
  | n + 1 =>
    match gridPoint? tie x g with
    | some digits => ⟨digits, g⟩
    | none => coarsest tie x (g - 1) n

/-- The fewest digits that read back as the absolute value of `x`. No double
needs a grid coarser than `10 ^ 309` or finer than `10 ^ (-324)`. -/
def shortest (tie : Tie) (x : Double) : Decimal :=
  if x.isZero then ⟨0, 0⟩ else coarsest tie x 309 640

end Double

namespace Decimal

/-- The digits with the decimal point in its place and no exponent. -/
def positional (d : Decimal) : List Char :=
  let ds := Nat.toDigits 10 d.digits
  if 0 ≤ d.exponent then ds ++ List.replicate d.exponent.toNat '0'
  else
    let places := (-d.exponent).toNat
    if places < ds.length then
      ds.take (ds.length - places) ++ '.' :: ds.drop (ds.length - places)
    else '0' :: '.' :: List.replicate (places - ds.length) '0' ++ ds

/-- The power of ten of the first digit. -/
def magnitude (d : Decimal) : Int :=
  d.exponent + (Nat.toDigits 10 d.digits).length - 1

/-- One digit, the other digits behind a point, and the power of ten, which always
has a sign. -/
def scientific (d : Decimal) : List Char :=
  let sign := if d.magnitude < 0 then '-' else '+'
  let mark := 'e' :: sign :: Nat.toDigits 10 d.magnitude.natAbs
  match Nat.toDigits 10 d.digits with
  | [] => mark
  | [c] => c :: mark
  | c :: cs => c :: '.' :: cs ++ mark

end Decimal

end Stencil
