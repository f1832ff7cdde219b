/-!
Finite double-precision numbers, exactly.

A finite double is a sign and a place in the ascending list of the
non-negative doubles; the place is the bit pattern without its sign. The
real number it stands for is `significand * 2 ^ exponent`, and
`Double.ofRatio?` rounds a ratio to the nearest double, ties to the even
one. Nothing here uses machine arithmetic, so every step can be reasoned
about.
-/

namespace Stencil

/-- The place that infinity would have, one beyond the largest double. -/
def Double.infinity : Nat := 0x7ff0000000000000

/-- A finite double: `place` counts the doubles from zero up to its
absolute value. -/
structure Double where
  negative : Bool
  place : Nat
  finite : place < Double.infinity := by decide
  deriving DecidableEq

namespace Double

/-- The bit that tells the sign, `2 ^ 63`. -/
def signBit : Nat := 0x8000000000000000

/-- How many doubles have the same sign and power of two, `2 ^ 52`. -/
def binade : Nat := 0x10000000000000

def zero : Double := { negative := false, place := 0 }

/-- The double with this sign and place, if that is not beyond the largest. -/
def ofPlace? (negative : Bool) (place : Nat) : Option Double :=
  if h : place < infinity then some ⟨negative, place, h⟩ else none

/-- Reads a bit pattern of 64 bits; none for infinities and for what is not a
number. -/
def ofBits? (bits : Nat) : Option Double :=
  ofPlace? (bits / signBit % 2 == 1) (bits % signBit)

def toBits (x : Double) : Nat :=
  (if x.negative then signBit else 0) + x.place

/-- The integer factor of the absolute value. -/
def significand (x : Double) : Nat :=
  if x.place < binade then x.place else binade + x.place % binade

/-- The power of two of the absolute value. -/
def exponent (x : Double) : Int :=
  if x.place < binade then -1074 else (x.place / binade : Nat) - 1075

/-- `n * base ^ e` when `e` is not negative, and `n` itself otherwise. -/
def scaleUp (base n : Nat) (e : Int) : Nat := n * Nat.pow base e.toNat

/-- The integer nearest to `n / d`, of two the even one. -/
def divideNearest (n d : Nat) : Nat :=
  let q := n / d
  let r := n % d
  if 2 * r > d || (2 * r == d && q % 2 == 1) then q + 1 else q

/-- The power of two for which `n / d` has an integer factor of 53 bits, but
never below the power of the smallest doubles. -/
def exponentFor (n d : Nat) : Int :=
  let guess : Int := (n.log2 : Int) - d.log2 - 52
  let least := if scaleUp 2 n (-guess) < scaleUp 2 (d * binade) guess then guess - 1 else guess
  max least (-1074)

/-- The place of the double nearest to `n / d`, where `d` is not zero. It is
`infinity` or more when the ratio is too large. -/
def placeOfRatio (n d : Nat) : Nat :=
  if n = 0 then 0 else
    let e := exponentFor n d
    (e + 1074).toNat * binade + divideNearest (scaleUp 2 n (-e)) (scaleUp 2 d e)

/-- The double nearest to `n / d`, if the ratio is not too large. -/
def ofRatio? (negative : Bool) (n d : Nat) : Option Double :=
  ofPlace? negative (placeOfRatio n d)

/-- The double nearest to an integer. -/
def ofInt? (n : Int) : Option Double :=
  ofRatio? (decide (n < 0)) n.natAbs 1

/-- Numeric equality: the two zeros are equal. -/
def same (x y : Double) : Bool :=
  x.place == y.place && (x.negative == y.negative || x.place == 0)

def isZero (x : Double) : Bool :=
  x.place == 0

/-- The absolute value, when it is an integer. -/
def natAbs? (x : Double) : Option Nat :=
  if 0 ≤ x.exponent then some (scaleUp 2 x.significand x.exponent)
  else
    let d := scaleUp 2 1 (-x.exponent)
    if x.significand % d = 0 then some (x.significand / d) else none

/-- The absolute value rounded down. -/
def floorAbs (x : Double) : Nat :=
  scaleUp 2 x.significand x.exponent / scaleUp 2 1 (-x.exponent)

theorem same_refl (x : Double) : x.same x = true := by
  simp [same]

theorem same_comm (x y : Double) : x.same y = y.same x := by
  rw [Bool.eq_iff_iff]
  simp only [same, Bool.and_eq_true, Bool.or_eq_true, beq_iff_eq]
  grind

theorem same_trans {x y z : Double} (hxy : x.same y = true) (hyz : y.same z = true) :
    x.same z = true := by
  simp only [same, Bool.and_eq_true, Bool.or_eq_true, beq_iff_eq] at *
  grind

/-- A double is read back from its own bits. -/
theorem ofBits?_toBits (x : Double) : ofBits? x.toBits = some x := by
  obtain ⟨negative, place, finite⟩ := x
  have bound := finite
  rw [infinity] at bound
  have low : (Double.mk negative place finite).toBits % signBit = place := by
    cases negative <;> simp [toBits, signBit] <;> omega
  have high : ((Double.mk negative place finite).toBits / signBit % 2 == 1) = negative := by
    cases negative <;> simp [toBits, signBit] <;> omega
  rw [ofBits?, low, high, ofPlace?, dif_pos finite]

end Double

end Stencil
