import Stencil.Number.Decimal

/-!
Numbers of template data.

A number is an integer or a finite double. The two kinds stay apart in
the data, but compare by the double nearest to them, so that `1` and `1.0`
are equal.
-/

namespace Stencil

/-- A number of template data. -/
inductive Number
  | integer (n : Int)
  | double (x : Double)
  deriving DecidableEq

namespace Number

/-- The nearest double; none for integers beyond the largest double. -/
def toDouble? : Number → Option Double
  | integer n => Double.ofInt? n
  | double x => some x

/-- Numeric equality. -/
def same (a b : Number) : Bool :=
  match a.toDouble?, b.toDouble? with
  | some x, some y => x.same y
  | none, none => true
  | _, _ => false

/-- Whether the nearest double is zero. -/
def isZero (a : Number) : Bool :=
  a.toDouble?.any Double.isZero

theorem same_refl (a : Number) : a.same a = true := by
  simp only [same]
  cases a.toDouble? <;> simp [Double.same_refl]

theorem same_comm (a b : Number) : a.same b = b.same a := by
  simp only [same]
  cases a.toDouble? <;> cases b.toDouble? <;> simp [Double.same_comm]

theorem same_trans {a b c : Number} (hab : a.same b = true) (hbc : b.same c = true) :
    a.same c = true := by
  revert hab hbc
  simp only [same]
  cases a.toDouble? <;> cases b.toDouble? <;> cases c.toDouble? <;>
    simp
  exact Double.same_trans

/-! ### Text -/

/-- The text of an absolute value: an integer below `10 ^ 21` has all its
digits, any other number the fewest that read back, and none has an exponent. -/
def doubleText (x : Double) : List Char :=
  match x.natAbs? with
  | some n => if n < Double.scaleUp 10 1 21 then Nat.toDigits 10 n else (x.shortest .up).positional
  | none => (x.shortest .up).positional

/-- The text of a number in a rendered template. -/
def text : Number → String
  | integer n => toString n
  | double x => String.ofList (if x.negative then '-' :: doubleText x else doubleText x)

/-- The text of an absolute value in a listing: a fraction is always shown,
and an exponent from `10 ^ 16` up and below `10 ^ (-5)`. -/
def doubleListing (x : Double) : List Char :=
  let d := x.shortest .even
  if x.isZero then "0.0".toList
  else if 0 ≤ d.exponent && d.magnitude < 16 then d.positional ++ ['.', '0']
  else if -5 ≤ d.magnitude && d.magnitude < 16 then d.positional
  else d.scientific

/-- The text of a number in a listing. -/
def listing : Number → String
  | integer n => toString n
  | double x => String.ofList (if x.negative then '-' :: doubleListing x else doubleListing x)

end Number

end Stencil
