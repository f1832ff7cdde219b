import Stencil.Number.Basic
import Stencil.Text.Search

/-!
Reading numerals.

A numeral is a run of digits with an optional minus sign, fraction and
power of ten. Without fraction and power it is an integer when it fits 64
bits; every other numeral is the nearest double, and one beyond the
largest double is no numeral. A count is the unsigned form that indexes
lists: digits, after a plus sign at most, below `2 ^ 64`.
-/

namespace Stencil.Numeral

open Text

def isDigit (c : Char) : Bool := '0' ≤ c && c ≤ '9'

def digitValue (c : Char) : Nat := c.toNat - '0'.toNat

/-- The number that a run of digits writes after `acc`. -/
def valueFrom (acc : Nat) (ds : List Char) : Nat :=
  ds.foldl (fun n c => 10 * n + digitValue c) acc

def value (ds : List Char) : Nat := valueFrom 0 ds

/-- A non-empty run of digits at the front, and the rest. -/
def digits? (s : List Char) : Option (List Char × List Char) :=
  let ds := s.takeWhile isDigit
  if ds.isEmpty then none else some (ds, s.dropWhile isDigit)

/-- The parts of a numeral as written. -/
structure Parts where
  negative : Bool
  whole : List Char
  fraction : List Char
  /-- The written power of ten, none when it is left out. -/
  power : Option Int

/-- The fraction behind a point: none when a point is written without digits. -/
def fraction? : List Char → Option (List Char × List Char)
  | '.' :: s => digits? s
  | s => some ([], s)

/-- The power of ten, which ends the numeral. -/
def power? : List Char → Option (Option Int)
  | [] => some none
  | e :: s =>
    if e = 'e' || e = 'E' then
      let (negative, s) := match s with
        | '-' :: s => (true, s)
        | '+' :: s => (false, s)
        | s => (false, s)
      match digits? s with
      | some (ds, []) => some (some (if negative then -(value ds : Int) else value ds))
      | _ => none
    else none

/-- Splits a text that is a numeral as a whole. -/
def parts? (s : List Char) : Option Parts := do
  let (negative, s) := match s with
    | '-' :: s => (true, s)
    | s => (false, s)
  let (whole, s) ← digits? s
  let (fraction, s) ← fraction? s
  let power ← power? s
  some { negative, whole, fraction, power }

/-- The double nearest to a numeral. A power of ten far outside the range of
doubles is not worked out: the digits decide whether the number is zero. -/
def Parts.toDouble? (p : Parts) : Option Double :=
  let ds := (p.whole ++ p.fraction).dropWhile (· == '0')
  let scale : Int := p.power.getD 0 - p.fraction.length
  let n := value ds
  if n = 0 || scale + ds.length < -330 then some { Double.zero with negative := p.negative }
  else if scale + ds.length > 310 then none
  else Double.ofRatio? p.negative (Double.scaleUp 10 n scale) (Double.scaleUp 10 1 (-scale))

/-- The integer that a numeral without fraction and power writes, if it fits a
signed word of 64 bits. -/
def Parts.toInt? (p : Parts) : Option Int :=
  if p.fraction.isEmpty && p.power.isNone then
    let n : Int := if p.negative then -(value p.whole : Int) else value p.whole
    if Int64.minValue.toInt ≤ n && n ≤ Int64.maxValue.toInt then some n else none
  else none

/-- The number that a text writes, if it writes one. -/
def read? (s : List Char) : Option Number := do
  let p ← parts? s
  match p.toInt? with
  | some n => some (.integer n)
  | none => p.toDouble?.map .double

/-- The count that a text writes, if it writes one. -/
def count? (s : List Char) : Option Nat :=
  let ds := match s with
    | '+' :: ds => ds
    | ds => ds
  if ds.isEmpty || !ds.all isDigit then none
  else if value ds < UInt64.size then some (value ds) else none

end Stencil.Numeral
