import Stencil.Number.Numeral
import Stencil.Table

/-!
Template data.

A value is what a template is rendered against and what its expressions
give. Lists and objects are different kinds of value, so no key pattern
decides how a section treats one. Two kinds have an identity besides their
content: an iterable, which yields its items to every section that walks
it, and a callable, which names a function of the caller.
-/

namespace Stencil

/-- A value of template data. -/
inductive Value
  | null
  | bool (b : Bool)
  | number (n : Number)
  | string (s : String)
  /-- Text that is already encoded and is output as it is. -/
  | safe (s : String)
  | array (items : List Value)
  | object (fields : List (String × Value))
  /-- A sequence known by the identity `id`, with the items that it yields. -/
  | iterable (id : Nat) (items : List Value)
  /-- The function that the caller knows by the identity `id`. -/
  | callable (id : Nat)

/-- Named values in order. -/
abbrev Fields := Table Value

namespace Value

instance : Inhabited Value := ⟨null⟩

def ofNat (n : Nat) : Value :=
  number (.integer n)

def isNull : Value → Bool
  | null => true
  | _ => false

def asString? : Value → Option String
  | string s => some s
  | safe s => some s
  | _ => none

def asArray? : Value → Option (List Value)
  | array items => some items
  | _ => none

def asObject? : Value → Option Fields
  | object fields => some fields
  | _ => none

def asDouble? : Value → Option Double
  | number n => n.toDouble?
  | _ => none

/-- The member of an object under a key, or of a list at an index that the key
writes as a count. -/
def get? (v : Value) (key : String) : Option Value :=
  match v with
  | object fields => Table.get? fields key
  | array items => do
    let i ← Numeral.count? key.toList
    items[i]?
  | _ => none

/-- The number of items of a list, or of characters of a text. -/
def length? : Value → Option Nat
  | array items => some items.length
  | string s => some s.length
  | safe s => some s.length
  | _ => none

def isEmptyCollection : Value → Bool
  | array items => items.isEmpty
  | object fields => fields.isEmpty
  | _ => false

/-- Whether a condition holds. Null, false, the empty text, an empty list or
object, and, unless `includeZero`, the number zero do not hold. -/
def isTruthy (includeZero : Bool) : Value → Bool
  | null => false
  | bool b => b
  | string s => !s.isEmpty
  | safe s => !s.isEmpty
  | number n => includeZero || !n.isZero
  | array items => !items.isEmpty
  | object fields => !fields.isEmpty
  | iterable _ _ => true
  | callable _ => true

/-- Whether an inverted section shows its body: only null, false and an empty
list or object count, not the empty text or zero. -/
def isAbsent (v : Value) : Bool :=
  match v with
  | null => true
  | bool b => !b
  | v => v.isEmptyCollection

/-- Whether the keys of an object are other than `0`, `1`, … in order, each
read as a count. -/
def isSparseFrom (i : Nat) : Fields → Bool
  | [] => false
  | (key, _) :: fields => Numeral.count? key.toList != some i || isSparseFrom (i + 1) fields

def isSparse (fields : Fields) : Bool :=
  isSparseFrom 0 fields

end Value

end Stencil
