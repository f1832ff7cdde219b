import Stencil.Value.Basic

/-!
Equality of values.

Numbers are equal when their nearest doubles are, a text never equals a
text that is already encoded, objects are equal when they have the same
entries in any order, and iterables and callables when they are the same
one.
-/

namespace Stencil.Value

mutual

/-- Whether two values are equal as template data. -/
def same : Value → Value → Bool
  | null, null => true
  | bool a, bool b => a == b
  | number a, number b => a.same b
  | string a, string b => a == b
  | safe a, safe b => a == b
  | array a, array b => sameItems a b
  | object a, object b => a.length == b.length && sameEntries a b
  | iterable i _, iterable j _ => i == j
  | callable i, callable j => i == j
  | _, _ => false

/-- Whether two lists have equal items. -/
def sameItems : List Value → List Value → Bool
  | [], [] => true
  | a :: as, b :: bs => same a b && sameItems as bs
  | _, _ => false

/-- Whether each entry of the first has an equal entry in the second. -/
def sameEntries : List (String × Value) → Fields → Bool
  | [], _ => true
  | (k, a) :: as, bs =>
    (match Table.get? bs k with
      | some b => same a b
      | none => false) && sameEntries as bs

end

end Stencil.Value
