/-!
Classes of characters.

A class of characters is given by its edges, the code points at which
membership changes, in ascending order; the first edge enters the class.
-/

namespace Stencil.Text

/-- Whether a code point is in the class that is entered at the first edge. -/
def insideEdges : List Nat → Nat → Bool
  | [], _ => false
  | edge :: edges, c => if c < edge then false else !insideEdges edges c

end Stencil.Text
