import Stencil.Value.Basic
import Stencil.Listing.Form

/-!
The text of a value, as interpolation writes it and as a listing shows it.
-/

namespace Stencil.Value

mutual

/-- The text that interpolation writes, before any encoding. -/
def text : Value → String
  | null => ""
  | bool b => if b then "true" else "false"
  | number n => n.text
  | string s => s
  | safe s => s
  | array items => ",".intercalate (texts items)
  | object _ => "[object Object]"
  | iterable _ items => ",".intercalate (texts items)
  | callable _ => ""

def texts : List Value → List String
  | [] => []
  | v :: vs => text v :: texts vs

end

mutual

/-- The value as a listing shows it, kind first. -/
def listing : Value → String
  | null => "Null"
  | bool b => Listing.variant "Bool" (Listing.flag b)
  | number n => Listing.variant "Number" n.listing
  | string s => Listing.variant "String" (Text.quoted s)
  | safe s => Listing.variant "Safe" (Text.quoted s)
  | array items => Listing.variant "Array" (Listing.sequence (listings items))
  | object fields => Listing.variant "Object" (Listing.mapping (entryListings fields))
  | iterable _ _ => "Iterable"
  | callable _ => "Callable"

def listings : List Value → List String
  | [] => []
  | v :: vs => listing v :: listings vs

def entryListings : List (String × Value) → List (String × String)
  | [] => []
  | (k, v) :: fields => (k, listing v) :: entryListings fields

end

end Stencil.Value
