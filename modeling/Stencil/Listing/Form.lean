import Stencil.Text.Quoted

/-!
The forms of a listing.

A listing shows a datum on one line: records with named fields, variants
with their parts in parentheses, sequences, mappings and optional data.
-/

namespace Stencil.Listing

/-- Text between braces with a blank on either side. -/
def braces (inner : String) : String :=
  "\x7b " ++ inner ++ " \x7d"

def field (name value : String) : String :=
  name ++ ": " ++ value

/-- A record with its fields, already listed. -/
def record (name : String) (fields : List (String × String)) : String :=
  name ++ " " ++ braces (", ".intercalate (fields.map fun (k, v) => field k v))

/-- A variant with one part. -/
def variant (name part : String) : String :=
  name ++ "(" ++ part ++ ")"

def sequence (items : List String) : String :=
  "[" ++ ", ".intercalate items ++ "]"

def mapping (entries : List (String × String)) : String :=
  "\x7b" ++ ", ".intercalate (entries.map fun (k, v) => field (Text.quoted k) v) ++ "\x7d"

def flag (b : Bool) : String :=
  if b then "true" else "false"

def optional (item : Option String) : String :=
  match item with
  | none => "None"
  | some item => variant "Some" item

end Stencil.Listing
