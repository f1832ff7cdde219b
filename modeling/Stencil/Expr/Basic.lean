import Stencil.Value.Basic

/-!
Expressions: what a tag can ask for.

A path names a value, a literal writes one, and a call hands arguments to
a helper or to a callable value. `Content` is what a whole tag says: its
first word and the arguments, named arguments and block parameters behind
it.
-/

namespace Stencil

/-- A reference to a value. -/
structure Path where
  /-- How many contexts it steps outwards. -/
  levels : Nat := 0
  /-- It starts at a special variable, not at the context. -/
  special : Bool := false
  /-- The names of the members that it goes through. -/
  segments : List String := []
  /-- The path as written. -/
  source : String
  deriving DecidableEq

namespace Path

/-- The path to the current context. -/
def this : Path := { source := "this" }

def isThis (p : Path) : Bool :=
  p.levels == 0 && !p.special && p.segments.isEmpty

/-- The name, when the path is one plain name. -/
def simpleName? (p : Path) : Option String :=
  match p.segments with
  | [name] => if p.levels == 0 && !p.special then some name else none
  | _ => none

end Path

inductive Literal
  | null
  | bool (b : Bool)
  | number (n : Number)
  | string (s : String)
  deriving DecidableEq

def Literal.toValue : Literal → Value
  | null => .null
  | bool b => .bool b
  | number n => .number n
  | string s => .string s

/-- What a call invokes. -/
inductive Callee
  /-- A registered helper. -/
  | helper (name : String)
  /-- A value that is looked up when rendering. -/
  | path (p : Path)
  deriving DecidableEq

mutual

inductive Expr
  | path (p : Path)
  /-- A literal and its text as written. -/
  | literal (value : Literal) (source : String)
  | call (c : Call)

/-- A callee with its arguments and named arguments. -/
structure Call where
  callee : Callee
  args : List Expr
  hash : List (String × Expr)

end

/-- The name by which a call is known in messages. -/
def Call.name (c : Call) : String :=
  match c.callee with
  | .helper name => name
  | .path p => p.source

namespace Expr

/-- The current context. -/
def this : Expr := path Path.this

def asPath? : Expr → Option Path
  | path p => some p
  | _ => none

end Expr

/-- What a tag says. -/
structure Content where
  /-- The first word as written. -/
  head : String := ""
  params : List Expr := []
  hash : Table Expr := []
  blockParams : List String := []

/-- Which partial a tag includes. -/
inductive PartialName
  | static (name : String)
  | dynamic (name : Expr)

def PartialName.static? : PartialName → Option String
  | static name => some name
  | dynamic _ => none

end Stencil
