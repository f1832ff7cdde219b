import Stencil.Helper.Builtin
import Stencil.Plan.Basic

/-!
The registry: the helpers and partials that a caller supplies.
-/

namespace Stencil

structure Registry where
  helpers : Table Helper := []
  blockHelpers : Table BlockHelper := []
  /-- The sources of the partials, in the order in which they were registered. -/
  partials : Table String := []

namespace Registry

/-- The registry without any helper. -/
def empty : Registry := {}

/-- The registry with the builtin helpers. -/
def builtin : Registry :=
  { helpers := [("lookup", Helper.lookup), ("log", Helper.log)] }

def registerHelper (r : Registry) (name : String) (helper : Helper) : Registry :=
  { r with helpers := Table.insert r.helpers name helper }

def registerBlockHelper (r : Registry) (name : String) (helper : BlockHelper) : Registry :=
  { r with blockHelpers := Table.insert r.blockHelpers name helper }

/-- Registering a name again replaces the source and keeps the place. -/
def registerPartial (r : Registry) (name source : String) : Registry :=
  { r with partials := Table.insert r.partials name source }

/-- How a helper is called, if the name is the name of one. -/
def style? (r : Registry) (name : String) : Option HelperStyle :=
  if Table.contains r.helpers name then some .rendering
  else if Table.contains r.blockHelpers name then some .positional
  else none

/-- Whether a name is the name of a helper of either kind. -/
def hasHelper (r : Registry) (name : String) : Bool :=
  (r.style? name).isSome

def partial? (r : Registry) (name : String) : Option String :=
  Table.get? r.partials name

def partialNames (r : Registry) : List String :=
  Table.keys r.partials

end Registry

end Stencil
