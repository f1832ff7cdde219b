import Stencil.Render.Machine

/-!
Resolving paths.

A path starts at a special variable, at an enclosing context, at a block
parameter or at the current context, and goes on through members.
-/

namespace Stencil

namespace Env

/-- The value of a special variable `outer` frames further out. -/
def special? (env : Env) (outer : Nat) (name : String) : Option Value :=
  (env.frames.drop outer).findSome? fun vars => Table.get? vars name

def binding? (env : Env) (name : String) : Option Value :=
  env.bindings.findSome? fun values => Table.get? values name

/-- The context `levels` scopes further out. -/
def scope? (env : Env) (levels : Nat) : Option Value :=
  env.scopes[levels - 1]?

end Env

namespace Scene

variable (scene : Scene)

/-- A member, or the length of a list or text where that counts as one. -/
def member? (v : Value) (name : String) : Option Value :=
  match v.get? name with
  | some member => some member
  | none =>
    if scene.template.settings.propertyAccess && name == "length" then v.length?.map Value.ofNat
    else none

def members? (v : Value) : List String → Option Value
  | [] => some v
  | name :: names => (scene.member? v name).bind fun member => members? member names

/-- Where a path starts, and the members that it still goes through. -/
def start? (m : Machine) (p : Path) : Option (Value × List String) :=
  if p.special then
    match p.segments with
    | [] => none
    | name :: names =>
      if name = "root" && p.levels = 0 then some (scene.root, names)
      else (m.env.special? p.levels name).map fun v => (v, names)
  else if p.levels > 0 then (m.env.scope? p.levels).map fun v => (v, p.segments)
  else
    match p.segments with
    | [] => some (m.context, [])
    | name :: names =>
      match m.env.binding? name with
      | some v => some (v, names)
      | none => some (m.context, p.segments)

/-- The value that a path names. -/
def resolve? (m : Machine) (p : Path) : Option Value :=
  (scene.start? m p).bind fun (v, names) => scene.members? v names

end Scene

end Stencil
