import Stencil.Render.Plan
import Stencil.Template.Compile

/-!
A workspace: a registry, settings and templates that live together.

Templates keep the helpers and partials of the moment in which they were
compiled; later changes of the registry do not reach them.
-/

namespace Stencil

structure Workspace where
  registry : Registry
  settings : Settings := {}
  templates : Table Template := []

namespace Workspace

/-- Compiles a template and keeps it under `id`. If that fails, a template that
was kept there before stays. -/
def compile (w : Workspace) (id source : String) :
    Except (List Diagnostic) Template × Workspace :=
  match (w.registry.compile w.settings source).result with
  | .ok template =>
    (.ok template, { w with templates := Table.insert w.templates id template })
  | .error errors => (.error errors, w)

def template? (w : Workspace) (id : String) : Option Template :=
  Table.get? w.templates id

end Workspace

end Stencil
