import Stencil.Plan.Basic
import Stencil.Report

/-!
The state of a compile call.

Besides the report it holds the plans of the partials compiled so far and
the inline partials that are known, one layer for each open block or
partial, innermost first.
-/

namespace Stencil

structure Compilation where
  report : Report := {}
  /-- The names of the inline partials, in layers. -/
  inlines : List (List String) := [[]]
  /-- The plans of partials that are copied into the plans that include them. -/
  embedded : Table Plan := []
  /-- The plans of partials that are found by name when rendering. -/
  table : Table Plan := []
  /-- The name of some partial is computed when rendering. -/
  hasDynamic : Bool := false

abbrev Compiling := StateM Compilation

namespace Compiling

/-- Runs a computation on the report. -/
def reporting {α : Type} (action : StateM Report α) : Compiling α := do
  let c ← get
  let (result, report) := action.run c.report
  set { c with report }
  return result

def addError (d : Diagnostic) : Compiling Unit :=
  reporting (modify (Report.addError d))

def addWarning (text : String) : Compiling Unit :=
  reporting (modify (Report.addWarning text))

def addEvent (e : Event) : Compiling Unit :=
  reporting (modify (Report.addEvent e))

def count (f : Usage → Usage) : Compiling Unit :=
  reporting (modify (Report.count f))

/-- Reads, and reports a failure with `default` in place of the result. -/
def readOr {α : Type} (default : α) (read : Reading α) : Compiling α := do
  match ← reporting read.run with
  | .ok a => return a
  | .error d =>
    addError d
    return default

/-! ### Inline partials -/

def pushLayer : Compiling Unit :=
  modify fun c => { c with inlines := [] :: c.inlines }

def popLayer : Compiling Unit :=
  modify fun c => { c with inlines := c.inlines.tail }

/-- Adds a name to the innermost layer; false if it is there already. -/
def declareInline (name : String) : Compiling Bool := do
  let c ← get
  match c.inlines with
  | [] => return true
  | layer :: layers =>
    if layer.contains name then return false
    set { c with inlines := (name :: layer) :: layers }
    return true

/-- Whether some layer holds a name. -/
def hasInline (name : String) : Compiling Bool :=
  return (← get).inlines.any fun layer => layer.contains name

/-! ### Partials -/

/-- Runs a computation on the source of a partial: in a layer of inline partials
of its own, and with the name of the partial in all that it finds wrong. -/
def insidePartial {α : Type} (name : String) (action : Compiling α) : Compiling α := do
  addEvent (.compilingPartial name)
  let outer := (← get).report.errors
  modify fun c => { c with report.errors := [] }
  pushLayer
  let result ← action
  popLayer
  modify fun c =>
    { c with report.errors := outer ++ c.report.errors.map (.inPartial name) }
  return result

end Compiling

end Stencil
