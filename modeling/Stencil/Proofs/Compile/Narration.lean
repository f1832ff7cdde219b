import Stencil.Proofs.Compile.Levels

/-!
Compiling, told step by step.

Here a compile call is repeated by one that also tells what it does: what it finds wrong in a
source, where it meets a reference to a registered partial or a computed name, and where it enters
the source of a partial. Each step names the partials that are open around it. What is found wrong
is taken from the computations of the compile call itself, as what they add to its errors; only
the places where a partial may be entered are written out again.
-/

namespace Stencil

open Compiling Markup

/-- Something that a compile call does. The partials that are open are listed, outermost first. -/
inductive Step
  /-- It finds something wrong in a source. -/
  | found (inside : List String) (d : Diagnostic)
  /-- It meets a name that leads to a registered partial. -/
  | refers (inside : List String) (name : String)
  /-- It meets a partial whose name is computed when rendering. -/
  | computes (inside : List String)
  /-- It begins with the source of a partial. -/
  | enters (inside : List String) (name : String)

/-- What is found wrong inside partials, outermost first, as it is reported outside of them. -/
def Diagnostic.within (path : List String) (d : Diagnostic) : Diagnostic :=
  path.foldr .inPartial d

namespace Step

/-- The partials that are open. -/
def inside : Step → List String
  | found inside _ => inside
  | refers inside _ => inside
  | computes inside => inside
  | enters inside _ => inside

/-- What is found wrong, as it is reported. -/
def complaint? : Step → Option Diagnostic
  | found inside d => some (d.within inside)
  | _ => none

/-- The partial whose source is begun. -/
def entered? : Step → Option String
  | enters _ name => some name
  | _ => none

end Step

/-- The partials whose sources are begun, in order. -/
def enteredNames (told : List Step) : List String :=
  told.filterMap Step.entered?

/-- A computation of a compile call that tells its steps. -/
abbrev Narrating := StateT (List Step) Compiling

namespace Narrating

variable {α : Type}

/-- Runs a computation that finds nothing wrong. -/
def silently (x : Compiling α) : Narrating α := fun told => do
  let a ← x
  return (a, told)

end Narrating

open Narrating

/-! ### Building -/

namespace BuildContext

variable (ctx : BuildContext) (inside : List String)
  (resolve : (name : String) → (hasBlock : Bool) → Site → Narrating (Option Target))

end BuildContext

/-! ### Entering partials -/

namespace Workshop

end Workshop

namespace Registry

/-- The outcome of a compile call that ends with a plan and a state. -/
def outcome (registry : Registry) (settings : Settings) (plan : Plan) (c : Compilation) :
    CompileOutcome :=
  let report := c.report
  if report.errors.isEmpty then
    let template : Template :=
      { plan, partials := c.table, helpers := registry.helpers
        blockHelpers := registry.blockHelpers, settings, usage := report.usage
        warnings := report.warnings }
    let last := Event.compiled plan.length c.table.length report.warnings.length
    { result := .ok template, events := (last :: report.events).reverse }
  else
    { result := .error report.errors
      events := (.failed report.errors.length :: report.events).reverse }

end Registry

end Stencil
