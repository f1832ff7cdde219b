import Stencil.Plan.Builder
import Stencil.Template.Basic

/-!
Compiling a template.

The plan of a partial is either copied to where the partial is included or
kept in a table and found by name when rendering. Either way the source of
a partial is compiled at most once, and while it is compiled it is open: a
partial that is open cannot be entered again, which is an error when plans
are copied. Every source that is entered leaves fewer that can be, and so
compiling ends.
-/

namespace Stencil

/-- What stays the same while a template and its partials are compiled. -/
structure Workshop where
  settings : Settings
  registry : Registry

namespace Workshop

/-- The plan of a partial that is copied in, unless the partial is open, which is
reported. `entered` lists the open partials, innermost first, and `compile`
compiles the source if there is one. -/
def embed (entered : List String) (name : String) (compile : Option (Compiling Plan)) :
    Compiling (Option Plan) := do
  if entered.contains name then
    let inside := (entered.takeWhile (· != name)).reverse
    Compiling.addError (.recursivePartial (name :: inside ++ [name]))
    return none
  match Table.get? (← get).embedded name with
  | some plan => return some plan
  | none =>
    match compile with
    | none => return none
    | some compile =>
      let plan ← Compiling.insidePartial name compile
      modify fun c => { c with embedded := Table.insert c.embedded name plan }
      return some plan

/-- Puts the plan of a partial into the table, unless it is there or the partial
is open. -/
def tabulate (entered : List String) (name : String) (compile : Option (Compiling Plan)) :
    Compiling Unit := do
  if Table.contains (← get).table name || entered.contains name then return
  match compile with
  | none => return
  | some compile =>
    let plan ← Compiling.insidePartial name compile
    modify fun c => { c with table := Table.insert c.table name plan }

/-- The target of an inclusion by name. -/
def resolve (w : Workshop) (entered : List String) (name : String) (hasBlock : Bool) (site : Site)
    (compile : Option (Compiling Plan)) : Compiling (Option Target) := do
  if name = "@partial-block" then return some .partialBlock
  if ← Compiling.hasInline name then return some (.named name)
  if w.settings.runtimePartials then
    tabulate entered name compile
    return some (.named name)
  if (w.registry.partial? name).isNone then
    if hasBlock then return some (.named name)
    Compiling.addError (.partialNotFound name site)
    return none
  match ← embed entered name compile with
  | some plan => return some (.embedded plan)
  | none => return some (.named name)

/-- Compiles a source inside the partials `entered`, innermost first; the partials
that are not open are `available`. -/
def compileSource (w : Workshop) (entered : List String) (available : Table String)
    (source : String) : Compiling Plan := do
  let tokens ← Compiling.reporting (Markup.readTemplate w.settings w.registry.hasHelper source)
  let ctx : BuildContext :=
    { settings := w.settings
      style? := w.registry.style?
      resolve := fun name hasBlock site =>
        let compile : Option (Compiling Plan) :=
          match h : Table.get? available name with
          | some source =>
            some (w.compileSource (name :: entered) (Table.erase available name) source)
          | none => none
        w.resolve entered name hasBlock site compile }
  ctx.build tokens
termination_by available.length
decreasing_by exact Table.length_erase_lt h

/-- The compilation of a registered partial that no other partial includes. -/
def compileNamed (w : Workshop) (name : String) : Option (Compiling Plan) :=
  (w.registry.partial? name).map fun source =>
    w.compileSource [name] (Table.erase w.registry.partials name) source

/-- Compiles partials for inclusions whose names are computed when rendering. -/
def tabulateAll (w : Workshop) : List String → Compiling Unit
  | [] => return
  | name :: names => do
    if w.settings.runtimePartials then
      tabulate [] name (w.compileNamed name)
    else
      match ← embed [] name (w.compileNamed name) with
      | some plan => modify fun c => { c with table := Table.insert c.table name plan }
      | none => pure ()
    w.tabulateAll names

/-- Compiles a template and every partial that it may need. -/
def compileTemplate (w : Workshop) (source : String) : Compiling Plan := do
  Compiling.addEvent (.compiling source.utf8ByteSize)
  let plan ← w.compileSource [] w.registry.partials source
  if (← get).hasDynamic then w.tabulateAll w.registry.partialNames
  return plan

end Workshop

/-- The outcome of a compile call, with the journal in order. -/
structure CompileOutcome where
  result : Except (List Diagnostic) Template
  events : List Event

/-- Compiles a template. All that is wrong with it is reported at once. -/
def Registry.compile (registry : Registry) (settings : Settings) (source : String) :
    CompileOutcome :=
  let workshop : Workshop := { settings, registry }
  let (plan, c) := (workshop.compileTemplate source).run {}
  let report := c.report
  if report.errors.isEmpty then
    let template : Template :=
      { plan, partials := c.table, helpers := registry.helpers
        blockHelpers := registry.blockHelpers, settings, usage := report.usage
        warnings := report.warnings }
    let last := Event.compiled plan.length c.table.length report.warnings.length
    { result := .ok template, events := (last :: report.events).reverse }
  else
    { result := .error report.errors
      events := (.failed report.errors.length :: report.events).reverse }

end Stencil
