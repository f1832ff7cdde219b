import Stencil.Render.Section

/-!
Including partials.

An inclusion finds the plan to render and the block to hand over with it,
computes the context, and renders the plan one level deeper. How a plan is
rendered there is given as `enter?`; none means that no deeper level is
allowed.
-/

namespace Stencil

/-- The inline partial or the registered partial of a name. -/
def Scene.findPartial? (scene : Scene) (env : Env) (name : String) : Option Plan :=
  match env.inlines.findSome? fun layer => Table.get? layer name with
  | some plan => some plan
  | none => Table.get? scene.template.partials name

/-- A text with `indent` before each of its lines. -/
def indentLines (indent : String) (text : String) : String :=
  if indent.isEmpty then text
  else
    String.ofList ((Text.lines text.toList).flatMap fun line => indent.toList ++ line)

/-- The environment inside an inclusion. A block that is handed over brings the inline
partials that it defines. -/
def Env.enter (block : Option Plan) (env : Env) : Env :=
  match block with
  | none => { env with depth := env.depth + 1 }
  | some block =>
    let env := env.pushInlines (Plan.inlineDefs block)
    { env with
      blocks := block :: env.blocks, blockCount := env.blockCount + 1, depth := env.depth + 1 }

/-- The way back from an inclusion. -/
def Env.leave (block : Option Plan) (env : Env) : Env :=
  let env := { env with depth := env.depth - 1 }
  match block with
  | none => env
  | some block =>
    let env := { env with blocks := env.blocks.tail, blockCount := env.blockCount - 1 }
    env.popInlines (Plan.inlineDefs block)

/-- The environment without the innermost block. -/
def Env.dropBlock (env : Env) : Env :=
  { env with blocks := env.blocks.tail }

def Env.restoreBlock (block : Plan) (env : Env) : Env :=
  { env with blocks := block :: env.blocks }

namespace Scene

variable (scene : Scene) (enter? : Option (Plan → Eval String))

/-- The context of a partial: the named arguments are added to the object that it
is given, and make up the whole object otherwise. -/
def inclusionContext (call : Inclusion) : Eval Value := do
  let given ← match call.context with
    | some e => scene.eval e
    | none =>
      if scene.template.settings.explicitPartialContext then pure (.object [])
      else pure (← get).context
  if call.hash.isEmpty then return given
  let hash := Table.ofEntries (← scene.evalHash call.hash)
  match given with
  | .object fields => return .object (Table.extend fields hash)
  | _ => return .object hash

/-- Renders a plan as a partial. -/
def renderPartial (call : Inclusion) (plan : Plan) (block : Option Plan) : Eval String := do
  match enter? with
  | none => throw (.partialDepth call.name scene.template.settings.maxPartialDepth)
  | some enter =>
    let context ← scene.inclusionContext call
    let text ← Eval.within (Env.enter block) (Env.leave block)
      (renderIn (some context) (enter plan))
    return indentLines call.indent text

/-- Renders the partial of a name, or the block in its place. -/
def renderNamed (call : Inclusion) (name : String) (block : Option Plan) : Eval String := do
  let m ← get
  Eval.addEvent (.dispatching name m.env.depth)
  match scene.findPartial? m.env name, block with
  | some plan, block => scene.renderPartial enter? call plan block
  | none, some block => scene.renderPartial enter? call block none
  | none, none => throw (.missingPartial name)

/-- Renders the innermost block that was handed to a partial. Inside it the block
is not known. -/
def renderPartialBlock (call : Inclusion) : Eval String := do
  let m ← get
  match m.env.blocks with
  | block :: _ =>
    Eval.within Env.dropBlock (Env.restoreBlock block) (scene.renderPartial enter? call block none)
  | [] =>
    if m.env.blockCount = 0 then return ""
    throw (.missingPartial call.name)

/-- Renders an inclusion. -/
def renderInclusion (call : Inclusion) (target : Target) (block : Option Plan) :
    Eval String := do
  match target with
  | .embedded plan => scene.renderPartial enter? call plan block
  | .named name => scene.renderNamed enter? call name block
  | .dynamic e =>
    let name ← scene.eval e
    scene.renderNamed enter? call name.text block
  | .partialBlock => scene.renderPartialBlock enter? call

end Scene

end Stencil
