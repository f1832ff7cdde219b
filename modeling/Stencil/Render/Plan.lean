import Stencil.Render.Inclusion

/-!
Rendering plans and templates.

A plan is rendered node by node. The nodes of its blocks are smaller than
the plan; a partial is another plan, and is rendered one level deeper.
Since the levels are limited, rendering ends.
-/

namespace Stencil

/-- Renders a plan with its inline partials known. -/
def withInlines (plan : Plan) (nodes : Eval String) : Eval String :=
  let layer := Plan.inlineDefs plan
  Eval.within (Env.pushInlines layer) (Env.popInlines layer) nodes

namespace Scene

variable (scene : Scene) (enter? : Option (Plan → Eval String))

mutual

/-- The output of a node. -/
def renderNode : Node → Eval String
  | .literal text => return text
  | .lookup e encoding => return (← scene.lookup e).output encoding
  | .helper call encoding => return (← scene.evalCall none call).output encoding
  | .block kind body inverse params =>
    scene.renderBlock kind params (withInlines body (renderNodes body))
      (match inverse with
        | some inverse => some (withInlines inverse (renderNodes inverse))
        | none => none)
  | .inclusion call target block => scene.renderInclusion enter? call target block
  | .inlineDef _ _ => return ""

/-- The output of nodes in order. -/
def renderNodes : List Node → Eval String
  | [] => return ""
  | node :: nodes => do
    let text ← renderNode node
    let rest ← renderNodes nodes
    return text ++ rest

end

/-- Renders a plan below which `levels` levels of partials are allowed. -/
def renderPlan : (levels : Nat) → Plan → Eval String
  | 0, plan => withInlines plan (scene.renderNodes none plan)
  | levels + 1, plan => withInlines plan (scene.renderNodes (some (renderPlan levels)) plan)

end Scene

/-- The outcome of a render call, with the journal in order. -/
structure RenderOutcome where
  result : Except RenderError String
  events : List Event

/-- What a template is rendered with. -/
structure Input where
  /-- The value to render against. -/
  data : Value
  /-- The outermost special variables. -/
  seed : Fields := []
  /-- The functions behind the callable values of the data. -/
  functions : Nat → Helper

/-- Renders a template. -/
def Template.render (template : Template) (input : Input) : RenderOutcome :=
  let scene : Scene := { template, root := input.data, functions := input.functions }
  let machine : Machine := { env := { frames := [input.seed] }, context := input.data }
  let (result, machine) :=
    (scene.renderPlan template.settings.maxPartialDepth template.plan).run.run machine
  { result, events := machine.events.reverse }

end Stencil
