import Stencil.Proofs.Render.Restoration

/-!
Blocks of partials are closures.

The renderer keeps the blocks that were handed to partials on one stack: it
takes the innermost block off while that block is rendered and puts it back
afterwards, and a counter tells whether any inclusion with a block is
active. Here is a second renderer that has neither. What a plan knows of
blocks is an argument; a block that is handed over becomes a closure, which
remembers the blocks in force where it stands, and `@partial-block` renders
the block of the innermost closure with just these. Both renderers give the
same results.
-/

namespace Stencil

open Eval

/-- A block that was handed over, with the blocks in force where it stands. -/
inductive Closure
  | mk (block : Plan) (captured : List Closure)

namespace Closure

def block : Closure → Plan
  | mk block _ => block

def captured : Closure → List Closure
  | mk _ captured => captured

end Closure

/-- What a plan knows of blocks. -/
structure Lexical where
  /-- The blocks in force, innermost first. -/
  blocks : List Closure := []
  /-- Whether an inclusion with a block is active anywhere in the render. -/
  active : Bool := false

/-- What a partial knows that is given a block, or none. -/
def Lexical.hand (block : Option Plan) (known : Lexical) : Lexical :=
  match block with
  | none => known
  | some block => { blocks := .mk block known.blocks :: known.blocks, active := true }

/-! ### The renderer with closures -/

namespace Scene

variable (scene : Scene) (enter? : Option (Lexical → Plan → Eval String)) (known : Lexical)

/-- Renders a plan as a partial. The inline partials of a block are known in it. -/
def closedPartial (call : Inclusion) (plan : Plan) (block : Option Plan) : Eval String := do
  match enter? with
  | none => throw (.partialDepth call.name scene.template.settings.maxPartialDepth)
  | some enter =>
    let context ← scene.inclusionContext call
    let layer := (block.map Plan.inlineDefs).getD []
    let text ← Eval.within (Env.pushInlines layer) (Env.popInlines layer)
      (renderIn (some context) (enter (known.hand block) plan))
    return indentLines call.indent text

/-- Renders the partial of a name, or the block in its place. -/
def closedNamed (call : Inclusion) (name : String) (block : Option Plan) : Eval String := do
  let m ← get
  match scene.findPartial? m.env name, block with
  | some plan, block => scene.closedPartial enter? known call plan block
  | none, some block => scene.closedPartial enter? known call block none
  | none, none => throw (.missingPartial name)

/-- Renders the innermost block with the blocks that it captured. -/
def closedPartialBlock (call : Inclusion) : Eval String :=
  match known.blocks with
  | .mk block captured :: _ =>
    scene.closedPartial enter? { known with blocks := captured } call block none
  | [] => if known.active then throw (.missingPartial call.name) else pure ""

/-- Renders an inclusion. -/
def closedInclusion (call : Inclusion) (target : Target) (block : Option Plan) :
    Eval String := do
  match target with
  | .embedded plan => scene.closedPartial enter? known call plan block
  | .named name => scene.closedNamed enter? known call name block
  | .dynamic e =>
    let name ← scene.eval e
    scene.closedNamed enter? known call name.text block
  | .partialBlock => scene.closedPartialBlock enter? known call

mutual

/-- The output of a node. The branches of a block know what the block knows. -/
def closedNode : Node → Eval String
  | .literal text => return text
  | .lookup e encoding => return (← scene.lookup e).output encoding
  | .helper call encoding => return (← scene.evalCall none call).output encoding
  | .block kind body inverse params =>
    scene.renderBlock kind params (withInlines body (closedNodes body))
      (match inverse with
        | some inverse => some (withInlines inverse (closedNodes inverse))
        | none => none)
  | .inclusion call target block => scene.closedInclusion enter? known call target block
  | .inlineDef _ _ => return ""

/-- The output of nodes in order. -/
def closedNodes : List Node → Eval String
  | [] => return ""
  | node :: nodes => do
    let text ← closedNode node
    let rest ← closedNodes nodes
    return text ++ rest

end

/-- Renders a plan below which `levels` levels of partials are allowed. -/
def closedPlan : (levels : Nat) → Lexical → Plan → Eval String
  | 0, known, plan => withInlines plan (scene.closedNodes none known plan)
  | levels + 1, known, plan =>
    withInlines plan (scene.closedNodes (some (closedPlan levels)) known plan)

end Scene

/-- The result of a template by the renderer with closures: at first no block is in
force, and no inclusion is active. -/
def Template.closedRender (template : Template) (input : Input) : Except RenderError String :=
  let scene : Scene := { template, root := input.data, functions := input.functions }
  let machine : Machine := { env := { frames := [input.seed] }, context := input.data }
  ((scene.closedPlan template.settings.maxPartialDepth {} template.plan).run.run machine).1

/-! ### The stack mirrors the closures -/

/-- Each closure captured the closures behind it. -/
def Linked : List Closure → Prop
  | [] => True
  | closure :: closures => closure.captured = closures ∧ Linked closures

/-- The stack of blocks and the counter say what a plan knows; inline partials are
the same on both sides. -/
structure Lexical.Mirrors (known : Lexical) (known' : Surroundings) (closed : Surroundings) :
    Prop where
  inlines : known'.inlines = closed.inlines
  blocks : known'.blocks = known.blocks.map Closure.block
  linked : Linked known.blocks
  active : 0 < known'.blockCount ↔ known.active = true

variable {known : Lexical} {e e' : Env}

/-- Entering a partial keeps the mirror, with the knowledge that it is handed. -/
theorem Lexical.Mirrors.enter (like : e.Like known.Mirrors e') (block : Option Plan) :
    (e.enter block).Like (known.hand block).Mirrors
      (e'.pushInlines ((block.map Plan.inlineDefs).getD [])) := by
  obtain ⟨scopes, frames, bindings, inlines, blocks, linked, active⟩ := like
  simp only [Env.surroundings] at inlines blocks active
  cases block with
  | none => exact ⟨scopes, frames, bindings, inlines, blocks, linked, active⟩
  | some block =>
      simp only [Env.enter, Env.pushInlines, Option.map_some, Option.getD_some]
      split
      · refine ⟨scopes, frames, bindings, inlines, congrArg (block :: ·) blocks, ⟨rfl, linked⟩, ?_⟩
        exact ⟨fun _ => rfl, fun _ => Nat.succ_pos _⟩
      · refine ⟨scopes, frames, bindings, congrArg (_ :: ·) inlines,
          congrArg (block :: ·) blocks, ⟨rfl, linked⟩, ?_⟩
        exact ⟨fun _ => rfl, fun _ => Nat.succ_pos _⟩

/-- Without the innermost block the stack is what that block captured. -/
theorem Lexical.Mirrors.dropBlock {block : Plan} {captured rest : List Closure}
    (like : e.Like known.Mirrors e') (h : known.blocks = .mk block captured :: rest) :
    e.dropBlock.Like { known with blocks := captured : Lexical }.Mirrors e' := by
  obtain ⟨scopes, frames, bindings, inlines, blocks, linked, active⟩ := like
  rw [h] at linked
  obtain ⟨rfl, linked⟩ := linked
  refine ⟨scopes, frames, bindings, inlines, ?_, linked, active⟩
  change e.blocks = known.blocks.map Closure.block at blocks
  change e.blocks.tail = captured.map Closure.block
  rw [blocks, h]
  rfl

/-! ### Both renderers agree -/

namespace Scene

variable (scene : Scene) {enter? : Option (Plan → Eval String)}
  {enter?' : Option (Lexical → Plan → Eval String)}

/-- The renderers of one level deeper agree, whatever is known. -/
def Agree (enter? : Option (Plan → Eval String))
    (enter?' : Option (Lexical → Plan → Eval String)) : Prop :=
  Option.Rel (fun enter enter' => ∀ (known : Lexical) (plan : Plan),
    Matches known.Mirrors (fun _ => True) (enter plan) (enter' known plan)) enter? enter?'

variable (known)

theorem closedPartial_matches (h : Agree enter? enter?') (call : Inclusion) (plan : Plan)
    (block : Option Plan) :
    Matches known.Mirrors (fun _ => True) (scene.renderPartial enter? call plan block)
      (scene.closedPartial enter?' known call plan block) := by
  cases h with
  | none => exact .throw trivial
  | some h =>
      refine .bind (inclusionContext_matches (.refl scene) scene.keepsTo_true call) fun context => ?_
      refine .bind ?_ fun text => .pure _
      exact .within (renderIn_matches (h _ plan) _)
        (fun e e' like => Lexical.Mirrors.enter like block) (Env.leave_enter block)
        (Env.popInlines_pushInlines _)

theorem closedNamed_matches (h : Agree enter? enter?') (call : Inclusion) (name : String)
    (block : Option Plan) :
    Matches known.Mirrors (fun _ => True) (scene.renderNamed enter? call name block)
      (scene.closedNamed enter?' known call name block) := by
  intro m m' like
  have same : scene.findPartial? m.env name = scene.findPartial? m'.env name := by
    have inlines : m.env.inlines = m'.env.inlines := like.env.surroundings.inlines
    rw [findPartial?, findPartial?, inlines]
  have dispatched : { m with events := .dispatching name m.env.depth :: m.events }.Like
      known.Mirrors m' := ⟨like.env, like.context⟩
  refine MatchesAt.event_left ?_
  change MatchesAt _ _ _ _
    (match scene.findPartial? m'.env name, block with
      | some plan, block => scene.closedPartial enter?' known call plan block
      | none, some block => scene.closedPartial enter?' known call block none
      | none, none => throw (.missingPartial name))
  rw [← same]
  cases scene.findPartial? m.env name with
  | some plan => exact scene.closedPartial_matches known h call plan block _ _ dispatched
  | none =>
      cases block with
      | some block => exact scene.closedPartial_matches known h call block none _ _ dispatched
      | none => exact Matches.throw trivial _ _ dispatched

theorem closedPartialBlock_matches (h : Agree enter? enter?') (call : Inclusion) :
    Matches known.Mirrors (fun _ => True) (scene.renderPartialBlock enter? call)
      (scene.closedPartialBlock enter?' known call) := by
  intro m m' like
  have blocks : m.env.blocks = known.blocks.map Closure.block := like.env.surroundings.blocks
  have active : 0 < m.env.blockCount ↔ known.active = true := like.env.surroundings.active
  unfold renderPartialBlock closedPartialBlock
  refine MatchesAt.get_left ?_
  cases stack : known.blocks with
  | nil =>
      rw [stack] at blocks
      simp only [blocks, List.map_nil]
      cases on : known.active with
      | true =>
          have positive := active.mpr on
          rw [if_neg (by omega)]
          exact Matches.throw trivial m m' like
      | false =>
          have zero : m.env.blockCount = 0 :=
            Nat.eq_zero_of_not_pos fun positive => by simp [on] at active; omega
          rw [if_pos zero]
          exact Matches.pure "" m m' like
  | cons closure closures =>
      obtain ⟨block, captured⟩ := closure
      rw [stack, List.map_cons] at blocks
      simp only [blocks, Closure.block]
      have inside := scene.closedPartial_matches { known with blocks := captured } h call block none
        { m with env := m.env.dropBlock } m' ⟨Lexical.Mirrors.dropBlock like.env stack, like.context⟩
      have restored := (congrArg (Env.restoreBlock block) inside.left).trans
        (Env.restoreBlock_dropBlock blocks)
      exact ⟨inside.result, inside.allowed, restored, inside.right, inside.context⟩

theorem closedInclusion_matches (h : Agree enter? enter?') (call : Inclusion) (target : Target)
    (block : Option Plan) :
    Matches known.Mirrors (fun _ => True) (scene.renderInclusion enter? call target block)
      (scene.closedInclusion enter?' known call target block) := by
  cases target with
  | embedded plan => exact scene.closedPartial_matches known h call plan block
  | named name => exact scene.closedNamed_matches known h call name block
  | dynamic e =>
      exact .bind (eval_matches (.refl scene) scene.keepsTo_true e) fun name =>
        scene.closedNamed_matches known h call _ block
  | partialBlock => exact scene.closedPartialBlock_matches known h call

theorem withInlines_matches {ok : RenderError → Prop} {nodes nodes' : Eval String} (plan : Plan)
    (h : Matches known.Mirrors ok nodes nodes') :
    Matches known.Mirrors ok (withInlines plan nodes) (withInlines plan nodes') := by
  refine .within h ?_ (Env.popInlines_pushInlines _) (Env.popInlines_pushInlines _)
  rintro e e' ⟨scopes, frames, bindings, inlines, blocks, linked, active⟩
  simp only [Env.surroundings] at inlines blocks active
  simp only [Env.pushInlines]
  split
  · exact ⟨scopes, frames, bindings, inlines, blocks, linked, active⟩
  · exact ⟨scopes, frames, bindings, congrArg (_ :: ·) inlines, blocks, linked, active⟩

mutual

theorem closedNode_matches (h : Agree enter? enter?') :
    (node : Node) → Matches known.Mirrors (fun _ => True) (scene.renderNode enter? node)
      (scene.closedNode enter?' known node)
  | .literal text => by
      simp only [renderNode, closedNode]
      exact .pure text
  | .lookup e encoding => by
      simp only [renderNode, closedNode]
      exact .bind (lookup_matches (.refl scene) scene.keepsTo_true e) fun value => .pure _
  | .helper call encoding => by
      simp only [renderNode, closedNode]
      exact .bind (evalCall_matches (.refl scene) scene.keepsTo_true .none call) fun value =>
        .pure _
  | .block kind body none params => by
      simp only [renderNode, closedNode]
      exact renderBlock_matches (.refl scene) scene.keepsTo_true
        (withInlines_matches known body (closedNodes_matches h body)) .none kind params
  | .block kind body (some inverse) params => by
      simp only [renderNode, closedNode]
      exact renderBlock_matches (.refl scene) scene.keepsTo_true
        (withInlines_matches known body (closedNodes_matches h body))
        (.some (withInlines_matches known inverse (closedNodes_matches h inverse))) kind params
  | .inclusion call target block => by
      simp only [renderNode, closedNode]
      exact scene.closedInclusion_matches known h call target block
  | .inlineDef name plan => by
      simp only [renderNode, closedNode]
      exact .pure ""

theorem closedNodes_matches (h : Agree enter? enter?') :
    (nodes : List Node) → Matches known.Mirrors (fun _ => True) (scene.renderNodes enter? nodes)
      (scene.closedNodes enter?' known nodes)
  | [] => by
      simp only [renderNodes, closedNodes]
      exact .pure ""
  | node :: nodes => by
      simp only [renderNodes, closedNodes]
      exact .bind (closedNode_matches h node) fun text =>
        .bind (closedNodes_matches h nodes) fun rest => .pure _

end

/-- At every level a plan renders alike with the stack and with the closures that it
mirrors. -/
theorem closedPlan_matches (levels : Nat) (known : Lexical) (plan : Plan) :
    Matches known.Mirrors (fun _ => True) (scene.renderPlan levels plan)
      (scene.closedPlan levels known plan) := by
  induction levels generalizing known plan with
  | zero => exact withInlines_matches known plan (scene.closedNodes_matches known .none plan)
  | succ levels ih =>
      exact withInlines_matches known plan (scene.closedNodes_matches known (.some ih) plan)

end Scene

/-- A template renders as if every block that is handed to a partial were a closure. -/
theorem Template.render_eq_closedRender (template : Template) (input : Input) :
    (template.render input).result = template.closedRender input := by
  let scene : Scene := { template, root := input.data, functions := input.functions }
  let machine : Machine := { env := { frames := [input.seed] }, context := input.data }
  have start : machine.Like (Lexical.Mirrors {}) machine :=
    ⟨⟨rfl, rfl, rfl, rfl, rfl, trivial, by simp [machine, Env.surroundings]⟩, rfl⟩
  exact (scene.closedPlan_matches template.settings.maxPartialDepth {} template.plan machine machine
    start).result

end Stencil
