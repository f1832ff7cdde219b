import Stencil.Proofs.Render.Blocks

/-!
Rendering leaves the environment as it found it.

Whatever an operation of the renderer pushes it takes back, on success and
on every failure, also when a helper goes on after a failure in one of its
branches. A computation that matches itself from equal environments
restores its environment, so all that remains here is the recursion over
nodes and, for partials, over levels.
-/

namespace Stencil

open Eval

/-- The computation leaves the environment as it was, whatever comes of it. -/
def Eval.Restores {α : Type} (action : Eval α) : Prop :=
  ∀ m, (action.run.run m).2.env = m.env

/-- The computation cannot tell equal environments apart. -/
abbrev Eval.Regular {α : Type} (action : Eval α) : Prop :=
  Matches Eq (fun _ => True) action action

theorem Env.like_eq {e e' : Env} (h : e.Like Eq e') : e = e' := by
  obtain ⟨scopes, frames, bindings, surroundings⟩ := h
  cases e
  cases e'
  cases surroundings
  cases scopes
  cases frames
  cases bindings
  rfl

theorem Env.Like.refl (e : Env) : e.Like Eq e :=
  ⟨rfl, rfl, rfl, rfl⟩

theorem Eval.Regular.restores {α : Type} {action : Eval α} (h : action.Regular) :
    action.Restores :=
  fun m => (h m m ⟨.refl m.env, rfl⟩).left

/-- A change of the environment keeps equal environments equal. -/
theorem Env.Like.map {e e' : Env} (h : e.Like Eq e') (change : Env → Env) :
    (change e).Like Eq (change e') := by
  rw [like_eq h]
  exact .refl _

theorem Eval.Regular.attempt {α : Type} {action : Eval α} (h : action.Regular) :
    (Eval.attempt action).Regular := by
  have h : (Eval.attempt action >>= Pure.pure).Regular :=
    .attempt_bind h fun answer _ => .pure answer
  simpa using h

theorem option_rel_self {α : Type} {r : α → α → Prop} (h : ∀ a, r a a) (a : Option α) :
    Option.Rel r a a := by
  cases a with
  | none => exact .none
  | some a => exact .some (h a)

theorem withInlines_regular {nodes : Eval String} (h : nodes.Regular) (plan : Plan) :
    (withInlines plan nodes).Regular :=
  .within h (fun _ _ like => like.map _) (Env.popInlines_pushInlines _)
    (Env.popInlines_pushInlines _)

namespace Scene

variable (scene : Scene) {enter? : Option (Plan → Eval String)}

/-- How partials are rendered below a level, if they are. -/
def deeper? : Nat → Option (Plan → Eval String)
  | 0 => none
  | levels + 1 => some (scene.renderPlan levels)

theorem renderPlan_eq (levels : Nat) (plan : Plan) :
    scene.renderPlan levels plan =
      withInlines plan (scene.renderNodes (scene.deeper? levels) plan) := by
  cases levels <;> rfl

/-! ### Inclusions -/

/-- The plans of one level deeper are regular. -/
def Regular (enter? : Option (Plan → Eval String)) : Prop :=
  ∀ enter, enter? = some enter → ∀ plan, (enter plan).Regular

theorem renderPartial_regular (h : Regular enter?) (call : Inclusion) (plan : Plan)
    (block : Option Plan) : (scene.renderPartial enter? call plan block).Regular := by
  refine renderPartial_matches (.refl scene) scene.keepsTo_true ?_ (fun _ _ like => like.map _) call
  cases enter? with
  | none => exact .none
  | some enter => exact .some (h enter rfl plan)

theorem renderNamed_regular (h : Regular enter?) (call : Inclusion) (name : String)
    (block : Option Plan) : (scene.renderNamed enter? call name block).Regular := by
  refine renderNamed_matches call name ?_ ?_ fun _ _ _ _ _ => trivial
  · intro e e' like
    rw [Env.like_eq like]
    exact option_rel_self (fun plan => scene.renderPartial_regular h call plan block) _
  · exact option_rel_self (fun block => scene.renderPartial_regular h call block none) _

theorem renderPartialBlock_regular (h : Regular enter?) (call : Inclusion) :
    (scene.renderPartialBlock enter? call).Regular := by
  refine renderPartialBlock_matches (Q := Eq) call ?_ (fun _ _ like _ => like.map _) ?_ trivial
  · intro e e' like
    rw [Env.like_eq like]
    exact option_rel_self (fun block => scene.renderPartial_regular h call block none) _
  · intro e e' like _
    rw [Env.like_eq like]

theorem renderInclusion_regular (h : Regular enter?) (call : Inclusion) (target : Target)
    (block : Option Plan) : (scene.renderInclusion enter? call target block).Regular := by
  cases target with
  | embedded plan => exact scene.renderPartial_regular h call plan block
  | named name => exact scene.renderNamed_regular h call name block
  | dynamic e =>
      exact .bind (eval_matches (.refl scene) scene.keepsTo_true e) fun name =>
        scene.renderNamed_regular h call _ block
  | partialBlock => exact scene.renderPartialBlock_regular h call

/-! ### Plans -/

mutual

theorem renderNode_regular (h : Regular enter?) :
    (node : Node) → (scene.renderNode enter? node).Regular
  | .literal text => by
      simp only [renderNode]
      exact .pure text
  | .lookup e encoding => by
      simp only [renderNode]
      exact .bind (lookup_matches (.refl scene) scene.keepsTo_true e) fun value => .pure _
  | .helper call encoding => by
      simp only [renderNode]
      exact .bind (evalCall_matches (.refl scene) scene.keepsTo_true .none call) fun value =>
        .pure _
  | .block kind body none params => by
      simp only [renderNode]
      exact renderBlock_matches (.refl scene) scene.keepsTo_true
        (withInlines_regular (renderNodes_regular h body) body) .none kind params
  | .block kind body (some inverse) params => by
      simp only [renderNode]
      exact renderBlock_matches (.refl scene) scene.keepsTo_true
        (withInlines_regular (renderNodes_regular h body) body)
        (.some (withInlines_regular (renderNodes_regular h inverse) inverse)) kind params
  | .inclusion call target block => by
      simp only [renderNode]
      exact scene.renderInclusion_regular h call target block
  | .inlineDef name plan => by
      simp only [renderNode]
      exact .pure ""

theorem renderNodes_regular (h : Regular enter?) :
    (nodes : List Node) → (scene.renderNodes enter? nodes).Regular
  | [] => by
      simp only [renderNodes]
      exact .pure ""
  | node :: nodes => by
      simp only [renderNodes]
      exact .bind (renderNode_regular h node) fun text =>
        .bind (renderNodes_regular h nodes) fun rest => .pure _

end

/-- Below every level the plans of partials are regular, by induction on the levels. -/
theorem regular_deeper (levels : Nat) : Regular (scene.deeper? levels) := by
  induction levels with
  | zero => exact nofun
  | succ levels ih =>
      rintro _ ⟨rfl⟩ plan
      rw [renderPlan_eq]
      exact withInlines_regular (scene.renderNodes_regular ih plan) plan

theorem renderPlan_regular (levels : Nat) (plan : Plan) :
    (scene.renderPlan levels plan).Regular := by
  rw [renderPlan_eq]
  exact withInlines_regular (scene.renderNodes_regular (scene.regular_deeper levels) plan) plan

/-! ### Every operation -/

/-- The branches of a block on plans: whether it is inverted, its parameters, its body
and its else branch. -/
def branchesAt (levels : Nat) : Bool × List String × Plan × Option Plan → Branches
  | (inverted, params, body, inverse) =>
    Branches.of inverted params (scene.renderPlan levels body)
      (inverse.map (scene.renderPlan levels))

theorem branch_regular (levels : Nat) (plan? : Option Plan) :
    Option.Rel (Matches Eq fun _ => True) (plan?.map (scene.renderPlan levels))
      (plan?.map (scene.renderPlan levels)) := by
  cases plan? with
  | none => exact .none
  | some plan => exact .some (scene.renderPlan_regular levels plan)

theorem branchesAt_match (levels : Nat) (block : Bool × List String × Plan × Option Plan) :
    Branches.Match Eq (fun _ => True) (scene.branchesAt levels block)
      (scene.branchesAt levels block) := by
  obtain ⟨inverted, params, body, inverse⟩ := block
  exact Branches.of_match (scene.renderPlan_regular levels body) (scene.branch_regular levels inverse)
    inverted params

/-- The operations of the renderer on plans, with `levels` levels of partials below
them, restore the environment. Branches are plans, and helpers are arbitrary. -/
structure RestoresAt (levels : Nat) : Prop where
  plan : ∀ plan, (scene.renderPlan levels plan).Restores
  node : ∀ node, (scene.renderNode (scene.deeper? levels) node).Restores
  nodes : ∀ nodes, (scene.renderNodes (scene.deeper? levels) nodes).Restores
  /-- Rendering against another context. -/
  inside : ∀ context plan, (renderIn context (scene.renderPlan levels plan)).Restores
  branch : ∀ plan? : Option Plan, (renderBranch (plan?.map (scene.renderPlan levels))).Restores
  iteration : ∀ names body sparse entries,
    (iterate names (scene.renderPlan levels body) sparse entries).Restores
  bound : ∀ names value body, (renderBound names value (scene.renderPlan levels body)).Restores
  sectionOn : ∀ each names value body inverse,
    (renderSection each names value (scene.renderPlan levels body)
      (Option.map (scene.renderPlan levels) inverse)).Restores
  valueSection : ∀ inverted names value body inverse,
    (renderValue inverted names value (scene.renderPlan levels body)
      (Option.map (scene.renderPlan levels) inverse)).Restores
  block : ∀ kind params body inverse,
    (scene.renderBlock kind params (scene.renderPlan levels body)
      (Option.map (scene.renderPlan levels) inverse)).Restores
  expression : ∀ e, (scene.eval e).Restores
  interpolation : ∀ e, (scene.lookup e).Restores
  /-- A call with the branches of a block, or without any. -/
  call : ∀ (blocks : Option (Bool × List String × Plan × Option Plan)) call,
    (scene.evalCall (blocks.map (scene.branchesAt levels)) call).Restores
  helper : ∀ name helper args hash (blocks : Option (Bool × List String × Plan × Option Plan)),
    (scene.invoke name helper args hash (blocks.map (scene.branchesAt levels))).Restores
  /-- What a helper asks for by rendering a branch. -/
  callback : ∀ block call, ((scene.branchesAt levels block).render call).Restores
  /-- A branch whose failure a helper is only told of. -/
  caught : ∀ block call, (Eval.attempt ((scene.branchesAt levels block).render call)).Restores
  /-- All that a helper asks for, up to its result. -/
  action : ∀ block (action : Action Value),
    (action.run scene (scene.branchesAt levels block)).Restores
  included : ∀ call plan block,
    (scene.renderPartial (scene.deeper? levels) call plan block).Restores
  named : ∀ call name block,
    (scene.renderNamed (scene.deeper? levels) call name block).Restores
  partialBlock : ∀ call, (scene.renderPartialBlock (scene.deeper? levels) call).Restores
  inclusion : ∀ call target block,
    (scene.renderInclusion (scene.deeper? levels) call target block).Restores

/-- Each operation returns with the environment that it was called in, on success and on
every failure. -/
theorem rendering_restores (levels : Nat) : scene.RestoresAt levels := by
  have plan := scene.renderPlan_regular levels
  have branch := scene.branch_regular levels
  have branches := scene.branchesAt_match levels
  have given (block : Option (Bool × List String × Plan × Option Plan)) :
      Option.Rel (Branches.Match Eq fun _ => True) (block.map (scene.branchesAt levels))
        (block.map (scene.branchesAt levels)) := by
    cases block with
    | none => exact .none
    | some block => exact .some (branches block)
  have deeper := scene.regular_deeper levels
  have similar := Similar.refl scene
  have keeps := scene.keepsTo_true
  constructor
  case plan => exact fun p => (plan p).restores
  case node => exact fun node => (scene.renderNode_regular deeper node).restores
  case nodes => exact fun nodes => (scene.renderNodes_regular deeper nodes).restores
  case inside => exact fun v p => Regular.restores (renderIn_matches (plan p) v)
  case branch => exact fun p => Regular.restores (renderBranch_matches (branch p))
  case iteration =>
    exact fun names p sparse entries =>
      Regular.restores (iterate_matches (plan p) names sparse entries)
  case bound => exact fun names v p => Regular.restores (renderBound_matches (plan p) names v)
  case sectionOn =>
    exact fun each names v p inverse =>
      Regular.restores (renderSection_matches (plan p) (branch inverse) each names v)
  case valueSection =>
    exact fun inverted names v p inverse =>
      Regular.restores (renderValue_matches (plan p) (branch inverse) inverted names v)
  case block =>
    exact fun kind params p inverse =>
      Regular.restores (renderBlock_matches similar keeps (plan p) (branch inverse) kind params)
  case expression => exact fun e => Regular.restores (eval_matches similar keeps e)
  case interpolation => exact fun e => Regular.restores (lookup_matches similar keeps e)
  case call =>
    exact fun block call => Regular.restores (evalCall_matches similar keeps (given block) call)
  case helper =>
    exact fun name helper args hash block =>
      Regular.restores (invoke_matches similar (fun call => (helper call).keepsTo_true)
        (given block) name args hash)
  case callback =>
    exact fun block call => Regular.restores (Branches.render_matches (branches block) call)
  case caught =>
    exact fun block call =>
      (Regular.attempt (Branches.render_matches (branches block) call)).restores
  case action =>
    intro block action
    have regular : (action.run scene (scene.branchesAt levels block) >>= Pure.pure).Regular :=
      Action.run_bind_matches similar (branches block) action.keepsTo_true fun r _ => .pure r
    rw [bind_pure] at regular
    exact regular.restores
  case included =>
    exact fun call p block => (scene.renderPartial_regular deeper call p block).restores
  case named =>
    exact fun call name block => (scene.renderNamed_regular deeper call name block).restores
  case partialBlock => exact fun call => (scene.renderPartialBlock_regular deeper call).restores
  case inclusion =>
    exact fun call target block =>
      (scene.renderInclusion_regular deeper call target block).restores

end Scene

end Stencil
