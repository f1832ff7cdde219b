import Stencil.Proofs.Render.Restoration
import Stencil.Proofs.Table

/-!
Which calls a missing helper comes from.

A render fails for want of a helper only in a call of its template, and with the name that this
call misses. Every plan that is rendered is the plan of the template, a plan inside one that is
rendered, a partial of the template, or an inline partial or a handed block of the environment; so
an environment that knows only plans of which every call is allowed goes on to know only such plans.
-/

namespace Stencil

open Eval

/-- Whatever the calls in the plan miss may be missed. -/
def Plan.Allowed (scene : Scene) (ok : RenderError → Prop) (plan : Plan) : Prop :=
  scene.Allows ok (Plan.calls plan)

/-- The environment knows only allowed plans. -/
structure Env.Allowed (scene : Scene) (ok : RenderError → Prop) (env : Env) : Prop where
  inlines : ∀ layer ∈ env.inlines, Table.All (Plan.Allowed scene ok) layer
  blocks : ∀ block ∈ env.blocks, Plan.Allowed scene ok block

/-- The same surroundings on both sides, with allowed plans only. -/
structure Surroundings.Allowed (scene : Scene) (ok : RenderError → Prop) (σ σ' : Surroundings) :
    Prop where
  same : σ = σ'
  inlines : ∀ layer ∈ σ.inlines, Table.All (Plan.Allowed scene ok) layer
  blocks : ∀ block ∈ σ.blocks, Plan.Allowed scene ok block

variable {scene : Scene} {ok : RenderError → Prop}

/-! ### Environments -/

theorem Plan.Allowed.inlineDefs {plan : Plan} (h : Plan.Allowed scene ok plan) :
    Table.All (Plan.Allowed scene ok) (Plan.inlineDefs plan) := by
  refine .ofEntries fun e member i inside => h i (Plan.mem_calls.mpr ?_)
  obtain ⟨node, here, given⟩ := List.mem_filterMap.mp member
  cases node with
  | inlineDef name body =>
      cases given
      refine ⟨_, here, ?_⟩
      rw [Node.calls]
      exact inside
  | _ => cases given

theorem Env.like_allowed {e e' : Env} :
    e.Like (Surroundings.Allowed scene ok) e' ↔ e = e' ∧ e.Allowed scene ok := by
  constructor
  · rintro ⟨scopes, frames, bindings, same, inlines, blocks⟩
    exact ⟨Env.like_eq ⟨scopes, frames, bindings, same⟩, inlines, blocks⟩
  · rintro ⟨rfl, inlines, blocks⟩
    exact ⟨rfl, rfl, rfl, rfl, inlines, blocks⟩

/-- A change of the environment that keeps to allowed plans. -/
theorem Env.Allowed.map {change : Env → Env}
    (h : ∀ e : Env, e.Allowed scene ok → (change e).Allowed scene ok) (e e' : Env)
    (like : e.Like (Surroundings.Allowed scene ok) e') :
    (change e).Like (Surroundings.Allowed scene ok) (change e') := by
  obtain ⟨rfl, allowed⟩ := Env.like_allowed.mp like
  exact Env.like_allowed.mpr ⟨rfl, h e allowed⟩

namespace Env.Allowed

variable {e : Env} {plan : Plan}

theorem pushInlines (h : e.Allowed scene ok) (hp : Plan.Allowed scene ok plan) :
    (e.pushInlines (Plan.inlineDefs plan)).Allowed scene ok := by
  rw [Env.pushInlines]
  split
  · exact h
  · exact ⟨List.forall_mem_cons.mpr ⟨hp.inlineDefs, h.inlines⟩, h.blocks⟩

theorem enter (h : e.Allowed scene ok) {block : Option Plan}
    (hb : ∀ plan ∈ block, Plan.Allowed scene ok plan) : (e.enter block).Allowed scene ok := by
  cases block with
  | none => exact ⟨h.inlines, h.blocks⟩
  | some block =>
      have pushed := h.pushInlines (hb block rfl)
      exact ⟨pushed.inlines, List.forall_mem_cons.mpr ⟨hb block rfl, pushed.blocks⟩⟩

theorem dropBlock (h : e.Allowed scene ok) : e.dropBlock.Allowed scene ok :=
  ⟨h.inlines, fun block member => h.blocks block (List.mem_of_mem_tail member)⟩

/-- Partials are found among those of the environment and those of the template. -/
theorem findPartial? (h : e.Allowed scene ok)
    (registered : Table.All (Plan.Allowed scene ok) scene.template.partials) {name : String}
    (found : scene.findPartial? e name = some plan) : Plan.Allowed scene ok plan := by
  rw [Scene.findPartial?] at found
  split at found
  · next inline =>
    cases found
    exact Table.All.findSome? h.inlines inline
  · exact registered.get? found

end Env.Allowed

/-! ### Plans -/

/-- Rendering an allowed plan fails only as is allowed. -/
abbrev Eval.Keeps (scene : Scene) (ok : RenderError → Prop) {α : Type} (action : Eval α) : Prop :=
  Matches (Surroundings.Allowed scene ok) ok action action

/-- The failures of a scene besides missed calls are allowed, and so are its partials. -/
structure Scene.Settled (scene : Scene) (ok : RenderError → Prop) : Prop where
  fails : scene.Fails ok
  missingPartial : ∀ name, ok (.missingPartial name)
  registered : Table.All (Plan.Allowed scene ok) scene.template.partials

namespace Scene

/-- The plans of one level deeper keep to what is allowed. -/
def KeepsDeeper (scene : Scene) (ok : RenderError → Prop) (enter? : Option (Plan → Eval String)) :
    Prop :=
  ∀ enter, enter? = some enter → ∀ plan, Plan.Allowed scene ok plan →
    Eval.Keeps scene ok (enter plan)

theorem withInlines_keeps {plan : Plan} (hp : Plan.Allowed scene ok plan) {nodes : Eval String}
    (h : Eval.Keeps scene ok nodes) : Eval.Keeps scene ok (withInlines plan nodes) :=
  .within h (Env.Allowed.map fun _ allowed => allowed.pushInlines hp) (Env.popInlines_pushInlines _)
    (Env.popInlines_pushInlines _)

section

variable {enter? : Option (Plan → Eval String)} (settled : scene.Settled ok)
  (deeper : scene.KeepsDeeper ok enter?)

include settled deeper

theorem renderPartial_keeps {call : Inclusion} (hc : scene.Allows ok call.calls) {plan : Plan}
    (hp : Plan.Allowed scene ok plan) {block : Option Plan}
    (hb : ∀ plan ∈ block, Plan.Allowed scene ok plan) :
    Eval.Keeps scene ok (scene.renderPartial enter? call plan block) := by
  refine renderPartial_allowed (.refl scene) settled.fails ?_
    (Env.Allowed.map fun _ allowed => allowed.enter hb) hc
  cases enter? with
  | none => exact .none
  | some enter => exact .some (deeper enter rfl plan hp)

theorem renderNamed_keeps {call : Inclusion} (hc : scene.Allows ok call.calls) (name : String)
    {block : Option Plan} (hb : ∀ plan ∈ block, Plan.Allowed scene ok plan) :
    Eval.Keeps scene ok (scene.renderNamed enter? call name block) := by
  refine renderNamed_matches call name ?_ ?_ fun _ _ _ _ _ => settled.missingPartial name
  · intro e e' like
    obtain ⟨rfl, allowed⟩ := Env.like_allowed.mp like
    cases found : scene.findPartial? e name with
    | none => exact .none
    | some plan =>
        have inside := allowed.findPartial? settled.registered found
        exact .some (renderPartial_keeps settled deeper hc inside hb)
  · cases block with
    | none => exact .none
    | some block => exact .some (renderPartial_keeps settled deeper hc (hb block rfl) nofun)

theorem renderPartialBlock_keeps {call : Inclusion} (hc : scene.Allows ok call.calls) :
    Eval.Keeps scene ok (scene.renderPartialBlock enter? call) := by
  refine renderPartialBlock_matches (Q := Surroundings.Allowed scene ok) call ?_ ?_ ?_
    (settled.missingPartial call.name)
  · intro e e' like
    obtain ⟨rfl, allowed⟩ := Env.like_allowed.mp like
    cases blocks : e.blocks with
    | nil => exact .none
    | cons block rest =>
        have inside := allowed.blocks block (blocks ▸ List.mem_cons_self)
        exact .some (renderPartial_keeps settled deeper hc inside nofun)
  · exact fun e e' like _ => Env.Allowed.map (fun _ allowed => allowed.dropBlock) e e' like
  · intro e e' like _
    rw [(Env.like_allowed.mp like).1]

theorem renderInclusion_keeps {call : Inclusion} (hc : scene.Allows ok call.calls)
    {target : Target} (ht : scene.Allows ok target.calls) {block : Option Plan}
    (hb : ∀ plan ∈ block, Plan.Allowed scene ok plan) :
    Eval.Keeps scene ok (scene.renderInclusion enter? call target block) := by
  cases target with
  | embedded plan =>
      rw [Target.calls] at ht
      exact renderPartial_keeps settled deeper hc ht hb
  | named name => exact renderNamed_keeps settled deeper hc name hb
  | dynamic e =>
      rw [Target.calls] at ht
      exact .bind (eval_allowed (.refl scene) settled.fails e ht) fun name =>
        renderNamed_keeps settled deeper hc _ hb
  | partialBlock => exact renderPartialBlock_keeps settled deeper hc

end

section

variable {enter? : Option (Plan → Eval String)}

mutual

theorem renderNode_keeps (settled : scene.Settled ok) (deeper : scene.KeepsDeeper ok enter?) :
    (node : Node) → scene.Allows ok node.calls → Eval.Keeps scene ok (scene.renderNode enter? node)
  | .literal text, _ => by
      simp only [renderNode]
      exact .pure text
  | .lookup e encoding, allows => by
      rw [Node.calls] at allows
      simp only [renderNode]
      exact .bind (lookup_allowed (.refl scene) settled.fails e allows) fun value => .pure _
  | .helper call encoding, allows => by
      rw [Node.calls] at allows
      obtain ⟨missing, inner⟩ := Allows.cons.mp allows
      simp only [renderNode]
      exact .bind (evalCall_allowed (.refl scene) settled.fails .none call missing inner)
        fun value => .pure _
  | .block kind body none params, allows => by
      rw [Node.calls] at allows
      obtain ⟨hk, hb⟩ := Allows.append.mp allows
      simp only [renderNode]
      exact renderBlock_allowed (.refl scene) settled.fails
        (withInlines_keeps hb (renderNodes_keeps settled deeper body hb)) .none hk params
  | .block kind body (some inverse) params, allows => by
      rw [Node.calls] at allows
      obtain ⟨hk, branches⟩ := Allows.append.mp allows
      obtain ⟨hb, hi⟩ := Allows.append.mp branches
      simp only [renderNode]
      exact renderBlock_allowed (.refl scene) settled.fails
        (withInlines_keeps hb (renderNodes_keeps settled deeper body hb))
        (.some (withInlines_keeps hi (renderNodes_keeps settled deeper inverse hi))) hk params
  | .inclusion call target none, allows => by
      rw [Node.calls] at allows
      obtain ⟨hc, ht⟩ := Allows.append.mp allows
      simp only [renderNode]
      exact renderInclusion_keeps settled deeper hc ht nofun
  | .inclusion call target (some block), allows => by
      rw [Node.calls] at allows
      obtain ⟨hc, others⟩ := Allows.append.mp allows
      obtain ⟨ht, hb⟩ := Allows.append.mp others
      simp only [renderNode]
      refine renderInclusion_keeps settled deeper hc ht ?_
      rintro _ ⟨rfl⟩
      exact hb
  | .inlineDef name plan, _ => by
      simp only [renderNode]
      exact .pure ""

theorem renderNodes_keeps (settled : scene.Settled ok) (deeper : scene.KeepsDeeper ok enter?) :
    (nodes : List Node) → scene.Allows ok (Plan.calls nodes) →
      Eval.Keeps scene ok (scene.renderNodes enter? nodes)
  | [], _ => by
      simp only [renderNodes]
      exact .pure ""
  | node :: nodes, allows => by
      rw [Plan.calls] at allows
      obtain ⟨here, others⟩ := Allows.append.mp allows
      simp only [renderNodes]
      exact .bind (renderNode_keeps settled deeper node here) fun text =>
        .bind (renderNodes_keeps settled deeper nodes others) fun rest => .pure _

end

end

/-- By induction on the levels. -/
theorem keepsDeeper (settled : scene.Settled ok) (levels : Nat) :
    scene.KeepsDeeper ok (scene.deeper? levels) := by
  induction levels with
  | zero => exact nofun
  | succ levels ih =>
      rintro _ ⟨rfl⟩ plan hp
      rw [renderPlan_eq]
      exact withInlines_keeps hp (renderNodes_keeps settled ih plan hp)

theorem renderPlan_keeps (settled : scene.Settled ok) (levels : Nat) {plan : Plan}
    (hp : Plan.Allowed scene ok plan) : Eval.Keeps scene ok (scene.renderPlan levels plan) := by
  have deeper := keepsDeeper settled levels
  rw [renderPlan_eq]
  exact withInlines_keeps hp (renderNodes_keeps settled deeper plan hp)

end Scene

/-! ### Whole renders -/

/-- A render that fails for want of a helper does so in a call of its template that misses it. -/
theorem Template.render_misses {t : Template} {input : Input} {name : String}
    (failed : (t.render input).result = .error (.missingHelper name)) :
    ∃ i ∈ t.calls,
      Scene.Misses { template := t, root := input.data, functions := input.functions } i.2
        name := by
  let scene : Scene := { template := t, root := input.data, functions := input.functions }
  let ok : RenderError → Prop := fun e => ∀ name, e = .missingHelper name →
    ∃ i ∈ t.calls, scene.Misses i.2 name
  have helper (name : String) (cause : HelperError) : ok (.helper name cause) := nofun
  have fails : scene.Fails ok :=
    { missingVariable := nofun
      partialDepth := nofun
      helpers := fun _ helper' _ call => (helper' call).keepsTo_of_helper helper
      functions := fun id call => (scene.functions id call).keepsTo_of_helper helper
      blockHelpers := fun name _ _ _ _ _ cause _ => helper name cause }
  have listed {calls : List (Place × Call)} (sub : ∀ i ∈ calls, i ∈ t.calls) :
      scene.Allows ok calls := by
    rintro i inside missed misses _ ⟨rfl⟩
    exact ⟨i, sub i inside, misses⟩
  have root : Plan.Allowed scene ok t.plan := listed fun i inside => List.mem_append_left _ inside
  have registered : Table.All (Plan.Allowed scene ok) t.partials := fun e member =>
    listed fun i inside => List.mem_append_right _ (List.mem_flatMap.mpr ⟨e, member, inside⟩)
  have start : Env.Allowed scene ok { frames := [input.seed] } := ⟨nofun, nofun⟩
  have ends := Scene.renderPlan_keeps ⟨fails, nofun, registered⟩ t.settings.maxPartialDepth root
    { env := { frames := [input.seed] }, context := input.data }
    { env := { frames := [input.seed] }, context := input.data }
    ⟨Env.like_allowed.mpr ⟨rfl, start⟩, rfl⟩
  exact ends.allowed _ failed name rfl

end Stencil
