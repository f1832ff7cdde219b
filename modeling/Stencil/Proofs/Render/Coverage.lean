import Stencil.Proofs.Compile.Lockstep
import Stencil.Proofs.Render.Blocks
import Stencil.Proofs.Table

/-!
Plans in which every name is covered.

A plan without computed names and without `@partial-block` looks partials up
by name only where an inline partial is known under it, or where a block
takes its place. Such a plan never misses a partial: while it is rendered
the inline partials that it relies on are those of the environment, and
their plans rely on no others.
-/

namespace Stencil

open Eval

/-- The names that are known inside a plan: those outside, and those that it defines. -/
def Plan.inside (plan : Plan) (known : String → Prop) (name : String) : Prop :=
  plan.Defines name ∨ known name

mutual

/-- The names in a node are those of inline partials that are known, or a block takes
their place. -/
inductive NodeCovered : (String → Prop) → Node → Prop
  | literal (known : String → Prop) (text : String) : NodeCovered known (.literal text)
  | lookup (known : String → Prop) (e : Expr) (encoding : Encoding) :
      NodeCovered known (.lookup e encoding)
  | helper (known : String → Prop) (call : Call) (encoding : Encoding) :
      NodeCovered known (.helper call encoding)
  | block {known : String → Prop} (kind : BlockKind) (params : List String) {body : Plan}
      (h : NodesCovered (Plan.inside body known) body) :
      NodeCovered known (.block kind body none params)
  | blockElse {known : String → Prop} (kind : BlockKind) (params : List String)
      {body inverse : Plan} (h : NodesCovered (Plan.inside body known) body)
      (hi : NodesCovered (Plan.inside inverse known) inverse) :
      NodeCovered known (.block kind body (some inverse) params)
  | inclusion {known : String → Prop} (call : Inclusion) {t : Target}
      (h : TargetCovered known t) : NodeCovered known (.inclusion call t none)
  /-- A partial sees the inline partials of the block that it is given. -/
  | inclusionBlock {known : String → Prop} (call : Inclusion) {t : Target} {block : Plan}
      (h : TargetCovered (Plan.inside block known) t)
      (hb : NodesCovered (Plan.inside block known) block) :
      NodeCovered known (.inclusion call t (some block))
  | inclusionInstead {known : String → Prop} (call : Inclusion) (name : String) {block : Plan}
      (hb : NodesCovered (Plan.inside block known) block) :
      NodeCovered known (.inclusion call (.named name) (some block))
  | inlineDef {known : String → Prop} (name : String) {plan : Plan}
      (h : NodesCovered (Plan.inside plan known) plan) : NodeCovered known (.inlineDef name plan)

inductive NodesCovered : (String → Prop) → Plan → Prop
  | nil (known : String → Prop) : NodesCovered known []
  | cons {known : String → Prop} {n : Node} {p : Plan} (h : NodeCovered known n)
      (others : NodesCovered known p) : NodesCovered known (n :: p)

inductive TargetCovered : (String → Prop) → Target → Prop
  | embedded {known : String → Prop} {plan : Plan}
      (h : NodesCovered (Plan.inside plan known) plan) : TargetCovered known (.embedded plan)
  | named {known : String → Prop} {name : String} (h : known name) :
      TargetCovered known (.named name)

end

variable {known known' : String → Prop}

theorem nodesCovered_iff {p : Plan} : NodesCovered known p ↔ ∀ n ∈ p, NodeCovered known n := by
  constructor
  · intro h
    induction p with
    | nil => nofun
    | cons n p ih =>
        cases h with
        | cons h others => exact List.forall_mem_cons.mpr ⟨h, ih others⟩
  · intro h
    induction p with
    | nil => exact .nil known
    | cons n p ih =>
        obtain ⟨first, others⟩ := List.forall_mem_cons.mp h
        exact .cons first (ih others)

theorem Plan.inside_mono (p : Plan) (sub : ∀ name, known name → known' name) (name : String)
    (h : p.inside known name) : p.inside known' name :=
  h.imp id (sub name)

mutual

/-- More names may be known. -/
theorem NodeCovered.mono {known known' : String → Prop} (sub : ∀ name, known name → known' name) :
    {n : Node} → NodeCovered known n → NodeCovered known' n
  | _, .literal _ text => .literal _ text
  | _, .lookup _ e encoding => .lookup _ e encoding
  | _, .helper _ call encoding => .helper _ call encoding
  | _, .block kind params h => .block kind params (h.mono (Plan.inside_mono _ sub))
  | _, .blockElse kind params h hi =>
      .blockElse kind params (h.mono (Plan.inside_mono _ sub)) (hi.mono (Plan.inside_mono _ sub))
  | _, .inclusion call h => .inclusion call (h.mono sub)
  | _, .inclusionBlock call h hb =>
      .inclusionBlock call (h.mono (Plan.inside_mono _ sub)) (hb.mono (Plan.inside_mono _ sub))
  | _, .inclusionInstead call name hb =>
      .inclusionInstead call name (hb.mono (Plan.inside_mono _ sub))
  | _, .inlineDef name h => .inlineDef name (h.mono (Plan.inside_mono _ sub))

theorem NodesCovered.mono {known known' : String → Prop} (sub : ∀ name, known name → known' name) :
    {p : Plan} → NodesCovered known p → NodesCovered known' p
  | _, .nil _ => .nil _
  | _, .cons h others => .cons (h.mono sub) (others.mono sub)

theorem TargetCovered.mono {known known' : String → Prop}
    (sub : ∀ name, known name → known' name) :
    {t : Target} → TargetCovered known t → TargetCovered known' t
  | _, .embedded h => .embedded (h.mono (Plan.inside_mono _ sub))
  | _, .named h => .named (sub _ h)

end

/-- A plan whose names are covered where these are known. -/
def Plan.Covered (p : Plan) (known : String → Prop) : Prop :=
  NodesCovered (p.inside known) p

/-! ### Environments -/

/-- The name of one of these inline partials. -/
def Known (inlines : List (Table Plan)) (name : String) : Prop :=
  ∃ layer ∈ inlines, (Table.get? layer name).isSome = true

/-- Inline partials that rely on each other only. -/
def InlinesCovered (inlines : List (Table Plan)) : Prop :=
  ∀ layer ∈ inlines, ∀ name plan, Table.get? layer name = some plan → plan.Covered (Known inlines)

/-- Surroundings with these inline partials. -/
structure Knowing (inlines : List (Table Plan)) (σ σ' : Surroundings) : Prop where
  same : σ = σ'
  inlines : σ.inlines = inlines

variable {inlines : List (Table Plan)} {plan : Plan}

theorem mem_of_inlineDefs {name : String} {body : Plan}
    (h : Table.get? (Plan.inlineDefs plan) name = some body) : Node.inlineDef name body ∈ plan := by
  obtain ⟨n, member, given⟩ := List.mem_filterMap.mp (Table.mem_of_get?_ofEntries h)
  cases n with
  | inlineDef other body' =>
      cases given
      exact member
  | _ => cases given

theorem Plan.Defines.isSome {name : String} (h : plan.Defines name) :
    (Table.get? (Plan.inlineDefs plan) name).isSome = true := by
  obtain ⟨body, member⟩ := h
  exact Table.isSome_get?_ofEntries (List.mem_filterMap.mpr ⟨_, member, rfl⟩)

/-- The inline partials with those of a plan before them; an empty layer is left out. -/
def withLayer (layer : Table Plan) (inlines : List (Table Plan)) : List (Table Plan) :=
  if layer.isEmpty then inlines else layer :: inlines

theorem known_withLayer {name : String} (h : plan.inside (Known inlines) name) :
    Known (withLayer (Plan.inlineDefs plan) inlines) name := by
  unfold withLayer
  rcases h with defined | known
  · have found := defined.isSome
    split
    · next nothing =>
      rw [List.isEmpty_iff.mp nothing] at found
      cases found
    · exact ⟨_, .head _, found⟩
  · split
    · exact known
    · obtain ⟨layer, member, found⟩ := known
      exact ⟨layer, .tail _ member, found⟩

/-- The inline partials of a covered plan may be made known. -/
theorem InlinesCovered.withLayer (h : InlinesCovered inlines) (covered : plan.Covered (Known inlines)) :
    InlinesCovered (withLayer (Plan.inlineDefs plan) inlines) := by
  have old (name : String) (known : Known inlines name) :
      Known (Stencil.withLayer (Plan.inlineDefs plan) inlines) name :=
    known_withLayer (.inr known)
  intro layer member name body found
  have before (inside : layer ∈ inlines) :
      body.Covered (Known (Stencil.withLayer (Plan.inlineDefs plan) inlines)) :=
    NodesCovered.mono (body.inside_mono old) (h layer inside name body found)
  unfold Stencil.withLayer at member
  split at member
  · exact before member
  · cases member with
    | tail _ member => exact before member
    | head =>
        cases nodesCovered_iff.mp covered _ (mem_of_inlineDefs found) with
        | inlineDef _ h => exact NodesCovered.mono (body.inside_mono fun _ => known_withLayer) h

theorem Plan.Covered.inside_withLayer (covered : plan.Covered (Known inlines)) :
    NodesCovered (Known (withLayer (Plan.inlineDefs plan) inlines)) plan :=
  NodesCovered.mono (fun _ => known_withLayer) covered

theorem Knowing.pushInlines {e e' : Env} (like : e.Like (Knowing inlines) e') (layer : Table Plan) :
    (e.pushInlines layer).Like (Knowing (withLayer layer inlines)) (e'.pushInlines layer) := by
  obtain ⟨scopes, frames, bindings, same, here⟩ := like
  rw [Env.pushInlines, Env.pushInlines, withLayer]
  change e.inlines = inlines at here
  split
  · exact ⟨scopes, frames, bindings, same, here⟩
  · refine ⟨scopes, frames, bindings, ?_, congrArg (layer :: ·) here⟩
    injection same with inlines blocks blockCount depth
    simp only [Env.surroundings, inlines, blocks, blockCount, depth]

/-- The inline partials inside an inclusion: a block brings its own. -/
def withBlock (block : Option Plan) (inlines : List (Table Plan)) : List (Table Plan) :=
  match block with
  | none => inlines
  | some block => withLayer (Plan.inlineDefs block) inlines

theorem Plan.Covered.withBlock (h : plan.Covered (Known inlines)) (block : Option Plan) :
    plan.Covered (Known (withBlock block inlines)) := by
  cases block with
  | none => exact h
  | some block => exact NodesCovered.mono (plan.inside_mono fun _ known => known_withLayer (.inr known)) h

theorem Knowing.enter {e e' : Env} (like : e.Like (Knowing inlines) e') (block : Option Plan) :
    (e.enter block).Like (Knowing (withBlock block inlines)) (e'.enter block) := by
  cases block with
  | none =>
      obtain ⟨scopes, frames, bindings, same, here⟩ := like
      refine ⟨scopes, frames, bindings, ?_, here⟩
      injection same with inlines blocks blockCount depth
      simp only [Env.surroundings, Env.enter, inlines, blocks, blockCount, depth]
  | some block =>
      obtain ⟨scopes, frames, bindings, same, here⟩ :=
        Knowing.pushInlines like (Plan.inlineDefs block)
      refine ⟨scopes, frames, bindings, ?_, here⟩
      injection same with inlines blocks blockCount depth
      simp only [Env.surroundings, Env.enter, inlines, blocks, blockCount, depth]

/-! ### Rendering -/

section

variable {s : Scene} {ok : RenderError → Prop} {enter? : Option (Plan → Eval String)}

/-- Covered plans render one level deeper with failures that are allowed. -/
def DeeperCovered (ok : RenderError → Prop) (enter? : Option (Plan → Eval String)) : Prop :=
  ∀ enter, enter? = some enter → ∀ (inlines : List (Table Plan)) (plan : Plan),
    InlinesCovered inlines → plan.Covered (Known inlines) →
      Matches (Knowing inlines) ok (enter plan) (enter plan)

/-- The inline partials inside an inclusion are covered, and known there. -/
theorem InlinesCovered.withBlock (h : InlinesCovered inlines) {block : Option Plan}
    (hb : ∀ b, block = some b → b.Covered (Known inlines)) :
    InlinesCovered (withBlock block inlines) := by
  cases block with
  | none => exact h
  | some block => exact h.withLayer (hb block rfl)

theorem renderPartial_covered (keeps : s.KeepsTo ok) (deeper : DeeperCovered ok enter?)
    (h : InlinesCovered inlines) (call : Inclusion) {block : Option Plan}
    (hb : ∀ b, block = some b → b.Covered (Known inlines))
    (hp : plan.Covered (Known (withBlock block inlines))) :
    Matches (Knowing inlines) ok (s.renderPartial enter? call plan block)
      (s.renderPartial enter? call plan block) := by
  refine Scene.renderPartial_matches (.refl s) keeps ?_ (fun _ _ like => Knowing.enter like block)
    call
  cases enter? with
  | none => exact .none
  | some enter => exact .some (deeper enter rfl _ plan (h.withBlock hb) hp)

/-- A name that is known is that of a covered plan. -/
theorem findPartial?_known (h : InlinesCovered inlines) {e : Env} (here : e.inlines = inlines)
    {name : String} (known : Known inlines name) :
    ∃ plan, s.findPartial? e name = some plan ∧ plan.Covered (Known inlines) := by
  obtain ⟨layer, member, found⟩ := known
  unfold Scene.findPartial?
  rw [here]
  cases first : inlines.findSome? fun layer => Table.get? layer name with
  | none =>
      rw [List.findSome?_eq_none_iff.mp first layer member] at found
      cases found
  | some plan =>
      obtain ⟨layer, member, found⟩ := List.exists_of_findSome?_eq_some first
      exact ⟨plan, rfl, h layer member name plan found⟩

/-- A scene that finds inline partials only. -/
theorem findPartial?_bare (bare : s.template.partials = []) (h : InlinesCovered inlines) {e : Env}
    (here : e.inlines = inlines) {name : String} {plan : Plan}
    (found : s.findPartial? e name = some plan) : plan.Covered (Known inlines) := by
  by_cases known : Known inlines name
  · obtain ⟨plan', found', covered⟩ := findPartial?_known (s := s) h here known
    rw [found] at found'
    cases found'
    exact covered
  · unfold Scene.findPartial? at found
    rw [here, bare] at found
    have none_there : inlines.findSome? (fun layer => Table.get? layer name) = none := by
      rw [List.findSome?_eq_none_iff]
      intro layer member
      cases there : Table.get? layer name with
      | none => rfl
      | some plan => exact absurd ⟨layer, member, by rw [there]; rfl⟩ known
    rw [none_there] at found
    cases found

theorem renderNamed_covered (keeps : s.KeepsTo ok) (bare : s.template.partials = [])
    (deeper : DeeperCovered ok enter?) (h : InlinesCovered inlines) (call : Inclusion)
    (name : String) {block : Option Plan} (hb : ∀ b, block = some b → b.Covered (Known inlines))
    (covered : block = none → Known inlines name) :
    Matches (Knowing inlines) ok (s.renderNamed enter? call name block)
      (s.renderNamed enter? call name block) := by
  have here {e e' : Env} (like : e.Like (Knowing inlines) e') : e.inlines = inlines :=
    like.surroundings.inlines
  refine Scene.renderNamed_matches call name (fun e e' like => ?_) ?_ fun bare e e' like found => ?_
  · have same : e.inlines = e'.inlines := congrArg Surroundings.inlines like.surroundings.same
    have finds : s.findPartial? e' name = s.findPartial? e name := by
      unfold Scene.findPartial?
      rw [same]
    rw [finds]
    cases found : s.findPartial? e name with
    | none => exact .none
    | some plan =>
        have covered := findPartial?_bare bare h (here like) found
        exact .some (renderPartial_covered keeps deeper h call hb (covered.withBlock block))
  · cases block with
    | none => exact .none
    | some b => exact .some (renderPartial_covered keeps deeper h call nofun (hb b rfl))
  · obtain ⟨plan, there, _⟩ := findPartial?_known (s := s) h (here like) (covered bare)
    rw [there] at found
    cases found

theorem withInlines_covered {nodes : Eval String}
    (h : Matches (Knowing (withLayer (Plan.inlineDefs plan) inlines)) ok nodes nodes) :
    Matches (Knowing inlines) ok (withInlines plan nodes) (withInlines plan nodes) :=
  .within h (fun _ _ like => Knowing.pushInlines like _) (Env.popInlines_pushInlines _)
    (Env.popInlines_pushInlines _)

mutual

theorem renderNode_covered (keeps : s.KeepsTo ok) (bare : s.template.partials = [])
    (deeper : DeeperCovered ok enter?) {inlines : List (Table Plan)} (h : InlinesCovered inlines) :
    {n : Node} → NodeCovered (Known inlines) n →
      Matches (Knowing inlines) ok (s.renderNode enter? n) (s.renderNode enter? n)
  | _, .literal _ text => by
      simp only [Scene.renderNode]
      exact .pure text
  | _, .lookup _ e encoding => by
      simp only [Scene.renderNode]
      exact .bind (Scene.lookup_matches (.refl s) keeps e) fun value => .pure _
  | _, .helper _ call encoding => by
      simp only [Scene.renderNode]
      exact .bind (Scene.evalCall_matches (.refl s) keeps .none call) fun value => .pure _
  | _, .block kind params hp => by
      simp only [Scene.renderNode]
      exact Scene.renderBlock_matches (.refl s) keeps
        (withInlines_covered (renderNodes_covered keeps bare deeper (h.withLayer hp)
          (Plan.Covered.inside_withLayer hp))) .none kind params
  | _, .blockElse kind params hp hi => by
      simp only [Scene.renderNode]
      exact Scene.renderBlock_matches (.refl s) keeps
        (withInlines_covered (renderNodes_covered keeps bare deeper (h.withLayer hp)
          (Plan.Covered.inside_withLayer hp)))
        (.some (withInlines_covered (renderNodes_covered keeps bare deeper (h.withLayer hi)
          (Plan.Covered.inside_withLayer hi)))) kind params
  | _, .inclusion call (.embedded hp) => by
      simp only [Scene.renderNode]
      exact renderPartial_covered keeps deeper h call nofun hp
  | _, .inclusion call (.named known) => by
      simp only [Scene.renderNode]
      exact renderNamed_covered keeps bare deeper h call _ nofun fun _ => known
  | _, .inclusionBlock call (.embedded hp) hb => by
      simp only [Scene.renderNode]
      refine renderPartial_covered keeps deeper h call ?_ ?_
      · rintro _ ⟨rfl⟩
        exact hb
      · exact NodesCovered.mono (Plan.inside_mono _ fun _ => known_withLayer) hp
  | _, .inclusionBlock call (.named _) hb => by
      simp only [Scene.renderNode]
      refine renderNamed_covered keeps bare deeper h call _ ?_ nofun
      rintro _ ⟨rfl⟩
      exact hb
  | _, .inclusionInstead call name hb => by
      simp only [Scene.renderNode]
      refine renderNamed_covered keeps bare deeper h call name ?_ nofun
      rintro _ ⟨rfl⟩
      exact hb
  | _, .inlineDef name hp => by
      simp only [Scene.renderNode]
      exact .pure ""

theorem renderNodes_covered (keeps : s.KeepsTo ok) (bare : s.template.partials = [])
    (deeper : DeeperCovered ok enter?) {inlines : List (Table Plan)} (h : InlinesCovered inlines) :
    {p : Plan} → NodesCovered (Known inlines) p →
      Matches (Knowing inlines) ok (s.renderNodes enter? p) (s.renderNodes enter? p)
  | _, .nil _ => by
      simp only [Scene.renderNodes]
      exact .pure ""
  | _, .cons hn others => by
      simp only [Scene.renderNodes]
      exact .bind (renderNode_covered keeps bare deeper h hn) fun text =>
        .bind (renderNodes_covered keeps bare deeper h others) fun rest => .pure _

end

/-- Rendering a covered plan fails only as the scene itself fails. -/
theorem renderPlan_covered (keeps : s.KeepsTo ok) (bare : s.template.partials = [])
    (levels : Nat) {inlines : List (Table Plan)} {plan : Plan} (h : InlinesCovered inlines)
    (hp : plan.Covered (Known inlines)) :
    Matches (Knowing inlines) ok (s.renderPlan levels plan) (s.renderPlan levels plan) := by
  induction levels generalizing inlines plan with
  | zero =>
      have deeper : DeeperCovered ok none := fun _ given => nomatch given
      exact withInlines_covered (renderNodes_covered keeps bare deeper (h.withLayer hp)
        hp.inside_withLayer)
  | succ levels ih =>
      have deeper : DeeperCovered ok (some (s.renderPlan levels)) := by
        rintro _ ⟨rfl⟩ inlines plan h hp
        exact ih h hp
      exact withInlines_covered (renderNodes_covered keeps bare deeper (h.withLayer hp)
        hp.inside_withLayer)

end

/-- In a template without a table of partials, a covered plan never misses a partial: what
fails is a helper, a name of a value or helper, or the limit on nested partials. -/
theorem Template.render_covered {t : Template} (bare : t.partials = [])
    (covered : t.plan.Covered fun _ => False) (input : Input) {ok : RenderError → Prop}
    (keeps : Scene.KeepsTo { template := t, root := input.data, functions := input.functions } ok)
    {e : RenderError} (failed : (t.render input).result = .error e) : ok e := by
  have known : t.plan.Covered (Known []) := NodesCovered.mono (t.plan.inside_mono fun _ => False.elim) covered
  have none_yet : InlinesCovered [] := fun _ member => absurd member List.not_mem_nil
  have ends := renderPlan_covered keeps bare t.settings.maxPartialDepth none_yet known
    { env := { frames := [input.seed] }, context := input.data }
    { env := { frames := [input.seed] }, context := input.data }
    ⟨⟨rfl, rfl, rfl, rfl, rfl⟩, rfl⟩
  exact ends.allowed e failed

end Stencil
