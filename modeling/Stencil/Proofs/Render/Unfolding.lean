import Stencil.Proofs.Render.Blocks
import Stencil.Proofs.Table

/-!
Plans with partials copied in, and plans that find them by name.

A plan unfolds another one when it has the plan of a partial where the
other has its name, and the plan under this name in the table is unfolded
by the copy. Names that stay names on both sides are those of inline
partials, and no registered partial has such a name. Plans that unfold one
another render alike, with the levels of partials counted alike.
-/

namespace Stencil

open Eval

/-- What is known of the partials that are found by name. -/
structure Directory where
  /-- The plans under the names of partials. -/
  table : Table Plan
  /-- The names of partials that have a source. -/
  registered : String → Prop
  /-- Whether a name may be computed. -/
  dynamic : Prop

namespace Directory

mutual

/-- A node, and one that finds partials by name. -/
inductive NodeUnfolds (dir : Directory) : Node → Node → Prop
  | literal (text : String) : NodeUnfolds dir (.literal text) (.literal text)
  | lookup (e : Expr) (encoding : Encoding) :
      NodeUnfolds dir (.lookup e encoding) (.lookup e encoding)
  | helper (call : Call) (encoding : Encoding) :
      NodeUnfolds dir (.helper call encoding) (.helper call encoding)
  | block (kind : BlockKind) (params : List String) {body body' : Plan}
      (h : PlanUnfolds dir body body') :
      NodeUnfolds dir (.block kind body none params) (.block kind body' none params)
  | blockElse (kind : BlockKind) (params : List String) {body body' inverse inverse' : Plan}
      (h : PlanUnfolds dir body body') (hi : PlanUnfolds dir inverse inverse') :
      NodeUnfolds dir (.block kind body (some inverse) params)
        (.block kind body' (some inverse') params)
  | inclusion (call : Inclusion) {t t' : Target} (h : TargetUnfolds dir t t') :
      NodeUnfolds dir (.inclusion call t none) (.inclusion call t' none)
  | inclusionBlock (call : Inclusion) {t t' : Target} {block block' : Plan}
      (h : TargetUnfolds dir t t') (hb : PlanUnfolds dir block block') :
      NodeUnfolds dir (.inclusion call t (some block)) (.inclusion call t' (some block'))
  | inlineDef {name : String} {plan plan' : Plan} (inline : ¬dir.registered name)
      (h : PlanUnfolds dir plan plan') :
      NodeUnfolds dir (.inlineDef name plan) (.inlineDef name plan')

inductive PlanUnfolds (dir : Directory) : Plan → Plan → Prop
  | nil : PlanUnfolds dir [] []
  | cons {n n' : Node} {p p' : Plan} (h : NodeUnfolds dir n n') (others : PlanUnfolds dir p p') :
      PlanUnfolds dir (n :: p) (n' :: p')

inductive TargetUnfolds (dir : Directory) : Target → Target → Prop
  | embedded {name : String} {plan plan' : Plan} (registered : dir.registered name)
      (found : Table.get? dir.table name = some plan') (h : PlanUnfolds dir plan plan') :
      TargetUnfolds dir (.embedded plan) (.named name)
  | named {name : String} (inline : ¬dir.registered name) :
      TargetUnfolds dir (.named name) (.named name)
  | dynamic (e : Expr) (allowed : dir.dynamic) : TargetUnfolds dir (.dynamic e) (.dynamic e)
  | partialBlock : TargetUnfolds dir .partialBlock .partialBlock

end

variable {dir : Directory}

theorem planUnfolds_iff {p p' : Plan} :
    dir.PlanUnfolds p p' ↔ List.Forall₂ dir.NodeUnfolds p p' := by
  constructor
  · intro h
    induction p generalizing p' with
    | nil =>
        cases h
        exact .nil
    | cons n p ih =>
        cases h with
        | cons h others => exact .cons h (ih others)
  · intro h
    induction h with
    | nil => exact .nil
    | cons h _ ih => exact .cons h ih

/-- Inline partials that are found alike: they unfold one another, and hide no
registered partial. -/
def Inline (dir : Directory) (name : String) (plan plan' : Plan) : Prop :=
  ¬dir.registered name ∧ dir.PlanUnfolds plan plan'

theorem inlineDefs_rel {p p' : Plan} (h : dir.PlanUnfolds p p') :
    Table.Rel dir.Inline (Plan.inlineDefs p) (Plan.inlineDefs p') := by
  refine Table.Rel.ofEntries ?_
  rw [planUnfolds_iff] at h
  induction h with
  | nil => exact .nil
  | cons h _ ih =>
      cases h with
      | inlineDef inline h => exact .cons ⟨rfl, inline, h⟩ ih
      | _ => exact ih

/-- Surroundings in which inline partials and blocks unfold one another. -/
structure Unfolds (dir : Directory) (σ σ' : Surroundings) : Prop where
  inlines : List.Forall₂ (Table.Rel dir.Inline) σ.inlines σ'.inlines
  blocks : List.Forall₂ dir.PlanUnfolds σ.blocks σ'.blocks
  blockCount : σ.blockCount = σ'.blockCount
  depth : σ.depth = σ'.depth

variable {e e' : Env}

theorem Unfolds.pushInlines (like : e.Like dir.Unfolds e') {layer layer' : Table Plan}
    (h : Table.Rel dir.Inline layer layer') :
    (e.pushInlines layer).Like dir.Unfolds (e'.pushInlines layer') := by
  obtain ⟨scopes, frames, bindings, inlines, blocks, blockCount, depth⟩ := like
  rw [Env.pushInlines, Env.pushInlines, h.isEmpty_eq]
  split
  · exact ⟨scopes, frames, bindings, inlines, blocks, blockCount, depth⟩
  · exact ⟨scopes, frames, bindings, .cons h inlines, blocks, blockCount, depth⟩

theorem Unfolds.enter (like : e.Like dir.Unfolds e') {block block' : Option Plan}
    (h : Option.Rel dir.PlanUnfolds block block') :
    (e.enter block).Like dir.Unfolds (e'.enter block') := by
  cases h with
  | none =>
      obtain ⟨scopes, frames, bindings, inlines, blocks, blockCount, depth⟩ := like
      exact ⟨scopes, frames, bindings, inlines, blocks, blockCount, congrArg (· + 1) depth⟩
  | some h =>
      obtain ⟨scopes, frames, bindings, inlines, blocks, blockCount, depth⟩ :=
        Unfolds.pushInlines like (inlineDefs_rel h)
      exact ⟨scopes, frames, bindings, inlines, .cons h blocks, congrArg (· + 1) blockCount,
        congrArg (· + 1) depth⟩

theorem Unfolds.dropBlock (like : e.Like dir.Unfolds e') :
    e.dropBlock.Like dir.Unfolds e'.dropBlock := by
  obtain ⟨scopes, frames, bindings, inlines, blocks, blockCount, depth⟩ := like
  refine ⟨scopes, frames, bindings, inlines, ?_, blockCount, depth⟩
  change List.Forall₂ dir.PlanUnfolds e.blocks e'.blocks at blocks
  change List.Forall₂ dir.PlanUnfolds e.blocks.tail e'.blocks.tail
  revert blocks
  generalize e.blocks = blocks, e'.blocks = blocks'
  rintro (_ | ⟨_, others⟩)
  · exact .nil
  · exact others

/-! ### Scenes -/

/-- Scenes that differ in where partials are found. -/
structure Scenes (dir : Directory) (s s' : Scene) : Prop where
  similar : s.Similar s'
  table : s'.template.partials = dir.table
  registered : ∀ name plan, Table.get? dir.table name = some plan → dir.registered name
  partials : ∀ name, ¬dir.registered name → Table.get? s.template.partials name = none
  dynamic : dir.dynamic → ∀ name,
    Option.Rel dir.PlanUnfolds (Table.get? s.template.partials name) (Table.get? dir.table name)

variable {s s' : Scene} {name : String}

/-- Names that stand for partials which unfold one another. -/
theorem Scenes.findPartial?_rel (scenes : dir.Scenes s s') (like : e.Like dir.Unfolds e')
    (h : Option.Rel dir.PlanUnfolds (Table.get? s.template.partials name)
      (Table.get? dir.table name)) :
    Option.Rel dir.PlanUnfolds (s.findPartial? e name) (s'.findPartial? e' name) := by
  have inlines : List.Forall₂ (Table.Rel dir.Inline) e.inlines e'.inlines :=
    like.surroundings.inlines
  have found := Table.Rel.findSome? inlines name
  rw [Scene.findPartial?, Scene.findPartial?, scenes.table]
  revert found
  generalize e.inlines.findSome? (fun layer => Table.get? layer name) = plan,
    e'.inlines.findSome? (fun layer => Table.get? layer name) = plan'
  rintro (found | _)
  · exact .some found.2
  · exact h

theorem Scenes.findPartial?_inline (scenes : dir.Scenes s s') (like : e.Like dir.Unfolds e')
    (inline : ¬dir.registered name) :
    Option.Rel dir.PlanUnfolds (s.findPartial? e name) (s'.findPartial? e' name) := by
  refine scenes.findPartial?_rel like ?_
  rw [scenes.partials name inline]
  cases found : Table.get? dir.table name with
  | none => exact .none
  | some plan => exact absurd (scenes.registered name plan found) inline

/-- No inline partial hides a registered one. -/
theorem Scenes.findPartial?_registered (scenes : dir.Scenes s s') (like : e.Like dir.Unfolds e')
    {plan : Plan} (registered : dir.registered name)
    (h : Table.get? dir.table name = some plan) : s'.findPartial? e' name = some plan := by
  have inlines : List.Forall₂ (Table.Rel dir.Inline) e.inlines e'.inlines :=
    like.surroundings.inlines
  have found := Table.Rel.findSome? inlines name
  rw [Scene.findPartial?, scenes.table, h]
  revert found
  generalize e.inlines.findSome? (fun layer => Table.get? layer name) = plan,
    e'.inlines.findSome? (fun layer => Table.get? layer name) = plan'
  rintro (found | _)
  · exact absurd registered found.1
  · rfl

/-! ### Inclusions -/

/-- Plans that unfold one another render alike one level deeper. -/
def Deeper (dir : Directory) (enter? enter?' : Option (Plan → Eval String)) : Prop :=
  Option.Rel (fun enter enter' => ∀ plan plan', dir.PlanUnfolds plan plan' →
    Matches dir.Unfolds (fun _ => True) (enter plan) (enter' plan')) enter? enter?'

variable {enter? enter?' : Option (Plan → Eval String)} {block block' : Option Plan}

theorem renderPartial_unfolds (scenes : dir.Scenes s s') (deeper : dir.Deeper enter? enter?')
    (call : Inclusion) {plan plan' : Plan} (h : dir.PlanUnfolds plan plan')
    (hb : Option.Rel dir.PlanUnfolds block block') :
    Matches dir.Unfolds (fun _ => True) (s.renderPartial enter? call plan block)
      (s'.renderPartial enter?' call plan' block') := by
  refine Scene.renderPartial_matches scenes.similar s.keepsTo_true ?_
    (fun _ _ like => Unfolds.enter like hb) call
  cases deeper with
  | none => exact .none
  | some deeper => exact .some (deeper _ _ h)

theorem renderNamed_unfolds (scenes : dir.Scenes s s') (deeper : dir.Deeper enter? enter?')
    (call : Inclusion) (name : String)
    (found : ∀ e e' : Env, e.Like dir.Unfolds e' →
      Option.Rel dir.PlanUnfolds (s.findPartial? e name) (s'.findPartial? e' name))
    (hb : Option.Rel dir.PlanUnfolds block block') :
    Matches dir.Unfolds (fun _ => True) (s.renderNamed enter? call name block)
      (s'.renderNamed enter?' call name block') := by
  refine Scene.renderNamed_matches call name ?_ ?_ fun _ _ _ _ _ => trivial
  · intro e e' like
    have found := found e e' like
    revert found
    generalize s.findPartial? e name = plan, s'.findPartial? e' name = plan'
    rintro (found | _)
    · exact .some (renderPartial_unfolds scenes deeper call found hb)
    · exact .none
  · cases hb with
    | none => exact .none
    | some hb => exact .some (renderPartial_unfolds scenes deeper call hb .none)

/-- A copy renders like the partial that is found under its name. -/
theorem renderEmbedded_unfolds (scenes : dir.Scenes s s') (deeper : dir.Deeper enter? enter?')
    (call : Inclusion) {plan plan' : Plan} (registered : dir.registered name)
    (found : Table.get? dir.table name = some plan') (h : dir.PlanUnfolds plan plan')
    (hb : Option.Rel dir.PlanUnfolds block block') :
    Matches dir.Unfolds (fun _ => True) (s.renderPartial enter? call plan block)
      (s'.renderNamed enter?' call name block') := by
  intro m m' like
  unfold Scene.renderNamed
  refine MatchesAt.get_right (MatchesAt.event_right ?_)
  rw [scenes.findPartial?_registered like.env registered found]
  exact renderPartial_unfolds scenes deeper call h hb _ _ ⟨like.env, like.context⟩

theorem renderPartialBlock_unfolds (scenes : dir.Scenes s s') (deeper : dir.Deeper enter? enter?')
    (call : Inclusion) :
    Matches dir.Unfolds (fun _ => True) (s.renderPartialBlock enter? call)
      (s'.renderPartialBlock enter?' call) := by
  refine Scene.renderPartialBlock_matches call ?_ (fun _ _ like _ => Unfolds.dropBlock like)
    ?_ trivial
  · intro e e' like
    have blocks : List.Forall₂ dir.PlanUnfolds e.blocks e'.blocks := like.surroundings.blocks
    revert blocks
    generalize e.blocks = blocks, e'.blocks = blocks'
    rintro (_ | ⟨h, _⟩)
    · exact .none
    · exact .some (renderPartial_unfolds scenes deeper call h .none)
  · intro e e' like _
    have blockCount : e.blockCount = e'.blockCount := like.surroundings.blockCount
    rw [blockCount]

theorem renderInclusion_unfolds (scenes : dir.Scenes s s') (deeper : dir.Deeper enter? enter?')
    (call : Inclusion) {t t' : Target} (h : dir.TargetUnfolds t t')
    (hb : Option.Rel dir.PlanUnfolds block block') :
    Matches dir.Unfolds (fun _ => True) (s.renderInclusion enter? call t block)
      (s'.renderInclusion enter?' call t' block') := by
  cases h with
  | embedded registered found h =>
      exact renderEmbedded_unfolds scenes deeper call registered found h hb
  | named inline =>
      exact renderNamed_unfolds scenes deeper call _
        (fun _ _ like => scenes.findPartial?_inline like inline) hb
  | dynamic e allowed =>
      refine .bind (Scene.eval_matches scenes.similar s.keepsTo_true e) fun name => ?_
      exact renderNamed_unfolds scenes deeper call _
        (fun _ _ like => scenes.findPartial?_rel like (scenes.dynamic allowed _)) hb
  | partialBlock => exact renderPartialBlock_unfolds scenes deeper call

/-! ### Plans -/

theorem withInlines_unfolds {plan plan' : Plan} {nodes nodes' : Eval String}
    (h : dir.PlanUnfolds plan plan') (hn : Matches dir.Unfolds (fun _ => True) nodes nodes') :
    Matches dir.Unfolds (fun _ => True) (withInlines plan nodes) (withInlines plan' nodes') :=
  .within hn (fun _ _ like => Unfolds.pushInlines like (inlineDefs_rel h))
    (Env.popInlines_pushInlines _) (Env.popInlines_pushInlines _)

mutual

theorem renderNode_unfolds (scenes : dir.Scenes s s') (deeper : dir.Deeper enter? enter?') :
    {n n' : Node} → dir.NodeUnfolds n n' →
      Matches dir.Unfolds (fun _ => True) (s.renderNode enter? n) (s'.renderNode enter?' n')
  | _, _, .literal text => by
      simp only [Scene.renderNode]
      exact .pure text
  | _, _, .lookup e encoding => by
      simp only [Scene.renderNode]
      exact .bind (Scene.lookup_matches scenes.similar s.keepsTo_true e) fun value => .pure _
  | _, _, .helper call encoding => by
      simp only [Scene.renderNode]
      exact .bind (Scene.evalCall_matches scenes.similar s.keepsTo_true .none call) fun value =>
        .pure _
  | _, _, .block kind params h => by
      simp only [Scene.renderNode]
      exact Scene.renderBlock_matches scenes.similar s.keepsTo_true
        (withInlines_unfolds h (renderNodes_unfolds scenes deeper h)) .none kind params
  | _, _, .blockElse kind params h hi => by
      simp only [Scene.renderNode]
      exact Scene.renderBlock_matches scenes.similar s.keepsTo_true
        (withInlines_unfolds h (renderNodes_unfolds scenes deeper h))
        (.some (withInlines_unfolds hi (renderNodes_unfolds scenes deeper hi))) kind params
  | _, _, .inclusion call h => by
      simp only [Scene.renderNode]
      exact renderInclusion_unfolds scenes deeper call h .none
  | _, _, .inclusionBlock call h hb => by
      simp only [Scene.renderNode]
      exact renderInclusion_unfolds scenes deeper call h (.some hb)
  | _, _, .inlineDef inline h => by
      simp only [Scene.renderNode]
      exact .pure ""

theorem renderNodes_unfolds (scenes : dir.Scenes s s') (deeper : dir.Deeper enter? enter?') :
    {p p' : Plan} → dir.PlanUnfolds p p' →
      Matches dir.Unfolds (fun _ => True) (s.renderNodes enter? p) (s'.renderNodes enter?' p')
  | _, _, .nil => by
      simp only [Scene.renderNodes]
      exact .pure ""
  | _, _, .cons h others => by
      simp only [Scene.renderNodes]
      exact .bind (renderNode_unfolds scenes deeper h) fun text =>
        .bind (renderNodes_unfolds scenes deeper others) fun rest => .pure _

end

/-- Plans that unfold one another render alike at every level. -/
theorem renderPlan_unfolds (scenes : dir.Scenes s s') (levels : Nat) {p p' : Plan}
    (h : dir.PlanUnfolds p p') :
    Matches dir.Unfolds (fun _ => True) (s.renderPlan levels p) (s'.renderPlan levels p') := by
  induction levels generalizing p p' with
  | zero => exact withInlines_unfolds h (renderNodes_unfolds scenes .none h)
  | succ levels ih =>
      exact withInlines_unfolds h (renderNodes_unfolds scenes (.some fun _ _ h => ih h) h)

end Directory

end Stencil
