import Stencil.Proofs.Compile.Inclusions
import Stencil.Proofs.Render.Operations

/-!
Inclusions whose partial is missing.

Rendering an inclusion first looks for the plan of its target and then renders a plan one level
deeper. Written as these two steps, an inclusion with a block is the choice between what was found
and the block, for each target but one. The innermost block that was handed over is looked for on a
path of its own, and that path never comes to the block of the inclusion. Where nothing was handed
over, the inclusion renders nothing or fails.
-/

namespace Stencil

open Eval

variable {scene : Scene} {enter? : Option (Plan → Eval String)}

/-! ### The search -/

/-- Looks for the partial of a name. -/
def Scene.locateNamed (scene : Scene) (name : String) : Eval (Option Plan) := do
  let m ← get
  Eval.addEvent (.dispatching name m.env.depth)
  return scene.findPartial? m.env name

/-- Looks for the plan of a target. -/
def Scene.locate (scene : Scene) : Target → Eval (Option Plan)
  | .embedded plan => return some plan
  | .named name => scene.locateNamed name
  | .dynamic e => do
    let name ← scene.eval e
    scene.locateNamed name.text
  | .partialBlock => return (← get).env.blocks.head?

theorem Scene.locate_partialBlock_run (m : Machine) :
    (scene.locate .partialBlock).run.run m = (.ok m.env.blocks.head?, m) :=
  rfl

/-- What is rendered once the search for a partial has ended. -/
def Scene.renderFound (scene : Scene) (enter? : Option (Plan → Eval String)) (call : Inclusion)
    (block : Plan) (found : Option Plan) : Eval String :=
  match found with
  | some plan => scene.renderPartial enter? call plan (some block)
  | none => scene.renderPartial enter? call block none

theorem renderNamed_eq (call : Inclusion) (name : String) (block : Plan) :
    scene.renderNamed enter? call name (some block) =
      scene.locateNamed name >>= scene.renderFound enter? call block := by
  unfold Scene.renderNamed Scene.locateNamed
  simp only [bind_assoc, pure_bind]
  refine bind_congr fun m => bind_congr fun _ => ?_
  cases scene.findPartial? m.env name <;> rfl

/-- The block stands in for whatever is not found, unless the target is the block that was handed
over. -/
theorem renderInclusion_eq (call : Inclusion) {target : Target} (block : Plan)
    (other : target ≠ .partialBlock) :
    scene.renderInclusion enter? call target (some block) =
      scene.locate target >>= scene.renderFound enter? call block := by
  cases target with
  | partialBlock => exact absurd rfl other
  | embedded plan => rw [Scene.locate, pure_bind]; rfl
  | named name => exact renderNamed_eq call name block
  | dynamic e =>
      rw [Scene.locate, bind_assoc]
      exact bind_congr fun name => renderNamed_eq call name.text block

/-- With nothing handed over, the target that stands for it comes to an end of its own. -/
theorem renderPartialBlock_run_none (call : Inclusion) {m : Machine} (none : m.env.blocks = []) :
    (scene.renderPartialBlock enter? call).run.run m =
      (if m.env.blockCount = 0 then .ok "" else .error (.missingPartial call.name), m) := by
  unfold Scene.renderPartialBlock
  rw [run_get_bind, none]
  simp only
  split <;> rfl

/-! ### Targets of written tags -/

namespace Workshop

/-- With a block every target is found: what is no partial yet is looked for when rendering. Only
one name stands for the block that was handed over. -/
theorem resolve_with_block (w : Workshop) (entered : List String) (name : String) (site : Site)
    (compile : Option (Compiling Plan)) (c : Compilation) :
    ∃ target, ((w.resolve entered name true site compile).run c).1 = some target ∧
      (target = .partialBlock ↔ name = "@partial-block") := by
  rw [resolve_run]
  by_cases handed : name = "@partial-block"
  · exact ⟨.partialBlock, by rw [if_pos handed], by simp [handed]⟩
  · rw [if_neg handed]
    split
    · exact ⟨.named name, rfl, by simp [handed]⟩
    split
    · exact ⟨.named name, rfl, by simp [handed]⟩
    split
    · exact ⟨.named name, by simp, by simp [handed]⟩
    · simp only
      cases ((embed entered name compile).run c).1 with
      | some plan => exact ⟨.embedded plan, rfl, by simp [handed]⟩
      | none => exact ⟨.named name, rfl, by simp [handed]⟩

theorem target_with_block (w : Workshop) (entered : List String) (available : Table String)
    (tag : Markup.Tag) (name : PartialName) (c : Compilation) :
    ∃ called target, (((w.builder entered available).target tag name true).run c).1 =
        some (called, target) ∧
      (target = .partialBlock ↔ name.static? = some "@partial-block") := by
  cases name with
  | dynamic e => exact ⟨_, _, rfl, by simp [PartialName.static?]⟩
  | static name =>
      obtain ⟨target, found, handed⟩ := w.resolve_with_block entered name tag.site
        (w.inner entered available name) c
      refine ⟨name, target, ?_, by simpa [PartialName.static?] using handed⟩
      change Option.map _ ((w.resolve entered name true tag.site
        (w.inner entered available name)).run c).1 = _
      rw [found]
      rfl

/-- The node of a tag that opens an inclusion has the block between the tags, and the context, the
named arguments and the indentation of the tag. -/
theorem scopeNode_inclusionBlock (w : Workshop) (entered : List String) (available : Table String)
    {scope : OpenBranches} {name : PartialName} (kind : scope.tag.kind = .inclusionBlock name)
    (c : Compilation) :
    ∃ called target, (((w.builder entered available).scopeNode scope).run c).1 =
        some (.inclusion (BuildContext.inclusionOf scope.tag called) target
          (some scope.body.reverse)) ∧
      (target = .partialBlock ↔ name.static? = some "@partial-block") := by
  obtain ⟨r, errors, -, -, run⟩ := BuildContext.inclusion_run (w.builder entered available)
    scope.tag name (some scope.body.reverse) c
  obtain ⟨called, target, found, handed⟩ :=
    w.target_with_block entered available scope.tag name { c with report := r }
  refine ⟨called, target, ?_, handed⟩
  unfold BuildContext.scopeNode
  simp only [kind]
  rw [run, Option.isSome_some, found]
  rfl

end Workshop

/-! ### Standing in -/

/-- A tag that opens an inclusion becomes an inclusion with a block, whatever it includes. Where
the search for its target ends without a plan, the inclusion renders as if the block were the plan,
with the same context, named arguments and indentation. The one exception is the target
`@partial-block`. With that, the inclusion renders nothing when no inclusion with a block is active,
and fails when one is. -/
theorem Workshop.block_stands_in (w : Workshop) (entered : List String)
    (available : Table String) {scope : OpenBranches} {name : PartialName}
    (kind : scope.tag.kind = .inclusionBlock name) (c : Compilation) :
    let block := scope.body.reverse
    ∃ called target,
      let call := BuildContext.inclusionOf scope.tag called
      (((w.builder entered available).scopeNode scope).run c).1 =
          some (.inclusion call target (some block)) ∧
        (target = .partialBlock ↔ name.static? = some "@partial-block") ∧
          ∀ (scene : Scene) (enter? : Option (Plan → Eval String)) (m after : Machine),
            (scene.locate target).run.run m = (.ok none, after) →
              let rendered (node : Node) := (scene.renderNode enter? node).run.run
              (target ≠ .partialBlock →
                  rendered (.inclusion call target (some block)) m =
                    rendered (.inclusion call (.embedded block) none) after) ∧
                (target = .partialBlock →
                  rendered (.inclusion call target (some block)) m =
                    (if m.env.blockCount = 0 then .ok "" else .error (.missingPartial called),
                      m)) := by
  intro block
  obtain ⟨called, target, node, handed⟩ := w.scopeNode_inclusionBlock entered available kind c
  refine ⟨called, target, node, handed, fun scene enter? m after missing => ⟨fun other => ?_, ?_⟩⟩
  · simp only [Scene.renderNode]
    rw [renderInclusion_eq _ _ other, run_bind, missing]
    rfl
  · rintro rfl
    rw [Scene.locate_partialBlock_run, Prod.mk.injEq, Except.ok.injEq,
      List.head?_eq_none_iff] at missing
    simp only [Scene.renderNode]
    exact renderPartialBlock_run_none _ missing.1

/-- A computed name that is the name of no partial, with a named argument and an indentation. -/
theorem signature_stands_in :
    let which : Expr := .path { segments := ["which"], source := "which" }
    let title : Expr := .path { segments := ["title"], source := "title" }
    let tag : Markup.Tag :=
      { kind := .inclusionBlock (.dynamic which)
        content := { head := "(which)", hash := [("title", .literal (.string "T") "'T'")] }
        site := ⟨"\x7b\x7b#> (which) title='T'\x7d\x7d", 1⟩, indent := "  " }
    let scope : OpenBranches :=
      { tag, body := [.lookup title .html, .literal "by "], chained := false }
    let w : Workshop := { settings := {}, registry := Registry.builtin }
    let data : Value := .object [("which", .string "card")]
    let m : Machine := { env := { frames := [[]] }, context := data }
    let after : Machine := { m with events := [.dispatching "card" 0] }
    let scene : Scene :=
      { template := { plan := [], partials := [], helpers := [], blockHelpers := [], settings := {},
                      usage := {}, warnings := [] }
        root := data, functions := fun _ _ => .done .null }
    let enter? := some (scene.renderPlan 1)
    scope.tag.kind = .inclusionBlock (.dynamic which) ∧
      (scene.locate (.dynamic which)).run.run m = (.ok none, after) ∧
        ∃ node, (((w.builder [] []).scopeNode scope).run {}).1 = some node ∧
          ((scene.renderNode enter? node).run.run m).1 = .ok "  by T" := by
  intro which title tag scope w data m after scene enter?
  obtain ⟨called, target, built, handed, stands⟩ :=
    @Workshop.block_stands_in w [] [] scope (.dynamic which) rfl {}
  have computed : (((w.builder [] []).scopeNode scope).run {}).1 =
      some (.inclusion (BuildContext.inclusionOf tag tag.site.tag) (.dynamic which)
        (some scope.body.reverse)) := rfl
  obtain ⟨rfl, rfl⟩ : called = tag.site.tag ∧ target = .dynamic which := by
    have same := Option.some.inj (built.symm.trans computed)
    simp only [Node.inclusion.injEq] at same
    exact ⟨congrArg Inclusion.name same.1, same.2.1⟩
  have missing : (scene.locate (.dynamic which)).run.run m = (.ok none, after) := by
    simp only [Scene.locate, which, Scene.eval]
    rfl
  refine ⟨rfl, missing, _, built, ?_⟩
  have other : Target.dynamic which ≠ .partialBlock := by simp
  have stood := (stands scene enter? m after missing).1 other
  have run : (((scene.renderNode enter? (.inclusion (BuildContext.inclusionOf tag tag.site.tag)
      (.embedded scope.body.reverse) none)).run.run after).1.toOption == some "  by T") = true := by
    decide +kernel
  exact (congrArg Prod.fst stood).trans (eq_ok_of_toOption (beq_iff_eq.mp run))

/-- A block for the case that no block was handed over. -/
def unhanded : String :=
  "\x7b\x7b#> @partial-block\x7d\x7dF\x7b\x7b/@partial-block\x7d\x7d"

/-- The same, in a block that is handed to the partial `card`. -/
def unhandedInside : String :=
  "\x7b\x7b#> card\x7d\x7d" ++ unhanded ++ "\x7b\x7b/card\x7d\x7d"

/-- The partial `card` shows the block that it is given. -/
def framed : Registry :=
  Registry.builtin.registerPartial "card" "\x7b\x7b> @partial-block\x7d\x7d"

/-- There is no block to be found in either case, and the block of the tag is not rendered: the
first template shows nothing, and the second fails. -/
theorem unhanded_misses :
    let input : Input := { data := .null, functions := fun _ _ => .done .null }
    ∃ t u, (Registry.builtin.compile {} unhanded).result = .ok t ∧
      (framed.compile {} unhandedInside).result = .ok u ∧ (t.render input).result = .ok "" ∧
        (u.render input).result = .error (.missingPartial "@partial-block") := by
  intro input
  have outside : ((Registry.builtin.compile {} unhanded).result.toOption.any fun t =>
      (t.render input).result = .ok "") = true := by
    decide +kernel
  have inside : ((framed.compile {} unhandedInside).result.toOption.any fun u =>
      (u.render input).result = .error (.missingPartial "@partial-block")) = true := by
    decide +kernel
  obtain ⟨t, compiled, nothing⟩ := (Option.any_eq_true _ _).mp outside
  obtain ⟨u, compiled', missed⟩ := (Option.any_eq_true _ _).mp inside
  exact ⟨t, u, eq_ok_of_toOption compiled, eq_ok_of_toOption compiled',
    of_decide_eq_true nothing, of_decide_eq_true missed⟩

end Stencil
