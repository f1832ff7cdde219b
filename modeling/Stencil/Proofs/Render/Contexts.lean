import Stencil.Proofs.Render.Congruence
import Stencil.Proofs.Compile.Sources

/-!
The context that a body is given.

A body that is given a context is to be rendered against that value, with the current context as
the nearest enclosing one unless the two are equal. The renderer goes on with the current context
in place of an equal one. So the body shows what it shows against the given value whenever equal
means alike there, for every plan; where numbers are equal only by their nearest double, or objects
only up to the order of their keys, it shows the current context instead.
-/

namespace Stencil

open Eval

/-! ### Outcomes -/

/-- The outcome of a computation, and what it reports. -/
def Eval.shown {α : Type} (a : Eval α) (m : Machine) : Except RenderError α × List Event :=
  ((a.run.run m).1, (a.run.run m).2.events)

section

variable {α β : Type} {a b : Eval α} {m m' : Machine}

theorem EndsResembling.shown_eq (h : EndsResembling Eq (a.run.run m) (b.run.run m')) :
    a.shown m = b.shown m' :=
  Prod.ext h.result.eq h.machine.events

theorem shown_within (enter leave : Env → Env) (a : Eval α) (m : Machine) :
    (within enter leave a).shown m = a.shown { m with env := enter m.env } :=
  rfl

/-- What a computation shows behind another one that ended well. -/
theorem shown_bind {x : α} (h : a.run.run m = (.ok x, m')) (f : α → Eval β) :
    (a >>= f).shown m = (f x).shown m' := by
  rw [shown, shown, run_bind, h]

theorem shown_bind_pure (h : a.shown m = b.shown m') (f : α → β) :
    (a >>= fun x => pure (f x)).shown m = (b >>= fun x => pure (f x)).shown m' := by
  obtain ⟨result, events⟩ := Prod.mk.inj h
  rw [shown, shown, run_bind, run_bind]
  revert result events
  generalize a.run.run m = r, b.run.run m' = r'
  obtain ⟨result, after⟩ := r
  obtain ⟨result', after'⟩ := r'
  rintro (rfl : result = result') (events : after.events = after'.events)
  cases result with
  | error e => exact Prod.ext rfl events
  | ok x => exact Prod.ext rfl events

end

/-! ### Rendering against a given context -/

/-- Renders against this very value. The current context becomes the nearest enclosing one, unless
the value is equal to it. -/
def renderAgainst (context : Value) (body : Eval String) : Eval String := do
  let current := (← get).context
  let inside := Eval.withContext context body
  if context.same current then inside
  else Eval.within (Env.pushScope current) Env.popScope inside

/-- Renders against this very value, which the first block parameter names too. -/
def boundAgainst (names : List String) (context : Value) (body : Eval String) : Eval String :=
  Eval.within (Env.bind names [context]) (Env.unbind names) (renderAgainst context body)

/-- Renders a plan as a partial against this very value. -/
def includedAgainst (call : Inclusion) (block : Option Plan) (context : Value)
    (body : Eval String) : Eval String := do
  let text ← Eval.within (Env.enter block) (Env.leave block) (renderAgainst context body)
  return indentLines call.indent text

/-- Answers the request to render a branch against this very value. -/
def branchAgainst (names : List String) (call : BranchCall) (context : Value)
    (body : Eval String) : Eval String := do
  let frames := (← get).env.frames
  Eval.within (call.enter names) (call.leave names frames) (renderAgainst context body)

/-- If the value equals the current context, then the two are alike. -/
def Machine.Recognizes (m : Machine) (context : Value) : Prop :=
  context.same m.context = true → context.Alike m.context

section

variable {body : Eval String} {m : Machine} {context : Value}

/-- In place of an equal context the current one shows the same, if the two are alike. -/
theorem renderIn_shown (h : Resembles Eq body body) (known : m.Recognizes context) :
    (renderIn (some context) body).shown m = (renderAgainst context body).shown m := by
  change (if context.same m.context then body
      else within (Env.pushScope m.context) Env.popScope (withContext context body)).shown m =
    (if context.same m.context then withContext context body
      else within (Env.pushScope m.context) Env.popScope (withContext context body)).shown m
  split
  · next same =>
    -- The two runs of the body start in machines that differ in the context only.
    have alike : Machine.Alike { m with context } m := ⟨.refl m.env, known same, rfl⟩
    exact (h _ _ alike).shown_eq.symm
  · rfl

theorem renderBound_shown (h : Resembles Eq body body) (known : m.Recognizes context)
    (names : List String) :
    (renderBound names context body).shown m = (boundAgainst names context body).shown m := by
  rw [renderBound, boundAgainst, shown_within, shown_within]
  exact renderIn_shown h known

theorem Branches.render_shown (h : Resembles Eq body body) (known : m.Recognizes context)
    {b : Branches} {call : BranchCall} (given : call.context = some context)
    (chosen : b.branch? call.branch = some body) :
    (b.render call).shown m = (branchAgainst b.params call context body).shown m := by
  rw [Branches.render, chosen, given]
  change (renderIn (some context) body).shown { m with env := call.enter b.params m.env } =
    (renderAgainst context body).shown { m with env := call.enter b.params m.env }
  exact renderIn_shown h known

end

/-! ### The ways to give a context -/

theorem Scene.renderNode_block (scene : Scene) (levels : Nat) (kind : BlockKind) (body : Plan)
    (inverse : Option Plan) (params : List String) :
    scene.renderNode (scene.deeper? levels) (.block kind body inverse params) =
      scene.renderBlock kind params (scene.renderPlan levels body)
        (inverse.map (scene.renderPlan levels)) := by
  cases inverse <;> simp only [renderNode, ← renderPlan_eq, Option.map]

/-- With `levels` levels of partials below it, a body that is given a context shows what it shows
against that very value, and against values that are alike every plan shows the same. -/
structure Scene.ObeysContexts (scene : Scene) (levels : Nat) : Prop where
  /-- A `with` about a value that it does not count as absent. -/
  withBlock : ∀ (subject : Expr) (params : List String) (body : Plan) (inverse : Option Plan)
    (before m : Machine) (context : Value),
    (scene.eval subject).run.run before = (.ok context, m) → context.isAbsent = false →
      m.Recognizes context →
        (scene.renderNode (scene.deeper? levels)
            (.block (.context subject) body inverse params)).shown before =
          (boundAgainst params context (scene.renderPlan levels body)).shown m
  /-- A plain section about an object with some member. -/
  plainSection : ∀ (subject : Expr) (params : List String) (body : Plan) (inverse : Option Plan)
    (before m : Machine) (fields : Fields),
    (scene.eval subject).run.run before = (.ok (.object fields), m) → fields ≠ [] →
      m.Recognizes (.object fields) →
        (scene.renderNode (scene.deeper? levels)
            (.block (.value subject false) body inverse params)).shown before =
          (boundAgainst params (.object fields) (scene.renderPlan levels body)).shown m
  /-- A partial, found in whatever way, and the block that is handed over with it. -/
  inclusion : ∀ (call : Inclusion) (plan : Plan) (block : Option Plan) (before m : Machine)
    (context : Value),
    (scene.inclusionContext call).run.run before = (.ok context, m) → m.Recognizes context →
      (scene.renderPartial (scene.deeper? (levels + 1)) call plan block).shown before =
        (includedAgainst call block context (scene.renderPlan levels plan)).shown m
  /-- A branch that a helper wants rendered with a context. -/
  helperBranch : ∀ (b : Branches) (call : BranchCall) (plan : Plan) (m : Machine)
    (context : Value), call.context = some context →
      b.branch? call.branch = some (scene.renderPlan levels plan) → m.Recognizes context →
        (b.render call).shown m =
          (branchAgainst b.params call context (scene.renderPlan levels plan)).shown m
  /-- Scopes, variables and the root may be exchanged for values that are alike, too. -/
  alike : ∀ (scene' : Scene) (plan : Plan) (m m' : Machine), scene.Alike scene' → m.Alike m' →
    (scene.renderPlan levels plan).shown m = (scene'.renderPlan levels plan).shown m'

/-- As long as no helper tells values apart that are alike, every plan shows the same against
values that are alike, and so a body that is given a context by `with`, by a section about an
object, by an inclusion or by a helper shows what it shows against the given value itself, unless
that one equals the current context without being alike. -/
theorem Scene.contexts_obeyed (scene : Scene)
    (respects : scene.template.RespectsLikeness scene.functions) (levels : Nat) :
    scene.ObeysContexts levels := by
  have itself : scene.Alike scene := ⟨rfl, rfl, .refl _, respects⟩
  have plans (plan : Plan) := itself.renderPlan_resembles levels plan
  constructor
  case withBlock =>
    intro subject params body inverse before m context evaluated present known
    have bound := renderBound_shown (plans body) known params
    rw [renderNode_block, renderBlock, shown_bind evaluated]
    simpa only [present, Bool.false_eq_true, if_false] using bound
  case plainSection =>
    intro subject params body inverse before m fields evaluated filled known
    have bound := renderBound_shown (plans body) known params
    have empty : (Value.object fields).isEmptyCollection = false := by
      simpa [Value.isEmptyCollection] using filled
    rw [renderNode_block, renderBlock, shown_bind evaluated]
    simpa [renderValue, renderSection, empty] using bound
  case inclusion =>
    intro call plan block before m context evaluated known
    simp only [deeper?, renderPartial, includedAgainst]
    rw [shown_bind evaluated]
    refine shown_bind_pure ?_ _
    rw [shown_within, shown_within]
    exact renderIn_shown (plans plan) known
  case helperBranch =>
    intro b call plan m context given chosen known
    exact Branches.render_shown (plans plan) known given chosen
  case alike =>
    intro scene' plan m m' scenes machines
    exact (scenes.renderPlan_resembles levels plan m m' machines).shown_eq

/-- A number inside `with` another one, which compares equal to it. -/
def twins : String :=
  "\x7b\x7b#with a\x7d\x7d\x7b\x7b#with ../b\x7d\x7d\x7b\x7bthis\x7d\x7d" ++
    "\x7b\x7b/with\x7d\x7d\x7b\x7b/with\x7d\x7d"

/-- For `5` and `5.0` there is no difference: they show the same. -/
theorem twins_obeyed :
    let a : Value := .number (.integer 5)
    let b : Value := .number (.double { negative := false, place := 0x4014000000000000 })
    let data : Value := .object [("a", a), ("b", b)]
    let functions : Nat → Helper := fun _ _ => .done .null
    let subject : Expr := .path { levels := 1, segments := ["b"], source := "../b" }
    let body : Plan := [.lookup (.path .this) .html]
    let inside : Machine := { env := { scopes := [data], frames := [[]] }, context := a }
    b.same a = true ∧ inside.Recognizes b ∧
      ∃ t, (Registry.builtin.compile {} twins).result = .ok t ∧ t.RespectsLikeness functions ∧
        (t.render { data, functions }).result = .ok "5" ∧
          ∃ scene : Scene, scene.template = t ∧
            (scene.renderNode (scene.deeper? 0)
                (.block (.context subject) body none [])).shown inside =
              (boundAgainst [] b (scene.renderPlan 0 body)).shown inside := by
  intro a b data functions subject body inside
  have known : inside.Recognizes b := fun _ => .number (by decide +kernel) (by decide +kernel)
  have run : ((Registry.builtin.compile {} twins).result.toOption.any fun t =>
      (t.render { data, functions }).result.toOption == some "5") = true := by
    decide +kernel
  obtain ⟨t, compiled, output⟩ := (Option.any_eq_true _ _).mp run
  have compiled := eq_ok_of_toOption compiled
  obtain ⟨-, -, -, helpers, blockHelpers, -⟩ := Registry.of_compile compiled
  have respects : t.RespectsLikeness functions := by
    constructor
    case helpers =>
      intro name helper found
      rw [helpers] at found
      exact Registry.builtin_respectsLikeness found
    case functions => exact fun _ _ _ _ => .done .null
    case blockHelpers =>
      intro name helper found
      rw [blockHelpers] at found
      cases found
  let scene : Scene := { template := t, root := data, functions }
  have obeyed := scene.contexts_obeyed respects 0
  have evaluated : (scene.eval subject).run.run inside = (.ok b, inside) := rfl
  exact ⟨by decide +kernel, known, t, compiled, respects,
    eq_ok_of_toOption (beq_iff_eq.mp output), scene, rfl,
    obeyed.withBlock subject [] body none inside inside b evaluated rfl known⟩

/-- The inner block shows the outer number, because both have the same nearest double. Against the
inner number itself its body shows the inner one. -/
theorem twins_misses :
    let a : Value := .number (.integer 9007199254740993)
    let b : Value := .number (.integer 9007199254740992)
    let data : Value := .object [("a", a), ("b", b)]
    let body : Plan := [.lookup (.path .this) .html]
    b.same a = true ∧
      ∃ t, (Registry.builtin.compile {} twins).result = .ok t ∧ t.warnings = [] ∧
        (t.render { data, functions := fun _ _ => .done .null }).result = .ok "9007199254740993" ∧
          ∃ scene : Scene, scene.template = t ∧
            let inside : Machine := { env := { scopes := [data], frames := [[]] }, context := a }
            ((renderBound [] b (scene.renderPlan 0 body)).run.run inside).1 =
                .ok "9007199254740993" ∧
              ((renderAgainst b (scene.renderPlan 0 body)).run.run inside).1 =
                .ok "9007199254740992" := by
  intro a b data body
  let scene (t : Template) : Scene :=
    { template := t, root := data, functions := fun _ _ => .done .null }
  let inside : Machine := { env := { scopes := [data], frames := [[]] }, context := a }
  let byRenderer (t : Template) := (renderBound [] b ((scene t).renderPlan 0 body)).run.run inside
  let against (t : Template) := (renderAgainst b ((scene t).renderPlan 0 body)).run.run inside
  have run : ((Registry.builtin.compile {} twins).result.toOption.any fun t =>
      t.warnings.isEmpty &&
        (t.render { data, functions := fun _ _ => .done .null }).result.toOption ==
            some "9007199254740993" &&
          (byRenderer t).1.toOption == some "9007199254740993" &&
            (against t).1.toOption == some "9007199254740992") = true := by
    decide +kernel
  obtain ⟨t, compiled, run⟩ := (Option.any_eq_true _ _).mp run
  simp only [Bool.and_eq_true, beq_iff_eq] at run
  obtain ⟨⟨⟨silent, output⟩, rendered⟩, direct⟩ := run
  exact ⟨by decide +kernel, t, eq_ok_of_toOption compiled, List.isEmpty_iff.mp silent,
    eq_ok_of_toOption output, scene t, rfl, eq_ok_of_toOption rendered, eq_ok_of_toOption direct⟩

end Stencil
