import Stencil.Proofs.Compile.Sources
import Stencil.Proofs.Render.Nesting
import Stencil.Proofs.Render.Operations
import Stencil.Proofs.Value.Equivalence

/-!
Partials that share the context of their call.

A partial that is called with neither a context nor named arguments is given the current context,
and what is given a context equal to the current one is rendered against the current one itself. So
it hangs on a value being equal to itself whether such a partial sees the context of its call, and
leaves its changes there, or is given a copy that has the call's context as its nearest enclosing
one. The second renderer below never asks: it renders these partials against the current context
and opens no scope. Both give one outcome as long as the values that come into a render are
well-formed, because then all values are that it ever comes to know.
-/

namespace Stencil

open Eval

/-! ### Values of a render -/

namespace Value.WellFormedFields

variable {fields other : Fields}

theorem empty : WellFormedFields [] :=
  ⟨.nil, List.forall_mem_nil _⟩

theorem insert (h : WellFormedFields fields) (key : String) {v : Value}
    (hv : v.isWellFormed = true) : WellFormedFields (Table.insert fields key v) :=
  ⟨Table.nodup_keys_insert h.keys key v, h.values.insert key hv⟩

theorem extend (h : WellFormedFields fields)
    (h' : Table.All (fun v => v.isWellFormed = true) other) :
    WellFormedFields (Table.extend fields other) := by
  induction other generalizing fields with
  | nil => exact h
  | cons e other ih =>
      obtain ⟨first, others⟩ := List.forall_mem_cons.mp h'
      exact ih (h.insert e.1 first) others

end Value.WellFormedFields

/-- Well-formed values, and any texts. -/
def Invariant.wellFormed : Invariant where
  value v := v.isWellFormed = true
  text _ := True
  table := Value.WellFormedFields
  null := rfl
  bool _ := rfl
  number _ := rfl
  string _ := rfl
  items _ h := Value.allWellFormed_iff.mp h
  yielded _ _ h := Value.allWellFormed_iff.mp h
  object _ := Value.isWellFormed_object
  values _ h := h.values
  ofEntries _ h := Value.WellFormedFields.empty.extend h
  extend _ _ h h' := h.extend h'.values
  empty := trivial
  append _ _ _ _ := trivial

/-! ### Renderers that include in their own way -/

namespace Scene

section

variable (scene : Scene) (step : Inclusion → Plan → Option Plan → Eval String)

/-- Includes the partial of a name, or the block in its place. -/
def namedBy (call : Inclusion) (name : String) (block : Option Plan) : Eval String := do
  let m ← get
  Eval.addEvent (.dispatching name m.env.depth)
  match scene.findPartial? m.env name, block with
  | some plan, block => step call plan block
  | none, some block => step call block none
  | none, none => throw (.missingPartial name)

/-- Includes the innermost block that was handed to a partial. -/
def partialBlockBy (call : Inclusion) : Eval String := do
  let m ← get
  match m.env.blocks with
  | block :: _ => Eval.within Env.dropBlock (Env.restoreBlock block) (step call block none)
  | [] =>
    if m.env.blockCount = 0 then return ""
    throw (.missingPartial call.name)

/-- The output of an inclusion. -/
def inclusionBy (call : Inclusion) (target : Target) (block : Option Plan) : Eval String := do
  match target with
  | .embedded plan => step call plan block
  | .named name => scene.namedBy step call name block
  | .dynamic e =>
    let name ← scene.eval e
    scene.namedBy step call name.text block
  | .partialBlock => partialBlockBy step call

mutual

/-- The output of a node. -/
def nodeBy : Node → Eval String
  | .literal text => return text
  | .lookup e encoding => return (← scene.lookup e).output encoding
  | .helper call encoding => return (← scene.evalCall none call).output encoding
  | .block kind body inverse params =>
    scene.renderBlock kind params (withInlines body (nodesBy body))
      (match inverse with
        | some inverse => some (withInlines inverse (nodesBy inverse))
        | none => none)
  | .inclusion call target block => scene.inclusionBy step call target block
  | .inlineDef _ _ => return ""

/-- The output of nodes in order. -/
def nodesBy : List Node → Eval String
  | [] => return ""
  | node :: nodes => do
    let text ← nodeBy node
    let rest ← nodesBy nodes
    return text ++ rest

end

end

/-! ### The sharing renderer -/

section

variable (scene : Scene) (enter? : Option (Plan → Eval String))

/-- The call gives neither a context nor named arguments, and the settings do not ask for a context
to be given. -/
def shares (call : Inclusion) : Bool :=
  call.context.isNone && call.hash.isEmpty && !scene.template.settings.explicitPartialContext

/-- Renders a plan as a partial, against the very context of a call that shares it. -/
def sharedPartial (call : Inclusion) (plan : Plan) (block : Option Plan) : Eval String :=
  if scene.shares call then
    match enter? with
    | none => throw (.partialDepth call.name scene.template.settings.maxPartialDepth)
    | some enter => do
      let text ← Eval.within (Env.enter block) (Env.leave block) (enter plan)
      return indentLines call.indent text
  else scene.renderPartial enter? call plan block

end

/-- Renders a plan below which `levels` levels of partials are allowed. -/
def sharedPlan (scene : Scene) : (levels : Nat) → Plan → Eval String
  | 0, plan => withInlines plan (scene.nodesBy (scene.sharedPartial none) plan)
  | levels + 1, plan =>
    withInlines plan (scene.nodesBy (scene.sharedPartial (some (scene.sharedPlan levels))) plan)

end Scene

/-- The outcome of a template by the sharing renderer. -/
def Template.sharedRender (template : Template) (input : Input) : RenderOutcome :=
  let scene : Scene := { template, root := input.data, functions := input.functions }
  let machine : Machine := { env := { frames := [input.seed] }, context := input.data }
  let (result, machine) :=
    (scene.sharedPlan template.settings.maxPartialDepth template.plan).run.run machine
  { result, events := machine.events.reverse }

/-! ### Agreement -/

/-- Nothing is asked of the partials that an environment knows. -/
def Surroundings.Any (_ : Surroundings) : Prop :=
  True

variable {I : Invariant}

/-- A change of the partials that an environment knows keeps the invariant. -/
theorem Env.Upholds.of_values {env env' : Env} (h : env.Upholds I Surroundings.Any)
    (scopes : env'.scopes = env.scopes) (frames : env'.frames = env.frames)
    (bindings : env'.bindings = env.bindings) : env'.Upholds I Surroundings.Any :=
  ⟨scopes ▸ h.scopes, frames ▸ h.frames, bindings ▸ h.bindings, trivial⟩

theorem Env.Upholds.pushInlines_any {env : Env} (h : env.Upholds I Surroundings.Any)
    (layer : Table Plan) : (env.pushInlines layer).Upholds I Surroundings.Any := by
  rw [Env.pushInlines]
  split
  · exact h
  · exact h.of_values rfl rfl rfl

theorem Env.Upholds.enter_any {env : Env} (h : env.Upholds I Surroundings.Any)
    (block : Option Plan) : (env.enter block).Upholds I Surroundings.Any := by
  cases block with
  | none => exact h.of_values rfl rfl rfl
  | some block => exact (h.pushInlines_any (Plan.inlineDefs block)).of_values rfl rfl rfl

theorem withInlines_concur_any {nodes nodes' : Eval String} {P : String → Prop}
    (h : Concur I Surroundings.Any P nodes nodes') (plan : Plan) :
    Concur I Surroundings.Any P (withInlines plan nodes) (withInlines plan nodes') :=
  .within h (fun _ upholds => upholds.pushInlines_any _) (Env.popInlines_pushInlines _)

namespace Scene

variable {scene : Scene} {enter? enter?' : Option (Plan → Eval String)}
  {step : Inclusion → Plan → Option Plan → Eval String}

/-- Steps that agree with the inclusion of every plan make renderers that agree. -/
structure Agrees (I : Invariant) (scene : Scene) (enter? : Option (Plan → Eval String))
    (step : Inclusion → Plan → Option Plan → Eval String) : Prop where
  upholds : scene.Upholds I
  text : ∀ s, I.text s
  inclusion : ∀ call plan block, Concur I Surroundings.Any I.text
    (scene.renderPartial enter? call plan block) (step call plan block)

theorem namedBy_concur (h : Agrees I scene enter? step) (call : Inclusion) (name : String)
    (block : Option Plan) :
    Concur I Surroundings.Any I.text (scene.renderNamed enter? call name block)
      (scene.namedBy step call name block) := by
  refine .get_bind fun m hm => Concur.bind (.addEvent _) (fun _ _ => ?_) m hm
  cases scene.findPartial? m.env name with
  | some plan => exact h.inclusion call plan block
  | none =>
      cases block with
      | some block => exact h.inclusion call block none
      | none => exact .throw _

theorem partialBlockBy_concur (h : Agrees I scene enter? step) (call : Inclusion) :
    Concur I Surroundings.Any I.text (scene.renderPartialBlock enter? call)
      (partialBlockBy step call) := by
  refine .get_bind fun m hm => ?_
  cases blocks : m.env.blocks with
  | nil =>
      simp only
      split
      · exact Concur.pure I.empty m hm
      · exact Concur.throw _ m hm
  | cons block rest =>
      refine .within ?_ (Env.restoreBlock_dropBlock blocks)
      exact h.inclusion call block none _ ⟨hm.env.of_values rfl rfl rfl, hm.context⟩

theorem inclusionBy_concur (h : Agrees I scene enter? step) (call : Inclusion) (target : Target)
    (block : Option Plan) :
    Concur I Surroundings.Any I.text (scene.renderInclusion enter? call target block)
      (scene.inclusionBy step call target block) := by
  cases target with
  | embedded plan => exact h.inclusion call plan block
  | named name => exact namedBy_concur h call name block
  | dynamic e =>
      exact .bind (eval_concur h.upholds e) fun name _ => namedBy_concur h call name.text block
  | partialBlock => exact partialBlockBy_concur h call

mutual

theorem nodeBy_concur (h : Agrees I scene enter? step) :
    (node : Node) → Concur I Surroundings.Any I.text (scene.renderNode enter? node)
      (scene.nodeBy step node)
  | .literal text => by
      simp only [renderNode, nodeBy]
      exact .pure (h.text text)
  | .lookup e encoding => by
      simp only [renderNode, nodeBy]
      exact .bind (lookup_concur h.upholds e) fun value _ => .pure (h.text _)
  | .helper call encoding => by
      simp only [renderNode, nodeBy]
      exact .bind (evalCall_concur h.upholds .none call) fun value _ => .pure (h.text _)
  | .block kind body none params => by
      simp only [renderNode, nodeBy]
      exact renderBlock_concur h.upholds (kind.upholds_of_text h.text)
        (withInlines_concur_any (nodesBy_concur h body) body) .none params
  | .block kind body (some inverse) params => by
      simp only [renderNode, nodeBy]
      exact renderBlock_concur h.upholds (kind.upholds_of_text h.text)
        (withInlines_concur_any (nodesBy_concur h body) body)
        (.some (withInlines_concur_any (nodesBy_concur h inverse) inverse)) params
  | .inclusion call target block => by
      simp only [renderNode, nodeBy]
      exact inclusionBy_concur h call target block
  | .inlineDef name plan => by
      simp only [renderNode, nodeBy]
      exact .pure I.empty

theorem nodesBy_concur (h : Agrees I scene enter? step) :
    (nodes : List Node) → Concur I Surroundings.Any I.text (scene.renderNodes enter? nodes)
      (scene.nodesBy step nodes)
  | [] => by
      simp only [renderNodes, nodesBy]
      exact .pure I.empty
  | node :: nodes => by
      simp only [renderNodes, nodesBy]
      exact .bind (nodeBy_concur h node) fun text _ =>
        .bind (nodesBy_concur h nodes) fun rest _ => .pure (h.text _)

end

/-! ### Sharing -/

/-- A call that shares its context gives the current one. -/
theorem run_inclusionContext_of_shares {call : Inclusion} (shares : scene.shares call = true)
    (m : Machine) : (scene.inclusionContext call).run.run m = (.ok m.context, m) := by
  simp only [Scene.shares, Bool.and_eq_true, Option.isNone_iff_eq_none, Bool.not_eq_true'] at shares
  obtain ⟨⟨context, hash⟩, implicit⟩ := shares
  simp only [inclusionContext, context, hash, implicit]
  rfl

/-- A value equal to the current context stands for it. -/
theorem run_renderIn_of_same {context : Value} {m : Machine} (h : context.same m.context = true)
    (body : Eval String) : (renderIn (some context) body).run.run m = body.run.run m := by
  change (if context.same m.context = true then body else _).run.run m = body.run.run m
  rw [if_pos h]

/-- Where the current context equals itself, a call that shares it renders the partial there, as
the sharing renderer does. -/
theorem run_renderPartial_of_shares {call : Inclusion} (shares : scene.shares call = true)
    {m : Machine} (itself : m.context.same m.context = true) (enter : Plan → Eval String)
    (plan : Plan) (block : Option Plan) :
    (scene.renderPartial (some enter) call plan block).run.run m =
      (scene.sharedPartial (some enter) call plan block).run.run m := by
  -- What is compared is the context that the inclusion finds; entering a partial leaves it alone.
  have there (m' : Machine) (same : m'.context = m.context) :
      (renderIn (some m.context) (enter plan)).run.run m' = (enter plan).run.run m' :=
    run_renderIn_of_same (same ▸ itself) (enter plan)
  rw [renderPartial, run_bind, run_inclusionContext_of_shares shares]
  simp only [sharedPartial, shares, if_true]
  rw [run_bind, run_bind, run_within, run_within, there { m with env := m.env.enter block } rfl]

theorem sharedPartial_concur (h : scene.Upholds .wellFormed)
    (deeper : Option.Rel (fun enter enter' => ∀ plan,
      Concur .wellFormed Surroundings.Any Invariant.wellFormed.text (enter plan) (enter' plan))
      enter? enter?') (call : Inclusion) (plan : Plan) (block : Option Plan) :
    Concur .wellFormed Surroundings.Any Invariant.wellFormed.text
      (scene.renderPartial enter? call plan block)
      (scene.sharedPartial enter?' call plan block) := by
  have enters (env : Env) (henv : env.Upholds .wellFormed Surroundings.Any) := henv.enter_any block
  cases deeper with
  | none =>
      unfold sharedPartial
      split <;> exact .throw _
  | @some enter enter' inner =>
      have alike : Concur .wellFormed Surroundings.Any Invariant.wellFormed.text
          (scene.renderPartial (some enter) call plan block)
          (scene.renderPartial (some enter') call plan block) :=
        renderPartial_concur h (fun _ _ => trivial) enters (inner plan)
      intro m hm
      cases shares : scene.shares call with
      | false =>
          simp only [sharedPartial, shares, Bool.false_eq_true, if_false]
          exact alike m hm
      | true =>
          have itself := Value.same_refl m.context hm.context
          rw [ConcurAt, ← run_renderPartial_of_shares shares itself]
          exact alike m hm

/-- With as many levels left both renderers agree on every plan. By induction on the levels. -/
theorem sharedPlan_concur (h : scene.Upholds .wellFormed) (levels : Nat) (plan : Plan) :
    Concur .wellFormed Surroundings.Any Invariant.wellFormed.text (scene.renderPlan levels plan)
      (scene.sharedPlan levels plan) := by
  have any (s : String) : Invariant.wellFormed.text s := trivial
  induction levels generalizing plan with
  | zero =>
      have agrees : Agrees .wellFormed scene none (scene.sharedPartial none) :=
        ⟨h, any, sharedPartial_concur h .none⟩
      exact withInlines_concur_any (nodesBy_concur agrees plan) plan
  | succ levels ih =>
      have agrees : Agrees .wellFormed scene (some (scene.renderPlan levels))
          (scene.sharedPartial (some (scene.sharedPlan levels))) :=
        ⟨h, any, sharedPartial_concur h (.some ih)⟩
      exact withInlines_concur_any (nodesBy_concur agrees plan) plan

end Scene

/-- Equality of well-formed values is an equivalence, and so, as long as only such values come into
a render, every template has the outcome, journal included, of the renderer that never gives a
context to a partial whose call shares its own. -/
theorem Template.render_eq_sharedRender (template : Template) (input : Input)
    (upholds : Scene.Upholds .wellFormed
      { template, root := input.data, functions := input.functions })
    (seed : Value.WellFormedFields input.seed) :
    (Equivalence fun v w : { v : Value // v.isWellFormed = true } => v.1.same w.1 = true) ∧
      template.render input = template.sharedRender input := by
  let machine : Machine := { env := { frames := [input.seed] }, context := input.data }
  have start : machine.Upholds .wellFormed Surroundings.Any :=
    ⟨⟨nofun, List.forall_mem_singleton.mpr seed, nofun, trivial⟩, upholds.root⟩
  have concur := Scene.sharedPlan_concur upholds template.settings.maxPartialDepth template.plan
    machine start
  refine ⟨Value.same_equivalence, ?_⟩
  exact congrArg (fun r => ({ result := r.1, events := r.2.events.reverse } : RenderOutcome))
    concur.same

/-- Notes in an object that it was seen. -/
def stamp : Helper := fun _ => .getContext fun context =>
  match context with
  | .object fields => .setContext (.object (Table.insert fields "seen" (.bool true))) (.done .null)
  | _ => .done .null

/-- A partial that changes the context of its call and looks at the one around it. -/
def stampPartials : Registry :=
  (Registry.empty.registerHelper "stamp" stamp).registerPartial "mark"
    "\x7b\x7bstamp\x7d\x7d\x7b\x7b../title\x7d\x7d\x7b\x7bname\x7d\x7d"

/-- Marks rows and shows what is left of it. -/
def stampedRows : String :=
  "\x7b\x7b#each rows\x7d\x7d\x7b\x7b> mark\x7d\x7d:\x7b\x7bseen\x7d\x7d;\x7b\x7b/each\x7d\x7d"

/-- The partial sees the title around the row that it is called in, and the row keeps the mark, for
rows of different kinds. -/
theorem stampedRows_shared :
    let big : Value := .number (.integer 9007199254740993)
    let data : Value := .object [("title", .string "T"), ("rows", .array
      [.object [("name", .string "a"), ("parts", .array [big, .object [("of", .safe "b")], .null])],
        .array [.string "c"], .object [("parts", .iterable 0 [.callable 1]), ("name", big)]])]
    let input : Input := { data, functions := fun _ _ => .done .null }
    ∃ template, (stampPartials.compile {} stampedRows).result = .ok template ∧
      Scene.Upholds .wellFormed { template, root := data, functions := input.functions } ∧
        (template.render input).result = .ok "Ta:true;T:;T9007199254740993:true;" ∧
          (Equivalence fun v w : { v : Value // v.isWellFormed = true } => v.1.same w.1 = true) ∧
            template.render input = template.sharedRender input := by
  intro big data input
  have run : ((stampPartials.compile {} stampedRows).result.toOption.any fun t =>
      (t.render input).result.toOption == some "Ta:true;T:;T9007199254740993:true;") = true := by
    decide +kernel
  obtain ⟨template, compiled, rendered⟩ := (Option.any_eq_true _ _).mp run
  have compiled := eq_ok_of_toOption compiled
  obtain ⟨-, -, -, helpers, blockHelpers, -⟩ := Registry.of_compile compiled
  have wellFormed : data.isWellFormed = true := by decide
  have upholds : Scene.Upholds .wellFormed
      { template, root := data, functions := input.functions } := by
    refine ⟨wellFormed, fun name helper found call _ _ => ?_, fun _ _ _ _ _ => rfl,
      fun name helper found => ?_⟩
    · rw [helpers] at found
      cases List.mem_singleton.mp (Table.mem_of_get? found)
      intro context known
      cases context with
      | object fields =>
          have fields := Value.isWellFormed_object.mp known
          exact ⟨Value.isWellFormed_object.mpr (fields.insert "seen" rfl), rfl⟩
      | _ => exact rfl
    · rw [blockHelpers] at found
      cases found
  exact ⟨template, compiled, upholds, eq_ok_of_toOption (beq_iff_eq.mp rendered),
    template.render_eq_sharedRender input upholds Value.WellFormedFields.empty⟩

end Stencil
