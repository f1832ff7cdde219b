import Stencil.Proofs.Render.Escaping

/-!
What strict mode changes.

In strict mode it is an error to interpolate a path that names nothing. Whether rendering is strict
is asked nowhere else: not for subjects, arguments or contexts. So as long as no helper sees a
failure, two renders that differ in strictness go the same way until the strict one fails for want
of a variable. The builtin helpers render nothing, and data without functions brings no others in.

The path that fails is one that the template or one of its partials interpolates, because every
plan that an environment knows is a part of these.
-/

namespace Stencil

open Eval

/-! ### Data without functions -/

mutual

/-- No part of the value is a function. -/
def Value.isPassive : Value → Bool
  | .callable _ => false
  | .array items => Value.allPassive items
  | .iterable _ items => Value.allPassive items
  | .object fields => Value.fieldsPassive fields
  | _ => true

def Value.allPassive : List Value → Bool
  | [] => true
  | v :: vs => Value.isPassive v && Value.allPassive vs

def Value.fieldsPassive : List (String × Value) → Bool
  | [] => true
  | (_, v) :: fields => Value.isPassive v && Value.fieldsPassive fields

end

namespace Value

theorem allPassive_iff {items : List Value} :
    allPassive items = true ↔ ∀ v ∈ items, v.isPassive = true := by
  induction items with
  | nil => simp [allPassive]
  | cons v items ih => rw [allPassive, Bool.and_eq_true, ih, List.forall_mem_cons]

theorem fieldsPassive_iff {fields : Fields} :
    fieldsPassive fields = true ↔ Table.All (fun v => v.isPassive = true) fields := by
  induction fields with
  | nil => simp [fieldsPassive, Table.All]
  | cons e fields ih =>
      rw [fieldsPassive, Bool.and_eq_true, ih, Table.All, Table.All, List.forall_mem_cons]

end Value

/-- Values without functions, and any texts. -/
def Invariant.passive : Invariant where
  value v := v.isPassive = true
  text _ := True
  null := rfl
  bool _ := rfl
  number _ := rfl
  string _ := rfl
  items _ h := Value.allPassive_iff.mp h
  yielded _ _ h := Value.allPassive_iff.mp h
  object _ := Value.fieldsPassive_iff
  empty := trivial
  append _ _ _ _ := trivial

theorem Invariant.not_passive_callable (id : Nat) : ¬ passive.value (.callable id) :=
  Bool.false_ne_true

/-! ### Helpers that render nothing -/

/-- The action does not ask for a branch to be rendered. -/
def Action.Quiet {α : Type} : Action α → Prop
  | done _ => True
  | fail _ => True
  | render _ _ => False
  | getContext next => ∀ v, (next v).Quiet
  | setContext _ next => next.Quiet
  | getContexts next => ∀ vs, (next vs).Quiet
  | getData _ next => ∀ found, (next found).Quiet
  | log _ _ next => next.Quiet

/-- All that an action sees of a scene is its root, and of the branches what it has rendered of
them. -/
theorem Action.run_eq {α : Type} {s s' : Scene} (root : s.root = s'.root) {b b' : Branches}
    {action : Action α} (same : action.Quiet ∨ b = b') : action.run s b = action.run s' b' := by
  induction action with
  | done => rfl
  | fail => rfl
  | render call next ih =>
      obtain never | rfl := same
      · exact never.elim
      · simp only [Action.run]
        exact congrArg (_ >>= ·) (funext fun answer => ih answer (.inr rfl))
  | getContext next ih =>
      simp only [Action.run]
      exact congrArg (get >>= ·) (funext fun m => ih _ (same.imp (· _) id))
  | setContext v next ih =>
      simp only [Action.run]
      rw [ih same]
  | getContexts next ih =>
      simp only [Action.run]
      exact congrArg (get >>= ·) (funext fun m => ih _ (same.imp (· _) id))
  | getData name next ih =>
      simp only [Action.run, Scene.data?, root]
      exact congrArg (get >>= ·) (funext fun m => ih _ (same.imp (· _) id))
  | log level message next ih =>
      simp only [Action.run]
      rw [ih same]

theorem Helper.lookup_quiet (call : Invocation) : (Helper.lookup call).Quiet := by
  rw [Helper.lookup]
  split <;> trivial

theorem Helper.log_quiet (call : Invocation) : (Helper.log call).Quiet := by
  unfold Helper.log
  split
  · trivial
  · split <;> trivial

/-- Nothing that is called in a scene renders a branch: its helpers do not, and there are no
functions. -/
structure Scene.Tame (scene : Scene) : Prop where
  upholds : scene.Upholds .passive
  quiet : ∀ name helper, Table.get? scene.template.helpers name = some helper →
    ∀ call, (helper call).Quiet

/-! ### Scenes that differ in strictness -/

/-- The same template with another strictness. -/
def Template.withStrict (strict : Bool) (t : Template) : Template :=
  { t with settings := { t.settings with strict } }

namespace Scene

def withStrict (strict : Bool) (s : Scene) : Scene :=
  { s with template := s.template.withStrict strict }

variable (s : Scene) (strict : Bool)

theorem members?_withStrict : (s.withStrict strict).members? = s.members? := by
  funext v names
  induction names generalizing v with
  | nil => rfl
  | cons name names ih =>
      rw [members?, members?]
      exact congrArg (Option.bind _) (funext ih)

theorem resolve?_withStrict : (s.withStrict strict).resolve? = s.resolve? := by
  funext m p
  rw [resolve?, resolve?, members?_withStrict]
  rfl

theorem invoke_withStrict : (s.withStrict strict).invoke = s.invoke := by
  funext name helper args hash b
  have run (call : Invocation) :
      (helper call).run (s.withStrict strict) (b.getD {}) = (helper call).run s (b.getD {}) := by
    refine Action.run_eq ?_ (.inr ?_) <;> rfl
  simp only [invoke, run]

theorem applyCallee_withStrict : (s.withStrict strict).applyCallee = s.applyCallee := by
  funext callee args hash b
  cases callee <;> simp only [applyCallee, invoke_withStrict, resolve?_withStrict] <;> rfl

mutual

theorem eval_withStrict : (e : Expr) → (s.withStrict strict).eval e = s.eval e
  | .path p => by simp only [eval, resolve?_withStrict]
  | .literal value _ => by simp only [eval]
  | .call c => by simp only [eval, evalCall_withStrict none c]

theorem evalCall_withStrict (b : Option Branches) :
    (c : Call) → (s.withStrict strict).evalCall b c = s.evalCall b c
  | ⟨callee, args, hash⟩ => by
      simp only [evalCall, evalArgs_withStrict args, evalHash_withStrict hash,
        applyCallee_withStrict]

theorem evalArgs_withStrict : (es : List Expr) → (s.withStrict strict).evalArgs es = s.evalArgs es
  | [] => rfl
  | e :: es => by simp only [evalArgs, eval_withStrict e, evalArgs_withStrict es]

theorem evalHash_withStrict :
    (hash : List (String × Expr)) → (s.withStrict strict).evalHash hash = s.evalHash hash
  | [] => rfl
  | (name, e) :: hash => by simp only [evalHash, eval_withStrict e, evalHash_withStrict hash]

end

theorem holds_withStrict (subject : Expr) (includeZero : Option Expr) :
    (s.withStrict strict).holds subject includeZero = s.holds subject includeZero := by
  simp only [holds, eval_withStrict]

theorem inclusionContext_withStrict (call : Inclusion) :
    (s.withStrict strict).inclusionContext call = s.inclusionContext call := by
  simp only [inclusionContext, eval_withStrict, evalHash_withStrict]
  rfl

end Scene

/-! ### Interpolated paths -/

/-- The path that is interpolated with an expression. -/
def Expr.interpolated : Expr → List Path
  | .path p => [p]
  | .literal _ _ | .call _ => []

mutual

/-- The paths that a node interpolates, at any depth. -/
def Node.interpolated : Node → List Path
  | .literal _ => []
  | .lookup e _ => e.interpolated
  | .helper _ _ => []
  | .block _ body none _ => Plan.interpolated body
  | .block _ body (some inverse) _ => Plan.interpolated body ++ Plan.interpolated inverse
  | .inclusion _ target none => Target.interpolated target
  | .inclusion _ target (some block) => Target.interpolated target ++ Plan.interpolated block
  | .inlineDef _ plan => Plan.interpolated plan

def Target.interpolated : Target → List Path
  | .embedded plan => Plan.interpolated plan
  | .named _ | .dynamic _ | .partialBlock => []

def Plan.interpolated : List Node → List Path
  | [] => []
  | node :: nodes => Node.interpolated node ++ Plan.interpolated nodes

end

theorem Plan.mem_interpolated {p : Path} {plan : Plan} :
    p ∈ Plan.interpolated plan ↔ ∃ node ∈ plan, p ∈ node.interpolated := by
  induction plan with
  | nil => simp [Plan.interpolated]
  | cons node nodes ih => simp [Plan.interpolated, ih]

/-- The paths that a template interpolates, also in the partials that it finds by name. -/
def Template.interpolated (t : Template) : List Path :=
  Plan.interpolated t.plan ++ t.partials.flatMap fun e => Plan.interpolated e.2

/-- Each of the paths may be missing. -/
abbrev Admits (ok : RenderError → Prop) (paths : List Path) : Prop :=
  ∀ p ∈ paths, ok (.missingVariable p.source)

theorem Admits.append {ok : RenderError → Prop} {paths paths' : List Path} :
    Admits ok (paths ++ paths') ↔ Admits ok paths ∧ Admits ok paths' :=
  List.forall_mem_append

/-- All that the plan interpolates may be missing. -/
abbrev Plan.Admits (ok : RenderError → Prop) (plan : Plan) : Prop :=
  Stencil.Admits ok (Plan.interpolated plan)

/-- The environment knows only plans of which all that they interpolate may be missing. -/
structure Surroundings.Admits (ok : RenderError → Prop) (σ : Surroundings) : Prop where
  inlines : ∀ layer ∈ σ.inlines, Table.All (Plan.Admits ok) layer
  blocks : ∀ block ∈ σ.blocks, Plan.Admits ok block

variable {ok : RenderError → Prop}

theorem Plan.Admits.inlineDefs {plan : Plan} (h : Plan.Admits ok plan) :
    Table.All (Plan.Admits ok) (Plan.inlineDefs plan) := by
  refine .ofEntries fun e member p inside => h p (Plan.mem_interpolated.mpr ?_)
  obtain ⟨node, here, given⟩ := List.mem_filterMap.mp member
  cases node with
  | inlineDef name body =>
      cases given
      refine ⟨_, here, ?_⟩
      rw [Node.interpolated]
      exact inside
  | _ => cases given

namespace Env.Upholds

variable {I : Invariant} {env : Env} {plan : Plan}

theorem pushAdmitted (h : env.Upholds I (Surroundings.Admits ok)) (hp : Plan.Admits ok plan) :
    (env.pushInlines (Plan.inlineDefs plan)).Upholds I (Surroundings.Admits ok) := by
  rw [Env.pushInlines]
  split
  · exact h
  · refine ⟨h.scopes, h.frames, h.bindings, ?_, h.surroundings.blocks⟩
    exact List.forall_mem_cons.mpr ⟨hp.inlineDefs, h.surroundings.inlines⟩

theorem enterAdmitted (h : env.Upholds I (Surroundings.Admits ok)) {block : Option Plan}
    (hb : ∀ plan ∈ block, Plan.Admits ok plan) :
    (env.enter block).Upholds I (Surroundings.Admits ok) := by
  cases block with
  | none => exact ⟨h.scopes, h.frames, h.bindings, h.surroundings.inlines, h.surroundings.blocks⟩
  | some block =>
      have inner := h.pushAdmitted (hb block rfl)
      refine ⟨inner.scopes, inner.frames, inner.bindings, inner.surroundings.inlines, ?_⟩
      exact List.forall_mem_cons.mpr ⟨hb block rfl, inner.surroundings.blocks⟩

theorem dropAdmitted (h : env.Upholds I (Surroundings.Admits ok)) :
    env.dropBlock.Upholds I (Surroundings.Admits ok) :=
  ⟨h.scopes, h.frames, h.bindings, h.surroundings.inlines,
    fun block member => h.surroundings.blocks block (List.mem_of_mem_tail member)⟩

end Env.Upholds

/-! ### Operations -/

namespace Scene

/-- The strict computation fails for want of a variable, or the two end in the same way. -/
abbrev Splits (ok : RenderError → Prop) {α : Type} (P : α → Prop) (a b : Eval α) : Prop :=
  Stricter .passive (Surroundings.Admits ok) ok P a b

variable {s : Scene}

section

variable (tame : s.Tame)

include tame

/-- Only here rendering asks whether it is strict. -/
theorem lookup_splits {e : Expr} (admits : Admits ok e.interpolated) :
    Splits ok Invariant.passive.value ((s.withStrict true).lookup e)
      ((s.withStrict false).lookup e) := by
  cases e with
  | literal value source =>
      simp only [lookup, eval_withStrict]
      exact (eval_concur tame.upholds _).stricter
  | call c =>
      simp only [lookup, eval_withStrict]
      exact (eval_concur tame.upholds _).stricter
  | path p =>
      simp only [lookup, resolve?_withStrict]
      refine .get_bind fun m hm => ?_
      have known := fun v => resolve?_upholds tame.upholds hm (p := p) (v := v)
      cases found : s.resolve? m p with
      | none => exact .inl ⟨_, rfl, admits p (List.mem_singleton_self p)⟩
      | some value =>
          have passive := known value found
          cases value with
          | callable id => exact absurd passive (Invariant.not_passive_callable id)
          | _ => exact .inr (Concur.pure passive m hm)

/-- A path is called as if there were no branches, since it names no function. -/
theorem applyPath_run {m : Machine} {S : Surroundings → Prop} (hm : m.Upholds .passive S) (p : Path)
    (args : List Value) (hash : Fields) (b : Option Branches) :
    (s.applyCallee (.path p) args hash b).run.run m =
      (s.applyCallee (.path p) args hash none).run.run m := by
  have known := fun v => resolve?_upholds tame.upholds hm (p := p) (v := v)
  rw [applyCallee, applyCallee, run_get_bind, run_get_bind]
  cases found : s.resolve? m p with
  | none => rfl
  | some value =>
      cases value with
      | callable id => exact absurd (known _ found) (Invariant.not_passive_callable id)
      | _ => rfl

/-- A helper renders nothing, and knows only whether there is a body and the parameters. -/
theorem applyHelper_eq {b b' : Branches} (bodies : b.body.isSome = b'.body.isSome)
    (params : b.params = b'.params) (name : String) (args : List Value) (hash : Fields) :
    s.applyCallee (.helper name) args hash (some b) =
      s.applyCallee (.helper name) args hash (some b') := by
  rw [applyCallee, applyCallee]
  cases found : Table.get? s.template.helpers name with
  | none => rfl
  | some helper =>
      have run (call : Invocation) : (helper call).run s b = (helper call).run s b' :=
        Action.run_eq rfl (.inl (tame.quiet name helper found call))
      simp only [invoke, Option.getD_some, Option.isSome_some, bodies, params, run]

/-- What a block calls renders none of its branches. -/
theorem applyCallee_branches {S : Surroundings → Prop} {b b' : Branches}
    (bodies : b.body.isSome = b'.body.isSome) (params : b.params = b'.params) (callee : Callee)
    {args : List Value} {hash : Fields} (hargs : ∀ v ∈ args, Invariant.passive.value v)
    (hhash : Table.All Invariant.passive.value hash) :
    Concur .passive S Invariant.passive.value (s.applyCallee callee args hash (some b))
      (s.applyCallee callee args hash (some b')) := by
  cases callee with
  | path p =>
      intro m hm
      unfold ConcurAt
      rw [applyPath_run tame hm p args hash (some b), applyPath_run tame hm p args hash (some b')]
      exact applyPath_concur tame.upholds hargs hhash .none m hm
  | helper name =>
      let blank : Branches := { body := b.body.map fun _ => pure "", params := b.params }
      have left : blank.body.isSome = b.body.isSome := Option.isSome_map
      have empty : Branches.Concur .passive S blank blank := by
        refine ⟨?_, .none, rfl⟩
        cases here : blank.body with
        | none => exact .none
        | some body =>
            obtain ⟨_, -, rfl⟩ := Option.map_eq_some_iff.mp here
            exact .some (.pure Invariant.passive.empty)
      have right : b'.body.isSome = blank.body.isSome := bodies.symm.trans left.symm
      rw [applyHelper_eq tame left.symm rfl, applyHelper_eq tame right params.symm]
      exact applyCallee_concur tame.upholds hargs hhash (.some empty)

theorem evalCall_splits {b b' : Branches} (bodies : b.body.isSome = b'.body.isSome)
    (params : b.params = b'.params) (c : Call) :
    Splits ok Invariant.passive.value ((s.withStrict true).evalCall (some b) c)
      ((s.withStrict false).evalCall (some b') c) := by
  simp only [evalCall_withStrict]
  obtain ⟨callee, args, hash⟩ := c
  simp only [evalCall]
  exact Concur.stricter (.bind (evalArgs_concur tame.upholds args) fun args hargs =>
    .bind (evalHash_concur tame.upholds hash) fun hash hhash =>
      applyCallee_branches tame bodies params callee hargs (.ofEntries hhash))

/-! ### Blocks -/

section

variable {body body' : Eval String} {inverse inverse' : Option (Eval String)}
  (hb : Splits ok Invariant.passive.text body body')
  (hi : Option.Rel (Splits ok Invariant.passive.text) inverse inverse')

include hb hi

theorem renderBlock_splits (kind : BlockKind) (params : List String) :
    Splits ok Invariant.passive.text ((s.withStrict true).renderBlock kind params body inverse)
      ((s.withStrict false).renderBlock kind params body' inverse') := by
  have evaluated (e : Expr) : Splits ok Invariant.passive.value (s.eval e) (s.eval e) :=
    (eval_concur tame.upholds e).stricter
  cases kind with
  | condition subject includeZero negate =>
      simp only [renderBlock, holds_withStrict]
      refine .bind (holds_concur tame.upholds _ _).stricter fun holds _ => ?_
      split
      · exact hb
      · exact renderBranch_stricter hi
  | context subject =>
      simp only [renderBlock, eval_withStrict]
      refine .bind (evaluated subject) fun value hv => ?_
      split
      · exact renderBranch_stricter hi
      · exact renderBound_stricter hb _ hv
  | each subject =>
      simp only [renderBlock, eval_withStrict]
      exact .bind (evaluated subject) fun value hv => renderSection_stricter hb hi _ _ hv
  | value subject inverted =>
      simp only [renderBlock, eval_withStrict]
      refine .bind (evaluated subject) fun value hv => ?_
      cases value with
      | callable id => exact absurd hv (Invariant.not_passive_callable id)
      | _ => exact renderValue_stricter hb hi _ _ hv
  | helper call style inverted =>
      cases style with
      | rendering =>
          have bodies : (Branches.of inverted params body inverse).body.isSome =
              (Branches.of inverted params body' inverse').body.isSome := by
            cases inverted with
            | true => exact isSome_eq_of_rel hi
            | false => rfl
          have named : (Branches.of inverted params body inverse).params =
              (Branches.of inverted params body' inverse').params := by
            cases inverted <;> rfl
          exact .bind (evalCall_splits tame bodies named call) fun result _ =>
            Concur.stricter (.pure trivial)
      | positional =>
          simp only [renderBlock, evalCall_withStrict]
          exact .bind (evalCall_concur tame.upholds .none call).stricter fun value hv =>
            renderValue_stricter hb hi _ _ hv

end

/-! ### Inclusions -/

omit tame in
theorem withInlines_splits {nodes nodes' : Eval String} {plan : Plan} (hp : Plan.Admits ok plan)
    (h : Splits ok Invariant.passive.text nodes nodes') :
    Splits ok Invariant.passive.text (withInlines plan nodes) (withInlines plan nodes') :=
  .within h (fun _ upholds => upholds.pushAdmitted hp) (Env.popInlines_pushInlines _)

/-- The plans of one level deeper, where all that they interpolate may be missing. -/
def SplitsDeeper (ok : RenderError → Prop) (enter? enter?' : Option (Plan → Eval String)) : Prop :=
  Option.Rel (fun enter enter' => ∀ plan, Plan.Admits ok plan →
    Splits ok Invariant.passive.text (enter plan) (enter' plan)) enter? enter?'

section

variable {enter? enter?' : Option (Plan → Eval String)} (deeper : SplitsDeeper ok enter? enter?')

include deeper

theorem renderPartial_splits (call : Inclusion) {plan : Plan} (hp : Plan.Admits ok plan)
    {block : Option Plan} (hb : ∀ plan ∈ block, Plan.Admits ok plan) :
    Splits ok Invariant.passive.text ((s.withStrict true).renderPartial enter? call plan block)
      ((s.withStrict false).renderPartial enter?' call plan block) := by
  cases deeper with
  | none => exact (Concur.throw _).stricter
  | some inner =>
      simp only [renderPartial, inclusionContext_withStrict]
      refine .bind (inclusionContext_concur tame.upholds call).stricter fun context hc => ?_
      refine .bind (.within (renderIn_stricter (inner plan hp) ?_)
        (fun _ upholds => upholds.enterAdmitted hb) (Env.leave_enter _))
        fun text _ => Concur.stricter (.pure trivial)
      rintro _ ⟨rfl⟩
      exact hc

variable (registered : Table.All (Plan.Admits ok) s.template.partials)

theorem renderPartialBlock_splits (call : Inclusion) :
    Splits ok Invariant.passive.text ((s.withStrict true).renderPartialBlock enter? call)
      ((s.withStrict false).renderPartialBlock enter?' call) := by
  refine .get_bind fun m hm => ?_
  have known : ∀ block ∈ m.env.blocks, Plan.Admits ok block := hm.env.surroundings.blocks
  cases blocks : m.env.blocks with
  | nil =>
      refine Concur.stricter ?_ m hm
      simp only
      split
      · exact Concur.pure trivial
      · exact Concur.throw _
  | cons block rest =>
      rw [blocks] at known
      have none_left : ∀ plan ∈ (none : Option Plan), Plan.Admits ok plan := nofun
      refine .within ?_ (Env.restoreBlock_dropBlock blocks)
      exact renderPartial_splits tame deeper call (known block (.head _)) none_left _
        ⟨hm.env.dropAdmitted, hm.context⟩

include registered

theorem renderNamed_splits (call : Inclusion) (name : String) {block : Option Plan}
    (hb : ∀ plan ∈ block, Plan.Admits ok plan) :
    Splits ok Invariant.passive.text ((s.withStrict true).renderNamed enter? call name block)
      ((s.withStrict false).renderNamed enter?' call name block) := by
  refine .get_bind fun m hm => Stricter.bind (Concur.addEvent _).stricter (fun _ _ => ?_) m hm
  have partials : (s.withStrict true).findPartial? m.env name = s.findPartial? m.env name ∧
      (s.withStrict false).findPartial? m.env name = s.findPartial? m.env name := ⟨rfl, rfl⟩
  rw [partials.1, partials.2]
  cases found : s.findPartial? m.env name with
  | some plan =>
      refine renderPartial_splits tame deeper call ?_ hb
      rw [findPartial?] at found
      split at found
      · next inline =>
        cases found
        exact Table.All.findSome? hm.env.surroundings.inlines inline
      · exact registered.get? found
  | none =>
      cases block with
      | some block =>
          exact renderPartial_splits tame deeper call (hb block rfl) fun plan never =>
            absurd never (Option.not_mem_none plan)
      | none => exact (Concur.throw _).stricter

theorem renderInclusion_splits (call : Inclusion) {target : Target}
    (ht : Admits ok target.interpolated) {block : Option Plan}
    (hb : ∀ plan ∈ block, Plan.Admits ok plan) :
    Splits ok Invariant.passive.text ((s.withStrict true).renderInclusion enter? call target block)
      ((s.withStrict false).renderInclusion enter?' call target block) := by
  cases target with
  | embedded plan =>
      rw [Target.interpolated] at ht
      exact renderPartial_splits tame deeper call ht hb
  | named name => exact renderNamed_splits tame deeper registered call name hb
  | dynamic e =>
      simp only [renderInclusion, eval_withStrict]
      exact .bind (eval_concur tame.upholds e).stricter fun name _ =>
        renderNamed_splits tame deeper registered call _ hb
  | partialBlock => exact renderPartialBlock_splits tame deeper call

end

end

/-! ### Plans -/

section

variable {enter? enter?' : Option (Plan → Eval String)}

mutual

theorem renderNode_splits (tame : s.Tame)
    (registered : Table.All (Plan.Admits ok) s.template.partials)
    (deeper : SplitsDeeper ok enter? enter?') :
    (node : Node) → Admits ok node.interpolated →
      Splits ok Invariant.passive.text ((s.withStrict true).renderNode enter? node)
        ((s.withStrict false).renderNode enter?' node)
  | .literal text, _ => by
      simp only [renderNode]
      exact Concur.stricter (.pure trivial)
  | .lookup e encoding, admits => by
      rw [Node.interpolated] at admits
      simp only [renderNode]
      exact .bind (lookup_splits tame admits) fun value _ => Concur.stricter (.pure trivial)
  | .helper call encoding, _ => by
      simp only [renderNode, evalCall_withStrict]
      exact .bind (evalCall_concur tame.upholds .none call).stricter fun value _ =>
        Concur.stricter (.pure trivial)
  | .block kind body none params, admits => by
      rw [Node.interpolated] at admits
      simp only [renderNode]
      exact renderBlock_splits tame
        (withInlines_splits admits (renderNodes_splits tame registered deeper body admits)) .none
        kind params
  | .block kind body (some inverse) params, admits => by
      rw [Node.interpolated] at admits
      obtain ⟨hb, hi⟩ := Admits.append.mp admits
      simp only [renderNode]
      exact renderBlock_splits tame
        (withInlines_splits hb (renderNodes_splits tame registered deeper body hb))
        (.some (withInlines_splits hi (renderNodes_splits tame registered deeper inverse hi)))
        kind params
  | .inclusion call target none, admits => by
      rw [Node.interpolated] at admits
      simp only [renderNode]
      exact renderInclusion_splits tame deeper registered call admits nofun
  | .inclusion call target (some block), admits => by
      rw [Node.interpolated] at admits
      obtain ⟨ht, hb⟩ := Admits.append.mp admits
      simp only [renderNode]
      refine renderInclusion_splits tame deeper registered call ht ?_
      rintro _ ⟨rfl⟩
      exact hb
  | .inlineDef name plan, _ => by
      simp only [renderNode]
      exact Concur.stricter (.pure trivial)

theorem renderNodes_splits (tame : s.Tame)
    (registered : Table.All (Plan.Admits ok) s.template.partials)
    (deeper : SplitsDeeper ok enter? enter?') :
    (nodes : List Node) → Plan.Admits ok nodes →
      Splits ok Invariant.passive.text ((s.withStrict true).renderNodes enter? nodes)
        ((s.withStrict false).renderNodes enter?' nodes)
  | [], _ => by
      simp only [renderNodes]
      exact Concur.stricter (.pure trivial)
  | node :: nodes, admits => by
      rw [Plan.Admits, Plan.interpolated] at admits
      obtain ⟨here, others⟩ := Admits.append.mp admits
      simp only [renderNodes]
      exact .bind (renderNode_splits tame registered deeper node here) fun text _ =>
        .bind (renderNodes_splits tame registered deeper nodes others) fun rest _ =>
          Concur.stricter (.pure trivial)

end

end

/-- By induction on the levels below. -/
theorem renderPlan_splits (tame : s.Tame)
    (registered : Table.All (Plan.Admits ok) s.template.partials) (levels : Nat) {plan : Plan} (hp : Plan.Admits ok plan) :
    Splits ok Invariant.passive.text ((s.withStrict true).renderPlan levels plan)
      ((s.withStrict false).renderPlan levels plan) := by
  induction levels generalizing plan with
  | zero => exact withInlines_splits hp (renderNodes_splits tame registered .none plan hp)
  | succ levels ih =>
      exact withInlines_splits hp
        (renderNodes_splits tame registered (.some fun _ inside => ih inside) plan hp)

end Scene

/-! ### Whole renders -/

theorem Scene.tame_of_builtin {s : Scene}
    (helpers : ∀ e ∈ s.template.helpers, e ∈ Registry.builtin.helpers)
    (blockHelpers : s.template.blockHelpers = []) (root : s.root.isPassive = true) : s.Tame := by
  refine ⟨Scene.upholds_of_builtin helpers blockHelpers Invariant.not_passive_callable root, ?_⟩
  intro name helper found call
  obtain rfl | rfl := Registry.lookup_or_log helpers found
  · exact Helper.lookup_quiet call
  · exact Helper.log_quiet call

/-- Where helpers are builtin and data has no functions, the strict render of a template fails for
want of a variable that the template interpolates, or both renders have one outcome, journal
included. -/
theorem Template.render_splits {t : Template} {input : Input}
    (helpers : ∀ e ∈ t.helpers, e ∈ Registry.builtin.helpers) (blockHelpers : t.blockHelpers = [])
    (data : input.data.isPassive = true)
    (seed : Table.All (fun v => v.isPassive = true) input.seed) :
    (∃ p ∈ t.interpolated, ((t.withStrict true).render input).result =
        .error (.missingVariable p.source)) ∨
      (t.withStrict true).render input = (t.withStrict false).render input := by
  let s : Scene := { template := t, root := input.data, functions := input.functions }
  let machine : Machine := { env := { frames := [input.seed] }, context := input.data }
  let ok : RenderError → Prop := fun e => ∃ p ∈ t.interpolated, e = .missingVariable p.source
  have tame : s.Tame := Scene.tame_of_builtin helpers blockHelpers data
  have listed {paths : List Path} (sub : ∀ p ∈ paths, p ∈ t.interpolated) : Admits ok paths :=
    fun p inside => ⟨p, sub p inside, rfl⟩
  have root : Plan.Admits ok t.plan := listed fun p inside => List.mem_append_left _ inside
  have registered : Table.All (Plan.Admits ok) t.partials := fun e member =>
    listed fun p inside => List.mem_append_right _ (List.mem_flatMap.mpr ⟨e, member, inside⟩)
  have start : machine.Upholds .passive (Surroundings.Admits ok) :=
    ⟨⟨nofun, List.forall_mem_singleton.mpr seed, nofun, nofun, nofun⟩, data⟩
  obtain ⟨e, failed, p, inside, rfl⟩ | ends :=
    s.renderPlan_splits tame registered t.settings.maxPartialDepth root machine start
  · exact .inl ⟨p, inside, failed⟩
  · let outcome (r : Except RenderError String × Machine) : RenderOutcome :=
      { result := r.1, events := r.2.events.reverse }
    exact .inr (congrArg outcome ends.same)

end Stencil
