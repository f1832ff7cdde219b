import Stencil.Proofs.Render.Nesting
import Stencil.Proofs.Render.Sections

/-!
Computations with given special variables.

Where the frames of special variables are known, two computations may run alike that would differ
elsewhere. As long as no helper sets special variables of its own, everything but an iteration hands
the frames on as they are: conditions, contexts, helpers with all that they ask of the renderer,
and inclusions.
-/

namespace Stencil

open Eval

/-! ### Helpers without data -/

/-- The action never asks for a branch with special variables of its own. -/
def Action.WithoutData {α : Type} : Action α → Prop
  | done _ => True
  | fail _ => True
  | render call next => call.data = none ∧ ∀ answer, (next answer).WithoutData
  | getContext next => ∀ v, (next v).WithoutData
  | setContext _ next => next.WithoutData
  | getContexts next => ∀ vs, (next vs).WithoutData
  | getData _ next => ∀ found, (next found).WithoutData
  | log _ _ next => next.WithoutData

/-- Neither a helper of the template nor a function of the data sets special variables. -/
structure Template.WithoutData (template : Template) (functions : Nat → Helper) : Prop where
  helpers : ∀ name helper, Table.get? template.helpers name = some helper →
    ∀ call, (helper call).WithoutData
  functions : ∀ id call, (functions id call).WithoutData

theorem Registry.builtin_withoutData {name : String} {helper : Helper}
    (h : Table.get? Registry.builtin.helpers name = some helper) (call : Invocation) :
    (helper call).WithoutData := by
  have member := Table.mem_of_get? h
  simp only [Registry.builtin, List.mem_cons, Prod.mk.injEq, List.not_mem_nil, or_false] at member
  obtain ⟨-, rfl⟩ | ⟨-, rfl⟩ := member
  · unfold Helper.lookup
    split <;> trivial
  · unfold Helper.log
    split
    · trivial
    · split <;> trivial

/-! ### Single steps -/

namespace Eval

variable {α β : Type} {frames : List Fields} {a b : Eval α}

/-- From every machine with these frames the computations run alike and put the environment
back. -/
def ConcurIn (frames : List Fields) (a b : Eval α) : Prop :=
  ∀ m, m.env.frames = frames → ConcurAt .any (fun _ => True) m a b

namespace ConcurIn

theorem of_restores (h : a.Restores) : ConcurIn frames a a :=
  fun m _ => ⟨rfl, h m, trivial, fun _ _ => trivial⟩

theorem pure (x : α) : ConcurIn frames (Pure.pure x) (Pure.pure x) :=
  .of_restores fun _ => rfl

theorem throw (e : RenderError) : ConcurIn frames (throw e : Eval α) (MonadExcept.throw e) :=
  .of_restores fun _ => rfl

theorem addEvent (e : Event) : ConcurIn frames (Eval.addEvent e) (Eval.addEvent e) :=
  .of_restores fun _ => rfl

theorem bind {f g : α → Eval β} (h : ConcurIn frames a b)
    (next : ∀ x, ConcurIn frames (f x) (g x)) : ConcurIn frames (a >>= f) (b >>= g) := by
  intro m here
  apply endsSame_bind (h m here)
  intro x after _ env _
  have env : after.env = m.env := env
  exact next x after (by rw [env, here])

/-- Computations that look at the machine first. -/
theorem get_bind {f g : Machine → Eval α}
    (h : ∀ m, m.env.frames = frames → ConcurAt .any (fun _ => True) m (f m) (g m)) :
    ConcurIn frames (get >>= f) (get >>= g) :=
  fun m here => h m here

theorem within {inner : List Fields} {enter leave : Env → Env} (h : ConcurIn inner a b)
    (enters : ∀ env : Env, env.frames = frames → (enter env).frames = inner)
    (back : ∀ env, leave (enter env) = env) :
    ConcurIn frames (Eval.within enter leave a) (Eval.within enter leave b) :=
  fun m here => .within (h { m with env := enter m.env } (enters m.env here)) (back m.env)

theorem withContext (h : ConcurIn frames a b) (v : Value) :
    ConcurIn frames (Eval.withContext v a) (Eval.withContext v b) := by
  intro m here
  have h := h { m with context := v } here
  refine ⟨?_, h.env, trivial, h.result⟩
  rw [run_withContext, run_withContext, h.same]

theorem attempt_bind {f g : Except RenderError α → Eval β} (h : ConcurIn frames a b)
    (next : ∀ answer, ConcurIn frames (f answer) (g answer)) :
    ConcurIn frames (attempt a >>= f) (attempt b >>= g) := by
  intro m here
  have h := h m here
  have env : (a.run.run m).2.env = m.env := h.env
  have step := next (a.run.run m).1 (a.run.run m).2 (by rw [env, here])
  change EndsSame .any _ id m ((f (a.run.run m).1).run.run (a.run.run m).2)
    ((g (b.run.run m).1).run.run (b.run.run m).2)
  rw [← h.same]
  exact ⟨step.same, step.env.trans h.env, trivial, step.result⟩

end ConcurIn

end Eval

/-! ### Branches -/

section

variable {frames : List Fields}

theorem Env.frames_bind (env : Env) (names : List String) (values : List Value) :
    (env.bind names values).frames = env.frames := by
  rw [Env.bind]
  split <;> rfl

theorem Env.frames_pushInlines (env : Env) (layer : Table Plan) :
    (env.pushInlines layer).frames = env.frames := by
  rw [Env.pushInlines]
  split <;> rfl

theorem Env.frames_enter (env : Env) (block : Option Plan) :
    (env.enter block).frames = env.frames := by
  cases block with
  | none => rfl
  | some block => exact env.frames_pushInlines _

theorem withInlines_concurIn {nodes nodes' : Eval String} (h : ConcurIn frames nodes nodes')
    (plan : Plan) : ConcurIn frames (withInlines plan nodes) (withInlines plan nodes') :=
  .within h (fun env here => (env.frames_pushInlines _).trans here) (Env.popInlines_pushInlines _)

theorem renderIn_concurIn {body body' : Eval String} (h : ConcurIn frames body body')
    (context : Option Value) :
    ConcurIn frames (renderIn context body) (renderIn context body') := by
  cases context with
  | none => exact h
  | some v =>
      refine .get_bind fun m here => ?_
      dsimp only
      split
      · exact h m here
      · exact .within (h.withContext v _ here) (Env.popScope_pushScope _ _)

theorem renderBound_concurIn {body body' : Eval String} (h : ConcurIn frames body body')
    (names : List String) (v : Value) :
    ConcurIn frames (renderBound names v body) (renderBound names v body') :=
  .within (renderIn_concurIn h _) (fun env here => (env.frames_bind names [v]).trans here)
    (Env.unbind_bind _ _)

theorem renderBranch_concurIn {b b' : Option (Eval String)}
    (h : Option.Rel (ConcurIn frames) b b') :
    ConcurIn frames (renderBranch b) (renderBranch b') := by
  cases h with
  | none => exact .pure ""
  | some h => exact h

/-- A section that does not walk its subject renders at most one branch. -/
theorem renderSection_concurIn {body body' : Eval String}
    {inverse inverse' : Option (Eval String)} (h : ConcurIn frames body body')
    (hi : Option.Rel (ConcurIn frames) inverse inverse') {each : Bool} {value : Value}
    (stays : value.isEmptyCollection = false → value.walk? each = none) (names : List String) :
    ConcurIn frames (renderSection each names value body inverse)
      (renderSection each names value body' inverse') := by
  have other := renderBranch_concurIn hi
  unfold renderSection
  split
  · exact other
  · next filled =>
    have stays := stays (eq_false_of_ne_true filled)
    cases value with
    | array items => cases stays
    | iterable id items => cases stays
    | object fields =>
        cases each with
        | true => cases stays
        | false => exact renderBound_concurIn h _ _
    | bool b =>
        cases each with
        | true => exact other
        | false =>
            cases b with
            | true => exact h
            | false => exact other
    | null => cases each <;> exact other
    | _ =>
        cases each with
        | true => exact other
        | false => exact h.withContext _

/-! ### Helpers -/

/-- Branches that concur, or are missing, one by one. -/
structure Branches.ConcurIn (frames : List Fields) (b b' : Branches) : Prop where
  body : Option.Rel (Eval.ConcurIn frames) b.body b'.body
  inverse : Option.Rel (Eval.ConcurIn frames) b.inverse b'.inverse
  params : b.params = b'.params

theorem Branches.of_concurIn {body body' : Eval String} {inverse inverse' : Option (Eval String)}
    (h : Eval.ConcurIn frames body body') (hi : Option.Rel (Eval.ConcurIn frames) inverse inverse')
    (inverted : Bool) (params : List String) :
    Branches.ConcurIn frames (Branches.of inverted params body inverse)
      (Branches.of inverted params body' inverse') := by
  cases inverted with
  | true => exact ⟨hi, .some h, rfl⟩
  | false => exact ⟨.some h, hi, rfl⟩

theorem Branches.render_concurIn {b b' : Branches} (h : Branches.ConcurIn frames b b')
    {call : BranchCall} (plain : call.data = none) :
    Eval.ConcurIn frames (b.render call) (b'.render call) := by
  have chosen : Option.Rel (Eval.ConcurIn frames) (b.branch? call.branch) (b'.branch? call.branch)
      := by
    cases call.branch with
    | body => exact h.body
    | inverse => exact h.inverse
  have enters (env : Env) : (call.enter b'.params env).frames = env.frames := by
    simp only [BranchCall.enter, plain, Env.frames_bind]
  rw [Branches.render, Branches.render, h.params]
  revert chosen
  generalize b.branch? call.branch = chosen, b'.branch? call.branch = chosen'
  rintro (body | _)
  · refine .get_bind fun m here => ConcurAt.within ?_ (call.leave_enter _ _)
    exact renderIn_concurIn body call.context _ ((enters m.env).trans here)
  · exact .pure ""

theorem Action.run_concurIn {scene : Scene} {b b' : Branches} (hb : Branches.ConcurIn frames b b')
    {α : Type} {action : Action α} (plain : action.WithoutData) :
    Eval.ConcurIn frames (action.run scene b) (action.run scene b') := by
  induction action with
  | done result => exact .pure _
  | fail cause => exact .pure _
  | render call next ih =>
      exact .attempt_bind (Branches.render_concurIn hb plain.1) fun answer =>
        ih answer (plain.2 answer)
  | getContext next ih => exact .get_bind fun m here => ih _ (plain _) m here
  | setContext v next ih => exact .bind (.of_restores fun _ => rfl) fun _ => ih plain
  | getContexts next ih => exact .get_bind fun m here => ih _ (plain _) m here
  | getData name next ih => exact .get_bind fun m here => ih _ (plain _) m here
  | log level message next ih => exact .bind (.addEvent _) fun _ => ih plain

namespace Scene

variable {scene : Scene}

theorem invoke_concurIn {helper : Helper} (plain : ∀ call, (helper call).WithoutData)
    {b b' : Branches} (hb : Branches.ConcurIn frames b b') (name : String) (args : List Value)
    (hash : Fields) :
    Eval.ConcurIn frames (scene.invoke name helper args hash (some b))
      (scene.invoke name helper args hash (some b')) := by
  have isBlock : b.body.isSome = b'.body.isSome := isSome_eq_of_rel hb.body
  refine .bind (.addEvent _) fun _ => ?_
  simp only [Option.getD_some, isBlock, hb.params]
  refine .bind (Action.run_concurIn hb (plain _)) fun r => ?_
  cases r with
  | ok value => exact .pure value
  | error cause => exact .throw _

theorem eval_restores (scene : Scene) (e : Expr) : (scene.eval e).Restores :=
  Regular.restores (eval_matches (.refl scene) scene.keepsTo_true e)

theorem evalCall_restores (scene : Scene) (call : Call) : (scene.evalCall none call).Restores :=
  Regular.restores (evalCall_matches (.refl scene) scene.keepsTo_true .none call)

theorem evalArgs_restores (scene : Scene) (es : List Expr) : (scene.evalArgs es).Restores :=
  Regular.restores (evalArgs_matches (.refl scene) scene.keepsTo_true es)

theorem evalHash_restores (scene : Scene) (hash : List (String × Expr)) :
    (scene.evalHash hash).Restores :=
  Regular.restores (evalHash_matches (.refl scene) scene.keepsTo_true hash)

theorem lookup_restores (scene : Scene) (e : Expr) : (scene.lookup e).Restores :=
  Regular.restores (lookup_matches (.refl scene) scene.keepsTo_true e)

theorem holds_restores (scene : Scene) (subject : Expr) (includeZero : Option Expr) :
    (scene.holds subject includeZero).Restores :=
  Regular.restores (holds_matches (.refl scene) scene.keepsTo_true subject includeZero)

theorem applyPath_concurIn (plain : scene.template.WithoutData scene.functions) {b b' : Branches}
    (hb : Branches.ConcurIn frames b b') (p : Path) (args : List Value) (hash : Fields) :
    Eval.ConcurIn frames (scene.applyCallee (.path p) args hash (some b))
      (scene.applyCallee (.path p) args hash (some b')) := by
  refine .get_bind fun m here => ?_
  have given (value : Option Value) :
      ConcurAt .any (fun _ => True) m
        (do
          if args.isEmpty && hash.isEmpty then return value.getD .null
          throw (.missingHelper p.source) : Eval Value)
        (do
          if args.isEmpty && hash.isEmpty then return value.getD .null
          throw (.missingHelper p.source)) := by
    split
    · exact ConcurIn.pure _ m here
    · exact ConcurIn.throw _ m here
  cases scene.resolve? m p with
  | none => exact given none
  | some value =>
      cases value with
      | callable id => exact invoke_concurIn (plain.functions id) hb p.source args hash m here
      | _ => exact given _

theorem applyCallee_concurIn (plain : scene.template.WithoutData scene.functions) {b b' : Branches}
    (hb : Branches.ConcurIn frames b b') (callee : Callee) (args : List Value) (hash : Fields) :
    Eval.ConcurIn frames (scene.applyCallee callee args hash (some b))
      (scene.applyCallee callee args hash (some b')) := by
  cases callee with
  | path p => exact applyPath_concurIn plain hb p args hash
  | helper name =>
      rw [applyCallee, applyCallee]
      cases found : Table.get? scene.template.helpers name with
      | some helper => exact invoke_concurIn (plain.helpers name helper found) hb name args hash
      | none =>
          cases Table.get? scene.template.blockHelpers name with
          | none => exact .throw _
          | some helper =>
              refine .get_bind fun m here => ?_
              cases helper m.context args hash with
              | ok value => exact ConcurIn.pure _ m here
              | error cause => exact ConcurIn.throw _ m here

theorem evalCall_concurIn (plain : scene.template.WithoutData scene.functions) {b b' : Branches}
    (hb : Branches.ConcurIn frames b b') (call : Call) :
    Eval.ConcurIn frames (scene.evalCall (some b) call) (scene.evalCall (some b') call) := by
  obtain ⟨callee, args, hash⟩ := call
  simp only [evalCall]
  exact .bind (.of_restores (scene.evalArgs_restores args)) fun args =>
    .bind (.of_restores (scene.evalHash_restores hash)) fun hash =>
      applyCallee_concurIn plain hb callee args _

end Scene

end

/-! ### Inclusions -/

namespace Scene

section

variable {scene : Scene} {frames : List Fields} {enter? enter?' : Option (Plan → Eval String)}

/-- The plans of one level deeper concur. -/
def EntersIn (frames : List Fields) (enter? enter?' : Option (Plan → Eval String)) : Prop :=
  Option.Rel (fun enter enter' => ∀ plan, Eval.ConcurIn frames (enter plan) (enter' plan)) enter?
    enter?'

theorem inclusionContext_restores (scene : Scene) (call : Inclusion) :
    (scene.inclusionContext call).Restores :=
  Regular.restores (inclusionContext_matches (.refl scene) scene.keepsTo_true call)

theorem renderPartial_concurIn (h : EntersIn frames enter? enter?') (call : Inclusion) (plan : Plan)
    (block : Option Plan) :
    Eval.ConcurIn frames (scene.renderPartial enter? call plan block)
      (scene.renderPartial enter?' call plan block) := by
  cases h with
  | none => exact .throw _
  | some h =>
      refine .bind (.of_restores (scene.inclusionContext_restores call)) fun context => ?_
      refine .bind (.within (renderIn_concurIn (h plan) _) (fun env here => ?_)
        (Env.leave_enter block)) fun text => .pure _
      exact (env.frames_enter block).trans here

theorem renderNamed_concurIn (h : EntersIn frames enter? enter?') (call : Inclusion) (name : String)
    (block : Option Plan) :
    Eval.ConcurIn frames (scene.renderNamed enter? call name block)
      (scene.renderNamed enter?' call name block) := by
  refine .get_bind fun m here => ConcurIn.bind (.addEvent _) (fun _ => ?_) m here
  cases scene.findPartial? m.env name with
  | some plan => exact renderPartial_concurIn h call plan block
  | none =>
      cases block with
      | some block => exact renderPartial_concurIn h call block none
      | none => exact .throw _

theorem renderPartialBlock_concurIn (h : EntersIn frames enter? enter?') (call : Inclusion) :
    Eval.ConcurIn frames (scene.renderPartialBlock enter? call)
      (scene.renderPartialBlock enter?' call) := by
  refine .get_bind fun m here => ?_
  cases blocks : m.env.blocks with
  | nil =>
      simp only
      split
      · exact ConcurIn.pure _ m here
      · exact ConcurIn.throw _ m here
  | cons block rest =>
      refine .within ?_ (Env.restoreBlock_dropBlock blocks)
      exact renderPartial_concurIn h call block none _ here

theorem renderInclusion_concurIn (h : EntersIn frames enter? enter?') (call : Inclusion)
    (target : Target) (block : Option Plan) :
    Eval.ConcurIn frames (scene.renderInclusion enter? call target block)
      (scene.renderInclusion enter?' call target block) := by
  cases target with
  | embedded plan => exact renderPartial_concurIn h call plan block
  | named name => exact renderNamed_concurIn h call name block
  | dynamic e =>
      exact .bind (.of_restores (scene.eval_restores e)) fun name =>
        renderNamed_concurIn h call name.text block
  | partialBlock => exact renderPartialBlock_concurIn h call

end

end Scene

end Stencil
