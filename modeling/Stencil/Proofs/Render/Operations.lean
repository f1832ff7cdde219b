import Stencil.Proofs.Render.Calls
import Stencil.Proofs.Render.Matching

/-!
The operations of the renderer match.

Two scenes are similar when they differ only in their plans and partials.
In similar scenes an operation matches itself, as soon as the branches that
it is given match: expressions, helpers with all that they ask of the
renderer, sections, and inclusions of plans that match one level deeper.
-/

namespace Stencil

open Eval

variable {R Q : Surroundings → Surroundings → Prop} {ok : RenderError → Prop}

/-- Scenes that differ only in their plans and partials. -/
structure Scene.Similar (s s' : Scene) : Prop where
  root : s.root = s'.root
  functions : s.functions = s'.functions
  helpers : s.template.helpers = s'.template.helpers
  blockHelpers : s.template.blockHelpers = s'.template.blockHelpers
  strict : s.template.settings.strict = s'.template.settings.strict
  propertyAccess : s.template.settings.propertyAccess = s'.template.settings.propertyAccess
  explicitPartialContext :
    s.template.settings.explicitPartialContext = s'.template.settings.explicitPartialContext
  maxPartialDepth : s.template.settings.maxPartialDepth = s'.template.settings.maxPartialDepth

theorem Scene.Similar.refl (s : Scene) : s.Similar s :=
  ⟨rfl, rfl, rfl, rfl, rfl, rfl, rfl, rfl⟩

/-- A result that is looked at as an option. -/
theorem eq_ok_of_toOption {α ε : Type} {r : Except ε α} {a : α} (h : r.toOption = some a) :
    r = .ok a := by
  cases r with
  | ok b =>
      cases h
      rfl
  | error e => cases h

/-! ### Failures -/

/-- An action fails only with causes that `ok` allows, as long as the failures that
it is told of are allowed. -/
def Action.KeepsTo {α : Type} (ok : RenderError → Prop) : Action α → Prop
  | done _ => True
  | fail cause => ∀ name, ok (.helper name cause)
  | render _ next => ∀ answer, (∀ e, answer = .error e → ok e) → (next answer).KeepsTo ok
  | getContext next => ∀ v, (next v).KeepsTo ok
  | setContext _ next => next.KeepsTo ok
  | getContexts next => ∀ vs, (next vs).KeepsTo ok
  | getData _ next => ∀ v, (next v).KeepsTo ok
  | log _ _ next => next.KeepsTo ok

/-- The failures that a scene brings about by itself are allowed. -/
structure Scene.KeepsTo (s : Scene) (ok : RenderError → Prop) : Prop where
  missingVariable : ∀ path, ok (.missingVariable path)
  missingHelper : ∀ name, ok (.missingHelper name)
  partialDepth : ∀ name limit, ok (.partialDepth name limit)
  helpers : ∀ name helper, Table.get? s.template.helpers name = some helper →
    ∀ call, (helper call).KeepsTo ok
  functions : ∀ id call, (s.functions id call).KeepsTo ok
  blockHelpers : ∀ name helper, Table.get? s.template.blockHelpers name = some helper →
    ∀ v args hash cause, helper v args hash = .error cause → ok (.helper name cause)

/-- The failures that a scene brings about by itself are allowed, but for calls of what is no
helper. -/
structure Scene.Fails (s : Scene) (ok : RenderError → Prop) : Prop where
  missingVariable : ∀ path, ok (.missingVariable path)
  partialDepth : ∀ name limit, ok (.partialDepth name limit)
  helpers : ∀ name helper, Table.get? s.template.helpers name = some helper →
    ∀ call, (helper call).KeepsTo ok
  functions : ∀ id call, (s.functions id call).KeepsTo ok
  blockHelpers : ∀ name helper, Table.get? s.template.blockHelpers name = some helper →
    ∀ v args hash cause, helper v args hash = .error cause → ok (.helper name cause)

theorem Scene.KeepsTo.fails {s : Scene} {ok : RenderError → Prop} (h : s.KeepsTo ok) :
    s.Fails ok where
  missingVariable := h.missingVariable
  partialDepth := h.partialDepth
  helpers := h.helpers
  functions := h.functions
  blockHelpers := h.blockHelpers

theorem Scene.KeepsTo.allows {s : Scene} {ok : RenderError → Prop} (h : s.KeepsTo ok)
    (calls : List (Place × Call)) : s.Allows ok calls :=
  fun _ _ name _ => h.missingHelper name

/-- Actions fail with errors of their own, or with what they are told of. -/
theorem Action.keepsTo_of_helper {α : Type} {ok : RenderError → Prop}
    (h : ∀ name cause, ok (.helper name cause)) (action : Action α) : action.KeepsTo ok := by
  induction action with
  | done => trivial
  | fail cause => exact fun name => h name cause
  | render call next ih => exact fun answer _ => ih answer
  | getContext next ih => exact ih
  | setContext v next ih => exact ih
  | getContexts next ih => exact ih
  | getData name next ih => exact ih
  | log level message next ih => exact ih

theorem Action.keepsTo_true {α : Type} (action : Action α) : action.KeepsTo fun _ => True :=
  action.keepsTo_of_helper fun _ _ => trivial

/-- When every failure is allowed, nothing is asked of the helpers. -/
theorem Scene.keepsTo_true (s : Scene) : s.KeepsTo fun _ => True where
  missingVariable _ := trivial
  missingHelper _ := trivial
  partialDepth _ _ := trivial
  helpers _ helper _ call := (helper call).keepsTo_true
  functions id call := (s.functions id call).keepsTo_true
  blockHelpers _ _ _ _ _ _ _ _ := trivial

/-! ### Paths -/

section

variable {s s' : Scene} {m m' : Machine}

theorem Scene.member?_eq (h : s.Similar s') (v : Value) (name : String) :
    s.member? v name = s'.member? v name := by
  rw [member?, member?, h.propertyAccess]

theorem Scene.members?_eq (h : s.Similar s') (v : Value) (names : List String) :
    s.members? v names = s'.members? v names := by
  induction names generalizing v with
  | nil => rfl
  | cons name names ih => simp only [members?, member?_eq h, ih]

theorem Scene.start?_eq (h : s.Similar s') (like : m.Like R m') (p : Path) :
    s.start? m p = s'.start? m' p := by
  simp only [start?, Env.special?, Env.scope?, Env.binding?, h.root, like.context, like.env.scopes,
    like.env.frames, like.env.bindings]

theorem Scene.resolve?_eq (h : s.Similar s') (like : m.Like R m') (p : Path) :
    s.resolve? m p = s'.resolve? m' p := by
  simp only [resolve?, start?_eq h like, members?_eq h]

theorem Scene.data?_eq (h : s.Similar s') (like : m.Like R m') (name : String) :
    s.data? m.env name = s'.data? m'.env name := by
  simp only [data?, Env.special?, h.root, like.env.frames]

end

/-! ### Branches -/

theorem isSome_eq_of_rel {α β : Type} {r : α → β → Prop} {a : Option α} {b : Option β}
    (h : Option.Rel r a b) : a.isSome = b.isSome := by
  cases h <;> rfl

/-- Branches that match, or are missing, one by one. -/
structure Branches.Match (R : Surroundings → Surroundings → Prop) (ok : RenderError → Prop)
    (b b' : Branches) : Prop where
  body : Option.Rel (Matches R ok) b.body b'.body
  inverse : Option.Rel (Matches R ok) b.inverse b'.inverse
  params : b.params = b'.params

theorem Branches.Match.empty : Branches.Match R ok {} {} :=
  ⟨.none, .none, rfl⟩

theorem renderIn_matches {body body' : Eval String} (h : Matches R ok body body')
    (context : Option Value) : Matches R ok (renderIn context body) (renderIn context body') := by
  cases context with
  | none => exact h
  | some v =>
      refine .get_bind fun m m' like => ?_
      simp only [← like.context]
      split
      · exact h m m' like
      · refine Matches.within (h.withContext v) ?_ ?_ ?_ m m' like
        · exact fun e e' like => like.pushScope _
        · exact fun e => e.popScope_pushScope _
        · exact fun e => e.popScope_pushScope _

theorem renderBranch_matches {b b' : Option (Eval String)} (h : Option.Rel (Matches R ok) b b') :
    Matches R ok (renderBranch b) (renderBranch b') := by
  cases h with
  | none => exact .pure ""
  | some h => exact h

theorem Branches.render_matches {b b' : Branches} (h : Branches.Match R ok b b')
    (call : BranchCall) : Matches R ok (b.render call) (b'.render call) := by
  have chosen : Option.Rel (Matches R ok) (b.branch? call.branch) (b'.branch? call.branch) := by
    cases call.branch with
    | body => exact h.body
    | inverse => exact h.inverse
  rw [Branches.render, Branches.render, ← h.params]
  revert chosen
  generalize b.branch? call.branch = chosen, b'.branch? call.branch = chosen'
  rintro (body | _)
  · refine .get_bind fun m m' like => ?_
    refine MatchesAt.within ?_ (call.leave_enter _ _) (call.leave_enter _ _)
    exact renderIn_matches body call.context _ _ ⟨like.env.enter _ _, like.context⟩
  · exact .pure ""

/-! ### Helpers -/

theorem Action.run_bind_matches {s s' : Scene} (similar : s.Similar s') {b b' : Branches}
    (h : Branches.Match R ok b b') {α β : Type} {action : Action α} (keeps : action.KeepsTo ok)
    {f g : Except HelperError α → Eval β}
    (next : ∀ r, (∀ cause, r = .error cause → ∀ name, ok (.helper name cause)) →
      Matches R ok (f r) (g r)) :
    Matches R ok (action.run s b >>= f) (action.run s' b' >>= g) := by
  induction action with
  | done result => exact next (.ok result) nofun
  | fail cause =>
      refine next (.error cause) ?_
      rintro _ ⟨rfl⟩
      exact keeps
  | render call rest ih =>
      simp only [Action.run, bind_assoc]
      exact .attempt_bind (b.render_matches h call) fun answer allowed =>
        ih answer (keeps answer allowed)
  | getContext rest ih =>
      simp only [Action.run, bind_assoc]
      refine .get_bind fun m m' like => ?_
      rw [← like.context]
      exact ih _ (keeps _) m m' like
  | setContext v rest ih =>
      simp only [Action.run, bind_assoc]
      exact .bind (.setContext v) fun _ => ih keeps
  | getContexts rest ih =>
      simp only [Action.run, bind_assoc]
      refine .get_bind fun m m' like => ?_
      rw [← like.context, ← like.env.scopes]
      exact ih _ (keeps _) m m' like
  | getData name rest ih =>
      simp only [Action.run, bind_assoc]
      refine .get_bind fun m m' like => ?_
      rw [← Scene.data?_eq similar like]
      exact ih _ (keeps _) m m' like
  | log level message rest ih =>
      simp only [Action.run, bind_assoc]
      exact .bind (.addEvent _ _) fun _ => ih keeps

namespace Scene

variable {s s' : Scene}

theorem invoke_matches (similar : s.Similar s') {helper : Helper}
    (keeps : ∀ call, (helper call).KeepsTo ok) {b b' : Option Branches}
    (h : Option.Rel (Branches.Match R ok) b b') (name : String) (args : List Value)
    (hash : Fields) :
    Matches R ok (s.invoke name helper args hash b) (s'.invoke name helper args hash b') := by
  have given : Branches.Match R ok (b.getD {}) (b'.getD {}) := by
    cases h with
    | none => exact .empty
    | some h => exact h
  have isBlock : (b.getD {}).body.isSome = (b'.getD {}).body.isSome :=
    isSome_eq_of_rel given.body
  rw [invoke, invoke]
  refine .bind (.addEvent _ _) fun _ => ?_
  simp only [← given.params, ← isBlock]
  refine Action.run_bind_matches similar given (keeps _) fun r allowed => ?_
  cases r with
  | ok value => exact .pure value
  | error cause => exact .throw (allowed cause rfl name)

theorem invokePositional_matches {helper : BlockHelper} {name : String}
    (keeps : ∀ v args hash cause, helper v args hash = .error cause → ok (.helper name cause))
    (args : List Value) (hash : Fields) :
    Matches R ok (invokePositional name helper args hash) (invokePositional name helper args hash)
    := by
  refine .get_bind fun m m' like => ?_
  rw [← like.context]
  cases called : helper m.context args hash with
  | ok value => exact Matches.pure value m m' like
  | error cause => exact Matches.throw (keeps _ _ _ _ called) m m' like

/-- A path that is called: a callable is invoked, another value stands for itself. -/
theorem applyPath_matches (similar : s.Similar s') (fails : s.Fails ok)
    {b b' : Option Branches} (h : Option.Rel (Branches.Match R ok) b b') {p : Path}
    {args : List Value} {hash : Fields}
    (missing : ¬(args.isEmpty && hash.isEmpty) = true → ok (.missingHelper p.source)) :
    Matches R ok (s.applyCallee (.path p) args hash b) (s'.applyCallee (.path p) args hash b') := by
  refine .get_bind fun m m' like => ?_
  rw [← resolve?_eq similar like, ← similar.functions]
  have plain (value : Option Value) :
      MatchesAt ok m m'
        (do
          if args.isEmpty && hash.isEmpty then return value.getD .null
          throw (.missingHelper p.source) : Eval Value)
        (do
          if args.isEmpty && hash.isEmpty then return value.getD .null
          throw (.missingHelper p.source)) := by
    split
    · exact Matches.pure _ m m' like
    · next given => exact Matches.throw (missing given) m m' like
  cases s.resolve? m p with
  | none => exact plain none
  | some value =>
      cases value with
      | callable id =>
          exact invoke_matches similar (fails.functions id) h p.source args hash m m' like
      | _ => exact plain _

theorem applyHelper_matches (similar : s.Similar s') (fails : s.Fails ok)
    {b b' : Option Branches} (h : Option.Rel (Branches.Match R ok) b b') {name : String}
    (missing : Table.get? s.template.helpers name = none →
      Table.get? s.template.blockHelpers name = none → ok (.missingHelper name))
    (args : List Value) (hash : Fields) :
    Matches R ok (s.applyCallee (.helper name) args hash b)
      (s'.applyCallee (.helper name) args hash b') := by
  rw [applyCallee, applyCallee, ← similar.helpers, ← similar.blockHelpers]
  cases found : Table.get? s.template.helpers name with
  | some helper => exact invoke_matches similar (fails.helpers name helper found) h name args hash
  | none =>
      cases found' : Table.get? s.template.blockHelpers name with
      | some helper =>
          exact invokePositional_matches (fails.blockHelpers name helper found') args hash
      | none => exact .throw (missing found found')

/-! ### Expressions -/

mutual

theorem eval_allowed (similar : s.Similar s') (fails : s.Fails ok) :
    (e : Expr) → s.Allows ok e.calls → Matches R ok (s.eval e) (s'.eval e)
  | .path p, _ => by
      simp only [eval]
      refine .get_bind fun m m' like => ?_
      rw [← resolve?_eq similar like]
      exact Matches.pure _ m m' like
  | .literal value _, _ => by
      simp only [eval]
      exact .pure _
  | .call c, allows => by
      rw [Expr.calls, Scene.Allows.cons] at allows
      simp only [eval]
      exact evalCall_allowed similar fails .none c allows.1 allows.2

theorem evalCall_allowed (similar : s.Similar s') (fails : s.Fails ok)
    {b b' : Option Branches} (h : Option.Rel (Branches.Match R ok) b b') :
    (c : Call) → (∀ name, s.Misses c name → ok (.missingHelper name)) → s.Allows ok c.inner →
      Matches R ok (s.evalCall b c) (s'.evalCall b' c)
  | ⟨.helper name, args, hash⟩, missing, allows => by
      rw [Call.inner, Scene.Allows.append] at allows
      simp only [evalCall]
      exact .bind (evalArgs_allowed similar fails args allows.1) fun args =>
        .bind (evalHash_allowed similar fails hash allows.2) fun hash =>
          applyHelper_matches similar fails h
            (fun first second => missing name ⟨rfl, first, second⟩) args _
  | ⟨.path p, [], []⟩, _, _ => by
      simp only [evalCall, evalArgs, evalHash, pure_bind]
      exact applyPath_matches similar fails h fun given => absurd rfl given
  | ⟨.path p, e :: es, hash⟩, missing, allows => by
      rw [Call.inner, Scene.Allows.append] at allows
      simp only [evalCall]
      exact .bind (evalArgs_allowed similar fails (e :: es) allows.1) fun args =>
        .bind (evalHash_allowed similar fails hash allows.2) fun hash =>
          applyPath_matches similar fails h fun _ =>
            missing p.source ⟨rfl, .inl (List.cons_ne_nil e es)⟩
  | ⟨.path p, [], entry :: hash⟩, missing, allows => by
      rw [Call.inner, Scene.Allows.append] at allows
      simp only [evalCall]
      exact .bind (evalArgs_allowed similar fails [] allows.1) fun args =>
        .bind (evalHash_allowed similar fails (entry :: hash) allows.2) fun hash' =>
          applyPath_matches similar fails h fun _ =>
            missing p.source ⟨rfl, .inr (List.cons_ne_nil entry hash)⟩

theorem evalArgs_allowed (similar : s.Similar s') (fails : s.Fails ok) :
    (es : List Expr) → s.Allows ok (Expr.callsOfArgs es) →
      Matches R ok (s.evalArgs es) (s'.evalArgs es)
  | [], _ => .pure []
  | e :: es, allows => by
      rw [Expr.callsOfArgs, Scene.Allows.append] at allows
      simp only [evalArgs]
      exact .bind (eval_allowed similar fails e allows.1) fun v =>
        .bind (evalArgs_allowed similar fails es allows.2) fun vs => .pure (v :: vs)

theorem evalHash_allowed (similar : s.Similar s') (fails : s.Fails ok) :
    (hash : List (String × Expr)) → s.Allows ok (Expr.callsOfHash hash) →
      Matches R ok (s.evalHash hash) (s'.evalHash hash)
  | [], _ => .pure []
  | (name, e) :: hash, allows => by
      rw [Expr.callsOfHash, Scene.Allows.append] at allows
      simp only [evalHash]
      exact .bind (eval_allowed similar fails e allows.1) fun v =>
        .bind (evalHash_allowed similar fails hash allows.2) fun vs => .pure ((name, v) :: vs)

end

theorem lookup_allowed (similar : s.Similar s') (fails : s.Fails ok) (e : Expr)
    (allows : s.Allows ok e.calls) : Matches R ok (s.lookup e) (s'.lookup e) := by
  cases e with
  | literal value source => exact eval_allowed similar fails _ allows
  | call c => exact eval_allowed similar fails _ allows
  | path p =>
      refine .get_bind fun m m' like => ?_
      rw [← resolve?_eq similar like, ← similar.functions, ← similar.strict]
      cases s.resolve? m p with
      | none =>
          simp only
          split
          · exact Matches.throw (fails.missingVariable _) m m' like
          · exact Matches.pure _ m m' like
      | some value =>
          cases value with
          | callable id =>
              exact invoke_matches similar (fails.functions id) .none p.source [] [] m m' like
          | _ => exact Matches.pure _ m m' like

/-! When every call may fail, nothing is asked of the calls in an expression. -/

section

variable (similar : s.Similar s') (keeps : s.KeepsTo ok)

include similar keeps

theorem eval_matches (e : Expr) : Matches R ok (s.eval e) (s'.eval e) :=
  eval_allowed similar keeps.fails e (keeps.allows _)

theorem evalCall_matches {b b' : Option Branches} (h : Option.Rel (Branches.Match R ok) b b')
    (c : Call) : Matches R ok (s.evalCall b c) (s'.evalCall b' c) :=
  evalCall_allowed similar keeps.fails h c (fun name _ => keeps.missingHelper name) (keeps.allows _)

theorem evalArgs_matches (es : List Expr) : Matches R ok (s.evalArgs es) (s'.evalArgs es) :=
  evalArgs_allowed similar keeps.fails es (keeps.allows _)

theorem evalHash_matches (hash : List (String × Expr)) :
    Matches R ok (s.evalHash hash) (s'.evalHash hash) :=
  evalHash_allowed similar keeps.fails hash (keeps.allows _)

theorem lookup_matches (e : Expr) : Matches R ok (s.lookup e) (s'.lookup e) :=
  lookup_allowed similar keeps.fails e (keeps.allows _)

end

end Scene

end Stencil
