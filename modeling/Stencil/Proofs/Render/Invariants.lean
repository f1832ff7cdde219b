import Stencil.Proofs.Render.Blocks
import Stencil.Proofs.Table

/-!
What holds at every moment of a render.

An invariant says which values a render comes to know and which texts it shows. Two computations
concur under an invariant when, from every machine that upholds it, they run alike, journal
included, put the environment back, and end with a context and a result that the invariant
allows. With one computation on both sides this says that the invariant is kept; with two it says
that they differ only where the invariant does not let them come. The rules below follow the
operations of the renderer from single steps up to blocks and inclusions.
-/

namespace Stencil

open Eval

/-- Which values a render may know, and which texts it may show. Parts of a value that may be
known may be known too. -/
structure Invariant where
  value : Value → Prop
  text : String → Prop
  /-- Which named values it may know together; any that it may know, unless said otherwise. -/
  table : Fields → Prop := Table.All value
  null : value .null
  bool : ∀ b, value (.bool b)
  number : ∀ n, value (.number n)
  string : ∀ s, value (.string s)
  items : ∀ items, value (.array items) → ∀ v ∈ items, value v
  yielded : ∀ id items, value (.iterable id items) → ∀ v ∈ items, value v
  object : ∀ fields, value (.object fields) ↔ table fields
  values : ∀ fields, table fields → Table.All value fields := by exact fun _ h => h
  ofEntries : ∀ entries : Fields, Table.All value entries → table (Table.ofEntries entries) := by
    exact fun _ h => .ofEntries h
  extend : ∀ fields other, table fields → table other → table (Table.extend fields other) := by
    exact fun _ _ h h' => h.extend h'
  empty : text ""
  append : ∀ s t, text s → text t → text (s ++ t)

/-- The environment knows only such values, and such partials. -/
structure Env.Upholds (I : Invariant) (S : Surroundings → Prop) (env : Env) : Prop where
  scopes : ∀ v ∈ env.scopes, I.value v
  frames : ∀ vars ∈ env.frames, I.table vars
  bindings : ∀ vars ∈ env.bindings, I.table vars
  surroundings : S env.surroundings

structure Machine.Upholds (I : Invariant) (S : Surroundings → Prop) (m : Machine) : Prop where
  env : m.env.Upholds I S
  context : I.value m.context

variable {I : Invariant} {S Q : Surroundings → Prop}

theorem Invariant.literal (I : Invariant) (l : Literal) : I.value l.toValue := by
  cases l with
  | null => exact I.null
  | bool b => exact I.bool b
  | number n => exact I.number n
  | string s => exact I.string s

theorem Invariant.noFields (I : Invariant) : I.table [] :=
  I.ofEntries [] (List.forall_mem_nil _)

/-- What the first of some tables that knows a name has for it. -/
theorem Invariant.findSome? (I : Invariant) {layers : List Fields}
    (h : ∀ layer ∈ layers, I.table layer) {name : String} {v : Value}
    (found : layers.findSome? (fun layer => Table.get? layer name) = some v) : I.value v :=
  Table.All.findSome? (fun layer member => I.values layer (h layer member)) found

theorem Invariant.member {v w : Value} {name : String} (h : I.value v)
    (found : v.get? name = some w) : I.value w := by
  cases v with
  | object fields => exact (I.values fields ((I.object fields).mp h)).get? found
  | array items =>
      simp only [Value.get?, Option.bind_eq_bind, Option.bind_eq_some_iff] at found
      obtain ⟨i, -, found⟩ := found
      exact I.items items h w (List.mem_of_getElem? found)
  | _ => cases found

namespace Env.Upholds

variable {env : Env} {v : Value}

theorem pushScope (h : env.Upholds I S) (hv : I.value v) : (env.pushScope v).Upholds I S where
  scopes := List.forall_mem_cons.mpr ⟨hv, h.scopes⟩
  frames := h.frames
  bindings := h.bindings
  surroundings := h.surroundings

theorem setFrames (h : env.Upholds I S) {frames : List Fields}
    (hf : ∀ vars ∈ frames, I.table vars) : (env.setFrames frames).Upholds I S where
  scopes := h.scopes
  frames := hf
  bindings := h.bindings
  surroundings := h.surroundings

theorem bind (h : env.Upholds I S) (names : List String) {values : List Value}
    (hv : ∀ v ∈ values, I.value v) : (env.bind names values).Upholds I S := by
  rw [Env.bind]
  split
  · exact h
  · refine ⟨h.scopes, h.frames, ?_, h.surroundings⟩
    refine List.forall_mem_cons.mpr ⟨I.ofEntries _ ?_, h.bindings⟩
    exact fun e member => hv e.2 (List.of_mem_zip member).2

end Env.Upholds

/-! ### Agreement -/

/-- The ends of two runs from `m`: they are the same, the environment, seen through `view`, is as
it was, and context and result are allowed. -/
structure EndsSame {α : Type} (I : Invariant) (P : α → Prop) (view : Env → Env) (m : Machine)
    (r r' : Except RenderError α × Machine) : Prop where
  same : r = r'
  env : view r.2.env = view m.env
  context : I.value r.2.context
  result : ∀ x, r.1 = .ok x → P x

namespace Eval

variable {α β : Type} {P : α → Prop} {P' : β → Prop} {a b : Eval α}

/-- The computations end in the same way from a given machine. -/
def ConcurAt (I : Invariant) (P : α → Prop) (m : Machine) (a b : Eval α) : Prop :=
  EndsSame I P id m (a.run.run m) (b.run.run m)

/-- The computations end in the same way from all machines that uphold the invariant. -/
def Concur (I : Invariant) (S : Surroundings → Prop) (P : α → Prop) (a b : Eval α) : Prop :=
  ∀ m, m.Upholds I S → ConcurAt I P m a b

theorem endsSame_bind {view : Env → Env} {m : Machine} {f g : α → Eval β}
    (h : EndsSame I P view m (a.run.run m) (b.run.run m))
    (next : ∀ x after, P x → view after.env = view m.env → I.value after.context →
      EndsSame I P' view after ((f x).run.run after) ((g x).run.run after)) :
    EndsSame I P' view m ((a >>= f).run.run m) ((b >>= g).run.run m) := by
  rw [run_bind, run_bind, ← h.same]
  obtain ⟨-, env, context, result⟩ := h
  generalize a.run.run m = r at env context result
  obtain ⟨outcome, after⟩ := r
  cases outcome with
  | error e => exact ⟨rfl, env, context, nofun⟩
  | ok x =>
      have h := next x after (result x rfl) env context
      exact ⟨h.same, h.env.trans env, h.context, h.result⟩

namespace Concur

theorem pure {x : α} (h : P x) : Concur I S P (Pure.pure x) (Pure.pure x) := by
  intro m upholds
  refine ⟨rfl, rfl, upholds.context, ?_⟩
  rintro _ ⟨rfl⟩
  exact h

theorem throw (e : RenderError) : Concur I S P (throw e : Eval α) (MonadExcept.throw e) :=
  fun _ upholds => ⟨rfl, rfl, upholds.context, nofun⟩

theorem bind {f g : α → Eval β} (h : Concur I S P a b)
    (next : ∀ x, P x → Concur I S P' (f x) (g x)) : Concur I S P' (a >>= f) (b >>= g) := by
  intro m upholds
  apply endsSame_bind (h m upholds)
  intro x after hx env context
  have env : after.env = m.env := env
  refine next x hx after ⟨?_, context⟩
  rw [env]
  exact upholds.env

/-- Computations that look at the machine first. -/
theorem get_bind {f g : Machine → Eval α} (h : ∀ m, m.Upholds I S → ConcurAt I P m (f m) (g m)) :
    Concur I S P (get >>= f) (get >>= g) :=
  fun m upholds => h m upholds

theorem addEvent (e : Event) : Concur I S (fun _ => True) (Eval.addEvent e) (Eval.addEvent e) :=
  fun _ upholds => ⟨rfl, rfl, upholds.context, fun _ _ => trivial⟩

theorem setContext {v : Value} (h : I.value v) :
    Concur I S (fun _ => True) (modify fun m => { m with context := v })
      (modify fun m => { m with context := v }) :=
  fun _ _ => ⟨rfl, rfl, h, fun _ _ => trivial⟩

theorem withContext (h : Concur I S P a b) {v : Value} (hv : I.value v) :
    Concur I S P (Eval.withContext v a) (Eval.withContext v b) := by
  intro m upholds
  have h := h { m with context := v } ⟨upholds.env, hv⟩
  refine ⟨?_, h.env, upholds.context, h.result⟩
  rw [run_withContext, run_withContext, h.same]

theorem attempt_bind {f g : Except RenderError α → Eval β} (h : Concur I S P a b)
    (next : ∀ answer, (∀ x, answer = .ok x → P x) → Concur I S P' (f answer) (g answer)) :
    Concur I S P' (attempt a >>= f) (attempt b >>= g) := by
  intro m upholds
  have h := h m upholds
  have env : (a.run.run m).2.env = m.env := h.env
  have step := next (a.run.run m).1 h.result (a.run.run m).2
    ⟨by rw [env]; exact upholds.env, h.context⟩
  change EndsSame I P' id m ((f (a.run.run m).1).run.run (a.run.run m).2)
    ((g (b.run.run m).1).run.run (b.run.run m).2)
  rw [← h.same]
  exact ⟨step.same, step.env.trans h.env, step.context, step.result⟩

end Concur

theorem ConcurAt.within {m : Machine} {enter leave : Env → Env}
    (h : ConcurAt I P { m with env := enter m.env } a b) (back : leave (enter m.env) = m.env) :
    ConcurAt I P m (Eval.within enter leave a) (Eval.within enter leave b) := by
  refine ⟨?_, (congrArg leave h.env).trans back, h.context, h.result⟩
  rw [run_within, run_within, h.same]

/-- A change of the environment that is taken back. -/
theorem Concur.within {enter leave : Env → Env} (h : Concur I Q P a b)
    (enters : ∀ env : Env, env.Upholds I S → (enter env).Upholds I Q)
    (back : ∀ env, leave (enter env) = env) :
    Concur I S P (Eval.within enter leave a) (Eval.within enter leave b) :=
  fun m upholds => .within (h _ ⟨enters _ upholds.env, upholds.context⟩) (back m.env)

end Eval

/-! ### Agreement up to failures -/

/-- The first run fails in a way that `ok` allows, or the two end in the same way. -/
def EndsStricter {α : Type} (I : Invariant) (ok : RenderError → Prop) (P : α → Prop)
    (view : Env → Env) (m : Machine) (r r' : Except RenderError α × Machine) : Prop :=
  (∃ e, r.1 = .error e ∧ ok e) ∨ EndsSame I P view m r r'

namespace Eval

variable {α β : Type} {P : α → Prop} {P' : β → Prop} {ok : RenderError → Prop} {a b : Eval α}

/-- From a given machine the first computation fails in a way that `ok` allows, or the two end in
the same way. -/
def StricterAt (I : Invariant) (ok : RenderError → Prop) (P : α → Prop) (m : Machine)
    (a b : Eval α) : Prop :=
  EndsStricter I ok P id m (a.run.run m) (b.run.run m)

/-- The first computation fails in a way that `ok` allows, or the two end in the same way, from all
machines that uphold the invariant. -/
def Stricter (I : Invariant) (S : Surroundings → Prop) (ok : RenderError → Prop) (P : α → Prop)
    (a b : Eval α) : Prop :=
  ∀ m, m.Upholds I S → StricterAt I ok P m a b

theorem endsStricter_bind {view : Env → Env} {m : Machine} {f g : α → Eval β}
    (h : EndsStricter I ok P view m (a.run.run m) (b.run.run m))
    (next : ∀ x after, P x → view after.env = view m.env → I.value after.context →
      EndsStricter I ok P' view after ((f x).run.run after) ((g x).run.run after)) :
    EndsStricter I ok P' view m ((a >>= f).run.run m) ((b >>= g).run.run m) := by
  rw [run_bind, run_bind]
  obtain ⟨e, failed, allowed⟩ | ends := h
  · refine .inl ⟨e, ?_, allowed⟩
    generalize a.run.run m = r at failed
    obtain ⟨outcome, after⟩ := r
    cases failed
    rfl
  · obtain ⟨same, env, context, result⟩ := ends
    rw [← same]
    generalize a.run.run m = r at env context result
    obtain ⟨outcome, after⟩ := r
    cases outcome with
    | error e => exact .inr ⟨rfl, env, context, nofun⟩
    | ok x =>
        refine (next x after (result x rfl) env context).imp id fun ends => ?_
        exact ⟨ends.same, ends.env.trans env, ends.context, ends.result⟩

theorem Concur.stricter (h : Concur I S P a b) : Stricter I S ok P a b :=
  fun m hm => .inr (h m hm)

/-- Where no failure is allowed, to be stricter is to concur. -/
theorem stricter_false : Stricter (α := α) I S (fun _ => False) P = Concur I S P := by
  funext a b
  refine propext ⟨fun h m hm => (h m hm).resolve_left ?_, fun h => h.stricter⟩
  rintro ⟨e, -, never⟩
  exact never

namespace Stricter

theorem bind {f g : α → Eval β} (h : Stricter I S ok P a b)
    (next : ∀ x, P x → Stricter I S ok P' (f x) (g x)) :
    Stricter I S ok P' (a >>= f) (b >>= g) := by
  intro m upholds
  apply endsStricter_bind (h m upholds)
  intro x after hx env context
  have env : after.env = m.env := env
  refine next x hx after ⟨?_, context⟩
  rw [env]
  exact upholds.env

/-- Computations that look at the machine first. -/
theorem get_bind {f g : Machine → Eval α}
    (h : ∀ m, m.Upholds I S → StricterAt I ok P m (f m) (g m)) :
    Stricter I S ok P (get >>= f) (get >>= g) :=
  fun m upholds => h m upholds

theorem withContext (h : Stricter I S ok P a b) {v : Value} (hv : I.value v) :
    Stricter I S ok P (Eval.withContext v a) (Eval.withContext v b) := by
  intro m upholds
  refine (h { m with context := v } ⟨upholds.env, hv⟩).imp id fun ends => ?_
  refine ⟨?_, ends.env, upholds.context, ends.result⟩
  rw [run_withContext, run_withContext, ends.same]

end Stricter

theorem StricterAt.within {m : Machine} {enter leave : Env → Env}
    (h : StricterAt I ok P { m with env := enter m.env } a b)
    (back : leave (enter m.env) = m.env) :
    StricterAt I ok P m (Eval.within enter leave a) (Eval.within enter leave b) := by
  refine h.imp id fun ends => ?_
  refine ⟨?_, (congrArg leave ends.env).trans back, ends.context, ends.result⟩
  rw [run_within, run_within, ends.same]

/-- A change of the environment that is taken back. -/
theorem Stricter.within {enter leave : Env → Env} (h : Stricter I Q ok P a b)
    (enters : ∀ env : Env, env.Upholds I S → (enter env).Upholds I Q)
    (back : ∀ env, leave (enter env) = env) :
    Stricter I S ok P (Eval.within enter leave a) (Eval.within enter leave b) :=
  fun m upholds => .within (h _ ⟨enters _ upholds.env, upholds.context⟩) (back m.env)

end Eval

/-! ### Helpers -/

/-- An action that is told only of what the invariant allows asks only for what it allows, and
gives such a result. -/
def Action.Upholds {α : Type} (I : Invariant) (P : α → Prop) : Action α → Prop
  | done result => P result
  | fail _ => True
  | render call next =>
    (∀ v, call.context = some v → I.value v) ∧
      (∀ vars, call.data = some vars → I.table vars) ∧ (∀ v ∈ call.params, I.value v) ∧
        ∀ answer, (∀ s, answer = .ok s → I.text s) → (next answer).Upholds I P
  | getContext next => ∀ v, I.value v → (next v).Upholds I P
  | setContext v next => I.value v ∧ next.Upholds I P
  | getContexts next => ∀ vs, (∀ v ∈ vs, I.value v) → (next vs).Upholds I P
  | getData _ next => ∀ found, (∀ v, found = some v → I.value v) → (next found).Upholds I P
  | log _ _ next => next.Upholds I P

/-- What a scene brings into a render is allowed, and so is what its helpers give. -/
structure Scene.Upholds (I : Invariant) (scene : Scene) : Prop where
  root : I.value scene.root
  helpers : ∀ name helper, Table.get? scene.template.helpers name = some helper →
    ∀ call : Invocation, (∀ v ∈ call.args, I.value v) → I.table call.hash →
      (helper call).Upholds I I.value
  /-- Only functions that a render may know of are called. -/
  functions : ∀ id, I.value (.callable id) →
    ∀ call : Invocation, (∀ v ∈ call.args, I.value v) → I.table call.hash →
      (scene.functions id call).Upholds I I.value
  blockHelpers : ∀ name helper, Table.get? scene.template.blockHelpers name = some helper →
    ∀ v args hash result, I.value v → (∀ v ∈ args, I.value v) → I.table hash →
      helper v args hash = .ok result → I.value result

/-- Branches that concur, or are missing, one by one. -/
structure Branches.Concur (I : Invariant) (S : Surroundings → Prop) (b b' : Branches) : Prop where
  body : Option.Rel (Eval.Concur I S I.text) b.body b'.body
  inverse : Option.Rel (Eval.Concur I S I.text) b.inverse b'.inverse
  params : b.params = b'.params

theorem Branches.Concur.empty : Branches.Concur I S {} {} :=
  ⟨.none, .none, rfl⟩

variable {ok : RenderError → Prop} {body body' : Eval String}
  {inverse inverse' : Option (Eval String)}

theorem renderIn_stricter (h : Stricter I S ok I.text body body') {context : Option Value}
    (hv : ∀ v, context = some v → I.value v) :
    Stricter I S ok I.text (renderIn context body) (renderIn context body') := by
  cases context with
  | none => exact h
  | some v =>
      refine .get_bind fun m upholds => ?_
      dsimp only
      split
      · exact h m upholds
      · refine Stricter.within (h.withContext (hv v rfl)) ?_ (Env.popScope_pushScope _) m upholds
        exact fun env upholds' => upholds'.pushScope upholds.context

theorem renderIn_concur (h : Concur I S I.text body body') {context : Option Value}
    (hv : ∀ v, context = some v → I.value v) :
    Concur I S I.text (renderIn context body) (renderIn context body') := by
  rw [← stricter_false] at h ⊢
  exact renderIn_stricter h hv

theorem renderBranch_stricter {b b' : Option (Eval String)}
    (h : Option.Rel (Stricter I S ok I.text) b b') :
    Stricter I S ok I.text (renderBranch b) (renderBranch b') := by
  cases h with
  | none => exact (Concur.pure I.empty).stricter
  | some h => exact h

theorem renderBranch_concur {b b' : Option (Eval String)}
    (h : Option.Rel (Concur I S I.text) b b') :
    Concur I S I.text (renderBranch b) (renderBranch b') := by
  rw [← stricter_false] at h ⊢
  exact renderBranch_stricter h

theorem BranchCall.enter_upholds {call : BranchCall} {env : Env} (h : env.Upholds I S)
    (names : List String) (data : ∀ vars, call.data = some vars → I.table vars)
    (params : ∀ v ∈ call.params, I.value v) : (call.enter names env).Upholds I S := by
  rw [BranchCall.enter]
  cases here : call.data with
  | none => exact h.bind _ params
  | some vars =>
      refine Env.Upholds.bind (h.setFrames ?_) _ params
      exact List.forall_mem_cons.mpr ⟨data vars here, h.frames⟩

theorem Branches.render_concur {b b' : Branches} (h : Branches.Concur I S b b') {call : BranchCall}
    (context : ∀ v, call.context = some v → I.value v)
    (data : ∀ vars, call.data = some vars → I.table vars)
    (params : ∀ v ∈ call.params, I.value v) :
    Eval.Concur I S I.text (b.render call) (b'.render call) := by
  have chosen : Option.Rel (Eval.Concur I S I.text) (b.branch? call.branch) (b'.branch? call.branch)
      := by
    cases call.branch with
    | body => exact h.body
    | inverse => exact h.inverse
  rw [Branches.render, Branches.render, ← h.params]
  revert chosen
  generalize b.branch? call.branch = chosen, b'.branch? call.branch = chosen'
  rintro (body | _)
  · refine .get_bind fun m upholds => ?_
    refine ConcurAt.within ?_ (call.leave_enter _ _)
    have inside := BranchCall.enter_upholds upholds.env b.params data params
    exact renderIn_concur body context _ ⟨inside, upholds.context⟩
  · exact .pure I.empty

namespace Scene

variable {scene : Scene}

theorem data?_upholds (h : scene.Upholds I) {env : Env} (henv : env.Upholds I S) (name : String) :
    ∀ v, scene.data? env name = some v → I.value v := by
  intro v found
  rw [data?] at found
  split at found
  · cases found
    exact h.root
  · exact I.findSome? henv.frames found

end Scene

theorem Action.run_concur {scene : Scene} (h : scene.Upholds I) {b b' : Branches}
    (hb : Branches.Concur I S b b') {α : Type} {P : α → Prop} {action : Action α}
    (upholds : action.Upholds I P) :
    Concur I S (fun r => ∀ x, r = .ok x → P x) (action.run scene b) (action.run scene b') := by
  induction action with
  | done result =>
      refine .pure ?_
      rintro _ ⟨rfl⟩
      exact upholds
  | fail cause => exact .pure nofun
  | render call rest ih =>
      obtain ⟨context, data, params, next⟩ := upholds
      exact .attempt_bind (b.render_concur hb context data params) fun answer allowed =>
        ih answer (next answer allowed)
  | getContext rest ih => exact .get_bind fun m hm => ih _ (upholds _ hm.context) m hm
  | setContext v rest ih => exact .bind (.setContext upholds.1) fun _ _ => ih upholds.2
  | getContexts rest ih =>
      refine .get_bind fun m hm => ih _ (upholds _ ?_) m hm
      intro v member
      rcases List.mem_append.mp member with outer | current
      · exact hm.env.scopes v (List.mem_reverse.mp outer)
      · rw [List.mem_singleton.mp current]
        exact hm.context
  | getData name rest ih =>
      exact .get_bind fun m hm => ih _ (upholds _ (Scene.data?_upholds h hm.env name)) m hm
  | log level message rest ih => exact .bind (.addEvent _) fun _ _ => ih upholds

namespace Scene

variable {scene : Scene}

theorem invoke_concur (h : scene.Upholds I) {helper : Helper} {args : List Value} {hash : Fields}
    (upholds : ∀ call : Invocation, (∀ v ∈ call.args, I.value v) → I.table call.hash →
      (helper call).Upholds I I.value)
    (hargs : ∀ v ∈ args, I.value v) (hhash : I.table hash) {b b' : Option Branches}
    (hb : Option.Rel (Branches.Concur I S) b b') (name : String) :
    Concur I S I.value (scene.invoke name helper args hash b)
      (scene.invoke name helper args hash b') := by
  have given : Branches.Concur I S (b.getD {}) (b'.getD {}) := by
    cases hb with
    | none => exact .empty
    | some hb => exact hb
  have isBlock : (b.getD {}).body.isSome = (b'.getD {}).body.isSome :=
    isSome_eq_of_rel given.body
  have called : b.isSome = b'.isSome := isSome_eq_of_rel hb
  rw [invoke, invoke, called]
  refine .bind (.addEvent _) fun _ _ => ?_
  simp only [← given.params, ← isBlock]
  refine .bind (Action.run_concur h given (upholds _ hargs hhash)) fun r allowed => ?_
  cases r with
  | ok value => exact .pure (allowed value rfl)
  | error cause => exact .throw _

theorem invokePositional_concur {helper : BlockHelper} {name : String} {args : List Value}
    {hash : Fields}
    (upholds : ∀ v result, I.value v → helper v args hash = .ok result → I.value result) :
    Concur I S I.value (invokePositional name helper args hash)
      (invokePositional name helper args hash) := by
  refine .get_bind fun m hm => ?_
  cases called : helper m.context args hash with
  | ok value => exact Concur.pure (upholds _ _ hm.context called) m hm
  | error cause => exact Concur.throw _ m hm

/-! ### Paths -/

theorem member?_upholds {v w : Value} {name : String} (h : I.value v)
    (found : scene.member? v name = some w) : I.value w := by
  rw [member?] at found
  split at found
  · next member here =>
    cases found
    exact I.member h here
  · split at found
    · obtain ⟨n, -, rfl⟩ := Option.map_eq_some_iff.mp found
      exact I.number _
    · cases found

theorem members?_upholds {v w : Value} {names : List String} (h : I.value v)
    (found : scene.members? v names = some w) : I.value w := by
  induction names generalizing v with
  | nil =>
      cases found
      exact h
  | cons name names ih =>
      obtain ⟨member, here, found⟩ := Option.bind_eq_some_iff.mp found
      exact ih (member?_upholds h here) found

theorem start?_upholds (h : scene.Upholds I) {m : Machine} (hm : m.Upholds I S) {p : Path}
    {v : Value} {names : List String} (found : scene.start? m p = some (v, names)) : I.value v := by
  unfold start? at found
  split at found
  · split at found
    · cases found
    · split at found
      · cases found
        exact h.root
      · obtain ⟨_, here, pair⟩ := Option.map_eq_some_iff.mp found
        cases pair
        refine I.findSome? (fun vars member => hm.env.frames vars ?_) here
        exact List.mem_of_mem_drop member
  · split at found
    · obtain ⟨_, here, pair⟩ := Option.map_eq_some_iff.mp found
      cases pair
      exact hm.env.scopes _ (List.mem_of_getElem? here)
    · split at found
      · cases found
        exact hm.context
      · split at found
        · next here =>
          cases found
          exact I.findSome? hm.env.bindings here
        · cases found
          exact hm.context

theorem resolve?_upholds (h : scene.Upholds I) {m : Machine} (hm : m.Upholds I S) {p : Path}
    {v : Value} (found : scene.resolve? m p = some v) : I.value v := by
  obtain ⟨⟨start, names⟩, here, found⟩ := Option.bind_eq_some_iff.mp found
  exact members?_upholds (start?_upholds h hm here) found

/-! ### Expressions -/

theorem applyPath_concur (h : scene.Upholds I) {p : Path} {args : List Value} {hash : Fields}
    (hargs : ∀ v ∈ args, I.value v) (hhash : I.table hash) {b b' : Option Branches}
    (hb : Option.Rel (Branches.Concur I S) b b') :
    Concur I S I.value (scene.applyCallee (.path p) args hash b)
      (scene.applyCallee (.path p) args hash b') := by
  refine .get_bind fun m hm => ?_
  have plain (value : Option Value) (hv : ∀ v, value = some v → I.value v) :
      ConcurAt I I.value m
        (do
          if args.isEmpty && hash.isEmpty then return value.getD .null
          throw (.missingHelper p.source) : Eval Value)
        (do
          if args.isEmpty && hash.isEmpty then return value.getD .null
          throw (.missingHelper p.source)) := by
    split
    · refine Concur.pure ?_ m hm
      cases value with
      | none => exact I.null
      | some v => exact hv v rfl
    · exact Concur.throw _ m hm
  have known := fun v => resolve?_upholds h hm (p := p) (v := v)
  cases found : scene.resolve? m p with
  | none => exact plain none nofun
  | some value =>
      have hv := known value found
      cases value with
      | callable id => exact invoke_concur h (h.functions id hv) hargs hhash hb p.source m hm
      | _ =>
          refine plain _ ?_
          rintro _ ⟨rfl⟩
          exact hv

theorem applyCallee_concur (h : scene.Upholds I) {callee : Callee} {args : List Value}
    {hash : Fields} (hargs : ∀ v ∈ args, I.value v) (hhash : I.table hash)
    {b b' : Option Branches} (hb : Option.Rel (Branches.Concur I S) b b') :
    Concur I S I.value (scene.applyCallee callee args hash b)
      (scene.applyCallee callee args hash b') := by
  cases callee with
  | path p => exact applyPath_concur h hargs hhash hb
  | helper name =>
      rw [applyCallee, applyCallee]
      cases found : Table.get? scene.template.helpers name with
      | some helper => exact invoke_concur h (h.helpers name helper found) hargs hhash hb name
      | none =>
          cases found : Table.get? scene.template.blockHelpers name with
          | some helper =>
              refine invokePositional_concur fun v result hv => ?_
              exact h.blockHelpers name helper found v args hash result hv hargs hhash
          | none => exact .throw _

mutual

theorem eval_concur (h : scene.Upholds I) :
    (e : Expr) → Concur I S I.value (scene.eval e) (scene.eval e)
  | .path p => by
      simp only [eval]
      refine .get_bind fun m hm => Concur.pure ?_ m hm
      cases found : scene.resolve? m p with
      | none => exact I.null
      | some v => exact resolve?_upholds h hm found
  | .literal value _ => by
      simp only [eval]
      exact .pure (I.literal value)
  | .call c => by
      simp only [eval]
      exact evalCall_concur h .none c

theorem evalCall_concur (h : scene.Upholds I) {b b' : Option Branches}
    (hb : Option.Rel (Branches.Concur I S) b b') :
    (c : Call) → Concur I S I.value (scene.evalCall b c) (scene.evalCall b' c)
  | ⟨callee, args, hash⟩ => by
      simp only [evalCall]
      exact .bind (evalArgs_concur h args) fun args hargs =>
        .bind (evalHash_concur h hash) fun hash hhash =>
          applyCallee_concur h hargs (I.ofEntries _ hhash) hb

theorem evalArgs_concur (h : scene.Upholds I) :
    (es : List Expr) → Concur I S (fun vs => ∀ v ∈ vs, I.value v) (scene.evalArgs es)
      (scene.evalArgs es)
  | [] => .pure nofun
  | e :: es => by
      simp only [evalArgs]
      exact .bind (eval_concur h e) fun v hv =>
        .bind (evalArgs_concur h es) fun vs hvs => .pure (List.forall_mem_cons.mpr ⟨hv, hvs⟩)

theorem evalHash_concur (h : scene.Upholds I) :
    (hash : List (String × Expr)) → Concur I S (Table.All I.value) (scene.evalHash hash)
      (scene.evalHash hash)
  | [] => .pure nofun
  | (name, e) :: hash => by
      simp only [evalHash]
      exact .bind (eval_concur h e) fun v hv =>
        .bind (evalHash_concur h hash) fun vs hvs => .pure (List.forall_mem_cons.mpr ⟨hv, hvs⟩)

end

theorem lookup_concur (h : scene.Upholds I) (e : Expr) :
    Concur I S I.value (scene.lookup e) (scene.lookup e) := by
  cases e with
  | literal value source => exact eval_concur h _
  | call c => exact eval_concur h _
  | path p =>
      refine .get_bind fun m hm => ?_
      have known := fun v => resolve?_upholds h hm (p := p) (v := v)
      cases found : scene.resolve? m p with
      | none =>
          simp only
          split
          · exact Concur.throw _ m hm
          · exact Concur.pure I.null m hm
      | some value =>
          have hv := known value found
          cases value with
          | callable id =>
              exact invoke_concur h (h.functions id hv) (List.forall_mem_nil _) I.noFields
                .none p.source m hm
          | _ => exact Concur.pure hv m hm

end Scene

/-! ### Sections -/

/-- The special variables of an iteration have distinct names. -/
theorem ofEntries_entryVars (sparse : Bool) (count i : Nat) (key : Value) :
    Table.ofEntries (entryVars sparse count i key) = entryVars sparse count i key := by
  simp [Table.ofEntries, Table.insert, entryVars]

/-- Up to the special variables, the loop of an iteration puts the environment back. -/
theorem iterateFrom_endsStricter (h : Stricter I S ok I.text body body') (names : List String)
    (sparse : Bool) {frames : List Fields} (hf : ∀ vars ∈ frames, I.table vars)
    (count i : Nat) {entries : List (Value × Value)} (he : ∀ e ∈ entries, I.value e.1 ∧ I.value e.2)
    {m : Machine} (henv : (m.env.setFrames frames).Upholds I S) (context : I.value m.context) :
    EndsStricter I ok I.text (Env.setFrames frames) m
      ((iterateFrom names body sparse frames count i entries).run.run m)
      ((iterateFrom names body' sparse frames count i entries).run.run m) := by
  induction entries generalizing i m with
  | nil =>
      refine .inr ⟨rfl, rfl, context, ?_⟩
      rintro _ ⟨rfl⟩
      exact I.empty
  | cons entry entries ih =>
      obtain ⟨key, item⟩ := entry
      obtain ⟨⟨hkey, hitem⟩, he⟩ := List.forall_mem_cons.mp he
      let vars := entryVars sparse count i key
      let enter (env : Env) : Env := (env.setFrames (vars :: frames)).bind names [item, key]
      have hvars : I.table vars := by
        have position : I.value (if sparse then key else .ofNat i) := by
          split
          · exact hkey
          · exact I.number _
        simp only [vars]
        rw [← ofEntries_entryVars]
        refine I.ofEntries _ ?_
        simpa [entryVars, Table.All] using ⟨I.bool _, I.bool _, position, hkey⟩
      have entered : (enter m.env).Upholds I S := by
        have framed : (m.env.setFrames (vars :: frames)).Upholds I S :=
          Env.Upholds.setFrames henv (List.forall_mem_cons.mpr ⟨hvars, hf⟩)
        exact framed.bind names (by simpa using ⟨hitem, hkey⟩)
      have undone (env : Env) :
          ((enter env).unbind names).setFrames frames = env.setFrames frames := by
        simp only [enter, Env.unbind_bind]
        rfl
      have first := h.withContext hitem { m with env := enter m.env } ⟨entered, context⟩
      simp only [iterateFrom]
      refine endsStricter_bind (P := I.text) (first.imp id fun ends =>
        ⟨?_, ?_, ends.context, ends.result⟩) ?_
      · rw [run_within, run_within, ends.same]
      · exact (congrArg (fun env => (Env.unbind names env).setFrames frames) ends.env).trans
          (undone m.env)
      intro text after htext env context
      refine endsStricter_bind (P := I.text) (ih (i + 1) he (by rw [env]; exact henv) context) ?_
      intro rest last hrest env context
      refine .inr ⟨rfl, rfl, context, ?_⟩
      rintro _ ⟨rfl⟩
      exact I.append _ _ htext hrest

theorem iterate_stricter (h : Stricter I S ok I.text body body') (names : List String)
    (sparse : Bool) {entries : List (Value × Value)}
    (he : ∀ e ∈ entries, I.value e.1 ∧ I.value e.2) :
    Stricter I S ok I.text (iterate names body sparse entries) (iterate names body' sparse entries)
    := by
  refine .get_bind fun m hm => ?_
  let begun : Machine := { m with env := m.env.pushScope m.context }
  have loop := iterateFrom_endsStricter h names sparse hm.env.frames entries.length 0 he
    (m := begun) ((hm.env.pushScope hm.context).setFrames hm.env.frames) hm.context
  refine loop.imp id fun loop => ?_
  refine ⟨?_, (congrArg Env.popScope loop.env).trans rfl, loop.context, loop.result⟩
  rw [run_within, run_within]
  simp only [begun] at loop
  rw [loop.same]

theorem renderBound_stricter (h : Stricter I S ok I.text body body') (names : List String)
    {v : Value} (hv : I.value v) :
    Stricter I S ok I.text (renderBound names v body) (renderBound names v body') := by
  refine .within (renderIn_stricter h ?_) (fun env henv => henv.bind names ?_) (Env.unbind_bind _ _)
  · rintro _ ⟨rfl⟩
    exact hv
  · simpa using hv

theorem renderBound_concur (h : Concur I S I.text body body') (names : List String) {v : Value}
    (hv : I.value v) :
    Concur I S I.text (renderBound names v body) (renderBound names v body') := by
  rw [← stricter_false] at h ⊢
  exact renderBound_stricter h names hv

theorem keyedFrom_upholds {items : List Value} (h : ∀ v ∈ items, I.value v) (i : Nat) :
    ∀ e ∈ keyedFrom i items, I.value e.1 ∧ I.value e.2 := by
  induction items generalizing i with
  | nil => exact nofun
  | cons v items ih =>
      obtain ⟨hv, h⟩ := List.forall_mem_cons.mp h
      exact List.forall_mem_cons.mpr ⟨⟨I.number _, hv⟩, ih h (i + 1)⟩

theorem renderSection_stricter (h : Stricter I S ok I.text body body')
    (hi : Option.Rel (Stricter I S ok I.text) inverse inverse') (each : Bool) (names : List String)
    {value : Value} (hv : I.value value) :
    Stricter I S ok I.text (renderSection each names value body inverse)
      (renderSection each names value body' inverse') := by
  have other := renderBranch_stricter hi
  unfold renderSection
  split
  · exact other
  · cases value with
    | array items => exact iterate_stricter h _ _ (keyedFrom_upholds (I.items items hv) 0)
    | iterable id items =>
        exact iterate_stricter h _ _ (keyedFrom_upholds (I.yielded id items hv) 0)
    | object fields =>
        cases each with
        | true =>
            refine iterate_stricter h _ _ fun e member => ?_
            obtain ⟨entry, here, rfl⟩ := List.mem_map.mp member
            exact ⟨I.string _, I.values fields ((I.object fields).mp hv) entry here⟩
        | false => exact renderBound_stricter h _ hv
    | bool b =>
        cases each with
        | true => exact other
        | false =>
            cases b with
            | true => exact h
            | false => exact other
    | null => cases each <;> exact other
    | _ =>
        cases each with
        | true => exact other
        | false => exact h.withContext hv

theorem renderSection_concur (h : Concur I S I.text body body')
    (hi : Option.Rel (Concur I S I.text) inverse inverse') (each : Bool) (names : List String)
    {value : Value} (hv : I.value value) :
    Concur I S I.text (renderSection each names value body inverse)
      (renderSection each names value body' inverse') := by
  rw [← stricter_false] at h hi ⊢
  exact renderSection_stricter h hi each names hv

theorem renderValue_stricter (h : Stricter I S ok I.text body body')
    (hi : Option.Rel (Stricter I S ok I.text) inverse inverse') (inverted : Bool)
    (names : List String) {value : Value} (hv : I.value value) :
    Stricter I S ok I.text (renderValue inverted names value body inverse)
      (renderValue inverted names value body' inverse') := by
  unfold renderValue
  split
  · exact renderSection_stricter h hi _ _ hv
  · split
    · exact h
    · cases hi with
      | none => exact (Concur.pure I.empty).stricter
      | some hi => exact renderSection_stricter hi .none _ _ hv

theorem renderValue_concur (h : Concur I S I.text body body')
    (hi : Option.Rel (Concur I S I.text) inverse inverse') (inverted : Bool) (names : List String)
    {value : Value} (hv : I.value value) :
    Concur I S I.text (renderValue inverted names value body inverse)
      (renderValue inverted names value body' inverse') := by
  rw [← stricter_false] at h hi ⊢
  exact renderValue_stricter h hi inverted names hv

theorem Branches.of_concur (h : Eval.Concur I S I.text body body')
    (hi : Option.Rel (Eval.Concur I S I.text) inverse inverse') (inverted : Bool)
    (params : List String) :
    Branches.Concur I S (Branches.of inverted params body inverse)
      (Branches.of inverted params body' inverse') := by
  cases inverted with
  | true => exact ⟨hi, .some h, rfl⟩
  | false => exact ⟨.some h, hi, rfl⟩

end Stencil
