import Stencil.Render.Plan

/-!
Computations that cannot be told apart.

Two computations of a render call match when, from machines that agree on
everything an expression can see, they end with one result and leave the
environment as they found it. The machines may differ in what they know of
partials, in a way that a relation `R` describes, and every failure is one
that `ok` allows. The rules below follow the operations of the renderer
from single steps up to blocks and inclusions, so a statement about two
renders of a plan only has to say what happens at inclusions.
-/

namespace Stencil

/-- What an environment knows of partials. -/
structure Surroundings where
  inlines : List (Table Plan)
  blocks : List Plan
  blockCount : Nat
  depth : Nat

def Env.surroundings (env : Env) : Surroundings :=
  { inlines := env.inlines, blocks := env.blocks, blockCount := env.blockCount
    depth := env.depth }

/-- Environments that show the same to expressions, and are related in what they
know of partials. -/
structure Env.Like (R : Surroundings → Surroundings → Prop) (e e' : Env) : Prop where
  scopes : e.scopes = e'.scopes
  frames : e.frames = e'.frames
  bindings : e.bindings = e'.bindings
  surroundings : R e.surroundings e'.surroundings

structure Machine.Like (R : Surroundings → Surroundings → Prop) (m m' : Machine) : Prop where
  env : m.env.Like R m'.env
  context : m.context = m'.context

variable {R Q : Surroundings → Surroundings → Prop}

namespace Env.Like

variable {e e' : Env}

theorem pushScope (h : e.Like R e') (v : Value) : (e.pushScope v).Like R (e'.pushScope v) :=
  ⟨congrArg (v :: ·) h.scopes, h.frames, h.bindings, h.surroundings⟩

theorem setFrames (h : e.Like R e') (frames : List Fields) :
    (e.setFrames frames).Like R (e'.setFrames frames) :=
  ⟨h.scopes, rfl, h.bindings, h.surroundings⟩

theorem bind (h : e.Like R e') (names : List String) (values : List Value) :
    (e.bind names values).Like R (e'.bind names values) := by
  rw [Env.bind, Env.bind]
  split
  · exact h
  · exact ⟨h.scopes, h.frames, congrArg (_ :: ·) h.bindings, h.surroundings⟩

theorem enter (h : e.Like R e') (call : BranchCall) (names : List String) :
    (call.enter names e).Like R (call.enter names e') := by
  rw [BranchCall.enter, BranchCall.enter]
  cases call.data with
  | none => exact h.bind _ _
  | some vars =>
      simp only [h.frames]
      exact (h.setFrames _).bind _ _

end Env.Like

theorem Machine.Like.mono {m m' after after' : Machine} (h : m.Like R m')
    (left : after.env = m.env) (right : after'.env = m'.env)
    (context : after.context = after'.context) : after.Like R after' :=
  ⟨by rw [left, right]; exact h.env, context⟩

/-! ### The way back -/

namespace Env

@[simp] theorem popScope_pushScope (v : Value) (env : Env) : (env.pushScope v).popScope = env := rfl

@[simp] theorem unbind_bind (names : List String) (values : List Value) (env : Env) :
    (env.bind names values).unbind names = env := by
  rw [bind, unbind]
  split <;> rfl

@[simp] theorem popInlines_pushInlines (layer : Table Plan) (env : Env) :
    (env.pushInlines layer).popInlines layer = env := by
  rw [pushInlines, popInlines]
  split <;> rfl

@[simp] theorem leave_enter (block : Option Plan) (env : Env) :
    (env.enter block).leave block = env := by
  cases block with
  | none => rfl
  | some block =>
      simp only [enter, leave, pushInlines, popInlines]
      split <;> rfl

theorem restoreBlock_dropBlock {env : Env} {block : Plan} {blocks : List Plan}
    (h : env.blocks = block :: blocks) : env.dropBlock.restoreBlock block = env := by
  simp only [dropBlock, restoreBlock, h, List.tail_cons]
  rw [← h]

end Env

theorem BranchCall.leave_enter (call : BranchCall) (names : List String) (env : Env) :
    call.leave names env.frames (call.enter names env) = env := by
  rw [enter, leave]
  cases call.data <;> simp [Env.setFrames]

/-! ### Matching -/

/-- The ends of two runs that started in `m` and `m'`: one result, which is allowed,
one context, and the environments, seen through `view`, as they were. -/
structure EndsAlike {α : Type} (view : Env → Env) (ok : RenderError → Prop) (m m' : Machine)
    (r r' : Except RenderError α × Machine) : Prop where
  result : r.1 = r'.1
  allowed : ∀ e, r.1 = .error e → ok e
  left : view r.2.env = view m.env
  right : view r'.2.env = view m'.env
  context : r.2.context = r'.2.context

namespace Eval

variable {α β : Type} {ok : RenderError → Prop} {a b : Eval α}

/-- The computations end alike from two given machines. -/
def MatchesAt (ok : RenderError → Prop) (m m' : Machine) (a b : Eval α) : Prop :=
  EndsAlike id ok m m' (a.run.run m) (b.run.run m')

/-- The computations end alike from all related machines. -/
def Matches (R : Surroundings → Surroundings → Prop) (ok : RenderError → Prop) (a b : Eval α) :
    Prop :=
  ∀ m m', m.Like R m' → MatchesAt ok m m' a b

theorem run_bind (a : Eval α) (f : α → Eval β) (m : Machine) :
    (a >>= f).run.run m =
      match a.run.run m with
      | (.ok x, after) => (f x).run.run after
      | (.error e, after) => (.error e, after) := by
  change (ExceptT.bindCont f (a.run.run m).1).run (a.run.run m).2 = _
  generalize a.run.run m = r
  obtain ⟨result, after⟩ := r
  cases result <;> rfl

theorem run_get_bind (f : Machine → Eval α) (m : Machine) :
    (get >>= f).run.run m = (f m).run.run m :=
  rfl

theorem run_within (enter leave : Env → Env) (a : Eval α) (m : Machine) :
    (within enter leave a).run.run m =
      ((a.run.run { m with env := enter m.env }).1,
        { (a.run.run { m with env := enter m.env }).2 with
          env := leave (a.run.run { m with env := enter m.env }).2.env }) :=
  rfl

theorem run_withContext (context : Value) (a : Eval α) (m : Machine) :
    (withContext context a).run.run m =
      ((a.run.run { m with context }).1,
        { (a.run.run { m with context }).2 with context := m.context }) :=
  rfl

/-- Behind two runs that end alike, two continuations end alike if they do from
the machines that are left. -/
theorem endsAlike_bind {view : Env → Env} {m m' : Machine} {f g : α → Eval β}
    (h : EndsAlike view ok m m' (a.run.run m) (b.run.run m'))
    (next : ∀ x after after', view after.env = view m.env → view after'.env = view m'.env →
      after.context = after'.context →
        EndsAlike view ok after after' ((f x).run.run after) ((g x).run.run after')) :
    EndsAlike view ok m m' ((a >>= f).run.run m) ((b >>= g).run.run m') := by
  rw [run_bind, run_bind]
  generalize a.run.run m = r at h
  generalize b.run.run m' = r' at h
  obtain ⟨result, after⟩ := r
  obtain ⟨result', after'⟩ := r'
  obtain ⟨rfl, allowed, left, right, context⟩ := h
  cases result with
  | error e =>
      refine ⟨rfl, ?_, left, right, context⟩
      intro e' he
      cases he
      exact allowed e rfl
  | ok x =>
      have h := next x after after' left right context
      exact ⟨h.result, h.allowed, h.left.trans left, h.right.trans right, h.context⟩

namespace Matches

theorem pure (x : α) : Matches R ok (Pure.pure x) (Pure.pure x) := by
  intro m m' like
  exact ⟨rfl, nofun, rfl, rfl, like.context⟩

theorem throw {e : RenderError} (h : ok e) :
    Matches R ok (throw e : Eval α) (MonadExcept.throw e) := by
  intro m m' like
  refine ⟨rfl, ?_, rfl, rfl, like.context⟩
  intro e' he
  cases he
  exact h

theorem bind {f g : α → Eval β} (h : Matches R ok a b) (next : ∀ x, Matches R ok (f x) (g x)) :
    Matches R ok (a >>= f) (b >>= g) := by
  intro m m' like
  apply endsAlike_bind (h m m' like)
  intro x after after' left right context
  exact next x after after' (like.mono left right context)

/-- Computations that look at the machine first. -/
theorem get_bind {f g : Machine → Eval α}
    (h : ∀ m m', m.Like R m' → MatchesAt ok m m' (f m) (g m')) :
    Matches R ok (get >>= f) (get >>= g) :=
  fun m m' like => h m m' like

theorem addEvent (e e' : Event) : Matches R ok (Eval.addEvent e) (Eval.addEvent e') := by
  intro m m' like
  exact ⟨rfl, nofun, rfl, rfl, like.context⟩

theorem setContext (v : Value) :
    Matches R ok (modify fun m => { m with context := v }) (modify fun m => { m with context := v })
    := by
  intro m m' _
  exact ⟨rfl, nofun, rfl, rfl, rfl⟩

theorem withContext (h : Matches R ok a b) (v : Value) :
    Matches R ok (Eval.withContext v a) (Eval.withContext v b) := by
  intro m m' like
  have h := h { m with context := v } { m' with context := v } ⟨like.env, rfl⟩
  exact ⟨h.result, h.allowed, h.left, h.right, like.context⟩

/-- The outcome of a computation as a value; what looks at it knows that a failure
is allowed. -/
theorem attempt_bind {f g : Except RenderError α → Eval β} (h : Matches R ok a b)
    (next : ∀ answer, (∀ e, answer = .error e → ok e) → Matches R ok (f answer) (g answer)) :
    Matches R ok (attempt a >>= f) (attempt b >>= g) := by
  intro m m' like
  have h := h m m' like
  have step := next (a.run.run m).1 h.allowed (a.run.run m).2 (b.run.run m').2
    (like.mono h.left h.right h.context)
  change EndsAlike id ok m m' ((f (a.run.run m).1).run.run (a.run.run m).2)
    ((g (b.run.run m').1).run.run (b.run.run m').2)
  rw [← h.result]
  exact ⟨step.result, step.allowed, step.left.trans h.left, step.right.trans h.right,
    step.context⟩

end Matches

/-- A change of the environment that is taken back matches another one if the
computations match in between. -/
theorem MatchesAt.within {m m' : Machine} {enter leave enter' leave' : Env → Env}
    (h : MatchesAt ok { m with env := enter m.env } { m' with env := enter' m'.env } a b)
    (left : leave (enter m.env) = m.env) (right : leave' (enter' m'.env) = m'.env) :
    MatchesAt ok m m' (Eval.within enter leave a) (Eval.within enter' leave' b) :=
  ⟨h.result, h.allowed, (congrArg leave h.left).trans left,
    (congrArg leave' h.right).trans right, h.context⟩

/-- An entry in the journal makes no difference. -/
theorem MatchesAt.event_left {m m' : Machine} {e : Event}
    (h : MatchesAt ok { m with events := e :: m.events } m' a b) :
    MatchesAt ok m m' (Eval.addEvent e >>= fun _ => a) b :=
  ⟨h.result, h.allowed, h.left, h.right, h.context⟩

theorem MatchesAt.get_left {m m' : Machine} {f : Machine → Eval α}
    (h : MatchesAt ok m m' (f m) b) : MatchesAt ok m m' (get >>= f) b :=
  h

theorem MatchesAt.get_right {m m' : Machine} {f : Machine → Eval α}
    (h : MatchesAt ok m m' a (f m')) : MatchesAt ok m m' a (get >>= f) :=
  h

theorem MatchesAt.event_right {m m' : Machine} {e : Event}
    (h : MatchesAt ok m { m' with events := e :: m'.events } a b) :
    MatchesAt ok m m' a (Eval.addEvent e >>= fun _ => b) :=
  ⟨h.result, h.allowed, h.left, h.right, h.context⟩

theorem Matches.within {enter leave enter' leave' : Env → Env} (h : Matches Q ok a b)
    (enters : ∀ e e' : Env, e.Like R e' → (enter e).Like Q (enter' e'))
    (left : ∀ e, leave (enter e) = e) (right : ∀ e, leave' (enter' e) = e) :
    Matches R ok (Eval.within enter leave a) (Eval.within enter' leave' b) := by
  intro m m' like
  refine MatchesAt.within ?_ (left _) (right _)
  exact h _ _ ⟨enters _ _ like.env, like.context⟩

end Eval

end Stencil
