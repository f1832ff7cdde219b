import Stencil.Proofs.Render.Coverage
import Stencil.Proofs.Render.Restoration

/-!
What a plan asks of its surroundings.

A plan asks for the names that its paths start at, unless a block of its own binds them, and for the
block that it was handed if it shows it; through the partials that it includes it asks for what they
ask for. Two machines serve a plan alike when they have everything in common but what the plan does
not ask for. A computation heeds some needs if from machines that serve these alike it ends alike:
with one result, one context and one journal. Expressions heed the names that they read, and helpers
see neither names nor blocks.
-/

namespace Stencil

open Eval

/-- What a plan may ask of the place where it is rendered. -/
inductive Need
  /-- What a name is bound to. -/
  | name (name : String)
  /-- The block that was handed over. -/
  | block

/-! ### What is read -/

/-- The name that a path starts at, unless it starts at a special variable or further out. -/
def Path.name? (p : Path) : Option String :=
  if p.special || p.levels > 0 then none else p.segments.head?

def Callee.names : Callee → List String
  | .helper _ => []
  | .path p => p.name?.toList

mutual

/-- The names that an expression reads. -/
def Expr.names : Expr → List String
  | .path p => p.name?.toList
  | .literal _ _ => []
  | .call c => Call.names c

def Call.names : Call → List String
  | ⟨callee, args, hash⟩ => callee.names ++ Expr.namesOfArgs args ++ Expr.namesOfHash hash

def Expr.namesOfArgs : List Expr → List String
  | [] => []
  | e :: es => Expr.names e ++ Expr.namesOfArgs es

def Expr.namesOfHash : List (String × Expr) → List String
  | [] => []
  | (_, e) :: hash => Expr.names e ++ Expr.namesOfHash hash

end

/-- The names that the subject of a block reads. -/
def BlockKind.names : BlockKind → List String
  | .condition subject includeZero _ => subject.names ++ includeZero.elim [] Expr.names
  | .context subject => subject.names
  | .each subject => subject.names
  | .value subject _ => subject.names
  | .helper call _ _ => call.names

/-- The parameters that are bound whenever the body is rendered. A section about a value may render
it without, and so may a helper. -/
def BlockKind.bound (params : List String) : BlockKind → List String
  | .context _ => params.take 1
  | .each _ => params.take 2
  | _ => []

/-- The names that the context and the named arguments of an inclusion read. -/
def Inclusion.names (call : Inclusion) : List String :=
  call.context.elim [] Expr.names ++ Expr.namesOfHash call.hash

def Target.needs : Target → List Need
  | .dynamic e => e.names.map .name
  | .partialBlock => [.block]
  | _ => []

/-- What a node asks for by itself. -/
def Node.needs : Node → List Need
  | .lookup e _ => e.names.map .name
  | .helper call _ => call.names.map .name
  | .block kind _ _ _ => kind.names.map .name
  | .inclusion call target _ => call.names.map .name ++ target.needs
  | _ => []

/-- The plan is one that the target stands for; `found` tells which plans may be found by name. -/
inductive Target.Includes (found : String → Plan → Prop) : Target → Plan → Prop
  | embedded (plan : Plan) : Includes found (.embedded plan) plan
  | named {name : String} {plan : Plan} (h : found name plan) : Includes found (.named name) plan
  | dynamic (e : Expr) {name : String} {plan : Plan} (h : found name plan) :
      Includes found (.dynamic e) plan

/-- The plan asks for something, by itself or through what it includes. -/
inductive Plan.Asks (found : String → Plan → Prop) (need : Need) : Plan → Prop
  | own {plan : Plan} {node : Node} (member : node ∈ plan) (needs : need ∈ node.needs) :
      Asks found need plan
  /-- In the body the parameters of the block hide what the same names meant outside. -/
  | body {plan body : Plan} {kind : BlockKind} {inverse : Option Plan} {params : List String}
      (member : .block kind body inverse params ∈ plan)
      (free : ∀ name ∈ kind.bound params, need ≠ .name name) (inside : Asks found need body) :
      Asks found need plan
  | inverse {plan body inverse : Plan} {kind : BlockKind} {params : List String}
      (member : .block kind body (some inverse) params ∈ plan) (inside : Asks found need inverse) :
      Asks found need plan
  /-- The block of an inclusion knows what is known where it stands. -/
  | block {plan block : Plan} {call : Inclusion} {target : Target}
      (member : .inclusion call target (some block) ∈ plan) (inside : Asks found need block) :
      Asks found need plan
  /-- A partial knows every binding that is known where it is included. -/
  | included {plan inner : Plan} {call : Inclusion} {target : Target} {block : Option Plan}
      (member : .inclusion call target block ∈ plan) (includes : target.Includes found inner)
      (without : need = .block → block = none) (inside : Asks found need inner) :
      Asks found need plan

/-- The plan is part of a node of another one. -/
inductive Plan.HasPart (plan : Plan) : Plan → Prop
  | body {body : Plan} {kind : BlockKind} {inverse : Option Plan} {params : List String}
      (member : .block kind body inverse params ∈ plan) : HasPart plan body
  | inverse {body inverse : Plan} {kind : BlockKind} {params : List String}
      (member : .block kind body (some inverse) params ∈ plan) : HasPart plan inverse
  | embedded {inner : Plan} {call : Inclusion} {block : Option Plan}
      (member : .inclusion call (.embedded inner) block ∈ plan) : HasPart plan inner
  | block {block : Plan} {call : Inclusion} {target : Target}
      (member : .inclusion call target (some block) ∈ plan) : HasPart plan block
  | inlineDef {inner : Plan} {name : String} (member : .inlineDef name inner ∈ plan) :
      HasPart plan inner

/-! ### Machines that serve alike -/

/-- Which plans a render may come to, and which it may find by a name. -/
structure Stock where
  known : Plan → Prop
  found : String → Plan → Prop

/-- Rendering the known plans leads to known plans only. -/
structure Stock.Closed (S : Stock) (scene : Scene) : Prop where
  registered : ∀ name plan, Table.get? scene.template.partials name = some plan → S.found name plan
  known_of_found : ∀ name plan, S.found name plan → S.known plan
  part : ∀ plan inner, S.known plan → plan.HasPart inner → S.known inner
  defined : ∀ plan name inner, S.known plan → .inlineDef name inner ∈ plan → S.found name inner

/-- Blocks that show the same, as far as they are shown: behind one that does not show the next one
anything may follow. `agree` tells for which names the bindings agree. -/
inductive BlocksServe (S : Stock) (agree : String → Prop) : List Plan → List Plan → Prop
  | nil : BlocksServe S agree [] []
  | cons {block : Plan} {blocks blocks' : List Plan} (known : S.known block)
      (names : ∀ name, block.Asks S.found (.name name) → agree name)
      (rest : block.Asks S.found .block → BlocksServe S agree blocks blocks') :
      BlocksServe S agree (block :: blocks) (block :: blocks')

theorem BlocksServe.mono {S : Stock} {agree agree' : String → Prop} {blocks blocks' : List Plan}
    (h : BlocksServe S agree blocks blocks') (more : ∀ name, agree name → agree' name) :
    BlocksServe S agree' blocks blocks' := by
  induction h with
  | nil => exact .nil
  | cons known names _ ih => exact .cons known (fun name asks => more name (names name asks)) ih

theorem BlocksServe.self {S : Stock} {agree : String → Prop} {blocks : List Plan}
    (known : ∀ block ∈ blocks, S.known block)
    (names : ∀ block ∈ blocks, ∀ name, block.Asks S.found (.name name) → agree name) :
    BlocksServe S agree blocks blocks := by
  induction blocks with
  | nil => exact .nil
  | cons block blocks ih =>
      obtain ⟨first, others⟩ := List.forall_mem_cons.mp known
      obtain ⟨firstNames, otherNames⟩ := List.forall_mem_cons.mp names
      exact .cons first firstNames fun _ => ih others otherNames

/-- Environments that differ only in what is not needed. -/
structure Env.Serves (S : Stock) (needs : Need → Prop) (e e' : Env) : Prop where
  scopes : e.scopes = e'.scopes
  frames : e.frames = e'.frames
  depth : e.depth = e'.depth
  inlines : e.inlines = e'.inlines
  visible : ∀ layer ∈ e.inlines, ∀ name plan, Table.get? layer name = some plan → S.found name plan
  names : ∀ name, needs (.name name) → e.binding? name = e'.binding? name
  blocks : needs .block →
    BlocksServe S (fun name => e.binding? name = e'.binding? name) e.blocks e'.blocks
  active : needs .block → (e.blockCount = 0 ↔ e'.blockCount = 0)

structure Machine.Serves (S : Stock) (needs : Need → Prop) (m m' : Machine) : Prop where
  env : m.env.Serves S needs m'.env
  context : m.context = m'.context
  events : m.events = m'.events

/-- The needs with these names added. -/
def Need.binding (needs : Need → Prop) (names : List String) (need : Need) : Prop :=
  needs need ∨ ∃ name ∈ names, need = .name name

theorem Need.binding_nil {needs : Need → Prop} {need : Need} (h : Need.binding needs [] need) :
    needs need := by
  obtain h | ⟨_, ⟨⟩, -⟩ := h
  exact h

variable {S : Stock} {needs needs' : Need → Prop}

/-! ### Bindings -/

theorem exists_mem_zip {names : List String} {values : List Value} {name : String}
    (h : name ∈ names.take values.length) : ∃ v, (name, v) ∈ names.zip values := by
  induction names generalizing values with
  | nil =>
      rw [List.take_nil] at h
      cases h
  | cons first names ih =>
      cases values with
      | nil => cases h
      | cons v values =>
          rcases List.mem_cons.mp h with rfl | later
          · exact ⟨v, .head _⟩
          · obtain ⟨w, member⟩ := ih later
            exact ⟨w, .tail _ member⟩

/-- Behind a binding a name means what is bound to it, or else what it meant before. -/
theorem Env.binding?_bind (env : Env) (names : List String) (values : List Value) (name : String) :
    (env.bind names values).binding? name =
      (Table.get? (Table.ofEntries (names.zip values)) name).or (env.binding? name) := by
  rw [Env.bind]
  split
  · next none =>
    rw [List.isEmpty_iff.mp none]
    rfl
  · rw [Env.binding?, List.findSome?_cons]
    cases Table.get? (Table.ofEntries (names.zip values)) name <;> rfl

/-- A name that is bound means the same wherever the binding is made. -/
theorem Env.binding?_bind_of_mem (e e' : Env) {names : List String} {values : List Value}
    {name : String} (bound : name ∈ names.take values.length) :
    (e.bind names values).binding? name = (e'.bind names values).binding? name := by
  obtain ⟨v, member⟩ := exists_mem_zip bound
  obtain ⟨w, found⟩ := Option.isSome_iff_exists.mp (Table.isSome_get?_ofEntries member)
  rw [Env.binding?_bind, Env.binding?_bind, found, Option.some_or, Option.some_or]

namespace Env.Serves

variable {e e' : Env}

theorem mono (h : e.Serves S needs e') (fewer : ∀ need, needs' need → needs need) :
    e.Serves S needs' e' where
  scopes := h.scopes
  frames := h.frames
  depth := h.depth
  inlines := h.inlines
  visible := h.visible
  names name asked := h.names name (fewer _ asked)
  blocks asked := h.blocks (fewer _ asked)
  active asked := h.active (fewer _ asked)

theorem pushScope (h : e.Serves S needs e') (v : Value) :
    (e.pushScope v).Serves S needs (e'.pushScope v) :=
  { h with scopes := congrArg (v :: ·) h.scopes }

theorem setFrames (h : e.Serves S needs e') (frames : List Fields) :
    (e.setFrames frames).Serves S needs (e'.setFrames frames) :=
  { h with frames := rfl }

theorem special?_eq (h : e.Serves S needs e') (outer : Nat) (name : String) :
    e.special? outer name = e'.special? outer name := by
  rw [Env.special?, Env.special?, h.frames]

theorem scope?_eq (h : e.Serves S needs e') (levels : Nat) :
    e.scope? levels = e'.scope? levels := by
  rw [Env.scope?, Env.scope?, h.scopes]

theorem pushInlines (h : e.Serves S needs e') {layer : Table Plan}
    (found : ∀ name plan, Table.get? layer name = some plan → S.found name plan) :
    (e.pushInlines layer).Serves S needs (e'.pushInlines layer) := by
  rw [Env.pushInlines, Env.pushInlines]
  split
  · exact h
  · exact
      { h with
        inlines := congrArg (layer :: ·) h.inlines
        visible := List.forall_mem_cons.mpr ⟨found, h.visible⟩ }

/-- Behind a binding the names that it binds agree in any case. -/
theorem bind (names : List String) (values : List Value) (h : e.Serves S needs e')
    (fewer : ∀ need, needs' need → Need.binding needs (names.take values.length) need) :
    (e.bind names values).Serves S needs' (e'.bind names values) := by
  have agree (name : String) (same : e.binding? name = e'.binding? name) :
      (e.bind names values).binding? name = (e'.bind names values).binding? name := by
    rw [binding?_bind, binding?_bind, same]
  have block (asked : needs' .block) : needs .block := by
    obtain asked | ⟨_, -, ⟨⟩⟩ := fewer _ asked
    exact asked
  have names' (name : String) (asked : needs' (.name name)) :
      (e.bind names values).binding? name = (e'.bind names values).binding? name := by
    obtain asked | ⟨_, bound, ⟨⟩⟩ := fewer _ asked
    · exact agree name (h.names name asked)
    · exact binding?_bind_of_mem e e' bound
  have blocks (asked : needs' .block) := (h.blocks (block asked)).mono agree
  have active (asked : needs' .block) := h.active (block asked)
  revert names' blocks
  rw [Env.bind, Env.bind]
  split
  · exact fun names' blocks => { h with names := names', blocks, active }
  · exact fun names' blocks => { h with names := names', blocks, active }

/-- What the branch of a helper asks for is served as outside. -/
theorem enterBranch (h : e.Serves S needs e') (call : BranchCall) (names : List String) :
    (call.enter names e).Serves S needs (call.enter names e') := by
  rw [BranchCall.enter, BranchCall.enter]
  cases call.data with
  | none => exact h.bind _ _ fun _ asked => .inl asked
  | some vars =>
      simp only [h.frames]
      exact (h.setFrames _).bind _ _ fun _ asked => .inl asked

/-- A partial is served with what it asks for, and shows the block that it is given, which asks for
what is needed outside. -/
theorem enter {scene : Scene} (closed : S.Closed scene) (h : e.Serves S needs e')
    {block : Option Plan} (given : ∀ b, block = some b → S.known b ∧
      ∀ need, b.Asks S.found need → needs need)
    (names : ∀ name, needs' (.name name) → needs (.name name))
    (without : needs' .block → block = none → needs .block) :
    (e.enter block).Serves S needs' (e'.enter block) := by
  cases block with
  | none =>
      exact
        { scopes := h.scopes
          frames := h.frames
          depth := congrArg (· + 1) h.depth
          inlines := h.inlines
          visible := h.visible
          names := fun name asked => h.names name (names name asked)
          blocks := fun asked => h.blocks (without asked rfl)
          active := fun asked => h.active (without asked rfl) }
  | some b =>
      obtain ⟨known, asks⟩ := given b rfl
      have layered := h.pushInlines fun name plan found =>
        closed.defined b name plan known (mem_of_inlineDefs found)
      exact
        { scopes := layered.scopes
          frames := layered.frames
          depth := congrArg (· + 1) layered.depth
          inlines := layered.inlines
          visible := layered.visible
          names := fun name asked => layered.names name (names name asked)
          blocks := fun _ => .cons known (fun name asked => layered.names name (asks _ asked))
            fun asked => layered.blocks (asks _ asked)
          active := fun _ => iff_of_false (Nat.succ_ne_zero _) (Nat.succ_ne_zero _) }

end Env.Serves

/-! ### Computations that heed needs -/

/-- The ends of two runs from `m` and `m'`: one result, one context and one journal, and the
environments, seen through `view`, as they were. -/
structure EndsTogether {α : Type} (view : Env → Env) (m m' : Machine)
    (r r' : Except RenderError α × Machine) : Prop where
  result : r.1 = r'.1
  context : r.2.context = r'.2.context
  events : r.2.events = r'.2.events
  left : view r.2.env = view m.env
  right : view r'.2.env = view m'.env

namespace Eval

variable {α β : Type} {a b : Eval α} {m m' : Machine}

/-- The computations end together from two given machines. -/
def Together (m m' : Machine) (a b : Eval α) : Prop :=
  EndsTogether id m m' (a.run.run m) (b.run.run m')

/-- From machines that serve the needs alike the computation ends together with itself. -/
def Heeds (S : Stock) (needs : Need → Prop) (a : Eval α) : Prop :=
  ∀ m m', m.Serves S needs m' → Together m m' a a

theorem endsTogether_bind {view : Env → Env} {f g : α → Eval β}
    (h : EndsTogether view m m' (a.run.run m) (b.run.run m'))
    (next : ∀ x after after', view after.env = view m.env → view after'.env = view m'.env →
      after.context = after'.context → after.events = after'.events →
        EndsTogether view after after' ((f x).run.run after) ((g x).run.run after')) :
    EndsTogether view m m' ((a >>= f).run.run m) ((b >>= g).run.run m') := by
  rw [run_bind, run_bind]
  generalize a.run.run m = r at h
  generalize b.run.run m' = r' at h
  obtain ⟨result, after⟩ := r
  obtain ⟨result', after'⟩ := r'
  obtain ⟨rfl, context, events, left, right⟩ := h
  cases result with
  | error e => exact ⟨rfl, context, events, left, right⟩
  | ok x =>
      have h := next x after after' left right context events
      exact ⟨h.result, h.context, h.events, h.left.trans left, h.right.trans right⟩

theorem Together.within {enter leave enter' leave' : Env → Env}
    (h : Together { m with env := enter m.env } { m' with env := enter' m'.env } a b)
    (left : leave (enter m.env) = m.env) (right : leave' (enter' m'.env) = m'.env) :
    Together m m' (Eval.within enter leave a) (Eval.within enter' leave' b) :=
  ⟨h.result, h.context, h.events, (congrArg leave h.left).trans left,
    (congrArg leave' h.right).trans right⟩

namespace Heeds

theorem mono (h : Heeds S needs a) (more : ∀ need, needs need → needs' need) : Heeds S needs' a :=
  fun m m' serves => h m m' ⟨serves.env.mono more, serves.context, serves.events⟩

theorem pure (x : α) : Heeds S needs (Pure.pure x : Eval α) :=
  fun _ _ serves => ⟨rfl, serves.context, serves.events, rfl, rfl⟩

theorem throw (e : RenderError) : Heeds S needs (throw e : Eval α) :=
  fun _ _ serves => ⟨rfl, serves.context, serves.events, rfl, rfl⟩

theorem bind {f : α → Eval β} (h : Heeds S needs a) (next : ∀ x, Heeds S needs (f x)) :
    Heeds S needs (a >>= f) := by
  intro m m' serves
  refine endsTogether_bind (h m m' serves) fun x after after' left right context events => ?_
  have left : after.env = m.env := left
  have right : after'.env = m'.env := right
  refine next x after after' ⟨?_, context, events⟩
  rw [left, right]
  exact serves.env

/-- Computations that look at the machine first. -/
theorem get_bind {f : Machine → Eval α}
    (h : ∀ m m', m.Serves S needs m' → Together m m' (f m) (f m')) :
    Heeds S needs (get >>= f) :=
  fun m m' serves => h m m' serves

theorem addEvent (e : Event) : Heeds S needs (Eval.addEvent e) :=
  fun _ _ serves => ⟨rfl, serves.context, congrArg (e :: ·) serves.events, rfl, rfl⟩

theorem setContext (v : Value) :
    Heeds S needs (modify fun m => { m with context := v } : Eval Unit) :=
  fun _ _ serves => ⟨rfl, rfl, serves.events, rfl, rfl⟩

theorem withContext (h : Heeds S needs a) (v : Value) : Heeds S needs (Eval.withContext v a) := by
  intro m m' serves
  have h := h { m with context := v } { m' with context := v } ⟨serves.env, rfl, serves.events⟩
  exact ⟨h.result, serves.context, h.events, h.left, h.right⟩

theorem within {enter leave : Env → Env} (h : Heeds S needs' a)
    (enters : ∀ e e' : Env, e.Serves S needs e' → (enter e).Serves S needs' (enter e'))
    (back : ∀ e, leave (enter e) = e) : Heeds S needs (Eval.within enter leave a) :=
  fun _ _ serves =>
    .within (h _ _ ⟨enters _ _ serves.env, serves.context, serves.events⟩) (back _) (back _)

theorem attempt_bind {f : Except RenderError α → Eval β} (h : Heeds S needs a)
    (next : ∀ answer, Heeds S needs (f answer)) : Heeds S needs (attempt a >>= f) := by
  intro m m' serves
  have h := h m m' serves
  have left : (a.run.run m).2.env = m.env := h.left
  have right : (a.run.run m').2.env = m'.env := h.right
  have step := next (a.run.run m).1 (a.run.run m).2 (a.run.run m').2
    ⟨by rw [left, right]; exact serves.env, h.context, h.events⟩
  change EndsTogether id m m' ((f (a.run.run m).1).run.run (a.run.run m).2)
    ((f (a.run.run m').1).run.run (a.run.run m').2)
  rw [← h.result]
  exact ⟨step.result, step.context, step.events, step.left.trans h.left, step.right.trans h.right⟩

end Heeds

end Eval

/-! ### Branches and helpers -/

/-- What is not given has every property. -/
theorem of_missing {α : Type} {p : α → Prop} (a : α) (h : none = some a) : p a := by
  cases h

/-- The branches that there are heed the needs. -/
structure Branches.Heed (S : Stock) (needs : Need → Prop) (b : Branches) : Prop where
  body : ∀ body, b.body = some body → Heeds S needs body
  inverse : ∀ inverse, b.inverse = some inverse → Heeds S needs inverse

theorem Branches.Heed.empty : Branches.Heed S needs {} :=
  ⟨of_missing, of_missing⟩

theorem renderIn_heeds {body : Eval String} (h : Heeds S needs body) (context : Option Value) :
    Heeds S needs (renderIn context body) := by
  cases context with
  | none => exact h
  | some v =>
      refine .get_bind fun m m' serves => ?_
      simp only [← serves.context]
      split
      · exact h m m' serves
      · exact Heeds.within (h.withContext v) (fun e e' outer => outer.pushScope _)
          (Env.popScope_pushScope _) m m' serves

theorem renderBranch_heeds {b : Option (Eval String)}
    (h : ∀ body, b = some body → Heeds S needs body) : Heeds S needs (renderBranch b) := by
  cases b with
  | none => exact .pure ""
  | some body => exact h body rfl

theorem Branches.render_heeds {b : Branches} (h : b.Heed S needs) (call : BranchCall) :
    Heeds S needs (b.render call) := by
  have chosen : ∀ body, b.branch? call.branch = some body → Heeds S needs body := by
    cases call.branch with
    | body => exact h.body
    | inverse => exact h.inverse
  rw [Branches.render]
  cases found : b.branch? call.branch with
  | none => exact .pure ""
  | some body =>
      refine .get_bind fun m m' serves => ?_
      refine .within ?_ (call.leave_enter _ _) (call.leave_enter _ _)
      exact renderIn_heeds (chosen body found) call.context _ _
        ⟨serves.env.enterBranch _ _, serves.context, serves.events⟩

/-- What a helper asks for is neither a name nor a block. -/
theorem Action.run_heeds (scene : Scene) {b : Branches} (h : b.Heed S needs) {α : Type}
    (action : Action α) : Heeds S needs (action.run scene b) := by
  induction action with
  | done result => exact .pure _
  | fail cause => exact .pure _
  | render call next ih => exact .attempt_bind (b.render_heeds h call) ih
  | getContext next ih =>
      refine .get_bind fun m m' serves => ?_
      rw [← serves.context]
      exact ih _ m m' serves
  | setContext v next ih => exact .bind (.setContext v) fun _ => ih
  | getContexts next ih =>
      refine .get_bind fun m m' serves => ?_
      rw [← serves.context, ← serves.env.scopes]
      exact ih _ m m' serves
  | getData name next ih =>
      refine .get_bind fun m m' serves => ?_
      have same : scene.data? m.env name = scene.data? m'.env name := by
        rw [Scene.data?, Scene.data?, serves.env.special?_eq]
      rw [← same]
      exact ih _ m m' serves
  | log level message next ih => exact .bind (.addEvent _) fun _ => ih

namespace Scene

variable (scene : Scene)

theorem invoke_heeds (name : String) (helper : Helper) (args : List Value) (hash : Fields)
    {branches : Option Branches} (h : ∀ b, branches = some b → b.Heed S needs) :
    Heeds S needs (scene.invoke name helper args hash branches) := by
  have given : (branches.getD {}).Heed S needs := by
    cases branches with
    | none => exact .empty
    | some b => exact h b rfl
  refine .bind (.addEvent _) fun _ => .bind (Action.run_heeds scene given _) fun answer => ?_
  cases answer with
  | ok value => exact .pure value
  | error cause => exact .throw _

theorem invokePositional_heeds (name : String) (helper : BlockHelper) (args : List Value)
    (hash : Fields) : Heeds S needs (invokePositional name helper args hash) := by
  refine .get_bind fun m m' serves => ?_
  rw [← serves.context]
  cases helper m.context args hash with
  | ok value => exact Heeds.pure value m m' serves
  | error cause => exact Heeds.throw _ m m' serves

/-! ### Expressions -/

theorem start?_serves {m m' : Machine} {p : Path} (serves : m.Serves S needs m')
    (names : ∀ name ∈ p.name?, needs (.name name)) : scene.start? m p = scene.start? m' p := by
  unfold start?
  rw [← serves.context]
  simp only [← serves.env.special?_eq, ← serves.env.scope?_eq]
  split
  · rfl
  split
  · rfl
  · next plain near =>
    cases here : p.segments with
    | nil => rfl
    | cons name segments =>
        have own : p.name? = some name := by simp [Path.name?, plain, near, here]
        simp only [serves.env.names name (names name own)]

theorem resolve?_serves {m m' : Machine} {p : Path} (serves : m.Serves S needs m')
    (names : ∀ name ∈ p.name?, needs (.name name)) : scene.resolve? m p = scene.resolve? m' p := by
  rw [resolve?, resolve?, scene.start?_serves serves names]

theorem applyCallee_heeds {callee : Callee} (names : ∀ name ∈ callee.names, needs (.name name))
    (args : List Value) (hash : Fields) {branches : Option Branches}
    (h : ∀ b, branches = some b → b.Heed S needs) :
    Heeds S needs (scene.applyCallee callee args hash branches) := by
  cases callee with
  | helper name =>
      rw [applyCallee]
      cases Table.get? scene.template.helpers name with
      | some helper => exact scene.invoke_heeds name helper args hash h
      | none =>
          cases Table.get? scene.template.blockHelpers name with
          | some helper => exact invokePositional_heeds name helper args hash
          | none => exact .throw _
  | path p =>
      have read : ∀ name ∈ p.name?, needs (.name name) := fun name here =>
        names name (Option.mem_toList.mpr here)
      refine .get_bind fun m m' serves => ?_
      rw [← scene.resolve?_serves serves read]
      have plain (value : Option Value) :
          Together m m'
            (do
              if args.isEmpty && hash.isEmpty then return value.getD .null
              throw (.missingHelper p.source) : Eval Value)
            (do
              if args.isEmpty && hash.isEmpty then return value.getD .null
              throw (.missingHelper p.source)) := by
        split
        · exact Heeds.pure _ m m' serves
        · exact Heeds.throw _ m m' serves
      cases scene.resolve? m p with
      | none => exact plain none
      | some value =>
          cases value with
          | callable id => exact scene.invoke_heeds p.source _ args hash h m m' serves
          | _ => exact plain _

mutual

theorem eval_heeds : (e : Expr) → (∀ name ∈ e.names, needs (.name name)) →
    Heeds S needs (scene.eval e)
  | .path p, names => by
      simp only [eval]
      refine .get_bind fun m m' serves => ?_
      rw [← scene.resolve?_serves serves fun name here => names name (Option.mem_toList.mpr here)]
      exact Heeds.pure _ m m' serves
  | .literal value _, _ => by
      simp only [eval]
      exact .pure _
  | .call c, names => by
      simp only [eval]
      exact evalCall_heeds c names of_missing

theorem evalCall_heeds : (c : Call) → (∀ name ∈ c.names, needs (.name name)) →
    {branches : Option Branches} → (∀ b, branches = some b → b.Heed S needs) →
    Heeds S needs (scene.evalCall branches c)
  | ⟨callee, args, hash⟩, names, _, h => by
      simp only [Call.names, List.mem_append, or_imp, forall_and] at names
      obtain ⟨⟨calleeNames, argNames⟩, hashNames⟩ := names
      simp only [evalCall]
      exact .bind (evalArgs_heeds args argNames) fun args =>
        .bind (evalHash_heeds hash hashNames) fun hash =>
          scene.applyCallee_heeds calleeNames args _ h

theorem evalArgs_heeds : (es : List Expr) → (∀ name ∈ Expr.namesOfArgs es, needs (.name name)) →
    Heeds S needs (scene.evalArgs es)
  | [], _ => .pure []
  | e :: es, names => by
      simp only [Expr.namesOfArgs, List.mem_append, or_imp, forall_and] at names
      simp only [evalArgs]
      exact .bind (eval_heeds e names.1) fun v =>
        .bind (evalArgs_heeds es names.2) fun vs => .pure (v :: vs)

theorem evalHash_heeds : (hash : List (String × Expr)) →
    (∀ name ∈ Expr.namesOfHash hash, needs (.name name)) → Heeds S needs (scene.evalHash hash)
  | [], _ => .pure []
  | (name, e) :: hash, names => by
      simp only [Expr.namesOfHash, List.mem_append, or_imp, forall_and] at names
      simp only [evalHash]
      exact .bind (eval_heeds e names.1) fun v =>
        .bind (evalHash_heeds hash names.2) fun vs => .pure ((name, v) :: vs)

end

theorem lookup_heeds (e : Expr) (names : ∀ name ∈ e.names, needs (.name name)) :
    Heeds S needs (scene.lookup e) := by
  cases e with
  | literal value source => exact scene.eval_heeds _ names
  | call c => exact scene.eval_heeds _ names
  | path p =>
      refine .get_bind fun m m' serves => ?_
      rw [← scene.resolve?_serves serves fun name here => names name (Option.mem_toList.mpr here)]
      cases scene.resolve? m p with
      | none =>
          simp only
          split
          · exact Heeds.throw _ m m' serves
          · exact Heeds.pure _ m m' serves
      | some value =>
          cases value with
          | callable id => exact scene.invoke_heeds p.source _ [] [] of_missing m m' serves
          | _ => exact Heeds.pure _ m m' serves

end Scene

end Stencil
