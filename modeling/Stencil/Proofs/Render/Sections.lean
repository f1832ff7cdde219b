import Stencil.Proofs.Render.Restoration
import Stencil.Template.Compile

/-!
What a section renders.

Seven rules decide what a section makes of its subject. Here they are data: a subject and the
current context prescribe a list of renderings of the branches, each with a context, an
enclosing context, special variables and block parameters of its own, and the output of the
section is what these give one after another. The renderer keeps to the rules but for one
case. A section that is not an `each` is to leave the enclosing contexts alone when its subject
is the current context; a list or an iterable is walked with the current context pushed all the
same.
-/

namespace Stencil

open Eval

/-! ### The rules -/

/-- A branch that is rendered once. -/
structure Rendering where
  branch : Branch
  /-- The context, the current one if none. -/
  context : Option Value := none
  /-- The current context becomes the nearest enclosing one. -/
  pushes : Bool := false
  /-- Special variables that come before those of the section. -/
  vars : Option Fields := none
  /-- Values for the block parameters, in order. -/
  values : List Value := []

/-- What an iteration over `count` entries renders for a key and an item at a position. -/
def iterationStep (pushes sparse : Bool) (count : Nat) (entry : (Value × Value) × Nat) : Rendering :=
  let ((key, item), i) := entry
  { branch := .body
    context := some item
    pushes
    vars := some
      [("first", .bool (i = 0)), ("last", .bool (i + 1 = count)),
       ("index", if sparse then key else .ofNat i), ("key", key)]
    values := [item, key] }

/-- What an iteration renders: the body once for each key and item. -/
def iteration (pushes sparse : Bool) (entries : List (Value × Value)) : List Rendering :=
  entries.zipIdx.map (iterationStep pushes sparse entries.length)

/-- The keys and items that a section walks, and whether the keys stand for the positions. -/
def Value.walk? (each : Bool) : Value → Option (Bool × List (Value × Value))
  | .array items | .iterable _ items => some (false, items.zipIdx.map fun (v, i) => (.ofNat i, v))
  | .object fields =>
    if each then some (isSparse fields, fields.map fun (key, v) => (.string key, v)) else none
  | _ => none

/-- The renderings that the rules prescribe for a subject, the first rule that fits. The current
context is pushed for an `each`, and for any other section if the subject differs from it. -/
def prescribed (each : Bool) (subject current : Value) : List Rendering :=
  let pushes := each || !subject.same current
  -- 1: an empty list or object.
  if subject.isEmptyCollection then [{ branch := .inverse }]
  else
    match subject.walk? each, subject with
    -- 2: a list, an iterable, or an object of an `each`.
    | some (sparse, entries), _ => iteration pushes sparse entries
    -- 3: any other object.
    | none, .object _ =>
      [{ branch := .body, context := if pushes then some subject else none, pushes
         values := [subject] }]
    | none, _ =>
      -- 4: nothing that an `each` could walk.
      if each then [{ branch := .inverse }]
      else
        match subject with
        -- 5: the current context stays.
        | .bool true => [{ branch := .body }]
        -- 7: nothing to show.
        | .bool false | .null => [{ branch := .inverse }]
        -- 6: any other value.
        | value => [{ branch := .body, context := some value }]

/-! ### Performing renderings -/

/-- Runs a computation in an environment and, if one is given, a context of its own; those from
before are put back. -/
def Eval.inside {α : Type} (env : Env) (context : Option Value) (action : Eval α) : Eval α :=
  ExceptT.mk fun m =>
    let (result, after) := action.run.run { m with env, context := context.getD m.context }
    (result, { after with
      env := m.env, context := if context.isSome then m.context else after.context })

namespace Rendering

/-- The environment of a rendering in a section; `names` are the block parameters. -/
def env (r : Rendering) (names : List String) (m : Machine) : Env :=
  let env := if r.pushes then m.env.pushScope m.context else m.env
  let env := match r.vars with
    | some vars => env.setFrames (vars :: m.env.frames)
    | none => env
  env.bind (if r.values.isEmpty then [] else names) r.values

/-- The output of a rendering; a branch that is missing gives the empty text. -/
def perform (r : Rendering) (b : Branches) : Eval String :=
  match b.branch? r.branch with
  | none => return ""
  | some body => do
    let m ← get
    Eval.inside (r.env b.params m) r.context body

end Rendering

/-- The output of renderings in order. -/
def performed (b : Branches) : List Rendering → Eval String
  | [] => return ""
  | r :: rs => do
    let text ← r.perform b
    let rest ← performed b rs
    return text ++ rest

/-- The branches of a block. -/
def Branches.ofPlans (scene : Scene) (levels : Nat) (names : List String) (body : Plan)
    (inverse : Option Plan) : Branches :=
  { body := some (scene.renderPlan levels body), inverse := inverse.map (scene.renderPlan levels)
    params := names }

/-- A section other than an `each` that walks the current context. -/
def walksContext (each : Bool) (subject current : Value) : Bool :=
  !each && !subject.isEmptyCollection && (subject.walk? each).isSome && subject.same current

/-- What the renderer makes of the rules: walking always pushes the current context. -/
def obeyed (each : Bool) (subject current : Value) : List Rendering :=
  if walksContext each subject current then
    (prescribed each subject current).map fun r => { r with pushes := true }
  else prescribed each subject current

/-! ### The renderer keeps to the rules -/

section

variable {body : Eval String} {m : Machine} {b : Branches}

theorem performed_singleton (b : Branches) (r : Rendering) : performed b [r] = r.perform b := by
  simp [performed]

/-- A computation that restores the environment is not changed by being put into the current
environment and context. -/
theorem inside_current (restores : body.Restores) (m : Machine) :
    (Eval.inside m.env none body).run.run m = body.run.run m := by
  have left := restores m
  change ((body.run.run m).1, { (body.run.run m).2 with env := m.env }) = body.run.run m
  rw [← left]
  rfl

theorem performed_otherwise (restores : ∀ inverse, b.inverse = some inverse → inverse.Restores)
    (m : Machine) :
    (performed b [{ branch := .inverse }]).run.run m = (renderBranch b.inverse).run.run m := by
  rw [performed_singleton]
  cases here : b.inverse with
  | none => simp only [Rendering.perform, Branches.branch?, here, renderBranch, Option.getD_none]
  | some inverse =>
      simp only [Rendering.perform, Branches.branch?, here, renderBranch, Option.getD_some]
      exact inside_current (restores inverse here) m

/-- The loop of an iteration performs its steps. It leaves the special variables of the last
step behind. -/
theorem iterateFrom_performed (restores : body.Restores) (here : b.body = some body) (sparse : Bool)
    (count i : Nat) (entries : List (Value × Value)) (frames : List Fields) :
    let r := (performed b ((entries.zipIdx i).map (iterationStep true sparse count))).run.run m
    r.2.env = m.env ∧ r.2.context = m.context ∧ ∃ last,
      (iterateFrom b.params body sparse m.env.frames count i entries).run.run
          { m with env := (m.env.pushScope m.context).setFrames frames } =
        (r.1, { r.2 with env := (m.env.pushScope m.context).setFrames last }) := by
  induction entries generalizing i m frames with
  | nil => exact ⟨rfl, rfl, frames, rfl⟩
  | cons entry entries ih =>
      obtain ⟨key, item⟩ := entry
      let vars := entryVars sparse count i key
      let inner : Env := ((m.env.pushScope m.context).setFrames (vars :: m.env.frames)).bind b.params
        [item, key]
      let result := body.run.run { m with env := inner, context := item }
      have left : result.2.env = inner := restores _
      let after : Machine := { result.2 with env := m.env, context := m.context }
      have performs : ((iterationStep true sparse count ((key, item), i)).perform b).run.run m =
          (result.1, after) := by
        simp only [Rendering.perform, iterationStep, Branches.branch?, here]
        rfl
      have loops : (Eval.within
            (fun env => (env.setFrames (vars :: m.env.frames)).bind b.params [item, key])
            (Env.unbind b.params) (Eval.withContext item body)).run.run
              { m with env := (m.env.pushScope m.context).setFrames frames } =
          (result.1, { after with
            env := (m.env.pushScope m.context).setFrames (vars :: m.env.frames) }) := by
        change (result.1, { result.2 with
          env := result.2.env.unbind b.params, context := m.context }) = _
        rw [left, Env.unbind_bind]
      simp only [List.zipIdx_cons, List.map_cons, performed, iterateFrom, run_bind, performs]
      rw [loops]
      cases ended : result.1 with
      | error e => exact ⟨rfl, rfl, vars :: m.env.frames, rfl⟩
      | ok text =>
          obtain ⟨env, context, last, rest⟩ := ih (i + 1) (m := after) (vars :: m.env.frames)
          have rest : (iterateFrom b.params body sparse m.env.frames count (i + 1) entries).run.run
              { after with env := (m.env.pushScope m.context).setFrames (vars :: m.env.frames) } = _ :=
            rest
          dsimp only
          rw [rest]
          generalize (performed b _).run.run after = others at env context ⊢
          obtain ⟨outcome, final⟩ := others
          cases outcome with
          | ok rest => exact ⟨env, context, last, rfl⟩
          | error e => exact ⟨env, context, last, rfl⟩

/-- An iteration performs its steps, each with the current context pushed. -/
theorem iterate_performed (restores : body.Restores) (here : b.body = some body) (sparse : Bool)
    (entries : List (Value × Value)) (m : Machine) :
    (iterate b.params body sparse entries).run.run m =
      (performed b (iteration true sparse entries)).run.run m := by
  obtain ⟨env, -, last, loop⟩ :=
    iterateFrom_performed (m := m) restores here sparse entries.length 0 entries m.env.frames
  have loop : (iterateFrom b.params body sparse m.env.frames entries.length 0 entries).run.run
      { m with env := m.env.pushScope m.context } = _ := loop
  rw [iterate, run_get_bind, run_within, loop]
  change ((performed b (iteration true sparse entries)).run.run m).2.env = m.env at env
  change (((performed b (iteration true sparse entries)).run.run m).1,
    { ((performed b (iteration true sparse entries)).run.run m).2 with env := m.env }) = _
  rw [← env]
  rfl

theorem Env.unbind_popScope_bind (v : Value) (names : List String) (values : List Value)
    (env : Env) : (((env.pushScope v).bind names values).popScope).unbind names = env := by
  rw [Env.bind, Env.unbind]
  split <;> rfl

/-- A value that a section enters is its context, with the current one pushed if they differ. -/
theorem renderBound_performed (restores : body.Restores) (here : b.body = some body)
    (value : Value) (m : Machine) :
    (renderBound b.params value body).run.run m =
      (performed b
        [{ branch := .body
           context := if !value.same m.context then some value else none
           pushes := !value.same m.context
           values := [value] }]).run.run m := by
  rw [performed_singleton]
  simp only [Rendering.perform, Branches.branch?, here]
  cases differs : value.same m.context with
  | true =>
      have left : (body.run.run { m with env := m.env.bind b.params [value] }).2.env =
          m.env.bind b.params [value] := restores _
      rw [renderBound, run_within, renderIn, run_get_bind, if_pos differs, left, Env.unbind_bind]
      rfl
  | false =>
      have commutes : (m.env.bind b.params [value]).pushScope m.context =
          (m.env.pushScope m.context).bind b.params [value] := by
        rw [Env.bind, Env.bind]
        split <;> rfl
      have left := restores
        { m with env := (m.env.pushScope m.context).bind b.params [value], context := value }
      rw [renderBound, run_within, renderIn, run_get_bind, if_neg (by simp [differs]), run_within,
        run_withContext]
      rw [commutes, left, Env.unbind_popScope_bind]
      rfl

theorem keyedFrom_eq (i : Nat) (items : List Value) :
    keyedFrom i items = (items.zipIdx i).map fun (v, i) => (.ofNat i, v) := by
  induction items generalizing i with
  | nil => rfl
  | cons v items ih => rw [keyedFrom, ih, List.zipIdx_cons, List.map_cons]

/-- A value that becomes the context alone. -/
theorem withContext_performed (restores : body.Restores) (here : b.body = some body)
    (value : Value) (m : Machine) :
    (Eval.withContext value body).run.run m =
      (performed b [{ branch := .body, context := some value }]).run.run m := by
  have left := restores { m with context := value }
  rw [performed_singleton, run_withContext]
  simp only [Rendering.perform, Branches.branch?, here]
  change _ = ((body.run.run { m with context := value }).1,
    { (body.run.run { m with context := value }).2 with env := m.env, context := m.context })
  generalize body.run.run { m with context := value } = r at left ⊢
  obtain ⟨result, after⟩ := r
  have left : after.env = m.env := left
  dsimp only
  rw [left]

/-- Whatever is walked is walked with the current context pushed. -/
theorem obeyed_walk {each sparse : Bool} {subject : Value} {entries : List (Value × Value)}
    (some_entry : subject.isEmptyCollection = false)
    (walked : subject.walk? each = some (sparse, entries)) (current : Value) :
    obeyed each subject current = iteration true sparse entries := by
  have pushed (pushes : Bool) :
      (iteration pushes sparse entries).map (fun r => { r with pushes := true }) =
        iteration true sparse entries := by
    simp [iteration, iterationStep]
  cases each <;> cases same : subject.same current <;>
    simp [obeyed, walksContext, prescribed, some_entry, walked, same, pushed]

theorem obeyed_empty {each : Bool} {subject : Value} (h : subject.isEmptyCollection = true)
    (current : Value) : obeyed each subject current = [{ branch := .inverse }] := by
  simp [obeyed, walksContext, prescribed, h]

/-- What is not walked obeys the rules. -/
theorem obeyed_of_walk?_eq_none {each : Bool} {subject : Value} (h : subject.walk? each = none)
    (current : Value) : obeyed each subject current = prescribed each subject current := by
  simp [obeyed, walksContext, h]

/-- A section makes of its subject what the rules prescribe, except that whatever it walks it
walks with the current context pushed. -/
theorem renderSection_performed (restores : body.Restores) (here : b.body = some body)
    (restoresElse : ∀ inverse, b.inverse = some inverse → inverse.Restores)
    (each : Bool) (subject : Value) (m : Machine) :
    (renderSection each b.params subject body b.inverse).run.run m =
      (performed b (obeyed each subject m.context)).run.run m := by
  have otherwise := performed_otherwise restoresElse m
  have current : (performed b [{ branch := .body }]).run.run m = body.run.run m := by
    rw [performed_singleton]
    simp only [Rendering.perform, Branches.branch?, here]
    exact inside_current restores m
  have entered (value : Value) := withContext_performed restores here value m
  unfold renderSection
  by_cases empty : subject.isEmptyCollection = true
  · rw [if_pos empty, obeyed_empty empty]
    exact otherwise.symm
  rw [if_neg empty]
  have some_entry : subject.isEmptyCollection = false := eq_false_of_ne_true empty
  cases subject with
  | array items =>
      rw [obeyed_walk some_entry rfl, ← keyedFrom_eq]
      exact iterate_performed restores here false _ m
  | iterable id items =>
      rw [obeyed_walk some_entry rfl, ← keyedFrom_eq]
      exact iterate_performed restores here false _ m
  | object fields =>
      cases each with
      | true =>
          rw [obeyed_walk some_entry rfl]
          exact iterate_performed restores here _ _ m
      | false =>
          rw [obeyed_of_walk?_eq_none rfl]
          unfold prescribed
          rw [if_neg empty]
          exact renderBound_performed restores here (.object fields) m
  | bool value =>
      rw [obeyed_of_walk?_eq_none rfl]
      unfold prescribed
      rw [if_neg empty]
      cases each <;> cases value <;> first | exact otherwise.symm | exact current.symm
  | null =>
      rw [obeyed_of_walk?_eq_none rfl]
      unfold prescribed
      rw [if_neg empty]
      cases each <;> exact otherwise.symm
  | number | string | safe | callable =>
      rw [obeyed_of_walk?_eq_none rfl]
      unfold prescribed
      rw [if_neg empty]
      cases each with
      | true => exact otherwise.symm
      | false => exact entered _

end

/-- For every subject and current context, with plans for branches, a section renders, fails and
reports what its rules prescribe, and leaves the machine as they do. Only where it is no `each`
and walks the current context itself, it pushes that context where the rules do not. -/
theorem Scene.section_obeys (scene : Scene) (levels : Nat) (each : Bool) (names : List String)
    (subject : Value) (body : Plan) (inverse : Option Plan) (m : Machine) :
    let b := Branches.ofPlans scene levels names body inverse
    (renderSection each names subject (scene.renderPlan levels body)
        (inverse.map (scene.renderPlan levels))).run.run m =
      (performed b (
        if walksContext each subject m.context then
          (prescribed each subject m.context).map fun r => { r with pushes := true }
        else prescribed each subject m.context)).run.run m := by
  intro b
  have restores (plan : Plan) : (scene.renderPlan levels plan).Restores :=
    (scene.rendering_restores levels).plan plan
  refine renderSection_performed (b := b) (restores body) rfl ?_ each subject m
  intro branch here
  obtain ⟨plan, -, rfl⟩ := Option.map_eq_some_iff.mp here
  exact restores plan

/-! ### Walking the current context -/

/-- A section inside `with` that walks the context of the `with` and looks for a member next to
it. -/
def ownItems : String :=
  "\x7b\x7b#with xs\x7d\x7d\x7b\x7b#this\x7d\x7d\x7b\x7b../n\x7d\x7d\x7b\x7b/this\x7d\x7d\x7b\x7b/with\x7d\x7d"

/-- The template shows nothing, because `../` leads back to the list itself. By the rules the list
is not pushed: the inner section shows the member twice. -/
theorem ownItems_misses :
    let xs : Value := .array [.ofNat 1, .ofNat 2]
    let data : Value := .object [("xs", xs), ("n", .ofNat 5)]
    let member : Plan := [.lookup (.path { levels := 1, segments := ["n"], source := "../n" }) .html]
    ∃ t, (Registry.builtin.compile {} ownItems).result = .ok t ∧ t.warnings = [] ∧
      (t.render { data, functions := fun _ _ => .done .null }).result = .ok "" ∧
        ∃ scene : Scene, scene.template = t ∧
          let inside : Machine := { env := { scopes := [data], frames := [[]] }, context := xs }
          let b := Branches.ofPlans scene 0 [] member none
          walksContext false xs inside.context = true ∧
            ((renderSection false [] xs (scene.renderPlan 0 member) none).run.run inside).1 =
                .ok "" ∧
              ((performed b (prescribed false xs xs)).run.run inside).1 = .ok "55" := by
  intro xs data member
  let scene (t : Template) : Scene := { template := t, root := data, functions := fun _ _ => .done .null }
  let inside : Machine := { env := { scopes := [data], frames := [[]] }, context := xs }
  let byRenderer (t : Template) :=
    (renderSection false [] xs ((scene t).renderPlan 0 member) none).run.run inside
  let byRules (t : Template) :=
    (performed (Branches.ofPlans (scene t) 0 [] member none) (prescribed false xs xs)).run.run inside
  have run : ((Registry.builtin.compile {} ownItems).result.toOption.any fun t =>
      t.warnings.isEmpty && walksContext false xs inside.context &&
        (t.render { data, functions := fun _ _ => .done .null }).result.toOption == some "" &&
          (byRenderer t).1.toOption == some "" && (byRules t).1.toOption == some "55") = true := by
    decide +kernel
  obtain ⟨t, compiled, run⟩ := (Option.any_eq_true _ _).mp run
  simp only [Bool.and_eq_true, beq_iff_eq] at run
  obtain ⟨⟨⟨⟨silent, walks⟩, output⟩, rendered⟩, prescribed⟩ := run
  exact ⟨t, eq_ok_of_toOption compiled, List.isEmpty_iff.mp silent, eq_ok_of_toOption output,
    scene t, rfl, walks, eq_ok_of_toOption rendered, eq_ok_of_toOption prescribed⟩

end Stencil
