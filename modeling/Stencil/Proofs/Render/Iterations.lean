import Stencil.Proofs.Expr.Paths
import Stencil.Proofs.Compile.Sources
import Stencil.Proofs.Render.Frames

/-!
Which iteration a special variable belongs to.

The renderer keeps special variables in frames that grow and shrink while it runs. A second
renderer has no need of them: it hands the iterations that are under way down to whatever is
rendered inside, and only a step of an iteration adds to them. Before each node it looks whether
every special path starts at the variable of the iteration that the path counts out, and where one
does not it does anything at all. Both renderers give one outcome, so a path always finds its
iteration, whatever conditions, contexts, helpers and partials stand in between.
-/

namespace Stencil

open Eval

/-! ### Iterations -/

/-- A step of an iteration. -/
structure Iteration where
  /-- The key stands for the position. -/
  sparse : Bool
  count : Nat
  position : Nat
  key : Value

namespace Iteration

/-- The names of the special variables that an iteration sets. -/
def names : List String := ["index", "key", "first", "last"]

/-- The special variable of a step under a name. -/
def own? (step : Iteration) (name : String) : Option Value :=
  if name = "index" then some (if step.sparse then step.key else .ofNat step.position)
  else if name = "key" then some step.key
  else if name = "first" then some (.bool (step.position == 0))
  else if name = "last" then some (.bool (step.position + 1 == step.count))
  else none

/-- What a special path sees that counts `outer` iterations outwards from inside the iterations
`active`, innermost first. It sees the variable of that iteration, and what iterations do not set
it sees in the caller's `seed`. One that counts out of all iterations sees only the seed, and one
that counts further sees nothing. -/
def seen? (active : List Iteration) (seed : Fields) (outer : Nat) (name : String) :
    Option Value :=
  match active[outer]? with
  | some step => if name ∈ names then step.own? name else Table.get? seed name
  | none => if outer = active.length then Table.get? seed name else none

def vars (step : Iteration) : Fields :=
  entryVars step.sparse step.count step.position step.key

/-- The frames inside iterations. -/
def frames (active : List Iteration) (seed : Fields) : List Fields :=
  active.map vars ++ [seed]

theorem get?_vars (step : Iteration) (name : String) :
    Table.get? step.vars name = step.own? name := by
  simp only [vars, entryVars, Table.get?, own?]
  split <;> grind

theorem own?_eq_none_iff {step : Iteration} {name : String} :
    step.own? name = none ↔ name ∉ names := by
  unfold own? names
  grind

/-- A step hides the variables of those around it under its own names. -/
theorem seen?_here (step : Iteration) (active : List Iteration) (seed : Fields) (name : String) :
    seen? (step :: active) seed 0 name = (step.own? name).or (seen? active seed 0 name) := by
  cases own : step.own? name with
  | none =>
      have other := own?_eq_none_iff.mp own
      cases active <;> simp [seen?, other]
  | some v =>
      have set : name ∈ names := by
        by_contra other
        rw [own?_eq_none_iff.mpr other] at own
        cases own
      simp [seen?, set, own]

theorem seen?_outside (step : Iteration) (active : List Iteration) (seed : Fields) (outer : Nat)
    (name : String) :
    seen? (step :: active) seed (outer + 1) name = seen? active seed outer name := by
  simp [seen?]

/-- What is found in the frames is what is seen. By induction on the iterations. -/
theorem findSome?_frames (active : List Iteration) (seed : Fields) (outer : Nat) (name : String) :
    ((frames active seed).drop outer).findSome? (fun vars => Table.get? vars name) =
      seen? active seed outer name := by
  induction active generalizing outer with
  | nil => cases outer <;> simp [frames, seen?]
  | cons step active ih =>
      cases outer with
      | zero =>
          have around := ih 0
          rw [List.drop_zero] at around
          rw [seen?_here, ← around, ← get?_vars]
          cases h : Table.get? step.vars name <;> simp [frames, h]
      | succ outer =>
          rw [seen?_outside, ← ih]
          rfl

end Iteration

/-! ### The addressing renderer -/

/-- A branch that is rendered inside iterations. -/
abbrev Inside := List Iteration → Eval String

/-- The steps of an iteration from position `i` on, each inside itself. -/
def addressedSteps (names : List String) (body : Inside) (active : List Iteration) (sparse : Bool)
    (frames : List Fields) (count i : Nat) : List (Value × Value) → Eval String
  | [] => return ""
  | (key, item) :: entries => do
    let step : Iteration := { sparse, count, position := i, key }
    let enter (env : Env) := (env.setFrames (step.vars :: frames)).bind names [item, key]
    let text ← Eval.within enter (Env.unbind names) (Eval.withContext item (body (step :: active)))
    let rest ← addressedSteps names body active sparse frames count (i + 1) entries
    return text ++ rest

/-- An iteration inside others. -/
def addressedIteration (names : List String) (body : Inside) (active : List Iteration)
    (sparse : Bool) (entries : List (Value × Value)) : Eval String := do
  let m ← get
  let frames := m.env.frames
  Eval.within (Env.pushScope m.context) (fun env => env.popScope.setFrames frames)
    (addressedSteps names body active sparse frames entries.length 0 entries)

/-- A section inside iterations: one more when it walks its subject. -/
def addressedSection (each : Bool) (names : List String) (value : Value) (body : Inside)
    (inverse : Option Inside) (active : List Iteration) : Eval String :=
  match value.isEmptyCollection, value.walk? each with
  | false, some (sparse, entries) => addressedIteration names body active sparse entries
  | _, _ => renderSection each names value (body active) (inverse.map (· active))

def addressedValue (inverted : Bool) (names : List String) (value : Value) (body : Inside)
    (inverse : Option Inside) (active : List Iteration) : Eval String :=
  if !inverted then addressedSection false names value body inverse active
  else if value.isAbsent then body active
  else
    match inverse with
    | some inverse => addressedSection false names value inverse none active
    | none => pure ""

namespace Scene

variable (scene : Scene)

/-- A block inside iterations. -/
def addressedBlock (kind : BlockKind) (params : List String) (body : Inside)
    (inverse : Option Inside) (active : List Iteration) : Eval String := do
  match kind with
  | .each subject => addressedSection true params (← scene.eval subject) body inverse active
  | .value subject inverted =>
    match ← scene.eval subject with
    | .callable id =>
      let name := (subject.asPath?.map (·.source)).getD ""
      let branches := Branches.of inverted params (body active) (inverse.map (· active))
      let result ← scene.invoke name (scene.functions id) [] [] (some branches)
      return result.text
    | value => addressedValue inverted params value body inverse active
  | .helper call .positional inverted =>
    addressedValue inverted params (← scene.evalCall none call) body inverse active
  | kind => scene.renderBlock kind params (body active) (inverse.map (· active))

/-- Where a special path starts inside iterations, and the members that it still goes through. -/
def addressed? (active : List Iteration) (seed : Fields) (p : Path) :
    Option (Value × List String) :=
  match p.segments with
  | [] => none
  | name :: names =>
    if name = "root" ∧ p.levels = 0 then some (scene.root, names)
    else (Iteration.seen? active seed p.levels name).map fun v => (v, names)

/-- Every special path starts where the iterations say. -/
def Addresses (active : List Iteration) (seed : Fields) (m : Machine) : Prop :=
  ∀ p : Path, p.special = true → scene.start? m p = scene.addressed? active seed p

section

variable (seed : Fields) (other : Eval String)
  (enter? : Option (List Iteration → Plan → Eval String))

open Classical in
/-- Goes on where every special path starts where it should. Anything may happen where one does
not. -/
noncomputable def addressing (active : List Iteration) (action : Eval String) : Eval String := do
  let m ← get
  if scene.Addresses active seed m then action else other

mutual

/-- The output of a node inside iterations. -/
noncomputable def addressedNode : Node → Inside
  | .literal text, _ => return text
  | .lookup e encoding, _ => return (← scene.lookup e).output encoding
  | .helper call encoding, _ => return (← scene.evalCall none call).output encoding
  | .block kind body inverse params, active =>
    scene.addressedBlock kind params (fun active => withInlines body (addressedNodes body active))
      (match inverse with
        | some inverse => some fun active => withInlines inverse (addressedNodes inverse active)
        | none => none) active
  | .inclusion call target block, active =>
    scene.renderInclusion (enter?.map (· active)) call target block
  | .inlineDef _ _, _ => return ""

/-- The output of nodes in order inside iterations. -/
noncomputable def addressedNodes : List Node → Inside
  | [], _ => return ""
  | node :: nodes, active => do
    let text ← scene.addressing seed other active (addressedNode node active)
    let rest ← addressedNodes nodes active
    return text ++ rest

end

/-- Renders a plan inside iterations. The plan of a partial is rendered inside those around its
inclusion. -/
noncomputable def addressedPlan : (levels : Nat) → List Iteration → Plan → Eval String
  | 0, active, plan => withInlines plan (scene.addressedNodes seed other none plan active)
  | levels + 1, active, plan =>
    withInlines plan (scene.addressedNodes seed other (some (addressedPlan levels)) plan active)

end

end Scene

/-- The outcome of a template by the addressing renderer. -/
noncomputable def Template.addressedRender (template : Template) (other : Eval String)
    (input : Input) : RenderOutcome :=
  let scene : Scene := { template, root := input.data, functions := input.functions }
  let machine : Machine := { env := { frames := [input.seed] }, context := input.data }
  let levels := template.settings.maxPartialDepth
  let (result, machine) :=
    (scene.addressedPlan input.seed other levels [] template.plan).run.run machine
  { result, events := machine.events.reverse }

/-! ### Agreement -/

namespace Scene

variable {scene : Scene}

/-- Where the frames are those of iterations, every special path starts where they say. -/
theorem addresses_of_frames {active : List Iteration} {seed : Fields} {m : Machine}
    (h : m.env.frames = Iteration.frames active seed) : scene.Addresses active seed m := by
  intro p special
  unfold start? addressed?
  rw [if_pos special]
  cases p.segments with
  | nil => rfl
  | cons name names => simp [Env.special?, h, Iteration.findSome?_frames]

end Scene

/-! ### Sections -/

/-- Inside whatever iterations, the renderings of a branch concur. -/
def Inside.Agrees (seed : Fields) (body : Eval String) (body' : Inside) : Prop :=
  ∀ active, ConcurIn (Iteration.frames active seed) body (body' active)

section

variable {seed : Fields} {active : List Iteration} {body : Eval String} {body' : Inside}
  {inverse : Option (Eval String)} {inverse' : Option Inside}

/-- Up to the special variables, the loop of an iteration runs alike and puts the environment
back. -/
theorem addressedSteps_endsSame (h : Inside.Agrees seed body body') (active : List Iteration)
    (names : List String) (sparse : Bool) (count i : Nat) (entries : List (Value × Value))
    (m : Machine) :
    let frames := Iteration.frames active seed
    EndsSame .any (fun _ => True) (Env.setFrames frames) m
      ((iterateFrom names body sparse frames count i entries).run.run m)
      ((addressedSteps names body' active sparse frames count i entries).run.run m) := by
  intro frames
  induction entries generalizing i m with
  | nil => exact ⟨rfl, rfl, trivial, fun _ _ => trivial⟩
  | cons entry entries ih =>
      obtain ⟨key, item⟩ := entry
      let step : Iteration := { sparse, count, position := i, key }
      let enter (env : Env) : Env := (env.setFrames (step.vars :: frames)).bind names [item, key]
      have entered : (enter m.env).frames = Iteration.frames (step :: active) seed :=
        Env.frames_bind _ _ _
      have undone (env : Env) :
          ((enter env).unbind names).setFrames frames = env.setFrames frames := by
        simp only [enter, Env.unbind_bind]
        rfl
      have first := (h (step :: active)).withContext item { m with env := enter m.env } entered
      simp only [iterateFrom, addressedSteps]
      refine endsSame_bind (P := fun _ => True) ⟨?_, ?_, trivial, fun _ _ => trivial⟩ ?_
      · rw [run_within, run_within]
        exact congrArg (fun r => (r.1, { r.2 with env := r.2.env.unbind names })) first.same
      · exact (congrArg (fun env => (Env.unbind names env).setFrames frames) first.env).trans
          (undone m.env)
      intro text after _ _ _
      refine endsSame_bind (P := fun _ => True) (ih (i + 1) after) ?_
      intro rest last _ _ _
      exact ⟨rfl, rfl, trivial, fun _ _ => trivial⟩

theorem addressedIteration_concurIn (h : Inside.Agrees seed body body') (names : List String)
    (sparse : Bool) (entries : List (Value × Value)) :
    ConcurIn (Iteration.frames active seed) (iterate names body sparse entries)
      (addressedIteration names body' active sparse entries) := by
  refine .get_bind fun m here => ?_
  have loop := addressedSteps_endsSame h active names sparse entries.length 0 entries
    { m with env := m.env.pushScope m.context }
  rw [here]
  refine ⟨?_, (congrArg Env.popScope loop.env).trans ?_, trivial, fun _ _ => trivial⟩
  · rw [run_within, run_within, loop.same]
  · rw [← here]
    rfl

theorem rel_inside (hi : Option.Rel (Inside.Agrees seed) inverse inverse')
    (active : List Iteration) :
    Option.Rel (ConcurIn (Iteration.frames active seed)) inverse (inverse'.map (· active)) := by
  cases hi with
  | none => exact .none
  | some hi => exact .some (hi active)

theorem renderSection_of_walk {each sparse : Bool} {value : Value}
    {entries : List (Value × Value)} (some_entry : value.isEmptyCollection = false)
    (walked : value.walk? each = some (sparse, entries)) (names : List String) :
    renderSection each names value body inverse = iterate names body sparse entries := by
  unfold renderSection
  rw [if_neg (by simp [some_entry])]
  cases value with
  | array items =>
      cases walked
      rw [← keyedFrom_eq]
  | iterable id items =>
      cases walked
      rw [← keyedFrom_eq]
  | object fields =>
      cases each with
      | true =>
          cases walked
          rfl
      | false => cases walked
  | _ => cases walked

theorem addressedSection_concurIn (h : Inside.Agrees seed body body')
    (hi : Option.Rel (Inside.Agrees seed) inverse inverse') (each : Bool) (names : List String)
    (value : Value) :
    ConcurIn (Iteration.frames active seed) (renderSection each names value body inverse)
      (addressedSection each names value body' inverse' active) := by
  unfold addressedSection
  split
  · next some_entry walked =>
    rw [renderSection_of_walk some_entry walked]
    exact addressedIteration_concurIn h names _ _
  · next stays =>
    refine renderSection_concurIn (h active) (rel_inside hi active) (fun some_entry => ?_) names
    cases walked : value.walk? each with
    | none => rfl
    | some walk => exact absurd walked (stays walk.1 walk.2 some_entry)

theorem addressedValue_concurIn (h : Inside.Agrees seed body body')
    (hi : Option.Rel (Inside.Agrees seed) inverse inverse') (inverted : Bool) (names : List String)
    (value : Value) :
    ConcurIn (Iteration.frames active seed) (renderValue inverted names value body inverse)
      (addressedValue inverted names value body' inverse' active) := by
  unfold renderValue addressedValue
  split
  · exact addressedSection_concurIn h hi _ _ _
  · split
    · exact h active
    · cases hi with
      | none => exact .pure ""
      | some hi => exact addressedSection_concurIn hi .none _ _ _

namespace Scene

variable {scene : Scene}

theorem addressedBlock_concurIn (plain : scene.template.WithoutData scene.functions)
    (h : Inside.Agrees seed body body')
    (hi : Option.Rel (Inside.Agrees seed) inverse inverse') (kind : BlockKind)
    (params : List String) :
    ConcurIn (Iteration.frames active seed) (scene.renderBlock kind params body inverse)
      (scene.addressedBlock kind params body' inverse' active) := by
  have other := renderBranch_concurIn (rel_inside hi active)
  have branches (inverted : Bool) :=
    Branches.of_concurIn (h active) (rel_inside hi active) inverted params
  cases kind with
  | condition subject includeZero negate =>
      refine .bind (.of_restores (scene.holds_restores subject includeZero)) fun holds => ?_
      split
      · exact h active
      · exact other
  | context subject =>
      refine .bind (.of_restores (scene.eval_restores subject)) fun value => ?_
      split
      · exact other
      · exact renderBound_concurIn (h active) _ _
  | each subject =>
      exact .bind (.of_restores (scene.eval_restores subject)) fun value =>
        addressedSection_concurIn h hi _ _ _
  | value subject inverted =>
      refine .bind (.of_restores (scene.eval_restores subject)) fun value => ?_
      cases value with
      | callable id =>
          exact .bind (invoke_concurIn (plain.functions id) (branches inverted) _ _ _) fun result =>
            .pure _
      | _ => exact addressedValue_concurIn h hi _ _ _
  | helper call style inverted =>
      cases style with
      | rendering =>
          exact .bind (evalCall_concurIn plain (branches inverted) call) fun result => .pure _
      | positional =>
          exact .bind (.of_restores (scene.evalCall_restores call)) fun value =>
            addressedValue_concurIn h hi _ _ _

end Scene

end

/-! ### Plans -/

namespace Scene

section

variable {scene : Scene} {seed : Fields} {other : Eval String}
  {enter? : Option (Plan → Eval String)} {enter?' : Option (List Iteration → Plan → Eval String)}

/-- Below the iterations `active` every special path starts where it should. -/
theorem addressing_concurIn {active : List Iteration} {action action' : Eval String}
    (h : Eval.ConcurIn (Iteration.frames active seed) action action') :
    Eval.ConcurIn (Iteration.frames active seed) action
      (scene.addressing seed other active action') := by
  intro m here
  have same : (scene.addressing seed other active action').run.run m = action'.run.run m := by
    rw [addressing, run_get_bind, if_pos (addresses_of_frames here)]
  unfold ConcurAt
  rw [same]
  exact h m here

/-- The plans of one level deeper concur, inside whatever iterations. -/
def Enters (seed : Fields) (enter? : Option (Plan → Eval String))
    (enter?' : Option (List Iteration → Plan → Eval String)) : Prop :=
  ∀ active, EntersIn (Iteration.frames active seed) enter? (enter?'.map (· active))

theorem withInlines_agrees {nodes : Eval String} {nodes' : Inside}
    (h : Inside.Agrees seed nodes nodes') (plan : Plan) :
    Inside.Agrees seed (withInlines plan nodes) (fun active => withInlines plan (nodes' active)) :=
  fun active => withInlines_concurIn (h active) plan

mutual

theorem addressedNode_agrees (plain : scene.template.WithoutData scene.functions)
    (h : Enters seed enter? enter?') :
    (node : Node) → Inside.Agrees seed (scene.renderNode enter? node)
      (scene.addressedNode seed other enter?' node)
  | .literal text => fun active => by
      simp only [renderNode, addressedNode]
      exact .pure text
  | .lookup e encoding => fun active => by
      simp only [renderNode, addressedNode]
      exact .bind (.of_restores (scene.lookup_restores e)) fun value => .pure _
  | .helper call encoding => fun active => by
      simp only [renderNode, addressedNode]
      exact .bind (.of_restores (scene.evalCall_restores call)) fun value => .pure _
  | .block kind body none params => fun active => by
      simp only [renderNode, addressedNode]
      exact addressedBlock_concurIn plain
        (withInlines_agrees (addressedNodes_agrees plain h body) body) .none kind params
  | .block kind body (some inverse) params => fun active => by
      simp only [renderNode, addressedNode]
      exact addressedBlock_concurIn plain
        (withInlines_agrees (addressedNodes_agrees plain h body) body)
        (.some (withInlines_agrees (addressedNodes_agrees plain h inverse) inverse)) kind params
  | .inclusion call target block => fun active => by
      simp only [renderNode, addressedNode]
      exact renderInclusion_concurIn (h active) call target block
  | .inlineDef name plan => fun active => by
      simp only [renderNode, addressedNode]
      exact .pure ""

theorem addressedNodes_agrees (plain : scene.template.WithoutData scene.functions)
    (h : Enters seed enter? enter?') :
    (nodes : List Node) → Inside.Agrees seed (scene.renderNodes enter? nodes)
      (scene.addressedNodes seed other enter?' nodes)
  | [] => fun active => by
      simp only [renderNodes, addressedNodes]
      exact .pure ""
  | node :: nodes => fun active => by
      simp only [renderNodes, addressedNodes]
      exact .bind (addressing_concurIn (addressedNode_agrees plain h node active)) fun text =>
        .bind (addressedNodes_agrees plain h nodes active) fun rest => .pure _

end

/-- Both renderers agree on every plan, inside whatever iterations. By induction on the levels. -/
theorem addressedPlan_concurIn (seed : Fields) (other : Eval String)
    (plain : scene.template.WithoutData scene.functions) (levels : Nat) (active : List Iteration)
    (plan : Plan) :
    Eval.ConcurIn (Iteration.frames active seed) (scene.renderPlan levels plan)
      (scene.addressedPlan seed other levels active plan) := by
  induction levels generalizing active plan with
  | zero =>
      have deeper : Enters seed none none := fun _ => .none
      exact withInlines_concurIn (addressedNodes_agrees plain deeper plan active) plan
  | succ levels ih =>
      have deeper : Enters seed (some (scene.renderPlan levels))
          (some (scene.addressedPlan seed other levels)) := fun active => .some (ih active)
      exact withInlines_concurIn (addressedNodes_agrees plain deeper plan active) plan

end

end Scene

/-! ### Paths as written -/

/-- A special path as it is written: steps outwards and a name. -/
def specialPath (outer : Nat) (name : String) : List Char :=
  '@' :: Writing.outward outer name.toList

theorem Path.steps_outward_name (outer levels : Nat) {name : String} (h : name ∈ Iteration.names) :
    Path.steps levels (Writing.outward outer name.toList) = (levels + outer, name.toList) := by
  induction outer generalizing levels with
  | zero =>
      simp only [Iteration.names, List.mem_cons, List.not_mem_nil, or_false] at h
      obtain rfl | rfl | rfl | rfl := h <;> rfl
  | succ outer ih =>
      rw [Writing.outward, Path.steps, ih]
      simp [Nat.add_right_comm, Nat.add_assoc]

theorem Path.parse_specialPath (outer : Nat) {name : String} (h : name ∈ Iteration.names)
    (site : Site) :
    Path.parse (specialPath outer name) site =
      .ok { levels := outer, special := true, segments := [name]
            source := String.ofList (specialPath outer name) } := by
  simp only [Path.parse, specialPath, Path.steps_outward_name outer 0 h, Nat.zero_add]
  simp only [Iteration.names, List.mem_cons, List.not_mem_nil, or_false] at h
  obtain rfl | rfl | rfl | rfl := h <;> rfl

/-! ### Whole templates -/

/-- Every render of a template whose helpers set no special variables has the outcome, journal
included, of the renderer that hands the iterations down, whatever that one does at a node where
some special path does not start at the iteration that it counts out. So at every node inside
iterations a special path sees the variable of the iteration that it counts out, beyond them the
seed and behind that nothing, and the seed under all other names, no matter which blocks and
inclusions lie in between. A path that is written with steps outwards counts as many iterations. -/
theorem Template.render_eq_addressedRender (template : Template) (input : Input)
    (plain : template.WithoutData input.functions) (other : Eval String) :
    template.render input = template.addressedRender other input ∧
      ∀ outer, ∀ name ∈ Iteration.names, ∀ site, Path.parse (specialPath outer name) site =
        .ok { levels := outer, special := true, segments := [name]
              source := String.ofList (specialPath outer name) } := by
  let scene : Scene := { template, root := input.data, functions := input.functions }
  let machine : Machine := { env := { frames := [input.seed] }, context := input.data }
  have plain : scene.template.WithoutData scene.functions := plain
  have concur := Scene.addressedPlan_concurIn input.seed other plain
    template.settings.maxPartialDepth [] template.plan machine rfl
  refine ⟨?_, fun outer name named site => Path.parse_specialPath outer named site⟩
  exact congrArg (fun r => ({ result := r.1, events := r.2.events.reverse } : RenderOutcome))
    concur.same

/-- A frame around a block, and a cell with its row and column. -/
def gridPartials : Registry :=
  let frame := "<\x7b\x7b> @partial-block\x7d\x7d>"
  let cell := "\x7b\x7b@../index\x7d\x7d.\x7b\x7b@index\x7d\x7d\x7b\x7b@page\x7d\x7d" ++
    "\x7b\x7b@../../index\x7d\x7d\x7b\x7b@../../../index\x7d\x7d" ++
    "\x7b\x7b#unless @last\x7d\x7d,\x7b\x7b/unless\x7d\x7d"
  (Registry.builtin.registerPartial "frame" frame).registerPartial "cell" cell

/-- Rows of cells with a frame around each row. -/
def grid : String :=
  "\x7b\x7b#each rows\x7d\x7d\x7b\x7b#> frame\x7d\x7d\x7b\x7b#with cells\x7d\x7d\x7b\x7b#this\x7d\x7d" ++
  "\x7b\x7b#if true\x7d\x7d\x7b\x7b> cell\x7d\x7d\x7b\x7b/if\x7d\x7d" ++
  "\x7b\x7b/this\x7d\x7d\x7b\x7b/with\x7d\x7d\x7b\x7b/frame\x7d\x7d\x7b\x7b/each\x7d\x7d"

/-- Each cell counts its row through the section that walks the row, and the section counts the
page of the caller; `index` of the caller is seen behind both, and nothing behind the caller. -/
theorem grid_addressed :
    let data : Value := .object [("rows", .array
      [.object [("cells", .array [.string "a", .string "b"])],
        .object [("cells", .array [.string "c"])]])]
    let input : Input :=
      { data, seed := [("page", .string "p"), ("index", .string "s")]
        functions := fun _ _ => .done .null }
    ∃ template, (gridPartials.compile {} grid).result = .ok template ∧
      template.WithoutData input.functions ∧
        (template.render input).result = .ok "<0.0ps,0.1ps><1.0ps>" ∧
          (∀ other, template.render input = template.addressedRender other input) ∧
            ∀ outer, ∀ name ∈ Iteration.names, ∀ site, Path.parse (specialPath outer name) site =
              .ok { levels := outer, special := true, segments := [name]
                    source := String.ofList (specialPath outer name) } := by
  intro data input
  have run : ((gridPartials.compile {} grid).result.toOption.any fun t =>
      (t.render input).result.toOption == some "<0.0ps,0.1ps><1.0ps>") = true := by decide +kernel
  obtain ⟨template, compiled, rendered⟩ := (Option.any_eq_true _ _).mp run
  have compiled := eq_ok_of_toOption compiled
  obtain ⟨-, -, -, helpers, -, -⟩ := Registry.of_compile compiled
  have plain : template.WithoutData input.functions := by
    refine ⟨fun name helper found => ?_, fun _ _ => trivial⟩
    rw [helpers] at found
    exact Registry.builtin_withoutData found
  have addressed := template.render_eq_addressedRender input plain
  exact ⟨template, compiled, plain, eq_ok_of_toOption (beq_iff_eq.mp rendered),
    fun other => (addressed other).1, (addressed (pure "")).2⟩

end Stencil
