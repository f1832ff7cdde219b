import Stencil.Proofs.Render.Asking
import Stencil.Proofs.Render.Contexts

/-!
The bindings that a partial sees.

A partial is rendered with the bindings of its caller in place: a name that a block parameter binds
around an inclusion means the same inside the partial, before the context is asked. So what a
partial shows depends on its context, the enclosing contexts, the special variables and the inline
partials, and on the bindings just for the names that it asks for. Bindings of other names may be
exchanged or removed.
-/

namespace Stencil

open Eval

variable {S : Stock} {needs needs' : Need → Prop} {body : Eval String}
  {inverse : Option (Eval String)}

/-! ### Sections -/

theorem iterateFrom_endsTogether (names : List String)
    (h : Heeds S (Need.binding needs (names.take 2)) body) (sparse : Bool) (frames : List Fields)
    (count i : Nat) (entries : List (Value × Value)) {m m' : Machine}
    (serves : (m.env.setFrames frames).Serves S needs (m'.env.setFrames frames))
    (context : m.context = m'.context) (events : m.events = m'.events) :
    EndsTogether (Env.setFrames frames) m m'
      ((iterateFrom names body sparse frames count i entries).run.run m)
      ((iterateFrom names body sparse frames count i entries).run.run m') := by
  induction entries generalizing i m m' with
  | nil => exact ⟨rfl, context, events, rfl, rfl⟩
  | cons entry entries ih =>
      obtain ⟨key, item⟩ := entry
      let enter (env : Env) : Env :=
        (env.setFrames (entryVars sparse count i key :: frames)).bind names [item, key]
      have entered : (enter m.env).Serves S (Need.binding needs (names.take 2)) (enter m'.env) :=
        (serves.setFrames _).bind names [item, key] fun _ => id
      have undone (env : Env) :
          ((enter env).unbind names).setFrames frames = env.setFrames frames := by
        simp only [enter, Env.unbind_bind]
        rfl
      have first := h.withContext item { m with env := enter m.env } { m' with env := enter m'.env }
        ⟨entered, context, events⟩
      simp only [iterateFrom]
      refine endsTogether_bind ⟨first.result, first.context, first.events, ?_, ?_⟩ ?_
      · exact (congrArg (fun env => (Env.unbind names env).setFrames frames) first.left).trans
          (undone m.env)
      · exact (congrArg (fun env => (Env.unbind names env).setFrames frames) first.right).trans
          (undone m'.env)
      -- The frames that a step leaves behind are hidden by the view, so the next one starts served.
      intro text after after' left right context events
      refine endsTogether_bind (ih (i + 1) ?_ context events) ?_
      · rw [left, right]
        exact serves
      intro rest last last' left right context events
      exact ⟨rfl, context, events, rfl, rfl⟩

theorem iterate_heeds (names : List String) (h : Heeds S (Need.binding needs (names.take 2)) body)
    (sparse : Bool) (entries : List (Value × Value)) :
    Heeds S needs (iterate names body sparse entries) := by
  refine .get_bind fun m m' serves => ?_
  simp only [← serves.context, ← serves.env.frames]
  have inner := serves.env.pushScope m.context
  let begun : Machine := { m with env := m.env.pushScope m.context }
  let begun' : Machine := { m' with env := m'.env.pushScope m.context }
  have frames : (begun.env.setFrames m.env.frames).Serves S needs
      (begun'.env.setFrames m.env.frames) := inner.setFrames _
  have loop := iterateFrom_endsTogether names h sparse m.env.frames entries.length 0 entries frames
    serves.context serves.events
  refine ⟨loop.result, loop.context, loop.events, (congrArg Env.popScope loop.left).trans rfl,
    (congrArg Env.popScope loop.right).trans ?_⟩
  rw [serves.env.frames]
  rfl

theorem renderBound_heeds (names : List String)
    (h : Heeds S (Need.binding needs (names.take 1)) body) (v : Value) :
    Heeds S needs (renderBound names v body) :=
  .within (renderIn_heeds h _) (fun _ _ outer => outer.bind names [v] fun _ => id)
    (Env.unbind_bind _ _)

theorem Need.take_binding {names : List String} {k l : Nat} (le : k ≤ l) (need : Need)
    (h : Need.binding needs (names.take k) need) : Need.binding needs (names.take l) need :=
  h.imp_right fun ⟨param, member, same⟩ => ⟨param, List.take_subset_take_left _ le member, same⟩

/-- An `each` binds its parameters whenever it renders the body; another section may not. -/
theorem renderSection_heeds (each : Bool) (names : List String)
    (h : Heeds S (Need.binding needs (names.take (if each then 2 else 0))) body)
    (hi : ∀ b, inverse = some b → Heeds S needs b) (value : Value) :
    Heeds S needs (renderSection each names value body inverse) := by
  have other := renderBranch_heeds hi
  have entered : Heeds S (Need.binding needs (names.take 2)) body :=
    h.mono (Need.take_binding (by split <;> omega))
  unfold renderSection
  split
  · exact other
  · cases each with
    | true =>
        cases value with
        | array items => exact iterate_heeds names entered _ _
        | iterable id items => exact iterate_heeds names entered _ _
        | object fields => exact iterate_heeds names entered _ _
        | _ => exact other
    | false =>
        have plain : Heeds S needs body := h.mono fun _ => Need.binding_nil
        cases value with
        | array items => exact iterate_heeds names entered _ _
        | iterable id items => exact iterate_heeds names entered _ _
        | object fields =>
            exact renderBound_heeds names (h.mono (Need.take_binding (Nat.zero_le 1))) _
        | bool b =>
            cases b with
            | true => exact plain
            | false => exact other
        | null => exact other
        | _ => exact plain.withContext _

theorem renderValue_heeds (h : Heeds S needs body) (hi : ∀ b, inverse = some b → Heeds S needs b)
    (inverted : Bool) (names : List String) (value : Value) :
    Heeds S needs (renderValue inverted names value body inverse) := by
  have without {b : Eval String} (h : Heeds S needs b) :
      Heeds S (Need.binding needs (names.take (if false = true then 2 else 0))) b :=
    h.mono fun _ => .inl
  unfold renderValue
  split
  · exact renderSection_heeds false names (without h) hi value
  · split
    · exact h
    · cases inverse with
      | none => exact .pure ""
      | some inverse =>
          exact renderSection_heeds false names (without (hi inverse rfl)) of_missing value

theorem Branches.of_heed (h : Heeds S needs body) (hi : ∀ b, inverse = some b → Heeds S needs b)
    (inverted : Bool) (params : List String) :
    (Branches.of inverted params body inverse).Heed S needs := by
  have own : ∀ b, some body = some b → Heeds S needs b := by
    rintro _ ⟨rfl⟩
    exact h
  cases inverted with
  | true => exact ⟨hi, own⟩
  | false => exact ⟨own, hi⟩

/-! ### Blocks -/

namespace Scene

variable (scene : Scene)

theorem holds_heeds {subject : Expr} {includeZero : Option Expr}
    (names : ∀ name ∈ subject.names, needs (.name name))
    (others : ∀ name ∈ includeZero.elim [] Expr.names, needs (.name name)) :
    Heeds S needs (scene.holds subject includeZero) := by
  refine .bind (scene.eval_heeds subject names) fun value => ?_
  cases includeZero with
  | none => exact .pure _
  | some e => exact .bind (scene.eval_heeds e others) fun zero => .pure _

theorem renderBlock_heeds (kind : BlockKind) (params : List String)
    (names : ∀ name ∈ kind.names, needs (.name name))
    (h : Heeds S (Need.binding needs (kind.bound params)) body)
    (hi : ∀ b, inverse = some b → Heeds S needs b) :
    Heeds S needs (scene.renderBlock kind params body inverse) := by
  cases kind with
  | condition subject includeZero negate =>
      have plain : Heeds S needs body := h.mono fun _ => Need.binding_nil
      simp only [BlockKind.names, List.mem_append, or_imp, forall_and] at names
      refine .bind (scene.holds_heeds names.1 names.2) fun b => ?_
      split
      · exact plain
      · exact renderBranch_heeds hi
  | context subject =>
      refine .bind (scene.eval_heeds subject names) fun value => ?_
      split
      · exact renderBranch_heeds hi
      · exact renderBound_heeds params h value
  | each subject =>
      exact .bind (scene.eval_heeds subject names) fun value =>
        renderSection_heeds true params h hi value
  | value subject inverted =>
      have plain : Heeds S needs body := h.mono fun _ => Need.binding_nil
      refine .bind (scene.eval_heeds subject names) fun value => ?_
      have shown := renderValue_heeds plain hi inverted params value
      cases value with
      | callable id =>
          refine .bind (scene.invoke_heeds _ _ [] [] ?_) fun result => .pure _
          rintro _ ⟨rfl⟩
          exact Branches.of_heed plain hi inverted params
      | _ => exact shown
  | helper call style inverted =>
      have plain : Heeds S needs body := h.mono fun _ => Need.binding_nil
      cases style with
      | rendering =>
          refine .bind (scene.evalCall_heeds call names ?_) fun result => .pure _
          rintro _ ⟨rfl⟩
          exact Branches.of_heed plain hi inverted params
      | positional =>
          exact .bind (scene.evalCall_heeds call names of_missing) fun value =>
            renderValue_heeds plain hi inverted params value

/-! ### Inclusions -/

/-- The known plans of one level deeper heed what they ask for. -/
def EntersHeeding (S : Stock) (enter? : Option (Plan → Eval String)) : Prop :=
  ∀ enter, enter? = some enter → ∀ plan, S.known plan →
    Heeds S (fun need => plan.Asks S.found need) (enter plan)

variable {scene} {enter? : Option (Plan → Eval String)}

variable (scene) in
theorem inclusionContext_heeds {call : Inclusion}
    (names : ∀ name ∈ call.names, needs (.name name)) :
    Heeds S needs (scene.inclusionContext call) := by
  simp only [Inclusion.names, List.mem_append, or_imp, forall_and] at names
  obtain ⟨contextNames, hashNames⟩ := names
  have merged (given : Value) : Heeds S needs (scene.mergedContext call given) := by
    unfold mergedContext
    split
    · exact .pure _
    · refine .bind (scene.evalHash_heeds _ hashNames) fun hash => ?_
      cases given <;> exact .pure _
  unfold inclusionContext
  revert contextNames
  cases call.context with
  | some e => exact fun contextNames => .bind (scene.eval_heeds e contextNames) merged
  | none =>
      intro _
      simp only
      split
      · exact .bind (.pure _) merged
      · refine .get_bind fun m m' serves => ?_
        rw [← serves.context]
        exact Heeds.bind (.pure _) merged m m' serves

/-- What the plan asks for must be needed outside, but for its block if it is given one. -/
theorem renderPartial_heeds (closed : S.Closed scene) (h : EntersHeeding S enter?)
    {call : Inclusion} (names : ∀ name ∈ call.names, needs (.name name)) {plan : Plan}
    (known : S.known plan) {block : Option Plan}
    (asks : ∀ need, plan.Asks S.found need → (need = .block → block = none) → needs need)
    (given : ∀ b, block = some b → S.known b ∧ ∀ need, b.Asks S.found need → needs need) :
    Heeds S needs (scene.renderPartial enter? call plan block) := by
  cases enter? with
  | none => exact .throw _
  | some enter =>
      refine .bind (scene.inclusionContext_heeds names) fun context => ?_
      refine .bind (.within (renderIn_heeds (h enter rfl plan known) _) ?_ (Env.leave_enter _))
        fun text => .pure _
      exact fun e e' outer => outer.enter closed given (fun name asked => asks _ asked nofun)
        fun asked without => asks _ asked fun _ => without

theorem findPartial?_found (closed : S.Closed scene) {e e' : Env} (serves : e.Serves S needs e')
    {name : String} {plan : Plan} (h : scene.findPartial? e name = some plan) :
    S.found name plan := by
  unfold findPartial? at h
  split at h
  · next inner found =>
    cases h
    obtain ⟨layer, member, here⟩ := List.exists_of_findSome?_eq_some found
    exact serves.visible layer member name plan here
  · exact closed.registered name plan h

theorem renderNamed_heeds (closed : S.Closed scene) (h : EntersHeeding S enter?) {call : Inclusion}
    (names : ∀ name ∈ call.names, needs (.name name)) {name : String} {block : Option Plan}
    (asks : ∀ plan, S.found name plan → ∀ need, plan.Asks S.found need →
      (need = .block → block = none) → needs need)
    (given : ∀ b, block = some b → S.known b ∧ ∀ need, b.Asks S.found need → needs need) :
    Heeds S needs (scene.renderNamed enter? call name block) := by
  refine .get_bind fun m m' serves => ?_
  have same : scene.findPartial? m.env name = scene.findPartial? m'.env name := by
    rw [findPartial?, findPartial?, serves.env.inlines]
  rw [← same, ← serves.env.depth]
  refine Heeds.bind (.addEvent _) (fun _ => ?_) m m' serves
  cases here : scene.findPartial? m.env name with
  | some plan =>
      have found := findPartial?_found closed serves.env here
      exact renderPartial_heeds closed h names (closed.known_of_found name plan found)
        (asks plan found) given
  | none =>
      cases block with
      | some block =>
          obtain ⟨known, blockAsks⟩ := given block rfl
          exact renderPartial_heeds closed h names known (fun need asked _ => blockAsks need asked)
            of_missing
      | none => exact .throw _

/-- The innermost block is served with what it asks for, wherever it was handed over. -/
theorem renderPartialBlock_heeds (closed : S.Closed scene) (h : EntersHeeding S enter?)
    {call : Inclusion} (names : ∀ name ∈ call.names, needs (.name name)) (block : needs .block) :
    Heeds S needs (scene.renderPartialBlock enter? call) := by
  refine .get_bind fun m m' serves => ?_
  have blocks := serves.env.blocks block
  have active := serves.env.active block
  generalize here : m.env.blocks = stack, here' : m'.env.blocks = stack' at blocks
  cases blocks with
  | nil =>
      simp only [← active]
      split
      · exact Heeds.pure _ m m' serves
      · exact Heeds.throw _ m m' serves
  | @cons b rest rest' known agree others =>
      let inner (need : Need) : Prop :=
        (∃ name ∈ call.names, need = .name name) ∨ b.Asks S.found need
      have dropped : m.env.dropBlock.Serves S inner m'.env.dropBlock := by
        refine
          { scopes := serves.env.scopes
            frames := serves.env.frames
            depth := serves.env.depth
            inlines := serves.env.inlines
            visible := serves.env.visible
            names := ?_
            blocks := ?_
            active := fun _ => active }
        · rintro name (⟨_, member, ⟨⟩⟩ | asked)
          · exact serves.env.names name (names name member)
          · exact agree name asked
        · rintro (⟨_, -, ⟨⟩⟩ | asked)
          have tails := others asked
          rw [Env.dropBlock, Env.dropBlock, here, here']
          exact tails
      have shown : Heeds S inner (scene.renderPartial enter? call b none) :=
        renderPartial_heeds closed h (fun name member => .inl ⟨name, member, rfl⟩) known
          (fun need asked _ => .inr asked) of_missing
      exact .within (shown _ _ ⟨dropped, serves.context, serves.events⟩)
        (Env.restoreBlock_dropBlock here) (Env.restoreBlock_dropBlock here')

/-- An inclusion in a known plan heeds what the plan asks for. -/
theorem renderInclusion_heeds (closed : S.Closed scene) (h : EntersHeeding S enter?) {plan : Plan}
    (known : S.known plan) (asks : ∀ need, plan.Asks S.found need → needs need) {call : Inclusion}
    {target : Target} {block : Option Plan} (member : .inclusion call target block ∈ plan) :
    Heeds S needs (scene.renderInclusion enter? call target block) := by
  have own (need : Need) (here : need ∈ (Node.inclusion call target block).needs) : needs need :=
    asks need (.own member here)
  have names (name : String) (here : name ∈ call.names) : needs (.name name) :=
    own _ (List.mem_append_left _ (List.mem_map_of_mem here))
  have given (b : Plan) (here : block = some b) :
      S.known b ∧ ∀ need, b.Asks S.found need → needs need := by
    subst here
    exact ⟨closed.part plan b known (.block member),
      fun need asked => asks need (.block member asked)⟩
  have inside (inner : Plan) (includes : target.Includes S.found inner) (need : Need)
      (asked : inner.Asks S.found need) (without : need = .block → block = none) : needs need :=
    asks need (.included member includes without asked)
  cases target with
  | embedded inner =>
      exact renderPartial_heeds closed h names (closed.part plan inner known (.embedded member))
        (inside inner (.embedded inner)) given
  | named name =>
      exact renderNamed_heeds closed h names (fun inner found => inside inner (.named found)) given
  | dynamic e =>
      have read (name : String) (here : name ∈ e.names) : needs (.name name) :=
        own _ (List.mem_append_right _ (List.mem_map_of_mem here))
      exact .bind (scene.eval_heeds e read) fun name =>
        renderNamed_heeds closed h names (fun inner found => inside inner (.dynamic e found)) given
  | partialBlock =>
      exact renderPartialBlock_heeds closed h names
        (own _ (List.mem_append_right _ (List.mem_singleton_self _)))

/-! ### Plans -/

theorem withInlines_heeds (closed : S.Closed scene) {plan : Plan} (known : S.known plan)
    (h : Heeds S needs body) : Heeds S needs (withInlines plan body) := by
  refine .within h (fun e e' outer => outer.pushInlines ?_) (Env.popInlines_pushInlines _)
  exact fun name inner found => closed.defined plan name inner known (mem_of_inlineDefs found)

/-- In the body of a block the parameters that are bound are served in any case. -/
theorem body_heeds (closed : S.Closed scene) {plan : Plan} (known : S.known plan)
    (asks : ∀ need, plan.Asks S.found need → needs need) {kind : BlockKind} {branch : Plan}
    {inverse : Option Plan} {params : List String}
    (member : .block kind branch inverse params ∈ plan)
    (h : Heeds S (fun need => branch.Asks S.found need) body) :
    Heeds S (Need.binding needs (kind.bound params)) (withInlines branch body) := by
  have part := closed.part plan branch known (.body member)
  refine (withInlines_heeds closed part h).mono fun need asked => ?_
  by_cases bound : ∃ name ∈ kind.bound params, need = .name name
  · exact .inr bound
  · exact .inl (asks need (.body member (fun name here same => bound ⟨name, here, same⟩) asked))

theorem inverse_heeds (closed : S.Closed scene) {plan : Plan} (known : S.known plan)
    (asks : ∀ need, plan.Asks S.found need → needs need) {kind : BlockKind} {branch other : Plan}
    {params : List String} (member : .block kind branch (some other) params ∈ plan)
    (h : Heeds S (fun need => other.Asks S.found need) body) :
    Heeds S needs (withInlines other body) := by
  have part := closed.part plan other known (.inverse member)
  exact (withInlines_heeds closed part h).mono fun need asked => asks need (.inverse member asked)

mutual

/-- A node of a known plan heeds what the plan asks for. -/
theorem renderNode_heeds (closed : S.Closed scene) (h : EntersHeeding S enter?) {plan : Plan}
    (known : S.known plan) {needs : Need → Prop}
    (asks : ∀ need, plan.Asks S.found need → needs need) :
    (node : Node) → node ∈ plan → Heeds S needs (scene.renderNode enter? node)
  | .literal text, _ => by
      simp only [renderNode]
      exact .pure text
  | .lookup e encoding, member => by
      simp only [renderNode]
      refine .bind (scene.lookup_heeds e fun name here => ?_) fun value => .pure _
      exact asks _ (.own member (List.mem_map_of_mem here))
  | .helper call encoding, member => by
      simp only [renderNode]
      refine .bind (scene.evalCall_heeds call (fun name here => ?_) of_missing) fun value => .pure _
      exact asks _ (.own member (List.mem_map_of_mem here))
  | .block kind branch none params, member => by
      have inside := renderNodes_heeds closed h (closed.part plan branch known (.body member))
        (fun _ => id) branch fun _ => id
      have names (name : String) (here : name ∈ kind.names) : needs (.name name) :=
        asks _ (.own member (List.mem_map_of_mem here))
      simp only [renderNode]
      exact scene.renderBlock_heeds kind params names (body_heeds closed known asks member inside)
        of_missing
  | .block kind branch (some other) params, member => by
      have inside := renderNodes_heeds closed h (closed.part plan branch known (.body member))
        (fun _ => id) branch fun _ => id
      have instead := renderNodes_heeds closed h (closed.part plan other known (.inverse member))
        (fun _ => id) other fun _ => id
      have names (name : String) (here : name ∈ kind.names) : needs (.name name) :=
        asks _ (.own member (List.mem_map_of_mem here))
      simp only [renderNode]
      have inside := body_heeds closed known asks member inside
      refine scene.renderBlock_heeds kind params names inside ?_
      rintro _ ⟨rfl⟩
      exact inverse_heeds closed known asks member instead
  | .inclusion call target block, member => by
      simp only [renderNode]
      exact renderInclusion_heeds closed h known asks member
  | .inlineDef name plan, _ => by
      simp only [renderNode]
      exact .pure ""

theorem renderNodes_heeds (closed : S.Closed scene) (h : EntersHeeding S enter?) {plan : Plan}
    (known : S.known plan) {needs : Need → Prop}
    (asks : ∀ need, plan.Asks S.found need → needs need) :
    (nodes : List Node) → (∀ node ∈ nodes, node ∈ plan) →
      Heeds S needs (scene.renderNodes enter? nodes)
  | [], _ => by
      simp only [renderNodes]
      exact .pure ""
  | node :: nodes, members => by
      obtain ⟨first, others⟩ := List.forall_mem_cons.mp members
      simp only [renderNodes]
      exact .bind (renderNode_heeds closed h known asks node first) fun text =>
        .bind (renderNodes_heeds closed h known asks nodes others) fun rest => .pure _

end

/-- Below every level the known plans heed what they ask for, by induction on the levels. -/
theorem entersHeeding_deeper (closed : S.Closed scene) (levels : Nat) :
    EntersHeeding S (scene.deeper? levels) := by
  induction levels with
  | zero => exact of_missing
  | succ levels ih =>
      rintro _ ⟨rfl⟩ plan known
      rw [renderPlan_eq]
      exact withInlines_heeds closed known
        (renderNodes_heeds closed ih known (fun _ => id) plan fun _ => id)

theorem renderPlan_heeds (closed : S.Closed scene) (levels : Nat) {plan : Plan}
    (known : S.known plan) :
    Heeds S (fun need => plan.Asks S.found need) (scene.renderPlan levels plan) := by
  rw [renderPlan_eq]
  exact withInlines_heeds closed known
    (renderNodes_heeds closed (entersHeeding_deeper closed levels) known (fun _ => id) plan
      fun _ => id)

end Scene

/-! ### Call sites -/

/-- The plans that rendering a plan may come to, where these partials are known: what is found by
name, the blocks that were handed over, and the parts of all these. -/
inductive Scene.Reaches (scene : Scene) (σ : Surroundings) (start : Plan) : Plan → Prop
  | start : Reaches scene σ start start
  | registered {name : String} {plan : Plan}
      (h : Table.get? scene.template.partials name = some plan) : Reaches scene σ start plan
  | inline {layer : Table Plan} {name : String} {plan : Plan} (member : layer ∈ σ.inlines)
      (h : Table.get? layer name = some plan) : Reaches scene σ start plan
  | handed {block : Plan} (member : block ∈ σ.blocks) : Reaches scene σ start block
  | part {plan inner : Plan} (h : Reaches scene σ start plan) (part : plan.HasPart inner) :
      Reaches scene σ start inner

/-- The plans that a name may stand for while a plan is rendered. -/
inductive Scene.Finds (scene : Scene) (σ : Surroundings) (start : Plan) (name : String)
    (plan : Plan) : Prop
  | registered (h : Table.get? scene.template.partials name = some plan)
  | inline {layer : Table Plan} (member : layer ∈ σ.inlines)
      (h : Table.get? layer name = some plan)
  | defined {outer : Plan} (h : scene.Reaches σ start outer)
      (member : .inlineDef name plan ∈ outer)

/-- What is asked for when a plan is rendered: what the plan asks for, and, if it shows a block
that was handed over, what these blocks ask for. -/
inductive Scene.Asks (scene : Scene) (σ : Surroundings) (plan : Plan) (need : Need) : Prop
  | own (h : plan.Asks (scene.Finds σ plan) need)
  | handed {block : Plan} (shown : plan.Asks (scene.Finds σ plan) .block)
      (member : block ∈ σ.blocks) (h : block.Asks (scene.Finds σ plan) need)

def Scene.stock (scene : Scene) (σ : Surroundings) (start : Plan) : Stock where
  known := scene.Reaches σ start
  found := scene.Finds σ start

theorem Scene.stock_closed (scene : Scene) (σ : Surroundings) (start : Plan) :
    (scene.stock σ start).Closed scene where
  registered _ _ h := .registered h
  known_of_found _ _ found := by
    cases found with
    | registered h => exact .registered h
    | inline member h => exact .inline member h
    | defined h member => exact .part h (.inlineDef member)
  part _ _ known part := .part known part
  defined _ _ _ known member := .defined known member

/-- Environments that differ at most in bindings of names that are not asked for, and in the blocks
handed over if these are not asked for. -/
structure Env.AgreeFor (asked : Need → Prop) (e e' : Env) : Prop where
  scopes : e.scopes = e'.scopes
  frames : e.frames = e'.frames
  inlines : e.inlines = e'.inlines
  depth : e.depth = e'.depth
  names : ∀ name, asked (.name name) → e.binding? name = e'.binding? name
  blocks : asked .block → e.blocks = e'.blocks ∧ e.blockCount = e'.blockCount

theorem Env.AgreeFor.serves {scene : Scene} {plan : Plan} {e e' : Env}
    (h : e.AgreeFor (scene.Asks e.surroundings plan) e') :
    e.Serves (scene.stock e.surroundings plan)
      (fun need => plan.Asks (scene.Finds e.surroundings plan) need) e' where
  scopes := h.scopes
  frames := h.frames
  depth := h.depth
  inlines := h.inlines
  visible _ member _ _ found := .inline member found
  names name asked := h.names name (.own asked)
  blocks asked := by
    rw [← (h.blocks (.own asked)).1]
    exact .self (fun _ member => .handed member) fun _ member name inside =>
      h.names name (.handed asked member inside)
  active asked := by rw [(h.blocks (.own asked)).2]

def Env.setBindings (bindings : List Fields) (env : Env) : Env :=
  { env with bindings }

theorem Env.bindings_enter (block : Option Plan) (env : Env) :
    (env.enter block).bindings = env.bindings := by
  cases block with
  | none => rfl
  | some block =>
      simp only [Env.enter, Env.pushInlines]
      split <;> rfl

/-- Renders a plan with these bindings in place of the caller's. -/
def rebound (bindings : List Fields) (enter : Plan → Eval String) (plan : Plan) : Eval String := do
  let current := (← get).env.bindings
  Eval.within (Env.setBindings bindings) (Env.setBindings current) (enter plan)

theorem Machine.eq_of_fields {m m' : Machine} (env : m.env = m'.env)
    (context : m.context = m'.context) (events : m.events = m'.events) : m = m' := by
  cases m
  cases m'
  cases env
  cases context
  cases events
  rfl

namespace Scene

variable {scene : Scene} {levels : Nat} {plan : Plan} {m m' : Machine}

theorem renderPlan_together (agree : m.env.AgreeFor (scene.Asks m.env.surroundings plan) m'.env)
    (context : m.context = m'.context) (events : m.events = m'.events) :
    Together m m' (scene.renderPlan levels plan) (scene.renderPlan levels plan) :=
  renderPlan_heeds (scene.stock_closed m.env.surroundings plan) levels .start m m'
    ⟨agree.serves, context, events⟩

/-- Other bindings make no difference to a plan, if they agree on the names that are asked for. -/
theorem rebound_run {bindings : List Fields}
    (unread : ∀ name, scene.Asks m.env.surroundings plan (.name name) →
      m.env.binding? name = (m.env.setBindings bindings).binding? name) :
    (rebound bindings (scene.renderPlan levels) plan).run.run m =
      (scene.renderPlan levels plan).run.run m := by
  let other : Machine := { m with env := m.env.setBindings bindings }
  have agree : m.env.AgreeFor (scene.Asks m.env.surroundings plan) other.env :=
    ⟨rfl, rfl, rfl, rfl, unread, fun _ => ⟨rfl, rfl⟩⟩
  have ends : Together m other (scene.renderPlan levels plan) (scene.renderPlan levels plan) :=
    renderPlan_together agree rfl rfl
  rw [rebound, run_get_bind, run_within]
  refine Prod.ext ends.result.symm (Machine.eq_of_fields ?_ ends.context.symm ends.events.symm)
  exact (congrArg (Env.setBindings m.env.bindings) ends.right).trans ends.left.symm

theorem within_congr {a b : Eval String} {enter leave : Env → Env}
    (h : a.run.run { m with env := enter m.env } = b.run.run { m with env := enter m.env }) :
    (within enter leave a).run.run m = (within enter leave b).run.run m := by
  rw [run_within, run_within, h]

theorem withContext_congr {a b : Eval String} {v : Value}
    (h : a.run.run { m with context := v } = b.run.run { m with context := v }) :
    (withContext v a).run.run m = (withContext v b).run.run m := by
  rw [run_withContext, run_withContext, h]

/-- Another context brings in no partial, block or binding. -/
theorem renderIn_congr {a b : Eval String} (context : Option Value)
    (h : ∀ m' : Machine, m'.env.surroundings = m.env.surroundings →
      m'.env.bindings = m.env.bindings → a.run.run m' = b.run.run m') :
    (renderIn context a).run.run m = (renderIn context b).run.run m := by
  cases context with
  | none => exact h m rfl rfl
  | some v =>
      simp only [renderIn, run_get_bind]
      split
      · exact h m rfl rfl
      · exact within_congr (withContext_congr (h _ rfl rfl))

/-- The bindings that an inclusion leaves in place make no difference to its plan, if the plan asks
for none of their names. -/
theorem renderPartial_rebound {bindings : List Fields} (call : Inclusion) {block : Option Plan}
    (unread : ∀ name, scene.Asks (m.env.enter block).surroundings plan (.name name) →
      m.env.binding? name = (m.env.setBindings bindings).binding? name) :
    (scene.renderPartial (scene.deeper? levels) call plan block).run.run m =
      (scene.renderPartial ((scene.deeper? levels).map (rebound bindings)) call plan
        block).run.run m := by
  cases levels with
  | zero => rfl
  | succ levels =>
      have restored : ((scene.inclusionContext call).run.run m).2.env = m.env :=
        Regular.restores (inclusionContext_matches (.refl scene) scene.keepsTo_true call) m
      simp only [deeper?, Option.map_some, renderPartial]
      rw [run_bind, run_bind]
      revert restored
      generalize (scene.inclusionContext call).run.run m = r
      obtain ⟨result, after⟩ := r
      rintro (restored : after.env = m.env)
      cases result with
      | error e => rfl
      | ok context =>
          have shown : (within (Env.enter block) (Env.leave block)
                (renderIn (some context) (scene.renderPlan levels plan))).run.run after =
              (within (Env.enter block) (Env.leave block)
                (renderIn (some context) (rebound bindings (scene.renderPlan levels) plan))).run.run
                after := by
            refine within_congr (renderIn_congr _ fun m' surroundings bound => ?_)
            rw [restored] at surroundings bound
            refine (rebound_run fun name asked => ?_).symm
            rw [surroundings] at asked
            have same : m'.env.binding? name = m.env.binding? name := by
              rw [Env.binding?, bound, Env.bindings_enter, Env.binding?]
            exact same.trans (unread name asked)
          simp only
          rw [run_bind, run_bind, shown]

theorem renderNamed_found (enter? : Option (Plan → Eval String)) (call : Inclusion) {name : String}
    (block : Option Plan) (h : scene.findPartial? m.env name = some plan) :
    (scene.renderNamed enter? call name block).run.run m =
      (scene.renderPartial enter? call plan block).run.run
        { m with events := .dispatching name m.env.depth :: m.events } := by
  simp only [renderNamed, run_get_bind, h]
  rfl

/-- The plan that an inclusion renders as a partial. -/
inductive Resolves (scene : Scene) (m : Machine) : Target → Plan → Prop
  | embedded (plan : Plan) : Resolves scene m (.embedded plan) plan
  | named {name : String} {plan : Plan} (h : scene.findPartial? m.env name = some plan) :
      Resolves scene m (.named name) plan
  | dynamic {e : Expr} {v : Value} {after : Machine} {plan : Plan}
      (evaluated : (scene.eval e).run.run m = (.ok v, after))
      (h : scene.findPartial? m.env v.text = some plan) : Resolves scene m (.dynamic e) plan

/-- What a plan shows depends on the bindings only for the names that it asks for, and on the blocks
handed over only if it shows one. In particular an inclusion whose plan asks for no name that the
caller binds shows the same when the bindings are removed. -/
theorem inclusions_scoped (scene : Scene) (levels : Nat) :
    (∀ (plan : Plan) (m m' : Machine),
      m.env.AgreeFor (scene.Asks m.env.surroundings plan) m'.env → m.context = m'.context →
        m.events = m'.events →
          (scene.renderPlan levels plan).shown m = (scene.renderPlan levels plan).shown m') ∧
    ∀ (call : Inclusion) (target : Target) (block : Option Plan) (m : Machine) (plan : Plan)
      (bindings : List Fields), scene.Resolves m target plan →
      (∀ name, scene.Asks (m.env.enter block).surroundings plan (.name name) →
        m.env.binding? name = (m.env.setBindings bindings).binding? name) →
      (scene.renderInclusion (scene.deeper? levels) call target block).run.run m =
        (scene.renderInclusion ((scene.deeper? levels).map (rebound bindings)) call target
          block).run.run m := by
  constructor
  · intro plan m m' agree context events
    have ends : Together m m' (scene.renderPlan levels plan) (scene.renderPlan levels plan) :=
      renderPlan_together agree context events
    exact Prod.ext ends.result ends.events
  · intro call target block m plan bindings resolves unread
    have found (before : Machine) (here : before.env = m.env) {name : String}
        (h : scene.findPartial? before.env name = some plan) :
        (scene.renderNamed (scene.deeper? levels) call name block).run.run before =
          (scene.renderNamed ((scene.deeper? levels).map (rebound bindings)) call name
            block).run.run before := by
      rw [renderNamed_found _ call block h, renderNamed_found _ call block h]
      apply renderPartial_rebound
      simp only [here]
      exact unread
    cases resolves with
    | embedded plan => exact renderPartial_rebound call unread
    | named h => exact found m rfl h
    | @dynamic e v after _ evaluated h =>
        have restored : after.env = m.env := by
          have restored := (scene.rendering_restores levels).expression e m
          rwa [evaluated] at restored
        simp only [renderInclusion]
        rw [run_bind, run_bind, evaluated]
        exact found after restored (restored ▸ h)

end Scene

/-- What a partial is compiled to that lists names: it binds the name that it shows by itself. -/
def roster : Plan :=
  [.block (.each (.path { segments := ["names"], source := "names" }))
    [.lookup (.path { segments := ["name"], source := "name" }) .html] none ["name"]]

theorem mem_names_of_asks {found : String → Plan → Prop} {need : Need} {e : Expr}
    {encoding : Encoding} (h : Plan.Asks found need [.lookup e encoding]) :
    need ∈ e.names.map .name := by
  cases h with
  | own member needs =>
      cases List.mem_singleton.mp member
      exact needs
  | body member | inverse member | block member | included member =>
      cases List.mem_singleton.mp member

theorem roster_asks {found : String → Plan → Prop} {need : Need} (h : roster.Asks found need) :
    need = .name "names" := by
  cases h with
  | own member needs =>
      cases List.mem_singleton.mp member
      exact List.mem_singleton.mp needs
  | body member free inside =>
      cases List.mem_singleton.mp member
      exact absurd (List.mem_singleton.mp (mem_names_of_asks inside)) (free "name" (.head _))
  | inverse member | block member | included member => cases List.mem_singleton.mp member

/-- The caller binds the very name, and it makes no difference. -/
theorem roster_scoped :
    let data : Value := .object [("names", .array [.string "Ann", .string "Bo"])]
    let scene : Scene :=
      { template :=
          { plan := [], partials := [], helpers := [], blockHelpers := [], settings := {}
            usage := {}, warnings := [] }
        root := data, functions := fun _ _ => .done .null }
    let env : Env := { frames := [[]], bindings := [[("name", data)]] }
    let inside : Machine := { env, context := data }
    let without : Machine := { env := env.setBindings [], context := data }
    let call : Inclusion := { name := "roster", context := none, hash := [], indent := "" }
    env.AgreeFor (scene.Asks env.surroundings roster) without.env ∧
      scene.Resolves inside (.embedded roster) roster ∧
      ((scene.renderInclusion (scene.deeper? 1) call (.embedded roster) none).run.run inside).1 =
        .ok "AnnBo" ∧
      (scene.renderPlan 0 roster).shown inside = (scene.renderPlan 0 roster).shown without ∧
      (scene.renderInclusion (scene.deeper? 1) call (.embedded roster) none).run.run inside =
        (scene.renderInclusion ((scene.deeper? 1).map (rebound [])) call (.embedded roster)
          none).run.run inside := by
  intro data scene env inside without call
  have own {σ : Surroundings} (blocks : σ.blocks = []) {need : Need}
      (asked : scene.Asks σ roster need) : need = .name "names" := by
    cases asked with
    | own h => exact roster_asks h
    | handed shown member => rw [blocks] at member; cases member
  have unread (name : String) (same : Need.name name = .name "names") :
      env.binding? name = (env.setBindings []).binding? name := by
    cases same
    rfl
  have agree : env.AgreeFor (scene.Asks env.surroundings roster) without.env :=
    ⟨rfl, rfl, rfl, rfl, fun name asked => unread name (own rfl asked), fun _ => ⟨rfl, rfl⟩⟩
  refine ⟨agree, .embedded roster, eq_ok_of_toOption (by decide +kernel), ?_, ?_⟩
  · exact (scene.inclusions_scoped 0).1 roster inside without agree rfl rfl
  · exact (scene.inclusions_scoped 1).2 call (.embedded roster) none inside roster [] (.embedded _)
      fun name asked => unread name (own rfl asked)

/-- A partial that shows the name of its context. -/
def labels : Registry :=
  Registry.builtin.registerPartial "label" "\x7b\x7bname\x7d\x7d"

def labelled : String :=
  "\x7b\x7b#with owner as |name|\x7d\x7d\x7b\x7b> label\x7d\x7d\x7b\x7b/with\x7d\x7d"

/-- The caller's block parameter hides the name from the partial, which shows it as soon as the
bindings of its caller are removed. -/
theorem label_misses :
    let data : Value := .object [("owner", .object [("name", .string "Ann")])]
    ∃ t, (labels.compile {} labelled).result = .ok t ∧ t.warnings = [] ∧
      (t.render { data, functions := fun _ _ => .done .null }).result = .ok "[object Object]" ∧
        ∃ scene : Scene, scene.template = t ∧ scene.root = data ∧
          let deeper? := scene.deeper? t.settings.maxPartialDepth
          let start : Machine := { env := { frames := [[]] }, context := data }
          ((withInlines t.plan (scene.renderNodes deeper? t.plan)).run.run start).1 =
              .ok "[object Object]" ∧
            ((withInlines t.plan (scene.renderNodes (deeper?.map (rebound [])) t.plan)).run.run
              start).1 = .ok "Ann" := by
  intro data
  let scene (t : Template) : Scene :=
    { template := t, root := data, functions := fun _ _ => .done .null }
  let start : Machine := { env := { frames := [[]] }, context := data }
  let deeper? (t : Template) := (scene t).deeper? t.settings.maxPartialDepth
  let shown (t : Template) (enter? : Option (Plan → Eval String)) :=
    ((withInlines t.plan ((scene t).renderNodes enter? t.plan)).run.run start).1
  have run : ((labels.compile {} labelled).result.toOption.any fun t =>
      t.warnings.isEmpty &&
        (t.render { data, functions := fun _ _ => .done .null }).result.toOption ==
            some "[object Object]" &&
          (shown t (deeper? t)).toOption == some "[object Object]" &&
            (shown t ((deeper? t).map (rebound []))).toOption == some "Ann") = true := by
    decide +kernel
  obtain ⟨t, compiled, run⟩ := (Option.any_eq_true _ _).mp run
  simp only [Bool.and_eq_true, beq_iff_eq] at run
  obtain ⟨⟨⟨silent, output⟩, rendered⟩, removed⟩ := run
  exact ⟨t, eq_ok_of_toOption compiled, List.isEmpty_iff.mp silent, eq_ok_of_toOption output,
    scene t, rfl, rfl, eq_ok_of_toOption rendered, eq_ok_of_toOption removed⟩

end Stencil
