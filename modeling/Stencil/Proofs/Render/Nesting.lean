import Stencil.Proofs.Render.Invariants
import Stencil.Proofs.Render.Restoration

/-!
How deep inclusions nest.

A second renderer keeps the list of the inclusions that are active and is unrolled further than
any render may go. Wherever more inclusions are active than the settings allow, wherever the
counter of the environment is not the length of the list, and at the end of the unrolling, it does
anything at all. Both renderers give one outcome, so none of this is ever reached: the counter
alone bounds the nesting, and a render ends. The induction is on the levels below a plan, which
add up to the limit with the inclusions above it; it also carries any invariant of a render.
-/

namespace Stencil

open Eval

/-! ### Plans that uphold an invariant -/

/-- The text that a block writes by itself is allowed. A call without a callable to invoke gives
no text when it has arguments. -/
def BlockKind.Upholds (I : Invariant) : BlockKind → Prop
  | .value _ _ => (∃ id, I.value (.callable id)) → ∀ v, I.value v → I.text v.text
  | .helper call .rendering _ =>
    (∀ v, I.value v → I.text v.text) ∨
      (∃ p, call.callee = .path p) ∧ (call.args ≠ [] ∨ call.hash ≠ []) ∧
        ∀ id, ¬ I.value (.callable id)
  | _ => True

mutual

/-- All that the node writes is allowed, as long as the values that it sees are. -/
def Node.Upholds (I : Invariant) : Node → Prop
  | .literal text => I.text text
  | .lookup _ encoding => ∀ v, I.value v → I.text (v.output encoding)
  | .helper _ encoding => ∀ v, I.value v → I.text (v.output encoding)
  | .block kind body none _ => kind.Upholds I ∧ Node.AllUphold I body
  | .block kind body (some inverse) _ =>
    kind.Upholds I ∧ Node.AllUphold I body ∧ Node.AllUphold I inverse
  | .inclusion call target none =>
    (∀ s, I.text s → I.text (indentLines call.indent s)) ∧ Target.Upholds I target
  | .inclusion call target (some block) =>
    (∀ s, I.text s → I.text (indentLines call.indent s)) ∧ Target.Upholds I target ∧
      Node.AllUphold I block
  | .inlineDef _ plan => Node.AllUphold I plan

def Node.AllUphold (I : Invariant) : List Node → Prop
  | [] => True
  | node :: nodes => Node.Upholds I node ∧ Node.AllUphold I nodes

def Target.Upholds (I : Invariant) : Target → Prop
  | .embedded plan => Node.AllUphold I plan
  | .named _ => True
  | .dynamic _ => True
  | .partialBlock => True

end

/-- The partials that an environment knows uphold the invariant, and `depth` inclusions are
active. -/
structure Surroundings.At (I : Invariant) (depth : Nat) (s : Surroundings) : Prop where
  inlines : ∀ layer ∈ s.inlines, Table.All (Node.AllUphold I) layer
  blocks : ∀ block ∈ s.blocks, Node.AllUphold I block
  depth : s.depth = depth

/-- The partials of a template uphold the invariant. -/
def Template.Upholds (I : Invariant) (template : Template) : Prop :=
  Node.AllUphold I template.plan ∧ Table.All (Node.AllUphold I) template.partials

/-! ### The watched renderer -/

namespace Scene

section

variable (scene : Scene) (other : Eval String) (enter : List Inclusion → Plan → Eval String)
  (active : List Inclusion)

/-- Renders a plan as a partial while `active` are the inclusions that are active. With as many as
are allowed the inclusion is refused, and with fewer it is rendered. Anything may happen when
there are more, or when the environment counts others. -/
def watchedPartial (call : Inclusion) (plan : Plan) (block : Option Plan) : Eval String := do
  let m ← get
  let limit := scene.template.settings.maxPartialDepth
  if m.env.depth ≠ active.length ∨ limit < active.length then other
  else if active.length = limit then throw (.partialDepth call.name limit)
  else scene.renderPartial (some (enter (call :: active))) call plan block

/-- Renders the partial of a name, or the block in its place. -/
def watchedNamed (call : Inclusion) (name : String) (block : Option Plan) : Eval String := do
  let m ← get
  Eval.addEvent (.dispatching name m.env.depth)
  match scene.findPartial? m.env name, block with
  | some plan, block => scene.watchedPartial other enter active call plan block
  | none, some block => scene.watchedPartial other enter active call block none
  | none, none => throw (.missingPartial name)

/-- Renders the innermost block that was handed to a partial. -/
def watchedPartialBlock (call : Inclusion) : Eval String := do
  let m ← get
  match m.env.blocks with
  | block :: _ =>
    Eval.within Env.dropBlock (Env.restoreBlock block)
      (scene.watchedPartial other enter active call block none)
  | [] =>
    if m.env.blockCount = 0 then return ""
    throw (.missingPartial call.name)

/-- Renders an inclusion. -/
def watchedInclusion (call : Inclusion) (target : Target) (block : Option Plan) :
    Eval String := do
  match target with
  | .embedded plan => scene.watchedPartial other enter active call plan block
  | .named name => scene.watchedNamed other enter active call name block
  | .dynamic e =>
    let name ← scene.eval e
    scene.watchedNamed other enter active call name.text block
  | .partialBlock => scene.watchedPartialBlock other enter active call

mutual

/-- The output of a node. -/
def watchedNode : Node → Eval String
  | .literal text => return text
  | .lookup e encoding => return (← scene.lookup e).output encoding
  | .helper call encoding => return (← scene.evalCall none call).output encoding
  | .block kind body inverse params =>
    scene.renderBlock kind params (withInlines body (watchedNodes body))
      (match inverse with
        | some inverse => some (withInlines inverse (watchedNodes inverse))
        | none => none)
  | .inclusion call target block => scene.watchedInclusion other enter active call target block
  | .inlineDef _ _ => return ""

/-- The output of nodes in order. -/
def watchedNodes : List Node → Eval String
  | [] => return ""
  | node :: nodes => do
    let text ← watchedNode node
    let rest ← watchedNodes nodes
    return text ++ rest

end

end

/-- Renders a plan; at most `unrolled` plans are rendered inside each other before anything may
happen. -/
def watchedPlan (scene : Scene) (other : Eval String) :
    (unrolled : Nat) → List Inclusion → Plan → Eval String
  | 0, _, _ => other
  | unrolled + 1, active, plan =>
    withInlines plan (scene.watchedNodes other (scene.watchedPlan other unrolled) active plan)

end Scene

/-- The outcome of a template by the watched renderer, unrolled by `more` than the limit asks
for. -/
def Template.watchedRender (template : Template) (other : Eval String) (more : Nat)
    (input : Input) : RenderOutcome :=
  let scene : Scene := { template, root := input.data, functions := input.functions }
  let machine : Machine := { env := { frames := [input.seed] }, context := input.data }
  let unrolled := template.settings.maxPartialDepth + 1 + more
  let (result, machine) := (scene.watchedPlan other unrolled [] template.plan).run.run machine
  { result, events := machine.events.reverse }

/-! ### Agreement of plans -/

section

variable {I : Invariant} {k : Nat}

theorem Node.allUphold_iff {nodes : List Node} :
    Node.AllUphold I nodes ↔ ∀ node ∈ nodes, node.Upholds I := by
  induction nodes with
  | nil => simp [Node.AllUphold]
  | cons node nodes ih => rw [Node.AllUphold, ih, List.forall_mem_cons]

theorem Plan.inlineDefs_uphold {plan : Plan} (h : Node.AllUphold I plan) :
    Table.All (Node.AllUphold I) (Plan.inlineDefs plan) := by
  refine .ofEntries fun e member => ?_
  obtain ⟨node, here, given⟩ := List.mem_filterMap.mp member
  have upholds := Node.allUphold_iff.mp h node here
  cases node with
  | inlineDef name body =>
      cases given
      simpa only [Node.Upholds] using upholds
  | _ => cases given

theorem Env.Upholds.pushInlines {env : Env} (h : env.Upholds I (Surroundings.At I k)) {plan : Plan}
    (hp : Node.AllUphold I plan) :
    (env.pushInlines (Plan.inlineDefs plan)).Upholds I (Surroundings.At I k) := by
  rw [Env.pushInlines]
  split
  · exact h
  · refine ⟨h.scopes, h.frames, h.bindings, ?_, h.surroundings.blocks, h.surroundings.depth⟩
    exact List.forall_mem_cons.mpr ⟨Plan.inlineDefs_uphold hp, h.surroundings.inlines⟩

/-- One more inclusion is active inside an inclusion. -/
theorem Env.Upholds.enter {env : Env} (h : env.Upholds I (Surroundings.At I k))
    {block : Option Plan} (hb : ∀ plan, block = some plan → Node.AllUphold I plan) :
    (env.enter block).Upholds I (Surroundings.At I (k + 1)) := by
  have depth : env.depth = k := h.surroundings.depth
  cases block with
  | none =>
      exact ⟨h.scopes, h.frames, h.bindings, h.surroundings.inlines, h.surroundings.blocks,
        congrArg (· + 1) depth⟩
  | some block =>
      have inner := h.pushInlines (hb block rfl)
      have same : (env.pushInlines (Plan.inlineDefs block)).depth = k := inner.surroundings.depth
      refine ⟨inner.scopes, inner.frames, inner.bindings, inner.surroundings.inlines, ?_,
        congrArg (· + 1) same⟩
      exact List.forall_mem_cons.mpr ⟨hb block rfl, inner.surroundings.blocks⟩

theorem Env.Upholds.dropBlock {env : Env} (h : env.Upholds I (Surroundings.At I k)) :
    env.dropBlock.Upholds I (Surroundings.At I k) :=
  ⟨h.scopes, h.frames, h.bindings, h.surroundings.inlines,
    fun block member => h.surroundings.blocks block (List.mem_of_mem_tail member),
    h.surroundings.depth⟩

theorem withInlines_concur {nodes nodes' : Eval String} {plan : Plan} (hp : Node.AllUphold I plan)
    (h : Concur I (Surroundings.At I k) I.text nodes nodes') :
    Concur I (Surroundings.At I k) I.text (withInlines plan nodes) (withInlines plan nodes') :=
  .within h (fun _ upholds => upholds.pushInlines hp) (Env.popInlines_pushInlines _)

namespace Scene

variable {scene : Scene}

/-! ### Blocks -/

theorem holds_concur {S : Surroundings → Prop} (h : scene.Upholds I) (subject : Expr)
    (includeZero : Option Expr) :
    Concur I S (fun _ => True) (scene.holds subject includeZero)
      (scene.holds subject includeZero) := by
  refine .bind (eval_concur h _) fun value _ => ?_
  cases includeZero with
  | none => exact .pure trivial
  | some e => exact .bind (eval_concur h e) fun zero _ => .pure trivial

/-- A call with arguments of what is no callable fails. -/
theorem evalCall_fails {S : Surroundings → Prop} (h : scene.Upholds I)
    (noCallable : ∀ id, ¬ I.value (.callable id)) {b b' : Option Branches} {p : Path}
    {args : List Expr} {hash : List (String × Expr)} (given : args ≠ [] ∨ hash ≠ []) :
    Concur I S (fun _ => False) (scene.evalCall b ⟨.path p, args, hash⟩)
      (scene.evalCall b' ⟨.path p, args, hash⟩) := by
  have applied (vs : List Value) (fields : Fields) (given : vs ≠ [] ∨ fields ≠ []) :
      Concur I S (fun _ => False) (scene.applyCallee (.path p) vs fields b)
        (scene.applyCallee (.path p) vs fields b') := by
    refine .get_bind fun m hm => ?_
    have some_argument : ¬ (vs.isEmpty && fields.isEmpty) = true := by
      simpa [or_iff_not_imp_left] using given
    have known := fun v => resolve?_upholds h hm (p := p) (v := v)
    cases found : scene.resolve? m p with
    | none =>
        simp only [if_neg some_argument]
        exact Concur.throw _ m hm
    | some value =>
        have hv := known value found
        cases value with
        | callable id => exact absurd hv (noCallable id)
        | _ =>
            simp only [if_neg some_argument]
            exact Concur.throw _ m hm
  have named (first : String) (v : Value) (vs : List (String × Value)) :
      Table.ofEntries ((first, v) :: vs) ≠ [] := by
    intro empty
    have found := Table.isSome_get?_ofEntries (List.mem_cons_self (a := (first, v)) (l := vs))
    rw [empty] at found
    cases found
  simp only [evalCall]
  cases args with
  | cons e es =>
      simp only [evalArgs, bind_assoc, pure_bind]
      exact .bind (eval_concur h e) fun v _ => .bind (evalArgs_concur h es) fun vs _ =>
        .bind (evalHash_concur h hash) fun fields _ => applied _ _ (.inl (by simp))
  | nil =>
      cases hash with
      | nil => simp at given
      | cons first hash =>
          obtain ⟨name, e⟩ := first
          simp only [evalHash, bind_assoc, pure_bind]
          exact .bind (evalArgs_concur h []) fun _ _ => .bind (eval_concur h e) fun v _ =>
            .bind (evalHash_concur h hash) fun fields _ => applied _ _ (.inr (named name v fields))

variable {S : Surroundings → Prop} {body body' : Eval String}
  {inverse inverse' : Option (Eval String)}

theorem renderBlock_concur (h : scene.Upholds I) {kind : BlockKind} (hk : kind.Upholds I)
    (hb : Concur I S I.text body body')
    (hi : Option.Rel (Concur I S I.text) inverse inverse')
    (params : List String) :
    Concur I S I.text (scene.renderBlock kind params body inverse)
      (scene.renderBlock kind params body' inverse') := by
  cases kind with
  | condition subject includeZero negate =>
      refine .bind (holds_concur h _ _) fun b _ => ?_
      split
      · exact hb
      · exact renderBranch_concur hi
  | context subject =>
      refine .bind (eval_concur h _) fun value hv => ?_
      split
      · exact renderBranch_concur hi
      · exact renderBound_concur hb _ hv
  | each subject =>
      exact .bind (eval_concur h _) fun value hv => renderSection_concur hb hi _ _ hv
  | value subject inverted =>
      refine .bind (eval_concur h _) fun value hv => ?_
      cases value with
      | callable id =>
          exact .bind (invoke_concur h (h.functions id hv) (by simp) I.noFields
            (.some (Branches.of_concur hb hi _ _)) _) fun result hr => .pure (hk ⟨id, hv⟩ result hr)
      | _ => exact renderValue_concur hb hi _ _ hv
  | helper call style inverted =>
      have branches := Branches.of_concur hb hi inverted params
      cases style with
      | rendering =>
          rcases hk with shown | ⟨⟨p, path⟩, given, noCallable⟩
          · exact .bind (evalCall_concur h (.some branches) call) fun result hr =>
              .pure (shown result hr)
          · obtain ⟨callee, args, hash⟩ := call
            cases path
            exact .bind (evalCall_fails h noCallable given) fun _ impossible => impossible.elim
      | positional =>
          exact .bind (evalCall_concur h .none call) fun value hv => renderValue_concur hb hi _ _ hv

/-! ### Inclusions -/

theorem inclusionContext_concur {S : Surroundings → Prop} (h : scene.Upholds I)
    (call : Inclusion) :
    Concur I S I.value (scene.inclusionContext call) (scene.inclusionContext call) := by
  have merged (given : Value) (hg : I.value given) :
      Concur I S I.value (scene.mergedContext call given) (scene.mergedContext call given) := by
    unfold mergedContext
    split
    · exact .pure hg
    · refine .bind (evalHash_concur h _) fun hash hh => ?_
      have fields : I.table (Table.ofEntries hash) := I.ofEntries _ hh
      cases given with
      | object given =>
          exact .pure ((I.object _).mpr (I.extend _ _ ((I.object given).mp hg) fields))
      | _ => exact .pure ((I.object _).mpr fields)
  unfold inclusionContext
  cases call.context with
  | some e => exact .bind (eval_concur h e) merged
  | none =>
      simp only
      split
      · exact .bind (.pure ((I.object []).mpr I.noFields)) merged
      · exact .get_bind fun m hm => Concur.bind (.pure hm.context) merged m hm

/-- An inclusion concurs when the plan concurs one level deeper. -/
theorem renderPartial_concur {S Q : Surroundings → Prop} (h : scene.Upholds I) {call : Inclusion}
    (indented : ∀ s, I.text s → I.text (indentLines call.indent s)) {plan : Plan}
    {block : Option Plan}
    (enters : ∀ env : Env, env.Upholds I S → (env.enter block).Upholds I Q)
    {enter enter' : Plan → Eval String} (inner : Concur I Q I.text (enter plan) (enter' plan)) :
    Concur I S I.text (scene.renderPartial (some enter) call plan block)
      (scene.renderPartial (some enter') call plan block) := by
  refine .bind (inclusionContext_concur h call) fun context hc => ?_
  refine .bind (.within (renderIn_concur inner ?_) enters (Env.leave_enter _)) fun text ht =>
    .pure (indented text ht)
  rintro _ ⟨rfl⟩
  exact hc

/-- What is known of the plans one level deeper: there is none if `k` inclusions are all that are
allowed, and otherwise both renderers agree on them. -/
def Deeper (I : Invariant) (scene : Scene) (k : Nat) (active : List Inclusion) :
    Option (Plan → Eval String) → (List Inclusion → Plan → Eval String) → Prop
  | none, _ => k = scene.template.settings.maxPartialDepth
  | some enter, enter' =>
    k < scene.template.settings.maxPartialDepth ∧ ∀ call plan, Node.AllUphold I plan →
      Concur I (Surroundings.At I (k + 1)) I.text (enter plan) (enter' (call :: active) plan)

variable {other : Eval String} {enter? : Option (Plan → Eval String)}
  {enter : List Inclusion → Plan → Eval String} {active : List Inclusion}

theorem watchedPartial_concur (h : scene.Upholds I) (deeper : Deeper I scene k active enter? enter)
    (count : active.length = k) {call : Inclusion}
    (indented : ∀ s, I.text s → I.text (indentLines call.indent s)) {plan : Plan}
    (hp : Node.AllUphold I plan) {block : Option Plan}
    (hb : ∀ plan, block = some plan → Node.AllUphold I plan) :
    Concur I (Surroundings.At I k) I.text (scene.renderPartial enter? call plan block)
      (scene.watchedPartial other enter active call plan block) := by
  intro m hm
  have depth : m.env.depth = k := hm.env.surroundings.depth
  change ConcurAt I I.text m (scene.renderPartial enter? call plan block)
    (if m.env.depth ≠ active.length ∨ scene.template.settings.maxPartialDepth < active.length
      then other
      else if active.length = scene.template.settings.maxPartialDepth then
        throw (.partialDepth call.name scene.template.settings.maxPartialDepth)
      else scene.renderPartial (some (enter (call :: active))) call plan block)
  cases enter? with
  | none =>
      have full : k = scene.template.settings.maxPartialDepth := deeper
      rw [if_neg (by omega), if_pos (by omega)]
      exact Concur.throw _ m hm
  | some inner =>
      obtain ⟨room, deeper⟩ := deeper
      rw [if_neg (by omega), if_neg (by omega)]
      have enters (env : Env) (henv : env.Upholds I (Surroundings.At I k)) := henv.enter hb
      exact renderPartial_concur h indented enters (deeper call plan hp) m hm

theorem findPartial?_upholds (hs : Table.All (Node.AllUphold I) scene.template.partials) {env : Env}
    (henv : env.Upholds I (Surroundings.At I k)) {name : String} {plan : Plan}
    (found : scene.findPartial? env name = some plan) : Node.AllUphold I plan := by
  rw [findPartial?] at found
  split at found
  · next here =>
    cases found
    exact Table.All.findSome? henv.surroundings.inlines here
  · exact hs.get? found

theorem watchedNamed_concur (h : scene.Upholds I)
    (hs : Table.All (Node.AllUphold I) scene.template.partials)
    (deeper : Deeper I scene k active enter? enter) (count : active.length = k) {call : Inclusion}
    (indented : ∀ s, I.text s → I.text (indentLines call.indent s)) (name : String)
    {block : Option Plan} (hb : ∀ plan, block = some plan → Node.AllUphold I plan) :
    Concur I (Surroundings.At I k) I.text (scene.renderNamed enter? call name block)
      (scene.watchedNamed other enter active call name block) := by
  refine .get_bind fun m hm => Concur.bind (.addEvent _) (fun _ _ => ?_) m hm
  cases found : scene.findPartial? m.env name with
  | some plan =>
      exact watchedPartial_concur h deeper count indented (findPartial?_upholds hs hm.env found) hb
  | none =>
      cases block with
      | some block => exact watchedPartial_concur h deeper count indented (hb block rfl) nofun
      | none => exact .throw _

theorem watchedPartialBlock_concur (h : scene.Upholds I)
    (deeper : Deeper I scene k active enter? enter) (count : active.length = k) {call : Inclusion}
    (indented : ∀ s, I.text s → I.text (indentLines call.indent s)) :
    Concur I (Surroundings.At I k) I.text (scene.renderPartialBlock enter? call)
      (scene.watchedPartialBlock other enter active call) := by
  refine .get_bind fun m hm => ?_
  have known : ∀ block ∈ m.env.blocks, Node.AllUphold I block := hm.env.surroundings.blocks
  cases blocks : m.env.blocks with
  | nil =>
      simp only
      split
      · exact Concur.pure I.empty m hm
      · exact Concur.throw _ m hm
  | cons block rest =>
      rw [blocks] at known
      have none_left (plan : Plan) : none = some plan → Node.AllUphold I plan := nofun
      refine .within ?_ (Env.restoreBlock_dropBlock blocks)
      exact watchedPartial_concur h deeper count indented (known block (.head _)) none_left _
        ⟨hm.env.dropBlock, hm.context⟩

theorem watchedInclusion_concur (h : scene.Upholds I)
    (hs : Table.All (Node.AllUphold I) scene.template.partials)
    (deeper : Deeper I scene k active enter? enter) (count : active.length = k) {call : Inclusion}
    (indented : ∀ s, I.text s → I.text (indentLines call.indent s)) {target : Target}
    (ht : target.Upholds I) {block : Option Plan}
    (hb : ∀ plan, block = some plan → Node.AllUphold I plan) :
    Concur I (Surroundings.At I k) I.text (scene.renderInclusion enter? call target block)
      (scene.watchedInclusion other enter active call target block) := by
  cases target with
  | embedded plan =>
      simp only [Target.Upholds] at ht
      exact watchedPartial_concur h deeper count indented ht hb
  | named name => exact watchedNamed_concur h hs deeper count indented name hb
  | dynamic e =>
      exact .bind (eval_concur h e) fun name _ =>
        watchedNamed_concur h hs deeper count indented name.text hb
  | partialBlock => exact watchedPartialBlock_concur h deeper count indented

/-! ### Plans -/

mutual

theorem watchedNode_concur (h : scene.Upholds I)
    (hs : Table.All (Node.AllUphold I) scene.template.partials)
    (deeper : Deeper I scene k active enter? enter) (count : active.length = k) :
    (node : Node) → node.Upholds I →
      Concur I (Surroundings.At I k) I.text (scene.renderNode enter? node)
        (scene.watchedNode other enter active node)
  | .literal text, upholds => by
      simp only [Node.Upholds] at upholds
      simp only [renderNode, watchedNode]
      exact .pure upholds
  | .lookup e encoding, upholds => by
      simp only [Node.Upholds] at upholds
      simp only [renderNode, watchedNode]
      exact .bind (lookup_concur h e) fun value hv => .pure (upholds value hv)
  | .helper call encoding, upholds => by
      simp only [Node.Upholds] at upholds
      simp only [renderNode, watchedNode]
      exact .bind (evalCall_concur h .none call) fun value hv => .pure (upholds value hv)
  | .block kind body none params, upholds => by
      simp only [Node.Upholds] at upholds
      simp only [renderNode, watchedNode]
      exact renderBlock_concur h upholds.1
        (withInlines_concur upholds.2 (watchedNodes_concur h hs deeper count body upholds.2)) .none
        params
  | .block kind body (some inverse) params, upholds => by
      simp only [Node.Upholds] at upholds
      obtain ⟨hk, hb, hi⟩ := upholds
      simp only [renderNode, watchedNode]
      exact renderBlock_concur h hk
        (withInlines_concur hb (watchedNodes_concur h hs deeper count body hb))
        (.some (withInlines_concur hi (watchedNodes_concur h hs deeper count inverse hi))) params
  | .inclusion call target none, upholds => by
      simp only [Node.Upholds] at upholds
      simp only [renderNode, watchedNode]
      exact watchedInclusion_concur h hs deeper count upholds.1 upholds.2 nofun
  | .inclusion call target (some block), upholds => by
      simp only [Node.Upholds] at upholds
      obtain ⟨indented, ht, hb⟩ := upholds
      simp only [renderNode, watchedNode]
      refine watchedInclusion_concur h hs deeper count indented ht ?_
      rintro _ ⟨rfl⟩
      exact hb
  | .inlineDef name plan, _ => by
      simp only [renderNode, watchedNode]
      exact .pure I.empty

theorem watchedNodes_concur (h : scene.Upholds I)
    (hs : Table.All (Node.AllUphold I) scene.template.partials)
    (deeper : Deeper I scene k active enter? enter) (count : active.length = k) :
    (nodes : List Node) → Node.AllUphold I nodes →
      Concur I (Surroundings.At I k) I.text (scene.renderNodes enter? nodes)
        (scene.watchedNodes other enter active nodes)
  | [], _ => by
      simp only [renderNodes, watchedNodes]
      exact .pure I.empty
  | node :: nodes, upholds => by
      simp only [Node.AllUphold] at upholds
      simp only [renderNodes, watchedNodes]
      exact .bind (watchedNode_concur h hs deeper count node upholds.1) fun text ht =>
        .bind (watchedNodes_concur h hs deeper count nodes upholds.2) fun rest hr =>
          .pure (I.append _ _ ht hr)

end

/-- With `k` inclusions active and as many levels left as the limit allows, both renderers agree,
however far the second is unrolled beyond the levels. By induction on the levels. -/
theorem watchedPlan_concur (h : scene.Upholds I)
    (hs : Table.All (Node.AllUphold I) scene.template.partials) (other : Eval String) (more : Nat)
    {levels : Nat} (limit : k + levels = scene.template.settings.maxPartialDepth)
    {active : List Inclusion} (count : active.length = k) {plan : Plan}
    (hp : Node.AllUphold I plan) :
    Concur I (Surroundings.At I k) I.text (scene.renderPlan levels plan)
      (scene.watchedPlan other (levels + 1 + more) active plan) := by
  induction levels generalizing k active plan with
  | zero =>
      have last : Deeper I scene k active none (scene.watchedPlan other (0 + more)) := limit
      rw [show 0 + 1 + more = 0 + more + 1 by omega]
      exact withInlines_concur hp (watchedNodes_concur h hs last count plan hp)
  | succ levels ih =>
      have deeper : Deeper I scene k active (some (scene.renderPlan levels))
          (scene.watchedPlan other (levels + 1 + more)) := by
        refine ⟨by omega, fun call plan hp => ?_⟩
        exact ih (by omega) (by simp only [List.length_cons, count]) hp
      rw [show levels + 1 + 1 + more = levels + 1 + more + 1 by omega]
      exact withInlines_concur hp (watchedNodes_concur h hs deeper count plan hp)

end Scene

end

/-! ### The limit of nesting -/

/-- No restriction of values and texts. -/
def Invariant.any : Invariant where
  value _ := True
  text _ := True
  null := trivial
  bool _ := trivial
  number _ := trivial
  string _ := trivial
  items _ _ _ _ := trivial
  yielded _ _ _ _ _ := trivial
  object _ := ⟨fun _ _ _ => trivial, fun _ => trivial⟩
  empty := trivial
  append _ _ _ _ := trivial

theorem Action.upholds_any {α : Type} (action : Action α) :
    action.Upholds Invariant.any fun _ => True := by
  induction action with
  | done => trivial
  | fail => trivial
  | render call next ih =>
      exact ⟨fun _ _ => trivial, fun _ _ _ _ => trivial, fun _ _ => trivial,
        fun answer _ => ih answer⟩
  | getContext next ih => exact fun v _ => ih v
  | setContext v next ih => exact ⟨trivial, ih⟩
  | getContexts next ih => exact fun vs _ => ih vs
  | getData name next ih => exact fun found _ => ih found
  | log level message next ih => exact ih

theorem Scene.upholds_any (scene : Scene) : scene.Upholds Invariant.any where
  root := trivial
  helpers _ helper _ call _ _ := (helper call).upholds_any
  functions id _ call _ _ := (scene.functions id call).upholds_any
  blockHelpers _ _ _ _ _ _ _ _ _ _ _ := trivial

/-- Where any text may be shown every block may. -/
theorem BlockKind.upholds_of_text {I : Invariant} (any : ∀ s, I.text s) (kind : BlockKind) :
    kind.Upholds I := by
  cases kind with
  | value subject inverted => exact fun _ _ _ => any _
  | helper call style inverted =>
      cases style with
      | rendering => exact .inl fun _ _ => any _
      | positional => trivial
  | _ => trivial

theorem BlockKind.upholds_any (kind : BlockKind) : kind.Upholds Invariant.any :=
  kind.upholds_of_text fun _ => trivial

mutual

theorem Node.upholds_any : (node : Node) → node.Upholds Invariant.any
  | .literal _ => by
      simp only [Node.Upholds]
      trivial
  | .lookup _ _ => by
      simp only [Node.Upholds]
      exact fun _ _ => trivial
  | .helper _ _ => by
      simp only [Node.Upholds]
      exact fun _ _ => trivial
  | .block kind body none _ => by
      simp only [Node.Upholds]
      exact ⟨BlockKind.upholds_any kind, Node.allUphold_any body⟩
  | .block kind body (some inverse) _ => by
      simp only [Node.Upholds]
      exact ⟨BlockKind.upholds_any kind, Node.allUphold_any body, Node.allUphold_any inverse⟩
  | .inclusion _ target none => by
      simp only [Node.Upholds]
      exact ⟨fun _ _ => trivial, Target.upholds_any target⟩
  | .inclusion _ target (some block) => by
      simp only [Node.Upholds]
      exact ⟨fun _ _ => trivial, Target.upholds_any target, Node.allUphold_any block⟩
  | .inlineDef _ plan => by
      simp only [Node.Upholds]
      exact Node.allUphold_any plan

theorem Node.allUphold_any : (nodes : List Node) → Node.AllUphold Invariant.any nodes
  | [] => by simp only [Node.AllUphold]
  | node :: nodes => by
      simp only [Node.AllUphold]
      exact ⟨Node.upholds_any node, Node.allUphold_any nodes⟩

theorem Target.upholds_any : (target : Target) → target.Upholds Invariant.any
  | .embedded plan => by
      simp only [Target.Upholds]
      exact Node.allUphold_any plan
  | .named _ => by simp only [Target.Upholds]
  | .dynamic _ => by simp only [Target.Upholds]
  | .partialBlock => by simp only [Target.Upholds]

end

/-- Every render of every template has the outcome, journal included, of the renderer that
watches the active inclusions, whatever that one does outside the limit and at the end of its
unrolling. So at no moment more inclusions are active than the limit; the counter of the
environment is their number; an inclusion is refused, with the limit, exactly when as many are
active as the limit; and rendering ends within `limit + 1` plans inside each other. -/
theorem Template.render_eq_watchedRender (template : Template) (input : Input)
    (other : Eval String) (more : Nat) :
    template.render input = template.watchedRender other more input := by
  let scene : Scene := { template, root := input.data, functions := input.functions }
  let machine : Machine := { env := { frames := [input.seed] }, context := input.data }
  have start : machine.Upholds Invariant.any (Surroundings.At Invariant.any 0) :=
    ⟨⟨nofun, fun _ _ _ _ => trivial, nofun, nofun, nofun, rfl⟩, trivial⟩
  have inactive : ([] : List Inclusion).length = 0 := rfl
  have concur := Scene.watchedPlan_concur scene.upholds_any (fun e _ => Node.allUphold_any e.2)
    other more (Nat.zero_add _) inactive (Node.allUphold_any template.plan) machine start
  exact congrArg (fun r => ({ result := r.1, events := r.2.events.reverse } : RenderOutcome))
    concur.same

end Stencil
