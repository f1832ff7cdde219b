import Stencil.Proofs.Render.Operations
import Stencil.Render.Plan

/-!
Blocks and inclusions match.

A block matches itself when its branches do, and an inclusion of a plan
matches an inclusion of another plan when the two match in the environments
that they are entered in. Iterating leaves the special variables of the
last entry behind until the whole iteration ends, so its loop is described
through a view that does not show them.
-/

namespace Stencil

open Eval

variable {R Q : Surroundings → Surroundings → Prop} {ok : RenderError → Prop}
variable {body body' : Eval String} {inverse inverse' : Option (Eval String)}

/-! ### Iterations -/

/-- From environments that are alike up to the special variables, the loop of an
iteration ends alike up to the special variables. -/
theorem iterateFrom_endsAlike (h : Matches R ok body body') (names : List String) (sparse : Bool)
    (frames : List Fields) (count i : Nat) (entries : List (Value × Value)) {m m' : Machine}
    (like : (m.env.setFrames frames).Like R (m'.env.setFrames frames))
    (context : m.context = m'.context) :
    EndsAlike (Env.setFrames frames) ok m m'
      ((iterateFrom names body sparse frames count i entries).run.run m)
      ((iterateFrom names body' sparse frames count i entries).run.run m') := by
  induction entries generalizing i m m' with
  | nil => exact ⟨rfl, nofun, rfl, rfl, context⟩
  | cons entry entries ih =>
      obtain ⟨key, item⟩ := entry
      let enter (env : Env) : Env :=
        (env.setFrames (entryVars sparse count i key :: frames)).bind names [item, key]
      have entered : (enter m.env).Like R (enter m'.env) :=
        Env.Like.bind (like.setFrames _) names [item, key]
      have undone (env : Env) :
          ((enter env).unbind names).setFrames frames = env.setFrames frames := by
        simp only [enter, Env.unbind_bind]
        rfl
      have first := h.withContext item { m with env := enter m.env } { m' with env := enter m'.env }
        ⟨entered, context⟩
      simp only [iterateFrom]
      refine endsAlike_bind ⟨first.result, first.allowed, ?_, ?_, first.context⟩ ?_
      · exact (congrArg (fun env => (Env.unbind names env).setFrames frames) first.left).trans
          (undone m.env)
      · exact (congrArg (fun env => (Env.unbind names env).setFrames frames) first.right).trans
          (undone m'.env)
      intro text after after' left right context
      refine endsAlike_bind (ih (i + 1) ?_ context) ?_
      · rw [left, right]
        exact like
      intro rest last last' left right context
      exact ⟨rfl, nofun, rfl, rfl, context⟩

theorem iterate_matches (h : Matches R ok body body') (names : List String) (sparse : Bool)
    (entries : List (Value × Value)) :
    Matches R ok (iterate names body sparse entries) (iterate names body' sparse entries) := by
  refine .get_bind fun m m' like => ?_
  simp only [← like.context, ← like.env.frames]
  have inner := like.env.pushScope m.context
  let begun : Machine := { m with env := m.env.pushScope m.context }
  let begun' : Machine := { m' with env := m'.env.pushScope m.context }
  have frames : (begun.env.setFrames m.env.frames).Like R (begun'.env.setFrames m.env.frames) :=
    inner.setFrames _
  have loop := iterateFrom_endsAlike h names sparse m.env.frames entries.length 0 entries frames
    like.context
  refine ⟨loop.result, loop.allowed, (congrArg Env.popScope loop.left).trans rfl,
    (congrArg Env.popScope loop.right).trans ?_, loop.context⟩
  rw [like.env.frames]
  rfl

/-! ### Sections -/

theorem renderBound_matches (h : Matches R ok body body') (names : List String) (v : Value) :
    Matches R ok (renderBound names v body) (renderBound names v body') :=
  .within (renderIn_matches h _) (fun _ _ like => like.bind _ _) (Env.unbind_bind _ _)
    (Env.unbind_bind _ _)

theorem renderSection_matches (h : Matches R ok body body')
    (hi : Option.Rel (Matches R ok) inverse inverse') (each : Bool) (names : List String)
    (value : Value) :
    Matches R ok (renderSection each names value body inverse)
      (renderSection each names value body' inverse') := by
  have other := renderBranch_matches hi
  unfold renderSection
  split
  · exact other
  · cases value with
    | array items => exact iterate_matches h _ _ _
    | iterable id items => exact iterate_matches h _ _ _
    | object fields =>
        cases each with
        | true => exact iterate_matches h _ _ _
        | false => exact renderBound_matches h _ _
    | bool b =>
        cases each with
        | true => exact other
        | false =>
            cases b with
            | true => exact h
            | false => exact other
    | null => cases each <;> exact other
    | _ =>
        cases each with
        | true => exact other
        | false => exact h.withContext _

theorem renderValue_matches (h : Matches R ok body body')
    (hi : Option.Rel (Matches R ok) inverse inverse') (inverted : Bool) (names : List String)
    (value : Value) :
    Matches R ok (renderValue inverted names value body inverse)
      (renderValue inverted names value body' inverse') := by
  unfold renderValue
  split
  · exact renderSection_matches h hi _ _ _
  · split
    · exact h
    · cases hi with
      | none => exact .pure ""
      | some hi => exact renderSection_matches hi .none _ _ _

theorem Branches.of_match (h : Matches R ok body body')
    (hi : Option.Rel (Matches R ok) inverse inverse') (inverted : Bool) (params : List String) :
    Branches.Match R ok (Branches.of inverted params body inverse)
      (Branches.of inverted params body' inverse') := by
  cases inverted with
  | true => exact ⟨hi, .some h, rfl⟩
  | false => exact ⟨.some h, hi, rfl⟩

/-! ### Blocks -/

namespace Scene

variable {s s' : Scene}

theorem holds_allowed (similar : s.Similar s') (fails : s.Fails ok) {subject : Expr}
    {includeZero : Option Expr} (first : s.Allows ok subject.calls)
    (second : s.Allows ok (includeZero.elim [] Expr.calls)) :
    Matches R ok (s.holds subject includeZero) (s'.holds subject includeZero) := by
  refine .bind (eval_allowed similar fails _ first) fun value => ?_
  cases includeZero with
  | none => exact .pure _
  | some e => exact .bind (eval_allowed similar fails e second) fun zero => .pure _

theorem holds_matches (similar : s.Similar s') (keeps : s.KeepsTo ok) (subject : Expr)
    (includeZero : Option Expr) :
    Matches R ok (s.holds subject includeZero) (s'.holds subject includeZero) :=
  holds_allowed similar keeps.fails (keeps.allows _) (keeps.allows _)

theorem renderBlock_allowed (similar : s.Similar s') (fails : s.Fails ok)
    (h : Matches R ok body body') (hi : Option.Rel (Matches R ok) inverse inverse')
    {kind : BlockKind} (allows : s.Allows ok kind.calls) (params : List String) :
    Matches R ok (s.renderBlock kind params body inverse)
      (s'.renderBlock kind params body' inverse') := by
  cases kind with
  | condition subject includeZero negate =>
      obtain ⟨first, second⟩ := Allows.append.mp allows
      refine .bind (holds_allowed similar fails first second) fun b => ?_
      split
      · exact h
      · exact renderBranch_matches hi
  | context subject =>
      refine .bind (eval_allowed similar fails _ allows) fun value => ?_
      split
      · exact renderBranch_matches hi
      · exact renderBound_matches h _ _
  | each subject =>
      exact .bind (eval_allowed similar fails _ allows) fun value =>
        renderSection_matches h hi _ _ _
  | value subject inverted =>
      refine .bind (eval_allowed similar fails _ allows) fun value => ?_
      cases value with
      | callable id =>
          simp only [← similar.functions]
          exact .bind (invoke_matches similar (fails.functions id)
            (.some (Branches.of_match h hi _ _)) _ _ _) fun result => .pure _
      | _ => exact renderValue_matches h hi _ _ _
  | helper call style inverted =>
      obtain ⟨missing, inner⟩ := Allows.cons.mp allows
      cases style with
      | rendering =>
          exact .bind (evalCall_allowed similar fails (.some (Branches.of_match h hi _ _)) call
            missing inner) fun result => .pure _
      | positional =>
          exact .bind (evalCall_allowed similar fails .none call missing inner) fun value =>
            renderValue_matches h hi _ _ _

theorem renderBlock_matches (similar : s.Similar s') (keeps : s.KeepsTo ok)
    (h : Matches R ok body body') (hi : Option.Rel (Matches R ok) inverse inverse')
    (kind : BlockKind) (params : List String) :
    Matches R ok (s.renderBlock kind params body inverse)
      (s'.renderBlock kind params body' inverse') :=
  renderBlock_allowed similar keeps.fails h hi (keeps.allows _) params

/-! ### Inclusions -/

/-- The context of an inclusion when the one that it is given is known. -/
def mergedContext (scene : Scene) (call : Inclusion) (given : Value) : Eval Value := do
  if call.hash.isEmpty then return given
  let hash := Table.ofEntries (← scene.evalHash call.hash)
  match given with
  | .object fields => return .object (Table.extend fields hash)
  | _ => return .object hash

theorem inclusionContext_allowed (similar : s.Similar s') (fails : s.Fails ok)
    {call : Inclusion} (allows : s.Allows ok call.calls) :
    Matches R ok (s.inclusionContext call) (s'.inclusionContext call) := by
  obtain ⟨context, hash⟩ := Allows.append.mp allows
  have merged (given : Value) :
      Matches R ok (s.mergedContext call given) (s'.mergedContext call given) := by
    unfold mergedContext
    split
    · exact .pure _
    · refine .bind (evalHash_allowed similar fails _ hash) fun hash => ?_
      cases given <;> exact .pure _
  unfold inclusionContext
  cases given : call.context with
  | some e =>
      rw [given] at context
      exact .bind (eval_allowed similar fails e context) merged
  | none =>
      simp only [← similar.explicitPartialContext]
      split
      · exact .bind (.pure _) merged
      · refine .get_bind fun m m' like => ?_
        rw [← like.context]
        exact Matches.bind (.pure _) merged m m' like

theorem inclusionContext_matches (similar : s.Similar s') (keeps : s.KeepsTo ok)
    (call : Inclusion) : Matches R ok (s.inclusionContext call) (s'.inclusionContext call) :=
  inclusionContext_allowed similar keeps.fails (keeps.allows _)

/-- Inclusions of two plans match when no deeper level is allowed to either, or when
the plans match in the environments that they are entered in. -/
theorem renderPartial_allowed (similar : s.Similar s') (fails : s.Fails ok)
    {enter? enter?' : Option (Plan → Eval String)} {plan plan' : Plan} {block block' : Option Plan}
    (h : Option.Rel (fun enter enter' => Matches Q ok (enter plan) (enter' plan')) enter? enter?')
    (enters : ∀ e e' : Env, e.Like R e' → (e.enter block).Like Q (e'.enter block'))
    {call : Inclusion} (allows : s.Allows ok call.calls) :
    Matches R ok (s.renderPartial enter? call plan block)
      (s'.renderPartial enter?' call plan' block') := by
  cases h with
  | none =>
      rw [renderPartial, renderPartial, similar.maxPartialDepth]
      exact .throw (fails.partialDepth _ _)
  | some h =>
      refine .bind (inclusionContext_allowed similar fails allows) fun context => ?_
      refine .bind (.within (renderIn_matches h _) enters (Env.leave_enter _) (Env.leave_enter _))
        fun text => .pure _

theorem renderPartial_matches (similar : s.Similar s') (keeps : s.KeepsTo ok)
    {enter? enter?' : Option (Plan → Eval String)} {plan plan' : Plan} {block block' : Option Plan}
    (h : Option.Rel (fun enter enter' => Matches Q ok (enter plan) (enter' plan')) enter? enter?')
    (enters : ∀ e e' : Env, e.Like R e' → (e.enter block).Like Q (e'.enter block'))
    (call : Inclusion) :
    Matches R ok (s.renderPartial enter? call plan block)
      (s'.renderPartial enter?' call plan' block') :=
  renderPartial_allowed similar keeps.fails h enters (keeps.allows _)

/-- Inclusions by names match when whatever the names stand for can be included alike,
or the blocks in their place can. -/
theorem renderNamed_matches {enter? enter?' : Option (Plan → Eval String)}
    {block block' : Option Plan} (call : Inclusion) (name : String)
    (found : ∀ e e' : Env, e.Like R e' → Option.Rel
      (fun plan plan' => Matches R ok (s.renderPartial enter? call plan block)
        (s'.renderPartial enter?' call plan' block'))
      (s.findPartial? e name) (s'.findPartial? e' name))
    (instead : Option.Rel
      (fun block block' => Matches R ok (s.renderPartial enter? call block none)
        (s'.renderPartial enter?' call block' none)) block block')
    (missing : block = none →
      ∀ e e' : Env, e.Like R e' → s.findPartial? e name = none → ok (.missingPartial name)) :
    Matches R ok (s.renderNamed enter? call name block)
      (s'.renderNamed enter?' call name block') := by
  unfold renderNamed
  refine .get_bind fun m m' like => Matches.bind (.addEvent _ _) (fun _ => ?_) m m' like
  have found := found m.env m'.env like.env
  have missing := fun h => missing h m.env m'.env like.env
  revert found missing
  generalize s.findPartial? m.env name = plan, s'.findPartial? m'.env name = plan'
  rintro (found | _) missing
  · exact found
  · cases instead with
    | some instead => exact instead
    | none => exact .throw (missing rfl rfl)

/-- The blocks that stand for `@partial-block` match when the innermost ones do in the
environments without them. -/
theorem renderPartialBlock_matches {enter? enter?' : Option (Plan → Eval String)}
    (call : Inclusion)
    (innermost : ∀ e e' : Env, e.Like R e' → Option.Rel
      (fun block block' => Matches Q ok (s.renderPartial enter? call block none)
        (s'.renderPartial enter?' call block' none)) e.blocks.head? e'.blocks.head?)
    (drops : ∀ e e' : Env, e.Like R e' → e.blocks ≠ [] → e.dropBlock.Like Q e'.dropBlock)
    (active : ∀ e e' : Env, e.Like R e' → e.blocks = [] → (e.blockCount = 0 ↔ e'.blockCount = 0))
    (missing : ok (.missingPartial call.name)) :
    Matches R ok (s.renderPartialBlock enter? call) (s'.renderPartialBlock enter?' call) := by
  unfold renderPartialBlock
  refine .get_bind fun m m' like => ?_
  have innermost := innermost m.env m'.env like.env
  have drops := drops m.env m'.env like.env
  have active := active m.env m'.env like.env
  cases blocks : m.env.blocks with
  | nil =>
      cases blocks' : m'.env.blocks with
      | cons block' rest' =>
          rw [blocks, blocks'] at innermost
          cases innermost
      | nil =>
          simp only [← active blocks]
          split
          · exact Matches.pure _ m m' like
          · exact Matches.throw missing m m' like
  | cons block rest =>
      cases blocks' : m'.env.blocks with
      | nil =>
          rw [blocks, blocks'] at innermost
          cases innermost
      | cons block' rest' =>
          rw [blocks, blocks'] at innermost
          obtain ⟨inside⟩ := innermost
          refine MatchesAt.within (inside _ _ ⟨?_, like.context⟩)
            (Env.restoreBlock_dropBlock blocks) (Env.restoreBlock_dropBlock blocks')
          exact drops (by simp [blocks])

end Scene

end Stencil
