import Stencil.Proofs.Render.Resemblance

/-!
A render does not tell values apart that are alike.

Paths lead to values that are alike, and from there every operation resembles itself: expressions,
sections, blocks, inclusions and plans. Two renders whose contexts, scopes and variables are alike
one by one have one text and one journal.
-/

namespace Stencil

open Eval

variable {s s' : Scene}

namespace Scene.Alike

/-! ### Paths -/

theorem member? (h : s.Alike s') {v w : Value} (hv : v.Alike w) (name : String) :
    Option.Rel Value.Alike (s.member? v name) (s'.member? w name) := by
  have found := hv.get? name
  rw [Scene.member?, Scene.member?, ← h.template, hv.length?_eq]
  revert found
  generalize v.get? name = found, w.get? name = found'
  rintro (member | _)
  · exact .some member
  · exact option_rel_self .refl _

theorem members? (h : s.Alike s') {v w : Value} (hv : v.Alike w) (names : List String) :
    Option.Rel Value.Alike (s.members? v names) (s'.members? w names) := by
  induction names generalizing v w with
  | nil => exact .some hv
  | cons name names ih =>
      have found := h.member? hv name
      simp only [Scene.members?]
      revert found
      generalize s.member? v name = found, s'.member? w name = found'
      rintro (member | _)
      · exact ih member
      · exact .none

/-- Where paths start: at values that are alike, with the same members to go through. -/
theorem start? (h : s.Alike s') {m m' : Machine} (hm : m.Alike m') (p : Path) :
    Option.Rel (fun start start' => start.1.Alike start'.1 ∧ start.2 = start'.2)
      (s.start? m p) (s'.start? m' p) := by
  have from? {v w : Option Value} (found : Option.Rel Value.Alike v w) (names : List String) :
      Option.Rel (fun start start' : Value × List String =>
        start.1.Alike start'.1 ∧ start.2 = start'.2)
        (v.map fun v => (v, names)) (w.map fun w => (w, names)) := by
    cases found with
    | none => exact .none
    | some found => exact .some ⟨found, rfl⟩
  unfold Scene.start?
  split
  · split
    · exact .none
    · split
      · exact .some ⟨h.root, rfl⟩
      · exact from? (hm.env.special? _ _) _
  · split
    · exact from? (hm.env.scope? _) _
    · split
      · exact .some ⟨hm.context, rfl⟩
      · next name names _ =>
        have found := hm.env.binding? name
        revert found
        generalize m.env.binding? name = v, m'.env.binding? name = w
        rintro (bound | _)
        · exact .some ⟨bound, rfl⟩
        · exact .some ⟨hm.context, rfl⟩

theorem resolve? (h : s.Alike s') {m m' : Machine} (hm : m.Alike m') (p : Path) :
    Option.Rel Value.Alike (s.resolve? m p) (s'.resolve? m' p) := by
  have start := h.start? hm p
  unfold Scene.resolve?
  revert start
  generalize s.start? m p = start, s'.start? m' p = start'
  rintro (⟨first, names⟩ | _)
  · simp only [Option.bind_some, names]
    exact h.members? first _
  · exact .none

/-! ### Expressions -/

variable {args args' : List Value} {hash hash' : Fields} {b b' : Option Branches}

theorem applyPath_resembles (h : s.Alike s') (p : Path)
    (hargs : List.Forall₂ Value.Alike args args') (hhash : Value.AlikeFields hash hash')
    (hb : Option.Rel Branches.Resemble b b') :
    Resembles Value.Alike (s.applyCallee (.path p) args hash b)
      (s'.applyCallee (.path p) args' hash' b') := by
  refine .get_bind fun m m' alike => ?_
  have none : args.isEmpty = args'.isEmpty := by cases hargs <;> rfl
  have plain {v w : Option Value} (found : Option.Rel Value.Alike v w) :
      Resembles Value.Alike
        (do
          if args.isEmpty && hash.isEmpty then return v.getD .null
          throw (.missingHelper p.source) : Eval Value)
        (do
          if args'.isEmpty && hash'.isEmpty then return w.getD .null
          throw (.missingHelper p.source)) := by
    rw [none, hhash.isEmpty_eq]
    split
    · exact .pure (.getD found)
    · exact .throw _
  have found := h.resolve? alike p
  rw [← h.functions]
  revert found
  generalize s.resolve? m p = v, s'.resolve? m' p = w
  intro found
  cases found with
  | none => exact plain .none m m' alike
  | some value =>
      have other := plain (.some value) m m' alike
      cases value with
      | callable id =>
          exact h.invoke_resembles (h.respects.functions id) _ hargs hhash hb m m' alike
      | _ => exact other

theorem applyCallee_resembles (h : s.Alike s') (callee : Callee)
    (hargs : List.Forall₂ Value.Alike args args') (hhash : Value.AlikeFields hash hash')
    (hb : Option.Rel Branches.Resemble b b') :
    Resembles Value.Alike (s.applyCallee callee args hash b)
      (s'.applyCallee callee args' hash' b') := by
  cases callee with
  | path p => exact h.applyPath_resembles p hargs hhash hb
  | helper name =>
      rw [applyCallee, applyCallee, ← h.template]
      cases found : Table.get? s.template.helpers name with
      | some helper =>
          exact h.invoke_resembles (h.respects.helpers name helper found) name hargs hhash hb
      | none =>
          cases found : Table.get? s.template.blockHelpers name with
          | none => exact .throw _
          | some helper =>
              refine .get_bind fun m m' alike => ?_
              have result := h.respects.blockHelpers name helper found alike.context hargs hhash
              revert result
              generalize helper m.context args hash = r, helper m'.context args' hash' = r'
              rintro (value | cause)
              · exact Resembles.pure value m m' alike
              · exact Resembles.throw _ m m' alike

mutual

theorem eval_resembles (h : s.Alike s') :
    (e : Expr) → Resembles Value.Alike (s.eval e) (s'.eval e)
  | .path p => by
      simp only [eval]
      exact .get_bind fun m m' alike => Resembles.pure (.getD (h.resolve? alike p)) m m' alike
  | .literal value _ => by
      simp only [eval]
      exact .pure (.refl _)
  | .call c => by
      simp only [eval]
      exact evalCall_resembles h .none c

theorem evalCall_resembles (h : s.Alike s') {b b' : Option Branches}
    (hb : Option.Rel Branches.Resemble b b') :
    (c : Call) → Resembles Value.Alike (s.evalCall b c) (s'.evalCall b' c)
  | ⟨callee, args, hash⟩ => by
      simp only [evalCall]
      exact .bind (evalArgs_resembles h args) fun _ _ hargs =>
        .bind (evalHash_resembles h hash) fun _ _ hhash =>
          h.applyCallee_resembles callee hargs (.ofEntries hhash) hb

theorem evalArgs_resembles (h : s.Alike s') :
    (es : List Expr) → Resembles (List.Forall₂ Value.Alike) (s.evalArgs es) (s'.evalArgs es)
  | [] => .pure .nil
  | e :: es => by
      simp only [evalArgs]
      exact .bind (eval_resembles h e) fun _ _ first =>
        .bind (evalArgs_resembles h es) fun _ _ others => .pure (.cons first others)

theorem evalHash_resembles (h : s.Alike s') :
    (hash : List (String × Expr)) →
      Resembles Value.AlikeFields (s.evalHash hash) (s'.evalHash hash)
  | [] => .pure .nil
  | (name, e) :: hash => by
      simp only [evalHash]
      exact .bind (eval_resembles h e) fun _ _ first =>
        .bind (evalHash_resembles h hash) fun _ _ others => .pure (.cons ⟨rfl, first⟩ others)

end

theorem lookup_resembles (h : s.Alike s') (e : Expr) :
    Resembles Value.Alike (s.lookup e) (s'.lookup e) := by
  cases e with
  | literal value source => exact h.eval_resembles _
  | call c => exact h.eval_resembles _
  | path p =>
      refine .get_bind fun m m' alike => ?_
      have found := h.resolve? alike p
      rw [← h.functions, ← h.template]
      revert found
      generalize s.resolve? m p = v, s'.resolve? m' p = w
      intro found
      cases found with
      | none =>
          simp only
          split
          · exact Resembles.throw _ m m' alike
          · exact Resembles.pure .null m m' alike
      | some value =>
          have other := Resembles.pure value m m' alike
          cases value with
          | callable id =>
              exact h.invoke_resembles (h.respects.functions id) _ .nil .nil .none m m' alike
          | _ => exact other

end Scene.Alike

/-! ### Sections -/

section

variable {body body' : Eval String} {inverse inverse' : Option (Eval String)}

theorem entryVars_alike {key key' : Value} (h : key.Alike key') (sparse : Bool) (count i : Nat) :
    Value.AlikeFields (entryVars sparse count i key) (entryVars sparse count i key') := by
  have index : Value.Alike (if sparse then key else .ofNat i)
      (if sparse then key' else .ofNat i) := by
    split
    · exact h
    · exact .refl _
  exact .cons ⟨rfl, .bool _⟩ (.cons ⟨rfl, .bool _⟩ (.cons ⟨rfl, index⟩ (.cons ⟨rfl, h⟩ .nil)))

theorem iterateFrom_resembles (h : Resembles Eq body body') (names : List String) (sparse : Bool)
    {frames frames' : List Fields} (hf : List.Forall₂ Value.AlikeFields frames frames')
    (count i : Nat) {entries entries' : List (Value × Value)}
    (he : Value.AlikeEntries entries entries') :
    Resembles Eq (iterateFrom names body sparse frames count i entries)
      (iterateFrom names body' sparse frames' count i entries') := by
  induction he generalizing i with
  | nil => exact .pure rfl
  | cons first _ ih =>
      obtain ⟨key, item⟩ := first
      -- The frames that a step leaves behind are alike too, so the next one may start from them.
      simp only [iterateFrom]
      refine .bind (.within (h.withContext item) (fun e e' outer => ?_)
        fun e e' inner => inner.unbind names) fun text text' same => ?_
      · exact (outer.setFrames (.cons (entryVars_alike key _ _ _) hf)).bind _
          (.cons item (.cons key .nil))
      · exact .bind (ih (i + 1)) fun rest rest' others => .pure (by rw [same, others])

theorem iterate_resembles (h : Resembles Eq body body') (names : List String) (sparse : Bool)
    {entries entries' : List (Value × Value)} (he : Value.AlikeEntries entries entries') :
    Resembles Eq (iterate names body sparse entries) (iterate names body' sparse entries') := by
  refine .get_bind fun m m' alike => ?_
  rw [he.length_eq]
  refine Resembles.within
    (iterateFrom_resembles h names sparse alike.env.frames _ 0 he) ?_ ?_ m m' alike
  · exact fun e e' outer => outer.pushScope alike.context
  · exact fun e e' inner => inner.popScope.setFrames alike.env.frames

theorem renderBound_resembles (h : Resembles Eq body body') (names : List String) {v w : Value}
    (hv : v.Alike w) : Resembles Eq (renderBound names v body) (renderBound names w body') :=
  .within (renderIn_resembles h (.some hv)) (fun _ _ outer => outer.bind names (.cons hv .nil))
    fun _ _ inner => inner.unbind names

theorem renderSection_resembles (h : Resembles Eq body body')
    (hi : Option.Rel (Resembles Eq) inverse inverse') (each : Bool) (names : List String)
    {v w : Value} (hv : v.Alike w) :
    Resembles Eq (renderSection each names v body inverse)
      (renderSection each names w body' inverse') := by
  have other := renderBranch_resembles hi
  unfold renderSection
  rw [hv.isEmptyCollection_eq]
  split
  · exact other
  · have entered := h.withContext hv
    cases hv with
    | array items => exact iterate_resembles h _ _ (Value.alikeEntries_keyedFrom items 0)
    | iterable id items => exact iterate_resembles h _ _ (Value.alikeEntries_keyedFrom items 0)
    | object keys values =>
        have fields := Value.alikeFields_iff.mpr ⟨keys, values⟩
        cases each with
        | true =>
            simp only [Value.isSparse, fields.isSparseFrom_eq]
            exact iterate_resembles h _ _ fields.entries
        | false => exact renderBound_resembles h _ (.object keys values)
    | bool b =>
        cases each with
        | true => exact other
        | false =>
            cases b with
            | true => exact h
            | false => exact other
    | null => cases each <;> exact other
    | _ =>
        cases each with
        | true => exact other
        | false => exact entered

theorem renderValue_resembles (h : Resembles Eq body body')
    (hi : Option.Rel (Resembles Eq) inverse inverse') (inverted : Bool) (names : List String)
    {v w : Value} (hv : v.Alike w) :
    Resembles Eq (renderValue inverted names v body inverse)
      (renderValue inverted names w body' inverse') := by
  unfold renderValue
  rw [hv.isAbsent_eq]
  split
  · exact renderSection_resembles h hi _ _ hv
  · split
    · exact h
    · cases hi with
      | none => exact .pure rfl
      | some hi => exact renderSection_resembles hi .none _ _ hv

theorem Branches.of_resemble (h : Resembles Eq body body')
    (hi : Option.Rel (Resembles Eq) inverse inverse') (inverted : Bool) (params : List String) :
    (Branches.of inverted params body inverse).Resemble
      (Branches.of inverted params body' inverse') := by
  cases inverted with
  | true => exact ⟨hi, .some h, rfl⟩
  | false => exact ⟨.some h, hi, rfl⟩

theorem withInlines_resembles (h : Resembles Eq body body') (plan : Plan) :
    Resembles Eq (withInlines plan body) (withInlines plan body') :=
  .within h (fun _ _ outer => outer.pushInlines _) fun _ _ inner => inner.popInlines _

/-! ### Blocks -/

namespace Scene.Alike

theorem holds_resembles (h : s.Alike s') (subject : Expr) (includeZero : Option Expr) :
    Resembles Eq (s.holds subject includeZero) (s'.holds subject includeZero) := by
  refine .bind (h.eval_resembles subject) fun v w hv => ?_
  cases includeZero with
  | none => exact .pure (hv.isTruthy_eq _)
  | some e =>
      refine .bind (h.eval_resembles e) fun zero zero' hz => .pure ?_
      rw [hz.isTruthy_eq, hv.isTruthy_eq]

theorem renderBlock_resembles (h : s.Alike s') (hbody : Resembles Eq body body')
    (hi : Option.Rel (Resembles Eq) inverse inverse') (kind : BlockKind) (params : List String) :
    Resembles Eq (s.renderBlock kind params body inverse)
      (s'.renderBlock kind params body' inverse') := by
  cases kind with
  | condition subject includeZero negate =>
      refine .bind (h.holds_resembles _ _) fun holds holds' same => ?_
      rw [same]
      split
      · exact hbody
      · exact renderBranch_resembles hi
  | context subject =>
      refine .bind (h.eval_resembles _) fun v w hv => ?_
      rw [hv.isAbsent_eq]
      split
      · exact renderBranch_resembles hi
      · exact renderBound_resembles hbody _ hv
  | each subject =>
      exact .bind (h.eval_resembles _) fun v w hv => renderSection_resembles hbody hi _ _ hv
  | value subject inverted =>
      refine .bind (h.eval_resembles _) fun v w hv => ?_
      have plain := renderValue_resembles hbody hi inverted params hv
      cases hv with
      | callable id =>
          simp only [← h.functions]
          exact .bind (h.invoke_resembles (h.respects.functions id) _ .nil .nil
            (.some (Branches.of_resemble hbody hi _ _))) fun v w hv =>
              .pure (Value.Alike.text_eq v hv)
      | _ => exact plain
  | helper call style inverted =>
      cases style with
      | rendering =>
          exact .bind (h.evalCall_resembles (.some (Branches.of_resemble hbody hi _ _)) call)
            fun v w hv => .pure (Value.Alike.text_eq v hv)
      | positional =>
          exact .bind (h.evalCall_resembles .none call) fun v w hv =>
            renderValue_resembles hbody hi _ _ hv

end Scene.Alike

end

/-! ### Inclusions -/

namespace Scene.Alike

/-- The plans of one level deeper resemble each other. -/
def Enters (enter? enter?' : Option (Plan → Eval String)) : Prop :=
  Option.Rel (fun enter enter' => ∀ plan, Resembles Eq (enter plan) (enter' plan)) enter? enter?'

variable {enter? enter?' : Option (Plan → Eval String)}

theorem inclusionContext_resembles (h : s.Alike s') (call : Inclusion) :
    Resembles Value.Alike (s.inclusionContext call) (s'.inclusionContext call) := by
  have merged (v w : Value) (given : v.Alike w) :
      Resembles Value.Alike (s.mergedContext call v) (s'.mergedContext call w) := by
    unfold mergedContext
    split
    · exact .pure given
    · refine .bind (h.evalHash_resembles _) fun hash hash' hhash => ?_
      have named : Value.AlikeFields (Table.ofEntries hash) (Table.ofEntries hash') :=
        .ofEntries hhash
      have alone := Value.alike_object_iff.mpr named
      cases given with
      | object keys values =>
          exact .pure (Value.alike_object_iff.mpr
            (Table.Rel.extend (Value.alikeFields_iff.mpr ⟨keys, values⟩) named))
      | _ => exact .pure alone
  unfold inclusionContext
  cases call.context with
  | some e => exact .bind (h.eval_resembles e) merged
  | none =>
      simp only [← h.template]
      split
      · exact .bind (.pure (.refl _)) merged
      · exact .get_bind fun m m' alike =>
          Resembles.bind (.pure alike.context) merged m m' alike

theorem renderPartial_resembles (h : s.Alike s') (he : Enters enter? enter?') (call : Inclusion)
    (plan : Plan) (block : Option Plan) :
    Resembles Eq (s.renderPartial enter? call plan block)
      (s'.renderPartial enter?' call plan block) := by
  cases he with
  | none =>
      rw [renderPartial, renderPartial, h.template]
      exact .throw _
  | some he =>
      refine .bind (h.inclusionContext_resembles call) fun context context' hc => ?_
      refine .bind (.within (renderIn_resembles (he plan) (.some hc))
        (fun _ _ outer => outer.enter block) fun _ _ inner => inner.leave block) ?_
      rintro text _ rfl
      exact .pure rfl

theorem renderNamed_resembles (h : s.Alike s') (he : Enters enter? enter?') (call : Inclusion)
    (name : String) (block : Option Plan) :
    Resembles Eq (s.renderNamed enter? call name block)
      (s'.renderNamed enter?' call name block) := by
  refine .get_bind fun m m' alike => ?_
  have depth : m.env.depth = m'.env.depth := congrArg Surroundings.depth alike.env.surroundings
  have inlines : m.env.inlines = m'.env.inlines :=
    congrArg Surroundings.inlines alike.env.surroundings
  have found : s.findPartial? m.env name = s'.findPartial? m'.env name := by
    rw [findPartial?, findPartial?, inlines, h.template]
  rw [depth, found]
  refine Resembles.bind (.addEvent _) (fun _ _ _ => ?_) m m' alike
  cases s'.findPartial? m'.env name with
  | some plan => exact h.renderPartial_resembles he call plan block
  | none =>
      cases block with
      | some block => exact h.renderPartial_resembles he call block none
      | none => exact .throw _

theorem renderPartialBlock_resembles (h : s.Alike s') (he : Enters enter? enter?')
    (call : Inclusion) :
    Resembles Eq (s.renderPartialBlock enter? call) (s'.renderPartialBlock enter?' call) := by
  refine .get_bind fun m m' alike => ?_
  have blocks : m.env.blocks = m'.env.blocks := congrArg Surroundings.blocks alike.env.surroundings
  have count : m.env.blockCount = m'.env.blockCount :=
    congrArg Surroundings.blockCount alike.env.surroundings
  rw [blocks, count]
  cases m'.env.blocks with
  | nil =>
      simp only
      split
      · exact Resembles.pure rfl m m' alike
      · exact Resembles.throw _ m m' alike
  | cons block rest =>
      exact Resembles.within (h.renderPartial_resembles he call block none)
        (fun _ _ outer => outer.dropBlock) (fun _ _ inner => inner.restoreBlock block) m m' alike

theorem renderInclusion_resembles (h : s.Alike s') (he : Enters enter? enter?') (call : Inclusion)
    (target : Target) (block : Option Plan) :
    Resembles Eq (s.renderInclusion enter? call target block)
      (s'.renderInclusion enter?' call target block) := by
  cases target with
  | embedded plan => exact h.renderPartial_resembles he call plan block
  | named name => exact h.renderNamed_resembles he call name block
  | dynamic e =>
      refine .bind (h.eval_resembles e) fun v w hv => ?_
      rw [Value.Alike.text_eq v hv]
      exact h.renderNamed_resembles he call _ block
  | partialBlock => exact h.renderPartialBlock_resembles he call

/-! ### Plans -/

mutual

theorem renderNode_resembles (h : s.Alike s') (he : Enters enter? enter?') :
    (node : Node) → Resembles Eq (s.renderNode enter? node) (s'.renderNode enter?' node)
  | .literal text => by
      simp only [renderNode]
      exact .pure rfl
  | .lookup e encoding => by
      simp only [renderNode]
      exact .bind (h.lookup_resembles e) fun v w hv => .pure (hv.output_eq encoding)
  | .helper call encoding => by
      simp only [renderNode]
      exact .bind (h.evalCall_resembles .none call) fun v w hv => .pure (hv.output_eq encoding)
  | .block kind body none params => by
      simp only [renderNode]
      exact h.renderBlock_resembles (withInlines_resembles (renderNodes_resembles h he body) body)
        .none kind params
  | .block kind body (some inverse) params => by
      simp only [renderNode]
      exact h.renderBlock_resembles (withInlines_resembles (renderNodes_resembles h he body) body)
        (.some (withInlines_resembles (renderNodes_resembles h he inverse) inverse)) kind params
  | .inclusion call target block => by
      simp only [renderNode]
      exact h.renderInclusion_resembles he call target block
  | .inlineDef name plan => by
      simp only [renderNode]
      exact .pure rfl

theorem renderNodes_resembles (h : s.Alike s') (he : Enters enter? enter?') :
    (nodes : List Node) → Resembles Eq (s.renderNodes enter? nodes) (s'.renderNodes enter?' nodes)
  | [] => by
      simp only [renderNodes]
      exact .pure rfl
  | node :: nodes => by
      simp only [renderNodes]
      exact .bind (renderNode_resembles h he node) fun text text' first =>
        .bind (renderNodes_resembles h he nodes) fun rest rest' others =>
          .pure (by rw [first, others])

end

/-- Below every level the plans of partials resemble themselves, by induction on the levels. -/
theorem enters_deeper (h : s.Alike s') (levels : Nat) :
    Enters (s.deeper? levels) (s'.deeper? levels) := by
  induction levels with
  | zero => exact .none
  | succ levels ih =>
      refine .some fun plan => ?_
      rw [renderPlan_eq, renderPlan_eq]
      exact withInlines_resembles (h.renderNodes_resembles ih plan) plan

theorem renderPlan_resembles (h : s.Alike s') (levels : Nat) (plan : Plan) :
    Resembles Eq (s.renderPlan levels plan) (s'.renderPlan levels plan) := by
  rw [renderPlan_eq, renderPlan_eq]
  exact withInlines_resembles (h.renderNodes_resembles (h.enters_deeper levels) plan) plan

end Scene.Alike

end Stencil
