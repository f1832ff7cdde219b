import Stencil.Plan.Builder
import Stencil.Proofs.Compile.Reading

/-!
How compiling changes its state.

Most of a compile call only writes to the report. What it keeps for later,
the plans of partials and whether a name is computed, changes where a
partial is resolved and nowhere else. A course says how that may change;
building a plan follows every course that its resolver follows, and on the
way errors are only added. Building adds nothing to its resolver but steps of
a few kinds, so it keeps to every discipline that admits these.
-/

namespace Stencil

/-- What a compile call keeps besides the report and the inline partials. -/
structure Store where
  embedded : Table Plan
  table : Table Plan
  hasDynamic : Bool

def Compilation.store (c : Compilation) : Store :=
  { embedded := c.embedded, table := c.table, hasDynamic := c.hasDynamic }

/-- How a store may change: anything may follow itself, and a computed name may be
met. -/
structure Course where
  grows : Store → Store → Prop
  refl : ∀ s, grows s s
  trans : ∀ {s t u}, grows s t → grows t u → grows s u
  dynamic : ∀ s, grows s { s with hasDynamic := true }

/-- The course on which a store may change at will. -/
def Course.any : Course where
  grows _ _ := True
  refl _ := trivial
  trans _ _ := trivial
  dynamic _ := trivial

namespace Compiling

variable {α β : Type}

/-! ### Computations on the report -/

/-- The computation only writes to the report, and gives one result and the same
errors whatever the state. The journal is not told that a partial is compiled. -/
def IsSteady (x : Compiling α) : Prop :=
  ∃ a errors, (∀ c, ∃ r, x.run c = (a, { c with report := r }) ∧
    r.errors = c.report.errors ++ errors ∧ r.compiled = c.report.compiled) ∧
      ∀ d ∈ errors, d.IsPlain

namespace IsSteady

theorem pure (a : α) : IsSteady (Pure.pure a) :=
  ⟨a, [], fun c => ⟨c.report, rfl, (List.append_nil _).symm, rfl⟩, nofun⟩

/-- What comes second may rely on the result of what comes first. -/
theorem bind_of {x : Compiling α} {f : α → Compiling β} (h : IsSteady x)
    (next : ∀ a, (∀ c, (x.run c).1 = a) → IsSteady (f a)) : IsSteady (x >>= f) := by
  obtain ⟨a, errors, first, plain⟩ := h
  have result (c : Compilation) : (x.run c).1 = a := by
    obtain ⟨r, run, -⟩ := first c
    rw [run]
  obtain ⟨b, more, second, plain'⟩ := next a result
  refine ⟨b, errors ++ more, fun c => ?_, List.forall_mem_append.mpr ⟨plain, plain'⟩⟩
  obtain ⟨r, run, written, compiled⟩ := first c
  obtain ⟨r', run', written', compiled'⟩ := second { c with report := r }
  refine ⟨r', ?_, ?_, compiled'.trans compiled⟩
  · change (f (x.run c).1).run (x.run c).2 = _
    rw [run]
    exact run'
  · rw [written', written, List.append_assoc]

theorem bind {x : Compiling α} {f : α → Compiling β} (h : IsSteady x)
    (next : ∀ a, IsSteady (f a)) : IsSteady (x >>= f) :=
  h.bind_of fun a _ => next a

theorem reporting {action : StateM Report α} (h : Steady action) : IsSteady (reporting action) := by
  obtain ⟨a, errors, h, plain⟩ := h
  refine ⟨a, errors, fun c => ⟨(action.run c.report).2, ?_, (h c.report).2⟩, plain⟩
  rw [← (h c.report).1]
  rfl

theorem addError {d : Diagnostic} (plain : d.IsPlain) : IsSteady (addError d) :=
  .reporting (.addError plain)

theorem addWarning (text : String) : IsSteady (addWarning text) :=
  .reporting (.addWarning text)

theorem count (f : Usage → Usage) : IsSteady (count f) :=
  .reporting (.count f)

theorem readOr {read : Reading α} (h : read.IsSteady) (default : α) :
    IsSteady (readOr default read) := by
  refine .bind_of (.reporting h.1) fun outcome given => ?_
  cases outcome with
  | ok a => exact .pure a
  | error d => exact .bind (.addError (h.2 {} d (given {}))) fun _ => .pure default

end IsSteady

theorem declareInline_run (name : String) (c : Compilation) :
    (declareInline name).run c = match c.inlines with
      | [] => (true, c)
      | layer :: layers =>
        if layer.contains name then (false, c)
        else (true, { c with inlines := (name :: layer) :: layers }) := by
  obtain ⟨report, inlines, embedded, table, hasDynamic⟩ := c
  cases inlines with
  | nil => rfl
  | cons layer layers =>
      change StateT.run (if layer.contains name then pure false else _) _ = _
      simp only
      split <;> rfl

/-! ### Courses -/

/-- Errors are only added, and the store changes as the course allows. -/
def Follows (course : Course) (x : Compiling α) : Prop :=
  ∀ c, c.report.errors <+: (x.run c).2.report.errors ∧ course.grows c.store (x.run c).2.store

namespace Follows

variable {course : Course} {x : Compiling α}

theorem steady (h : IsSteady x) : Follows course x := by
  obtain ⟨a, errors, h, -⟩ := h
  intro c
  obtain ⟨r, run, written, -⟩ := h c
  rw [run]
  exact ⟨⟨errors, written.symm⟩, course.refl _⟩

theorem pure (a : α) : Follows course (Pure.pure a) :=
  .steady (.pure a)

theorem bind {f : α → Compiling β} (h : Follows course x) (next : ∀ a, Follows course (f a)) :
    Follows course (x >>= f) := by
  intro c
  obtain ⟨errors, grows⟩ := h c
  obtain ⟨errors', grows'⟩ := next (x.run c).1 (x.run c).2
  exact ⟨errors.trans errors', course.trans grows grows'⟩

theorem weaken {course' : Course} (h : Follows course x)
    (imp : ∀ s t, course.grows s t → course'.grows s t) : Follows course' x :=
  fun c => ⟨(h c).1, imp _ _ (h c).2⟩

theorem any (h : Follows course x) : Follows .any x :=
  h.weaken fun _ _ _ => trivial

/-- Changes of the inline partials do not matter. -/
theorem layers {f : Compilation → Compilation} (report : ∀ c, (f c).report = c.report)
    (store : ∀ c, (f c).store = c.store) : Follows course (modify f) := by
  intro c
  change c.report.errors <+: (f c).report.errors ∧ course.grows c.store (f c).store
  rw [report, store]
  exact ⟨List.prefix_refl _, course.refl _⟩

theorem pushLayer : Follows course pushLayer :=
  .layers (fun _ => rfl) fun _ => rfl

theorem popLayer : Follows course popLayer :=
  .layers (fun _ => rfl) fun _ => rfl

/-- Declaring an inline partial changes the innermost layer at most. -/
theorem declareInline (name : String) : Follows course (declareInline name) := by
  intro c
  rw [declareInline_run]
  split
  · exact ⟨List.prefix_refl _, course.refl _⟩
  · split
    · exact ⟨List.prefix_refl _, course.refl _⟩
    · exact ⟨List.prefix_refl _, course.refl _⟩

theorem meetDynamic :
    Follows course (modify fun c => { c with hasDynamic := true } : Compiling Unit) :=
  fun c => ⟨List.prefix_refl _, course.dynamic c.store⟩

end Follows

/-! ### Disciplines -/

/-- A property of computations that every computation on the report has, that changes of the inline
partials and meeting a computed name have, and that is handed on from one step to the next. -/
structure Discipline where
  Keeps : ∀ {α : Type}, Compiling α → Prop
  steady : ∀ {α : Type} {x : Compiling α}, IsSteady x → Keeps x
  bind : ∀ {α β : Type} {x : Compiling α} {f : α → Compiling β}, Keeps x → (∀ a, Keeps (f a)) →
    Keeps (x >>= f)
  pushLayer : Keeps pushLayer
  popLayer : Keeps popLayer
  declareInline : ∀ name, Keeps (declareInline name)
  meetDynamic : Keeps (modify fun c => { c with hasDynamic := true } : Compiling Unit)

theorem Discipline.pure (d : Discipline) (a : α) : d.Keeps (Pure.pure a) :=
  d.steady (.pure a)

/-- To follow a course is a discipline. -/
def Discipline.following (course : Course) : Discipline where
  Keeps := Follows course
  steady := .steady
  bind := .bind
  pushLayer := .pushLayer
  popLayer := .popLayer
  declareInline := .declareInline
  meetDynamic := .meetDynamic

end Compiling

namespace BuildContext

open Compiling Markup

variable (ctx : BuildContext) (tag : Tag)

/-! ### Heads and nodes -/

theorem headExpr_steady : IsSteady (ctx.headExpr tag) :=
  .readOr (Expr.read_steady _ _ _) _

theorem headPath_steady : IsSteady (headPath tag) :=
  .readOr (Path.read_steady _ _) _

theorem callee?_steady : IsSteady (ctx.callee? tag) := by
  unfold callee?
  split
  · exact .pure _
  · split
    · exact .pure _
    · split
      · exact .bind (.addError rfl) fun _ => .bind (headPath_steady tag) fun _ => .pure _
      · exact .bind (headPath_steady tag) fun _ => .pure _

theorem interpolation_steady (raw : Bool) : IsSteady (ctx.interpolation tag raw) := by
  unfold interpolation
  split
  · exact .bind (.addError rfl) fun _ => .pure _
  · refine .bind (callee?_steady ctx tag) fun callee => ?_
    split
    · exact .bind (.count _) fun _ => .pure _
    · exact .bind (headExpr_steady ctx tag) fun _ => .pure _

theorem block_steady (body : Plan) (inverse : Option Plan) (inverted : Bool) :
    IsSteady (ctx.block tag body inverse inverted) := by
  unfold block
  simp only
  split
  · next openBlock found =>
    refine .bind (.reporting (Builtin.open?_steady found tag.site)) fun kind => ?_
    split
    · exact .pure _
    · exact .pure _
  · refine .bind (callee?_steady ctx tag) fun callee => ?_
    split
    · exact .bind (.count _) fun _ => .pure _
    · exact .bind (headExpr_steady ctx tag) fun _ => .pure _

theorem rawBlock_steady (body : String) : IsSteady (ctx.rawBlock tag body) := by
  unfold rawBlock
  split
  · exact .pure _
  · exact .bind (.count _) fun _ => .pure _

/-! ### Building -/

/-- What a tag says of an inclusion besides the partial. -/
def inclusionOf (name : String) : Inclusion :=
  { name, context := tag.content.params.head?, hash := tag.content.hash, indent := tag.indent }

/-- A target that is found becomes the target of the node. -/
theorem inclusion_eq (name : PartialName) (block : Option Plan) :
    ctx.inclusion tag name block = do
      if tag.content.params.length > 1 then
        Compiling.addError (.arguments "a partial takes at most one context argument" tag.site)
      return (← ctx.target tag name block.isSome).map fun e =>
        .inclusion (inclusionOf tag e.1) e.2 block := by
  unfold inclusion
  split
  · refine bind_congr fun _ => bind_congr fun found => ?_
    cases found <;> rfl
  · refine bind_congr fun found => ?_
    cases found <;> rfl

section

variable {ctx} {d : Discipline}
  (resolves : ∀ name hasBlock site, d.Keeps (ctx.resolve name hasBlock site))

include resolves

theorem target_keeps (name : PartialName) (hasBlock : Bool) :
    d.Keeps (ctx.target tag name hasBlock) := by
  cases name with
  | dynamic e => exact d.bind d.meetDynamic fun _ => d.pure _
  | static name => exact d.bind (resolves name hasBlock tag.site) fun _ => d.pure _

theorem inclusion_keeps (name : PartialName) (block : Option Plan) :
    d.Keeps (ctx.inclusion tag name block) := by
  have found := d.bind (target_keeps tag resolves name block.isSome) fun found =>
    d.pure (found.map fun e => Node.inclusion (inclusionOf tag e.1) e.2 block)
  rw [inclusion_eq]
  split
  · exact d.bind (d.steady (.addError rfl)) fun _ => found
  · exact found

theorem scopeNode_keeps (scope : OpenBranches) : d.Keeps (ctx.scopeNode scope) := by
  unfold scopeNode
  simp only
  split
  · exact d.bind (d.steady (block_steady ctx _ _ _ _)) fun _ => d.pure _
  · exact d.bind (d.steady (block_steady ctx _ _ _ _)) fun _ => d.pure _
  · exact inclusion_keeps _ resolves _ _
  · exact d.pure _
  · exact d.pure _

theorem closeScope_keeps (draft : Draft) : d.Keeps (ctx.closeScope draft) := by
  unfold closeScope
  split
  · exact d.pure _
  · exact d.bind (scopeNode_keeps resolves _) fun _ => d.bind d.popLayer fun _ => d.pure _

theorem closeScopes_keeps (n : Nat) (draft : Draft) : d.Keeps (ctx.closeScopes n draft) := by
  induction n generalizing draft with
  | zero => exact d.pure draft
  | succ n ih => exact d.bind (closeScope_keeps resolves draft) fun draft => ih draft

omit resolves in
theorem openScope_keeps (chained : Bool) (draft : Draft) : d.Keeps (openScope tag chained draft) :=
  d.bind d.pushLayer fun _ => d.pure _

omit resolves in
theorem beginElse_keeps (chained : Bool) (draft : Draft) :
    d.Keeps (beginElse tag chained draft) := by
  unfold beginElse
  split
  · exact d.pure _
  · split
    · refine d.bind d.popLayer fun _ => d.bind d.pushLayer fun _ => ?_
      simp only
      split
      · exact openScope_keeps tag true _
      · exact d.pure _
    · exact d.pure _

omit resolves in
theorem beginInline_keeps (name : String) (draft : Draft) :
    d.Keeps (beginInline tag name draft) := by
  refine d.bind (d.declareInline name) fun fresh => ?_
  simp only
  split
  · exact d.bind (d.steady (.addWarning _)) fun _ => openScope_keeps tag false draft
  · exact openScope_keeps tag false draft

theorem addTag_keeps (draft : Draft) : d.Keeps (ctx.addTag draft tag) := by
  unfold addTag
  split
  · exact d.bind (d.steady (interpolation_steady ctx tag _)) fun _ => d.pure _
  · exact d.pure _
  · exact openScope_keeps tag false draft
  · exact openScope_keeps tag false draft
  · exact beginInline_keeps tag _ draft
  · exact beginElse_keeps tag _ draft
  · exact closeScopes_keeps resolves _ draft
  · exact d.bind (inclusion_keeps tag resolves _ none) fun _ => d.pure _
  · exact d.bind (d.steady (rawBlock_steady ctx tag _)) fun _ => d.pure _

theorem addTokens_keeps (draft : Draft) (tokens : List Token) :
    d.Keeps (ctx.addTokens draft tokens) := by
  induction tokens generalizing draft with
  | nil => exact d.pure draft
  | cons token tokens ih =>
      cases token with
      | text s => exact ih _
      | tag tag => exact d.bind (addTag_keeps tag resolves draft) fun draft => ih draft

/-- Building a plan keeps to every discipline that its resolver keeps to. -/
theorem build_keeps (tokens : List Token) : d.Keeps (ctx.build tokens) :=
  d.bind (addTokens_keeps resolves {} tokens) fun draft =>
    d.bind (closeScopes_keeps resolves _ draft) fun _ => d.pure _

end

section

variable {ctx} {course : Course}
  (resolves : ∀ name hasBlock site, Follows course (ctx.resolve name hasBlock site))

theorem openScope_follows (chained : Bool) (draft : Draft) :
    Follows course (openScope tag chained draft) :=
  openScope_keeps (d := .following course) tag chained draft

include resolves

theorem closeScopes_follows (n : Nat) (draft : Draft) : Follows course (ctx.closeScopes n draft) :=
  closeScopes_keeps (d := .following course) resolves n draft

theorem addTokens_follows (draft : Draft) (tokens : List Token) :
    Follows course (ctx.addTokens draft tokens) :=
  addTokens_keeps (d := .following course) resolves draft tokens

/-- Building a plan follows every course that its resolver follows. -/
theorem build_follows (tokens : List Token) : Follows course (ctx.build tokens) :=
  build_keeps (d := .following course) resolves tokens

end

end BuildContext

end Stencil
