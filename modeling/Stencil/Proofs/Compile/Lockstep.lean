import Mathlib.Data.List.Forall2
import Stencil.Proofs.Compile.Following

/-!
Two compile calls in lockstep.

Two builders that read the same tokens take the same steps, whatever their
resolvers do. A comparison says how the nodes that they make are related
when certain inline partials are known; it must be respected by every way of
making a node, and it may rely on what holds of the two calls at their end.
-/

namespace Stencil

open Compiling

/-- The names of the inline partials that are known, one layer for each open block or
partial, innermost first. -/
abbrev Layers := List (List String)

/-- The plan itself defines an inline partial of this name. -/
def Plan.Defines (plan : Plan) (name : String) : Prop :=
  ∃ body, Node.inlineDef name body ∈ plan

/-- Branches whose nodes are related. The names in their layer are those of inline
partials that they define, up to the pending one that is still being built. -/
structure BranchMatch (node : Layers → Node → Node → Prop) (layers : Layers)
    (pending layer : List String) (b b' : Plan) : Prop where
  named : ∀ name ∈ layer, name ∈ pending ∨ b.Defines name
  nodes : List.Forall₂ (node (layer :: layers)) b b'

/-- Finished branches. -/
def PlanMatch (node : Layers → Node → Node → Prop) (layers : Layers) (p p' : Plan) : Prop :=
  ∃ layer, BranchMatch node layers [] layer p p'

/-- How the nodes that two compile calls make are related, and what may be relied on
for it. -/
structure Comparison where
  left : Course
  right : Course
  /-- What holds of the stores at the end, and so at every moment before. -/
  ok : Store → Store → Prop
  back : ∀ {s t s' t'}, left.grows s t → right.grows s' t' → ok t t' → ok s s'
  /-- The names that inline partials may have. -/
  declared : String → Prop
  node : Layers → Node → Node → Prop
  /-- The targets of an inclusion by its name, with a block or without one. -/
  target : Layers → String → Bool → Target → Target → Prop
  mono : ∀ {layer name layers n n'}, node (layer :: layers) n n' →
    node ((name :: layer) :: layers) n n'
  literal : ∀ layers text, node layers (.literal text) (.literal text)
  literal_left : ∀ {layers text n}, node layers (.literal text) n → n = .literal text
  literal_right : ∀ {layers text n}, node layers n (.literal text) → n = .literal text
  lookup : ∀ layers e encoding, node layers (.lookup e encoding) (.lookup e encoding)
  helper : ∀ layers call encoding, node layers (.helper call encoding) (.helper call encoding)
  block : ∀ {layers kind body body' inverse inverse' params}, PlanMatch node layers body body' →
    Option.Rel (PlanMatch node layers) inverse inverse' →
      node layers (.block kind body inverse params) (.block kind body' inverse' params)
  inclusion : ∀ {layers call t t'}, target layers call.name false t t' →
    node layers (.inclusion call t none) (.inclusion call t' none)
  /-- The inline partials of a block are known where its partial is resolved. -/
  inclusionBlock : ∀ {layers layer call t t' b b'}, BranchMatch node layers [] layer b b' →
    target (layer :: layers) call.name true t t' →
      node layers (.inclusion call t (some b)) (.inclusion call t' (some b'))
  inlineDef : ∀ {layers name b b'}, declared name → PlanMatch node layers b b' →
    node layers (.inlineDef name b) (.inlineDef name b')
  dynamic : ∀ {s s' layers name hasBlock e}, ok s s' → s.hasDynamic = true →
    s'.hasDynamic = true → target layers name hasBlock (.dynamic e) (.dynamic e)

namespace Comparison

variable (cmp : Comparison) {α α' β β' : Type}

/-- What may be relied on at every moment of two calls that end well. -/
def Guard (c c' : Compilation) : Prop :=
  c.report.errors = [] ∧ c'.report.errors = [] ∧ cmp.ok c.store c'.store

/-- From states related by `P` the computations come to results and states related by
`Q`, if they end well. -/
def Relates (P : Compilation → Compilation → Prop) (x : Compiling α) (y : Compiling α')
    (Q : α → α' → Compilation → Compilation → Prop) : Prop :=
  ∀ c c', P c c' → cmp.Guard (x.run c).2 (y.run c').2 →
    Q (x.run c).1 (y.run c').1 (x.run c).2 (y.run c').2

variable {cmp}

theorem Guard.before {x : Compiling α} {y : Compiling α'} (hx : Follows cmp.left x)
    (hy : Follows cmp.right y) {c c' : Compilation}
    (h : cmp.Guard (x.run c).2 (y.run c').2) : cmp.Guard c c' := by
  obtain ⟨errors, errors', ok⟩ := h
  obtain ⟨first, grows⟩ := hx c
  obtain ⟨first', grows'⟩ := hy c'
  rw [errors] at first
  rw [errors'] at first'
  exact ⟨List.prefix_nil.mp first, List.prefix_nil.mp first', cmp.back grows grows' ok⟩

namespace Relates

variable {P : Compilation → Compilation → Prop} {x : Compiling α} {y : Compiling α'}
  {Q : α → α' → Compilation → Compilation → Prop}
  {T : β → β' → Compilation → Compilation → Prop}

theorem pure {a : α} {b : α'} (h : ∀ c c', P c c' → Q a b c c') :
    cmp.Relates P (Pure.pure a) (Pure.pure b) Q :=
  fun c c' start _ => h c c' start

theorem bind {f : α → Compiling β} {g : α' → Compiling β'} (h : cmp.Relates P x y Q)
    (hf : ∀ a, Follows cmp.left (f a)) (hg : ∀ a, Follows cmp.right (g a))
    (next : ∀ a b, cmp.Relates (Q a b) (f a) (g b) T) :
    cmp.Relates P (x >>= f) (y >>= g) T := by
  intro c c' start guard
  have middle : cmp.Guard (x.run c).2 (y.run c').2 := Guard.before (hf _) (hg _) guard
  exact next _ _ _ _ (h c c' start middle) guard

theorem weaken {Q' : α → α' → Compilation → Compilation → Prop} (h : cmp.Relates P x y Q)
    (imp : ∀ a b c c', Q a b c c' → Q' a b c c') : cmp.Relates P x y Q' :=
  fun c c' start guard => imp _ _ _ _ (h c c' start guard)

end Relates

variable (cmp) in
/-- Both calls know the same inline partials, and their stores are related. -/
structure Together (S : Store → Store → Prop) (layers : Layers) (c c' : Compilation) : Prop where
  left : c.inlines = layers
  right : c'.inlines = layers
  declared : ∀ layer ∈ layers, ∀ name ∈ layer, cmp.declared name
  stores : S c.store c'.store

variable {S : Store → Store → Prop} {layers : Layers}

/-- Behind a computation on the report both calls go on with its result. -/
theorem Relates.steady_bind {x : Compiling α} {f : α → Compiling β} {g : α → Compiling β'}
    {T : β → β' → Compilation → Compilation → Prop} (h : IsSteady x)
    (next : ∀ a, cmp.Relates (cmp.Together S layers) (f a) (g a) T) :
    cmp.Relates (cmp.Together S layers) (x >>= f) (x >>= g) T := by
  obtain ⟨a, errors, h, -⟩ := h
  intro c c' start guard
  obtain ⟨r, run, _⟩ := h c
  obtain ⟨r', run', _⟩ := h c'
  rw [StateT.run_bind, StateT.run_bind, run, run'] at guard ⊢
  exact next a _ _ ⟨start.left, start.right, start.declared, start.stores⟩ guard

/-- Behind reading both calls go on with what is read. -/
theorem Relates.reading_bind {action : StateM Report α} {f : α → Compiling β}
    {g : α → Compiling β'} {T : β → β' → Compilation → Compilation → Prop} (h : Steady action)
    (next : ∀ a, a = (action.run {}).1 → cmp.Relates (cmp.Together S layers) (f a) (g a) T) :
    cmp.Relates (cmp.Together S layers) (reporting action >>= f) (reporting action >>= g) T := by
  obtain ⟨a, errors, h, -⟩ := h
  have same (r : Report) : (action.run r).1 = (action.run {}).1 := (h r).1.trans (h {}).1.symm
  intro c c' start guard
  have run (c : Compilation) : (reporting action).run c =
      ((action.run {}).1, { c with report := (action.run c.report).2 }) :=
    congrArg (·, _) (same c.report)
  rw [StateT.run_bind, StateT.run_bind, run, run] at guard ⊢
  exact next _ rfl _ _ ⟨start.left, start.right, start.declared, start.stores⟩ guard

end Comparison

/-! ### Branches and plans -/

variable {cmp : Comparison} {layers : Layers} {pending layer : List String} {b b' : Plan}
  {n n' : Node}

theorem BranchMatch.nil (pending : List String) : BranchMatch cmp.node layers pending [] [] [] :=
  ⟨nofun, .nil⟩

theorem PlanMatch.nil : PlanMatch cmp.node layers [] [] :=
  ⟨[], .nil []⟩

/-- A node and what it is merged with stay related. -/
theorem forall₂_push (node : cmp.node layers n n') (h : List.Forall₂ (cmp.node layers) b b') :
    List.Forall₂ (cmp.node layers) (Plan.push n b) (Plan.push n' b') := by
  have alone : List.Forall₂ (cmp.node layers) (n :: b) (n' :: b') := .cons node h
  cases n with
  | literal text =>
      obtain rfl := cmp.literal_left node
      cases h with
      | nil => exact alone
      | @cons last last' rest rest' first others =>
          cases last with
          | literal before =>
              obtain rfl := cmp.literal_left first
              exact .cons (cmp.literal _ _) others
          | _ =>
              cases last' with
              | literal before => cases cmp.literal_right first
              | _ => exact alone
  | _ =>
      cases n' with
      | literal text => cases cmp.literal_right node
      | _ => exact alone

theorem Plan.Defines.push {name : String} (h : b.Defines name) : (Plan.push n b).Defines name := by
  obtain ⟨body, member⟩ := h
  refine ⟨body, ?_⟩
  unfold Plan.push
  split
  · cases member with
    | tail _ member => exact .tail _ member
  · exact .tail _ member

theorem Plan.defines_push_self {name : String} {body : Plan} :
    (Plan.push (.inlineDef name body) b).Defines name :=
  ⟨body, .head _⟩

/-- Adding a node to related branches; the pending name may be the one that it defines. -/
theorem BranchMatch.push (h : BranchMatch cmp.node layers pending layer b b')
    (node : cmp.node (layer :: layers) n n') (settled : ∀ name ∈ pending, (Plan.push n b).Defines name) :
    BranchMatch cmp.node layers [] layer (Plan.push n b) (Plan.push n' b') := by
  refine ⟨fun name member => .inr ?_, forall₂_push node h.nodes⟩
  rcases h.named name member with pending | defined
  · exact settled name pending
  · exact defined.push

theorem BranchMatch.reverse (h : BranchMatch cmp.node layers pending layer b b') :
    BranchMatch cmp.node layers pending layer b.reverse b'.reverse := by
  refine ⟨fun name member => ?_, List.rel_reverse h.nodes⟩
  rcases h.named name member with pending | ⟨body, defined⟩
  · exact .inl pending
  · exact .inr ⟨body, List.mem_reverse.mpr defined⟩

theorem PlanMatch.reverse (h : PlanMatch cmp.node layers b b') :
    PlanMatch cmp.node layers b.reverse b'.reverse := by
  obtain ⟨layer, h⟩ := h
  exact ⟨layer, h.reverse⟩

/-- A name is declared: it is in the layer from now on, and pending until its
definition is finished. -/
theorem BranchMatch.declare (h : BranchMatch cmp.node layers [] layer b b') (name : String) :
    BranchMatch cmp.node layers [name] (name :: layer) b b' := by
  refine ⟨fun other member => ?_, h.nodes.imp fun _ _ => cmp.mono⟩
  cases member with
  | head => exact .inl (.head _)
  | tail _ member =>
      rcases h.named other member with pending | defined
      · cases pending
      · exact .inr defined

theorem BranchMatch.pend (h : BranchMatch cmp.node layers [] layer b b') (pending : List String) :
    BranchMatch cmp.node layers pending layer b b' := by
  refine ⟨fun other member => ?_, h.nodes⟩
  rcases h.named other member with pending | defined
  · cases pending
  · exact .inr defined

end Stencil
