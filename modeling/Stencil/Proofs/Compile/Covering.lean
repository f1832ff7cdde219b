import Stencil.Proofs.Compile.Inclusions
import Stencil.Proofs.Render.Coverage

/-!
Partials compiled afresh are covered.

A name is left to rendering only when an inline partial is known under it,
or when a block can take its place. When every partial is compiled where it
is included, what is known there while compiling is known there while
rendering. So a plan made in this way is covered as long as it has no
computed names and does not ask for blocks.
-/

namespace Stencil

open Compiling

/-- The partial is chosen when compiling, or by a name that is written down. -/
def Target.Static : Target → Prop
  | .embedded _ | .named _ => True
  | .dynamic _ | .partialBlock => False

/-- No name is computed, and no block is asked for, at any depth. -/
def Plan.Static (p : Plan) : Prop :=
  ∀ i ∈ Plan.inclusions p, i.2.Static

def Node.Static (n : Node) : Prop :=
  ∀ i ∈ n.inclusions, i.2.Static

theorem Plan.Static.of_mem {p : Plan} (h : p.Static) {n : Node} (member : n ∈ p) : n.Static :=
  fun i inside => h i (Plan.mem_inclusions.mpr ⟨n, member, inside⟩)

/-- The names of the inline partials that are known. -/
def Layers.Has (layers : Layers) (name : String) : Prop :=
  ∃ layer ∈ layers, name ∈ layer

namespace Covering

/-- The call makes one node, and covers it if it is static. -/
def node (layers : Layers) (n n' : Node) : Prop :=
  n = n' ∧ (n.Static → NodeCovered (Layers.Has layers) n)

/-- A static target is covered, or it is a name in whose place there is a block. -/
def target (layers : Layers) (_ : String) (hasBlock : Bool) (t t' : Target) : Prop :=
  t = t' ∧ (t.Static → (∀ i ∈ t.inclusions, i.2.Static) →
    TargetCovered (Layers.Has layers) t ∨ hasBlock = true ∧ ∃ name, t = .named name)

variable {layers : Layers} {layer : List String} {b b' : Plan}

theorem has_inside (named : ∀ name ∈ layer, name ∈ ([] : List String) ∨ b.Defines name)
    (name : String) (h : Layers.Has (layer :: layers) name) :
    b.inside (Layers.Has layers) name := by
  obtain ⟨other, member, inside⟩ := h
  cases member with
  | head =>
      rcases named name inside with ⟨⟨⟩⟩ | defined
      exact .inl defined
  | tail _ member => exact .inr ⟨other, member, inside⟩

theorem branch (h : BranchMatch node layers [] layer b b') :
    b = b' ∧ (b.Static → b.Covered (Layers.Has layers)) := by
  obtain ⟨named, nodes⟩ := h
  constructor
  · refine List.forall₂_eq_eq_eq ▸ (nodes.imp fun _ _ h => h.1 : List.Forall₂ (· = ·) b b')
  · intro static
    refine nodesCovered_iff.mpr fun n member => ?_
    have covered : ∀ n ∈ b, n.Static → NodeCovered (Layers.Has (layer :: layers)) n := by
      clear named static member
      induction nodes with
      | nil => nofun
      | cons first _ ih => exact List.forall_mem_cons.mpr ⟨first.2, ih⟩
    exact (covered n member (static.of_mem member)).mono (has_inside named)

theorem plan (h : PlanMatch node layers b b') :
    b = b' ∧ (b.Static → b.Covered (Layers.Has layers)) := by
  obtain ⟨layer, h⟩ := h
  exact branch h

variable {kind : BlockKind} {params : List String} {call : Inclusion} {t t' : Target}

theorem block {inverse inverse' : Option Plan} (h : PlanMatch node layers b b')
    (hi : Option.Rel (PlanMatch node layers) inverse inverse') :
    node layers (.block kind b inverse params) (.block kind b' inverse' params) := by
  obtain ⟨rfl, covered⟩ := plan h
  cases hi with
  | none =>
      refine ⟨rfl, fun static => ?_⟩
      simp only [Node.Static, Node.inclusions] at static
      exact .block kind params (covered static)
  | some hi =>
      obtain ⟨rfl, covered'⟩ := plan hi
      refine ⟨rfl, fun static => ?_⟩
      simp only [Node.Static, Node.inclusions, List.forall_mem_append] at static
      exact .blockElse kind params (covered static.1) (covered' static.2)

theorem inclusion (h : target layers call.name false t t') :
    node layers (.inclusion call t none) (.inclusion call t' none) := by
  obtain ⟨rfl, covered⟩ := h
  refine ⟨rfl, fun static => ?_⟩
  simp only [Node.Static, Node.inclusions, List.forall_mem_cons] at static
  rcases covered static.1 static.2 with covered | ⟨⟨⟩, _⟩
  exact .inclusion call covered

theorem inclusionBlock (hb : BranchMatch node layers [] layer b b')
    (h : target (layer :: layers) call.name true t t') :
    node layers (.inclusion call t (some b)) (.inclusion call t' (some b')) := by
  have names := hb.named
  obtain ⟨rfl, covered'⟩ := branch hb
  obtain ⟨rfl, covered⟩ := h
  refine ⟨rfl, fun static => ?_⟩
  simp only [Node.Static, Node.inclusions, List.forall_mem_cons, List.forall_mem_append] at static
  obtain ⟨first, inside, others⟩ := static
  rcases covered first inside with covered | ⟨_, name, rfl⟩
  · exact .inclusionBlock call (covered.mono (has_inside names)) (covered' others)
  · exact .inclusionInstead call name (covered' others)

theorem inlineDef {name : String} (h : PlanMatch node layers b b') :
    node layers (.inlineDef name b) (.inlineDef name b') := by
  obtain ⟨rfl, covered⟩ := plan h
  refine ⟨rfl, fun static => ?_⟩
  simp only [Node.Static, Node.inclusions] at static
  exact .inlineDef name (covered static)

end Covering

/-- Two calls that make the same nodes, and cover those that are static. -/
def covering : Comparison where
  left := .any
  right := .any
  ok _ _ := True
  back _ _ _ := trivial
  declared _ := True
  node := Covering.node
  target := Covering.target
  mono h := by
    obtain ⟨rfl, covered⟩ := h
    refine ⟨rfl, fun static => (covered static).mono ?_⟩
    rintro name ⟨layer, member, inside⟩
    cases member with
    | head => exact ⟨_, .head _, .tail _ inside⟩
    | tail _ member => exact ⟨layer, .tail _ member, inside⟩
  literal _ text := ⟨rfl, fun _ => .literal _ text⟩
  literal_left h := h.1.symm
  literal_right h := h.1
  lookup _ e encoding := ⟨rfl, fun _ => .lookup _ e encoding⟩
  helper _ call encoding := ⟨rfl, fun _ => .helper _ call encoding⟩
  block := Covering.block
  inclusion := Covering.inclusion
  inclusionBlock := Covering.inclusionBlock
  inlineDef _ := Covering.inlineDef
  dynamic _ _ _ := ⟨rfl, fun static => static.elim⟩

namespace Workshop

/-! ### Copies that are made afresh -/

theorem renew_follows {course : Course} (noted : ∀ (s : Store) (name : String) (plan : Plan),
    course.grows s { s with embedded := (name, plan) :: s.embedded }) :
    Copying.Follows course renew := by
  intro entered name compile h c
  by_cases member : name ∈ entered
  · rw [renew_run_open entered member]
    exact ⟨List.prefix_append _ _, course.refl _⟩
  cases compile with
  | none =>
      unfold renew
      rw [if_neg (by simpa using member)]
      exact ⟨List.prefix_refl _, course.refl _⟩
  | some action =>
      rw [renew_run_new entered member]
      obtain ⟨errors, grows⟩ := Follows.insidePartial (h action rfl) name c
      exact ⟨errors, course.trans grows (noted _ _ _)⟩

variable {w : Workshop} {cmp : Comparison} {layers : Layers} {c c' : Compilation} {name : String}
  {stores stores' : Store → Store → Prop}

/-- Inside a partial both calls know the same inline partials still. -/
theorem together_enter (h : cmp.Together stores layers c c') (related : stores' c.store c'.store) :
    cmp.Together stores' ([] :: layers) (enterPartial name c) (enterPartial name c') := by
  refine ⟨congrArg ([] :: ·) h.left, congrArg ([] :: ·) h.right, ?_, related⟩
  intro layer member inline inside
  cases member with
  | head => cases inside
  | tail _ member => exact h.declared layer member inline inside

/-- The layer of a partial is left with it. -/
theorem together_leave {layer : List String} {d d' : Compilation}
    (h : cmp.Together stores (layer :: layers) c c') (left : d.inlines = c.inlines.tail)
    (right : d'.inlines = c'.inlines.tail) (related : stores' d.store d'.store) :
    cmp.Together stores' layers d d' := by
  refine ⟨?_, ?_, fun layer member => h.declared layer (.tail _ member), related⟩
  · rw [left, h.left, List.tail_cons]
  · rw [right, h.right, List.tail_cons]

theorem renew_covers (w : Workshop) : w.Copyings covering (fun _ _ _ => True) renew renew := by
  constructor
  case left => exact renew_follows fun _ _ _ => trivial
  case right => exact renew_follows fun _ _ _ => trivial
  case declared => exact fun _ => trivial
  case dynamic => exact fun _ _ _ _ => trivial
  case partialBlock => exact fun _ _ => ⟨rfl, fun static => static.elim⟩
  case inline =>
    exact fun _ member inside => ⟨rfl, fun _ _ => .inl (.named ⟨_, member, inside⟩)⟩
  case unregistered => exact fun _ _ _ => ⟨rfl, fun _ _ => .inr ⟨rfl, _, rfl⟩⟩
  case embedded =>
    intro layers plan plan' name hasBlock h
    obtain ⟨rfl, covered⟩ := Covering.plan h
    refine ⟨rfl, fun _ static => ?_⟩
    simp only [Target.inclusions] at static
    exact .inl (.embedded (covered static))
  case reopens =>
    intro entered name compile c member
    rw [renew_run_open entered member]
    simp [Report.addError]
  case copies =>
    intro entered available name source layers given outside here ih c c' start guard
    rw [given.innerBy_eq renew outside here, renew_run_new entered outside,
      renew_run_new entered outside] at guard ⊢
    simp only [insidePartial_run] at guard ⊢
    obtain ⟨clean, clean', _⟩ := guard
    obtain ⟨h, layer, done⟩ := ih layers (enterPartial name c) (enterPartial name c')
      (together_enter start trivial) ⟨leavePartial_errors clean, leavePartial_errors clean', trivial⟩
    exact ⟨⟨_, _, rfl, rfl, h⟩, together_leave done rfl rfl trivial⟩

/-- A clean call that compiles a source afresh leaves a layer of its own above those that were
known, and its plan is covered. -/
theorem source_covered {entered : List String} {available : Table String}
    (given : w.Available entered available) (source : String) {layers : Layers} {c : Compilation}
    (start : c.inlines = [] :: layers)
    (clean : ((w.sourceBy renew entered available source).run c).2.report.errors = []) :
    (∃ layer, ((w.sourceBy renew entered available source).run c).2.inlines = layer :: layers) ∧
      (Plan.Static ((w.sourceBy renew entered available source).run c).1 →
        Plan.Covered ((w.sourceBy renew entered available source).run c).1 (Layers.Has layers)) := by
  obtain ⟨h, layer, done⟩ := sources_relate (renew_covers w) entered available given source layers c c
    ⟨start, start, fun _ _ _ _ => trivial, trivial⟩ ⟨clean, clean, trivial⟩
  exact ⟨⟨layer, done.left⟩, (Covering.plan h).2⟩

end Workshop

end Stencil
