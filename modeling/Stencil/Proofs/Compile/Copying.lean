import Stencil.Proofs.Compile.Sources

/-!
Two ways to copy partials in.

A call that copies plans in compiles the source of a partial where it is
first included, and hands out the plan from then on. The other way is to
compile the source afresh at each inclusion, with the inline partials that
are known there. Apart from that the calls are the same recursion over the
sources, so they run in lockstep as soon as their ways to copy do.
-/

namespace Stencil

open Compiling

namespace Workshop

/-- A way to come by the plan of a partial: `entered` lists the open partials, and the
last argument compiles the source if there is one. -/
abbrev Copying := (entered : List String) → (name : String) → Option (Compiling Plan) →
  Compiling (Option Plan)

/-- The plan of a partial, compiled afresh unless the partial is open. Every copy is
noted. -/
def renew : Copying := fun entered name compile => do
  if entered.contains name then
    addError (recursion entered name)
    return none
  match compile with
  | none => return none
  | some compile =>
    let plan ← insidePartial name compile
    modify fun c => { c with embedded := (name, plan) :: c.embedded }
    return some plan

/-- The target of an inclusion by name, when `copy` gives the plan of the partial. -/
def resolveBy (w : Workshop) (copy : Compiling (Option Plan)) (name : String) (hasBlock : Bool)
    (site : Site) : Compiling (Option Target) := do
  if name = "@partial-block" then return some .partialBlock
  if ← hasInline name then return some (.named name)
  if (w.registry.partial? name).isNone then
    if hasBlock then return some (.named name)
    addError (.partialNotFound name site)
    return none
  match ← copy with
  | some plan => return some (.embedded plan)
  | none => return some (.named name)

/-- Compiles a source inside the partials `entered`, with this way to copy. -/
def sourceBy (w : Workshop) (copy : Copying) (entered : List String) (available : Table String)
    (source : String) : Compiling Plan := do
  let tokens ← reporting (Markup.readTemplate w.settings w.registry.hasHelper source)
  let ctx : BuildContext :=
    { settings := w.settings
      style? := w.registry.style?
      resolve := fun name hasBlock site =>
        let compile : Option (Compiling Plan) :=
          match h : Table.get? available name with
          | some source =>
            some (w.sourceBy copy (name :: entered) (Table.erase available name) source)
          | none => none
        w.resolveBy (copy entered name compile) name hasBlock site }
  ctx.build tokens
termination_by available.length
decreasing_by exact Table.length_erase_lt h

variable (w : Workshop) (copy : Copying) (entered : List String) (available : Table String)

/-- How a partial is compiled that is included where the partials `entered` are open. -/
def innerBy (name : String) : Option (Compiling Plan) :=
  (Table.get? available name).map
    (w.sourceBy copy (name :: entered) (Table.erase available name))

/-- The builder of a source inside the partials `entered`. -/
def builderBy : BuildContext where
  settings := w.settings
  style? := w.registry.style?
  resolve name hasBlock site :=
    w.resolveBy (copy entered name (w.innerBy copy entered available name)) name hasBlock site

theorem sourceBy_eq (source : String) :
    w.sourceBy copy entered available source = (do
      let tokens ← reporting (Markup.readTemplate w.settings w.registry.hasHelper source)
      (w.builderBy copy entered available).build tokens) := by
  have same : w.builderBy copy entered available =
      { settings := w.settings
        style? := w.registry.style?
        resolve := fun name hasBlock site =>
          let compile : Option (Compiling Plan) :=
            match h : Table.get? available name with
            | some source =>
              some (w.sourceBy copy (name :: entered) (Table.erase available name) source)
            | none => none
          w.resolveBy (copy entered name compile) name hasBlock site } := by
    unfold builderBy
    congr
    funext name hasBlock site
    congr
    rw [innerBy]
    split
    · next source found => rw [found, Option.map_some]
    · next found => rw [found, Option.map_none]
  rw [sourceBy, same]

variable {w}

/-- A call that embeds plans copies them by looking for one that it has. -/
theorem resolve_eq (h : w.settings.runtimePartials = false) (name : String) (hasBlock : Bool)
    (site : Site) (compile : Option (Compiling Plan)) :
    w.resolve entered name hasBlock site compile =
      w.resolveBy (embed entered name compile) name hasBlock site := by
  unfold resolve resolveBy
  rw [h]
  rfl

theorem compileSource_eq_sourceBy (h : w.settings.runtimePartials = false) (entered : List String)
    (available : Table String) (source : String) :
    w.compileSource entered available source = w.sourceBy embed entered available source := by
  revert source
  refine source_induction (motive := fun entered available => ∀ source,
    w.compileSource entered available source = w.sourceBy embed entered available source) ?_
      entered available
  intro entered available ih source
  have inner (name : String) : w.inner entered available name =
      w.innerBy embed entered available name := by
    rw [Workshop.inner, innerBy]
    cases found : Table.get? available name with
    | none => rw [Option.map_none, Option.map_none]
    | some source => rw [Option.map_some, Option.map_some, ih name source found source]
  have builders : w.builder entered available = w.builderBy embed entered available := by
    unfold builder builderBy
    congr
    funext name hasBlock site
    rw [resolve_eq entered h, inner]
  rw [compileSource_eq, sourceBy_eq, builders]

theorem inner_eq_innerBy (h : w.settings.runtimePartials = false) (name : String) :
    w.inner entered available name = w.innerBy embed entered available name := by
  rw [inner, innerBy]
  cases found : Table.get? available name with
  | none => rw [Option.map_none, Option.map_none]
  | some source => rw [Option.map_some, Option.map_some, compileSource_eq_sourceBy h]

/-- While the source of a partial is compiled there is no plan of it. -/
theorem embed_source_new (h : w.settings.runtimePartials = false) (source : String) {name : String}
    {c : Compilation} (new : Table.get? c.embedded name = none) :
    Table.get? ((w.sourceBy embed (name :: entered) available source).run
      (enterPartial name c)).2.embedded name = none := by
  obtain ⟨_, _, _, _, untouched⟩ :=
    w.compileSource_follows (name :: entered) available source (enterPartial name c)
  rw [compileSource_eq_sourceBy h] at untouched
  exact (untouched name (.head _)).1.trans new

/-! ### Steps -/

theorem renew_run_open {name : String} (h : name ∈ entered) (compile : Option (Compiling Plan))
    (c : Compilation) : (renew entered name compile).run c =
      (none, { c with report := c.report.addError (recursion entered name) }) := by
  unfold renew
  rw [if_pos (List.contains_iff_mem.mpr h)]
  rfl

/-- The state behind the source of a partial whose plan is noted as a copy. -/
def noting (name : String) (result : Plan × Compilation) : Compilation :=
  { result.2 with embedded := (name, result.1) :: result.2.embedded }

theorem renew_run_new {name : String} (h : name ∉ entered) (action : Compiling Plan)
    (c : Compilation) : (renew entered name (some action)).run c =
      let result := (insidePartial name action).run c
      (some result.1, noting name result) := by
  unfold renew
  rw [if_neg (by simpa using h)]
  rfl

theorem resolveBy_run (w : Workshop) (copy : Compiling (Option Plan)) (name : String)
    (hasBlock : Bool) (site : Site) (c : Compilation) :
    (w.resolveBy copy name hasBlock site).run c =
      if name = "@partial-block" then (some .partialBlock, c)
      else if c.inlines.any (·.contains name) then (some (.named name), c)
      else if (w.registry.partial? name).isNone then
        if hasBlock then (some (.named name), c)
        else (none, { c with report := c.report.addError (.partialNotFound name site) })
      else
        let result := copy.run c
        (some (match result.1 with
          | some plan => .embedded plan
          | none => .named name), result.2) := by
  unfold resolveBy
  split
  · rfl
  change StateT.run (if c.inlines.any (·.contains name) then _ else _) c = _
  split
  · rfl
  split
  · cases hasBlock <;> rfl
  rw [StateT.run_bind]
  simp only
  generalize copy.run c = result
  obtain ⟨plan, c'⟩ := result
  cases plan <;> rfl

/-! ### Following a course -/

section

variable {course : Course} {copy}

theorem resolveBy_follows {x : Compiling (Option Plan)} (h : Follows course x) (w : Workshop)
    (name : String) (hasBlock : Bool) (site : Site) :
    Follows course (w.resolveBy x name hasBlock site) := by
  intro c
  rw [resolveBy_run]
  have nothing : c.report.errors <+: c.report.errors ∧ course.grows c.store c.store :=
    ⟨List.prefix_refl _, course.refl _⟩
  split
  · exact nothing
  split
  · exact nothing
  split
  · split
    · exact nothing
    · exact ⟨List.prefix_append _ _, course.refl _⟩
  · exact h c

/-- A way to copy that adds nothing but what compiling the source adds. -/
def Copying.Follows (course : Course) (copy : Copying) : Prop :=
  ∀ entered name compile, (∀ action, compile = some action → Compiling.Follows course action) →
    Compiling.Follows course (copy entered name compile)

theorem sourceBy_follows (h : copy.Follows course) (w : Workshop) (entered : List String)
    (available : Table String) (source : String) :
    Follows course (w.sourceBy copy entered available source) := by
  revert source
  refine source_induction (motive := fun entered available =>
    ∀ source, Follows course (w.sourceBy copy entered available source)) ?_ entered available
  intro entered available ih source
  rw [sourceBy_eq]
  refine .bind (.steady (.reporting (Markup.readTemplate_steady _ _ _))) fun tokens => ?_
  refine BuildContext.build_follows (fun name hasBlock site => ?_) tokens
  refine resolveBy_follows (h entered name _ ?_) w name hasBlock site
  intro action given
  obtain ⟨source, found, rfl⟩ := Option.map_eq_some_iff.mp given
  exact ih name source found source

theorem innerBy_follows (h : copy.Follows course) (w : Workshop) (entered : List String)
    (available : Table String) (name : String) :
    Follows course (copy entered name (w.innerBy copy entered available name)) := by
  refine h entered name _ fun action given => ?_
  obtain ⟨source, found, rfl⟩ := Option.map_eq_some_iff.mp given
  exact sourceBy_follows h w _ _ source

end

/-! ### Lockstep -/

/-- Compiling a source inside some partials comes to related plans, and to a layer of its
own above those that were known. -/
def SourceRelates (w : Workshop) (cmp : Comparison) (stores : List String → Store → Store → Prop)
    (copy copy' : Copying) (entered : List String) (available : Table String) (source : String) :
    Prop :=
  ∀ layers, cmp.Relates (cmp.Together (stores entered) ([] :: layers))
    (w.sourceBy copy entered available source) (w.sourceBy copy' entered available source)
    fun p p' c c' => PlanMatch cmp.node layers p p' ∧
      ∃ layer, cmp.Together (stores entered) (layer :: layers) c c'

/-- Ways to copy that respect a comparison. The stores are related in a way that may
depend on the open partials. -/
structure Copyings (w : Workshop) (cmp : Comparison)
    (stores : List String → Store → Store → Prop) (copy copy' : Copying) : Prop where
  left : copy.Follows cmp.left
  right : copy'.Follows cmp.right
  declared : ∀ name, cmp.declared name
  dynamic : ∀ entered s t, stores entered s t →
    stores entered { s with hasDynamic := true } { t with hasDynamic := true }
  partialBlock : ∀ layers hasBlock,
    cmp.target layers "@partial-block" hasBlock .partialBlock .partialBlock
  inline : ∀ {layers layer name} hasBlock, layer ∈ layers → name ∈ layer →
    cmp.target layers name hasBlock (.named name) (.named name)
  unregistered : ∀ layers name, w.registry.partial? name = none →
    cmp.target layers name true (.named name) (.named name)
  embedded : ∀ {layers plan plan'} name hasBlock, PlanMatch cmp.node layers plan plan' →
    cmp.target layers name hasBlock (.embedded plan) (.embedded plan')
  /-- A partial that is open is not entered again. -/
  reopens : ∀ entered name compile c, name ∈ entered →
    ((copy entered name compile).run c).2.report.errors ≠ []
  copies : ∀ {entered available name source} layers, w.Available entered available →
    name ∉ entered → w.registry.partial? name = some source →
    w.SourceRelates cmp stores copy copy' (name :: entered) (Table.erase available name) source →
    cmp.Relates (cmp.Together (stores entered) layers)
      (copy entered name (w.innerBy copy entered available name))
      (copy' entered name (w.innerBy copy' entered available name))
      fun p p' c c' => (∃ plan plan', p = some plan ∧ p' = some plan' ∧
        PlanMatch cmp.node layers plan plan') ∧ cmp.Together (stores entered) layers c c'

section

variable {w : Workshop} {cmp : Comparison} {stores : List String → Store → Store → Prop}
  {copy copy' : Copying} {entered : List String} {available : Table String}

theorem Available.innerBy_eq (h : w.Available entered available) (copy : Copying) {name : String}
    {source : String} (outside : name ∉ entered) (here : w.registry.partial? name = some source) :
    w.innerBy copy entered available name =
      some (w.sourceBy copy (name :: entered) (Table.erase available name) source) := by
  rw [innerBy, h name outside, here, Option.map_some]

/-- The resolvers find related targets. -/
theorem resolveBy_relates (h : w.Copyings cmp stores copy copy')
    (given : w.Available entered available)
    (ih : ∀ name, name ∉ entered → ∀ source, w.registry.partial? name = some source →
      w.SourceRelates cmp stores copy copy' (name :: entered) (Table.erase available name) source)
    (layers : Layers) (name : String) (hasBlock : Bool) (site : Site) :
    cmp.Relates (cmp.Together (stores entered) layers)
      (w.resolveBy (copy entered name (w.innerBy copy entered available name)) name hasBlock site)
      (w.resolveBy (copy' entered name (w.innerBy copy' entered available name)) name hasBlock
        site)
      fun t t' c c' => Option.Rel (cmp.target layers name hasBlock) t t' ∧
        cmp.Together (stores entered) layers c c' := by
  intro c c' start guard
  have run := resolveBy_run w (copy entered name (w.innerBy copy entered available name)) name
    hasBlock site c
  have run' := resolveBy_run w (copy' entered name (w.innerBy copy' entered available name)) name
    hasBlock site c'
  rw [start.left] at run
  rw [start.right] at run'
  by_cases isBlock : name = "@partial-block"
  · rw [if_pos isBlock] at run run'
    rw [run, run', isBlock]
    exact ⟨.some (h.partialBlock _ _), start⟩
  rw [if_neg isBlock] at run run'
  by_cases inline : layers.any (·.contains name) = true
  · rw [if_pos inline] at run run'
    rw [run, run']
    obtain ⟨layer, member, inside⟩ := List.any_eq_true.mp inline
    exact ⟨.some (h.inline _ member (List.contains_iff_mem.mp inside)), start⟩
  rw [if_neg inline] at run run'
  cases here : w.registry.partial? name with
  | none =>
      rw [here, if_pos Option.isNone_none] at run run'
      cases hasBlock with
      | true =>
          rw [if_pos rfl] at run run'
          rw [run, run']
          exact ⟨.some (h.unregistered _ _ here), start⟩
      | false =>
          -- A missing partial is an error.
          rw [if_neg Bool.false_ne_true] at run
          rw [run] at guard
          simp [Report.addError, Comparison.Guard] at guard
  | some source =>
      rw [here, if_neg (by simp)] at run run'
      rw [run, run'] at guard ⊢
      by_cases member : name ∈ entered
      · exact absurd guard.1 (h.reopens entered name _ c member)
      obtain ⟨⟨plan, plan', result, result', related⟩, done⟩ :=
        h.copies layers given member here (ih name member source here) c c' start guard
      simp only [result, result']
      exact ⟨.some (h.embedded name hasBlock related), done⟩

/-- Every source is compiled alike, by induction on the partials that it may enter. -/
theorem sources_relate (h : w.Copyings cmp stores copy copy') (entered : List String)
    (available : Table String) (given : w.Available entered available) (source : String) :
    w.SourceRelates cmp stores copy copy' entered available source := by
  revert given source
  refine source_induction (motive := fun entered available => w.Available entered available →
    ∀ source, w.SourceRelates cmp stores copy copy' entered available source) ?_ entered available
  intro entered available ih given source layers
  have builders : cmp.Builders (stores entered) (w.builderBy copy entered available)
      (w.builderBy copy' entered available) := by
    constructor
    case style => rfl
    case encoding => rfl
    case knownHelpersOnly => rfl
    case left =>
      exact fun name hasBlock site =>
        resolveBy_follows (innerBy_follows h.left w _ _ name) w name hasBlock site
    case right =>
      exact fun name hasBlock site =>
        resolveBy_follows (innerBy_follows h.right w _ _ name) w name hasBlock site
    case dynamic => exact h.dynamic entered
    case resolve =>
      refine resolveBy_relates h given fun name outside source here => ?_
      exact ih name source ((given name outside).trans here) (given.enter name) source
  rw [sourceBy_eq, sourceBy_eq]
  refine .reading_bind (Markup.readTemplate_steady _ _ _) fun tokens _ => ?_
  exact Comparison.build_relates builders fun _ _ name _ => h.declared name

end

end Workshop

end Stencil
