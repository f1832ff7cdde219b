import Stencil.Proofs.Compile.Building
import Stencil.Proofs.Table
import Stencil.Template.Compile

/-!
Compiling sources.

A source is compiled by the builder of the partials that are open around it,
and the sources that it may enter have one open partial more. What holds of
every source is proved by induction on that. In particular a compile call
never takes a plan back, and leaves the plans of open partials alone.
-/

namespace Stencil

open Compiling

/-! ### Courses of compile calls -/

/-- Plans are only added, and not for the partials that are open. -/
def openCourse (entered : List String) : Course where
  grows s t :=
    (s.hasDynamic = true → t.hasDynamic = true) ∧ Table.Within s.embedded t.embedded ∧
      Table.Within s.table t.table ∧ ∀ name ∈ entered,
        Table.get? t.embedded name = Table.get? s.embedded name ∧
          Table.get? t.table name = Table.get? s.table name
  refl s := ⟨id, .refl _, .refl _, fun _ _ => ⟨rfl, rfl⟩⟩
  trans h h' := by
    obtain ⟨dynamic, embedded, table, untouched⟩ := h
    obtain ⟨dynamic', embedded', table', untouched'⟩ := h'
    refine ⟨dynamic' ∘ dynamic, embedded.trans embedded', table.trans table', ?_⟩
    intro name member
    exact ⟨(untouched' name member).1.trans (untouched name member).1,
      (untouched' name member).2.trans (untouched name member).2⟩
  dynamic s := ⟨fun _ => rfl, .refl _, .refl _, fun _ _ => ⟨rfl, rfl⟩⟩

/-- A computation with one more partial open does all the less. -/
theorem openCourse_grows {entered : List String} {name : String} {s t : Store}
    (h : (openCourse (name :: entered)).grows s t) : (openCourse entered).grows s t := by
  obtain ⟨dynamic, embedded, table, untouched⟩ := h
  exact ⟨dynamic, embedded, table, fun other member => untouched other (.tail _ member)⟩

/-! ### Inside a partial -/

namespace Compiling

variable {α : Type}

/-- The state in which the source of a partial is compiled. -/
def enterPartial (name : String) (c : Compilation) : Compilation :=
  { c with
    report := { c.report.addEvent (.compilingPartial name) with errors := [] }
    inlines := [] :: c.inlines }

/-- The state behind a partial; `errors` are those before it. -/
def leavePartial (name : String) (errors : List Diagnostic) (c : Compilation) : Compilation :=
  { c with
    report.errors := errors ++ c.report.errors.map (.inPartial name)
    inlines := c.inlines.tail }

theorem insidePartial_run (name : String) (action : Compiling α) (c : Compilation) :
    (insidePartial name action).run c =
      ((action.run (enterPartial name c)).1,
        leavePartial name c.report.errors (action.run (enterPartial name c)).2) :=
  rfl

/-- When nothing is wrong behind a partial, nothing is wrong in its source. -/
theorem leavePartial_errors {name : String} {errors : List Diagnostic} {c : Compilation}
    (h : (leavePartial name errors c).report.errors = []) : c.report.errors = [] := by
  obtain ⟨-, inside⟩ := List.append_eq_nil_iff.mp h
  exact List.map_eq_nil_iff.mp inside

theorem Follows.insidePartial {course : Course} {action : Compiling α} (h : Follows course action)
    (name : String) : Follows course (insidePartial name action) := by
  intro c
  rw [insidePartial_run]
  exact ⟨List.prefix_append _ _, (h (enterPartial name c)).2⟩

end Compiling

/-! ### Sources -/

namespace Workshop

variable (w : Workshop)

/-- How a partial is compiled that is included where the partials `entered` are open. -/
def inner (entered : List String) (available : Table String) (name : String) :
    Option (Compiling Plan) :=
  (Table.get? available name).map
    (w.compileSource (name :: entered) (Table.erase available name))

/-- The builder of a source inside the partials `entered`. -/
def builder (entered : List String) (available : Table String) : BuildContext where
  settings := w.settings
  style? := w.registry.style?
  resolve name hasBlock site := w.resolve entered name hasBlock site (w.inner entered available name)

theorem compileSource_eq (entered : List String) (available : Table String) (source : String) :
    w.compileSource entered available source = (do
      let tokens ← reporting (Markup.readTemplate w.settings w.registry.hasHelper source)
      (w.builder entered available).build tokens) := by
  rw [compileSource]
  refine bind_congr fun tokens => congrArg (BuildContext.build · tokens) ?_
  unfold builder
  congr
  funext name hasBlock site
  rw [inner]
  split
  · next source found => rw [found, Option.map_some]
  · next found => rw [found, Option.map_none]

/-- What holds of compiling in the partials that may be entered holds of compiling. -/
theorem source_induction {motive : List String → Table String → Prop}
    (step : ∀ entered available,
      (∀ name source, Table.get? available name = some source →
        motive (name :: entered) (Table.erase available name)) → motive entered available)
    (entered : List String) (available : Table String) : motive entered available :=
  step entered available fun name _ _found =>
    source_induction step (name :: entered) (Table.erase available name)
termination_by available.length
decreasing_by exact Table.length_erase_lt _found

/-! ### Steps -/

/-- The complaint about a partial that is open already. -/
def recursion (entered : List String) (name : String) : Diagnostic :=
  .recursivePartial (name :: (entered.takeWhile (· != name)).reverse ++ [name])

/-- The state behind the source of a partial whose plan is embedded. -/
def embedding (name : String) (result : Plan × Compilation) : Compilation :=
  { result.2 with embedded := Table.insert result.2.embedded name result.1 }

/-- The state behind the source of a partial whose plan is put into the table. -/
def tabulating (name : String) (result : Plan × Compilation) : Compilation :=
  { result.2 with table := Table.insert result.2.table name result.1 }

variable {w} (entered : List String) (name : String)

theorem embed_run_open (h : name ∈ entered) (compile : Option (Compiling Plan)) (c : Compilation) :
    (embed entered name compile).run c =
      (none, { c with report := c.report.addError (recursion entered name) }) := by
  unfold embed
  rw [if_pos (List.contains_iff_mem.mpr h)]
  rfl

theorem embed_run_known (h : name ∉ entered) (compile : Option (Compiling Plan))
    {c : Compilation} {plan : Plan} (found : Table.get? c.embedded name = some plan) :
    (embed entered name compile).run c = (some plan, c) := by
  unfold embed
  rw [if_neg (by simpa using h)]
  simp only [StateT.run_bind, StateT.run_get, pure_bind, found]
  rfl

theorem embed_run_new (h : name ∉ entered) (compile : Option (Compiling Plan))
    {c : Compilation} (found : Table.get? c.embedded name = none) :
    (embed entered name compile).run c =
      match compile with
      | none => (none, c)
      | some action =>
        let result := (insidePartial name action).run c
        (some result.1, embedding name result) := by
  unfold embed
  rw [if_neg (by simpa using h)]
  simp only [StateT.run_bind, StateT.run_get, pure_bind, found]
  cases compile <;> rfl

theorem tabulate_run_known (compile : Option (Compiling Plan)) {c : Compilation}
    (h : name ∈ entered ∨ (Table.get? c.table name).isSome = true) :
    (tabulate entered name compile).run c = ((), c) := by
  have known : (Table.contains c.table name || entered.contains name) = true := by
    rw [Table.contains]
    simpa [or_comm] using h
  change StateT.run (if Table.contains c.table name || entered.contains name then _ else _) c = _
  rw [if_pos known]
  rfl

theorem tabulate_run_new (h : name ∉ entered) (compile : Option (Compiling Plan))
    {c : Compilation} (found : Table.get? c.table name = none) :
    (tabulate entered name compile).run c =
      match compile with
      | none => ((), c)
      | some action => ((), tabulating name ((insidePartial name action).run c)) := by
  have new : ¬(Table.contains c.table name || entered.contains name) = true := by
    rw [Table.contains, found]
    simpa using h
  change StateT.run (if Table.contains c.table name || entered.contains name then _ else _) c = _
  rw [if_neg new]
  cases compile <;> rfl

theorem resolve_run (w : Workshop) (hasBlock : Bool) (site : Site)
    (compile : Option (Compiling Plan)) (c : Compilation) :
    (w.resolve entered name hasBlock site compile).run c =
      if name = "@partial-block" then (some .partialBlock, c)
      else if c.inlines.any (·.contains name) then (some (.named name), c)
      else if w.settings.runtimePartials then
        (some (.named name), ((tabulate entered name compile).run c).2)
      else if (w.registry.partial? name).isNone then
        if hasBlock then (some (.named name), c)
        else (none, { c with report := c.report.addError (.partialNotFound name site) })
      else
        let result := (embed entered name compile).run c
        (some (match result.1 with
          | some plan => .embedded plan
          | none => .named name), result.2) := by
  unfold resolve
  split
  · rfl
  change StateT.run (if c.inlines.any (·.contains name) then _ else _) c = _
  split
  · rfl
  split
  · rfl
  split
  · cases hasBlock <;> rfl
  rw [StateT.run_bind]
  simp only
  generalize (embed entered name compile).run c = result
  obtain ⟨plan, c'⟩ := result
  cases plan <;> rfl

/-! ### Following the course -/

section

variable {compile : Option (Compiling Plan)}
  (h : ∀ action, compile = some action → Follows (openCourse (name :: entered)) action)

include h

/-- A plan is only embedded when there is none of its name. -/
theorem embed_follows : Follows (openCourse entered) (embed entered name compile) := by
  intro c
  by_cases member : name ∈ entered
  · rw [embed_run_open entered name member]
    exact ⟨List.prefix_append _ _, (openCourse entered).refl _⟩
  cases found : Table.get? c.embedded name with
  | some plan =>
      rw [embed_run_known entered name member _ found]
      exact ⟨List.prefix_refl _, (openCourse entered).refl _⟩
  | none =>
      rw [embed_run_new entered name member _ found]
      cases compile with
      | none => exact ⟨List.prefix_refl _, (openCourse entered).refl _⟩
      | some action =>
          obtain ⟨errors, grows⟩ := Follows.insidePartial (h action rfl) name c
          refine ⟨errors, (openCourse entered).trans (openCourse_grows grows) ?_⟩
          obtain ⟨-, -, -, untouched⟩ := grows
          have still := (untouched name (.head _)).1.trans found
          refine ⟨id, Table.Within.insert still _, .refl _, fun other inside => ⟨?_, rfl⟩⟩
          refine (Table.get?_insert _ _ _ _).trans (if_neg ?_)
          rintro rfl
          exact member inside

theorem tabulate_follows : Follows (openCourse entered) (tabulate entered name compile) := by
  intro c
  by_cases known : name ∈ entered ∨ (Table.get? c.table name).isSome = true
  · rw [tabulate_run_known entered name _ known]
    exact ⟨List.prefix_refl _, (openCourse entered).refl _⟩
  obtain ⟨member, found⟩ := not_or.mp known
  rw [Option.not_isSome_iff_eq_none] at found
  rw [tabulate_run_new entered name member _ found]
  cases compile with
  | none => exact ⟨List.prefix_refl _, (openCourse entered).refl _⟩
  | some action =>
      obtain ⟨errors, grows⟩ := Follows.insidePartial (h action rfl) name c
      refine ⟨errors, (openCourse entered).trans (openCourse_grows grows) ?_⟩
      obtain ⟨-, -, -, untouched⟩ := grows
      have still := (untouched name (.head _)).2.trans found
      refine ⟨id, .refl _, Table.Within.insert still _, fun other inside => ⟨rfl, ?_⟩⟩
      refine (Table.get?_insert _ _ _ _).trans (if_neg ?_)
      rintro rfl
      exact member inside

theorem resolve_follows (w : Workshop) (hasBlock : Bool) (site : Site) :
    Follows (openCourse entered) (w.resolve entered name hasBlock site compile) := by
  intro c
  rw [resolve_run]
  have nothing : c.report.errors <+: c.report.errors ∧ (openCourse entered).grows c.store c.store :=
    ⟨List.prefix_refl _, (openCourse entered).refl _⟩
  split
  · exact nothing
  split
  · exact nothing
  split
  · exact tabulate_follows entered name h c
  split
  · split
    · exact nothing
    · exact ⟨List.prefix_append _ _, (openCourse entered).refl _⟩
  · exact embed_follows entered name h c

end

theorem compileSource_follows (w : Workshop) (entered : List String) (available : Table String)
    (source : String) : Follows (openCourse entered) (w.compileSource entered available source) := by
  revert source
  refine source_induction (motive := fun entered available =>
    ∀ source, Follows (openCourse entered) (w.compileSource entered available source)) ?_
      entered available
  intro entered available ih source
  rw [compileSource_eq]
  refine .bind (.steady (.reporting (Markup.readTemplate_steady _ _ _))) fun tokens => ?_
  refine BuildContext.build_follows (fun name hasBlock site => ?_) tokens
  refine resolve_follows entered name ?_ w hasBlock site
  intro action given
  obtain ⟨source, found, rfl⟩ := Option.map_eq_some_iff.mp given
  exact ih name source found source

theorem inner_follows (w : Workshop) (available : Table String) (action : Compiling Plan)
    (h : w.inner entered available name = some action) :
    Follows (openCourse (name :: entered)) action := by
  obtain ⟨source, found, rfl⟩ := Option.map_eq_some_iff.mp h
  exact w.compileSource_follows _ _ source

/-- The resolver of a builder follows the course on which no partial is open. -/
theorem builder_follows (w : Workshop) (available : Table String) (hasBlock : Bool) (site : Site) :
    Follows (openCourse []) ((w.builder entered available).resolve name hasBlock site) :=
  (resolve_follows entered name (inner_follows entered name w available) w hasBlock site).weaken
    fun _ _ ⟨dynamic, embedded, table, _⟩ => ⟨dynamic, embedded, table, nofun⟩

/-! ### Computed names -/

theorem compileNamed_eq (w : Workshop) : w.compileNamed name = w.inner [] w.registry.partials name :=
  rfl

/-- The step of a call that embeds partials for one name. -/
def copyInto (w : Workshop) (name : String) : Compiling Unit := do
  match ← embed [] name (w.compileNamed name) with
  | some plan => modify fun c => { c with table := Table.insert c.table name plan }
  | none => pure ()

theorem tabulateAll_embedding {w : Workshop} (h : w.settings.runtimePartials = false)
    (names : List String) :
    w.tabulateAll (name :: names) = (do w.copyInto name; w.tabulateAll names) := by
  rw [tabulateAll, h, if_neg Bool.false_ne_true, copyInto, bind_assoc]
  congr
  funext plan
  cases plan <;> rfl

theorem tabulateAll_dispatching {w : Workshop} (h : w.settings.runtimePartials = true)
    (names : List String) :
    w.tabulateAll (name :: names) =
      (do tabulate [] name (w.compileNamed name); w.tabulateAll names) := by
  rw [tabulateAll, h]
  rfl

theorem copyInto_run (w : Workshop) (c : Compilation) :
    (w.copyInto name).run c =
      let result := (embed [] name (w.compileNamed name)).run c
      match result.1 with
      | some plan => ((), tabulating name (plan, result.2))
      | none => ((), result.2) := by
  rw [copyInto, StateT.run_bind]
  simp only
  generalize (embed [] name (w.compileNamed name)).run c = result
  obtain ⟨plan, c'⟩ := result
  cases plan <;> rfl

theorem copyInto_follows (w : Workshop) : Follows .any (w.copyInto name) := by
  refine .bind (embed_follows [] name (inner_follows [] name w _)).any fun plan => ?_
  cases plan with
  | some plan => exact fun c => ⟨List.prefix_refl _, trivial⟩
  | none => exact .pure _

theorem tabulateAll_follows (w : Workshop) (names : List String) :
    Follows .any (w.tabulateAll names) := by
  induction names with
  | nil => exact .pure _
  | cons name names ih =>
      cases h : w.settings.runtimePartials with
      | true =>
          rw [tabulateAll_dispatching name h]
          exact .bind (tabulate_follows [] name (inner_follows [] name w _)).any fun _ => ih
      | false =>
          rw [tabulateAll_embedding name h]
          exact .bind (copyInto_follows name w) fun _ => ih

/-- Putting partials into the table of a call that finds them by name. -/
theorem tabulateAll_grows {w : Workshop} (h : w.settings.runtimePartials = true)
    (names : List String) : Follows (openCourse []) (w.tabulateAll names) := by
  induction names with
  | nil => exact .pure _
  | cons name names ih =>
      rw [tabulateAll_dispatching name h]
      refine .bind ?_ fun _ => ih
      exact (tabulate_follows [] name (inner_follows [] name w _))

/-- The registered names are those that are looked after for computed names. -/
theorem mem_partialNames_iff {registry : Registry} {name : String} :
    name ∈ registry.partialNames ↔ (registry.partial? name).isSome = true :=
  Table.mem_keys_iff

/-- What follows the source of a template: partials are looked after for computed names,
if there are any. -/
def finish (w : Workshop) (dynamic : Bool) : Compiling Unit :=
  if dynamic then w.tabulateAll w.registry.partialNames else pure ()

theorem compileTemplate_run (w : Workshop) (source : String) (c : Compilation) :
    (w.compileTemplate source).run c =
      let result := (w.compileSource [] w.registry.partials source).run
        { c with report := c.report.addEvent (.compiling source.utf8ByteSize) }
      (result.1, ((w.finish result.2.hasDynamic).run result.2).2) := by
  let result := (w.compileSource [] w.registry.partials source).run
    { c with report := c.report.addEvent (.compiling source.utf8ByteSize) }
  change (if result.2.hasDynamic = true then do
      w.tabulateAll w.registry.partialNames
      return result.1
    else pure result.1 : Compiling Plan).run result.2 =
      (result.1, ((w.finish result.2.hasDynamic).run result.2).2)
  rw [finish]
  split <;> rfl

theorem finish_follows (w : Workshop) (dynamic : Bool) : Follows .any (w.finish dynamic) := by
  cases dynamic with
  | true => exact w.tabulateAll_follows _
  | false => exact .pure _

theorem finish_grows {w : Workshop} (h : w.settings.runtimePartials = true) (dynamic : Bool) :
    Follows (openCourse []) (w.finish dynamic) := by
  cases dynamic with
  | true => exact tabulateAll_grows h _
  | false => exact .pure _

/-! ### What is available -/

/-- While some partials are open, those that are not are available as registered. -/
def Available (w : Workshop) (entered : List String) (available : Table String) : Prop :=
  ∀ name, name ∉ entered → Table.get? available name = w.registry.partial? name

theorem Available.start (w : Workshop) : w.Available [] w.registry.partials :=
  fun _ _ => rfl

theorem Available.enter {w : Workshop} {entered : List String} {available : Table String}
    (h : w.Available entered available) (name : String) :
    w.Available (name :: entered) (Table.erase available name) := by
  intro other outside
  rw [List.mem_cons, not_or] at outside
  obtain ⟨different, outside⟩ := outside
  rw [Table.get?_erase_of_ne _ different, h other outside]

theorem Available.inner_eq {w : Workshop} {entered : List String} {available : Table String}
    (h : w.Available entered available) {name : String} (outside : name ∉ entered) :
    w.inner entered available name =
      (w.registry.partial? name).map (w.compileSource (name :: entered) (Table.erase available name)) := by
  rw [inner, h name outside]

end Workshop

/-! ### Whole calls -/

/-- What a compile call complains about. -/
def CompileOutcome.errors (outcome : CompileOutcome) : List Diagnostic :=
  match outcome.result with
  | .ok _ => []
  | .error errors => errors

namespace Registry

/-- The result of a compile call is its complaints, or the template that is left without any. -/
theorem compile_result (registry : Registry) (settings : Settings) (source : String) :
    (registry.compile settings source).result =
      let outcome := ({ settings, registry : Workshop }.compileTemplate source).run {}
      if outcome.2.report.errors.isEmpty then
        .ok { plan := outcome.1, partials := outcome.2.table, helpers := registry.helpers
              blockHelpers := registry.blockHelpers, settings, usage := outcome.2.report.usage
              warnings := outcome.2.report.warnings }
      else .error outcome.2.report.errors := by
  unfold compile
  simp only
  generalize ({ settings, registry : Workshop }.compileTemplate source).run {} = outcome
  obtain ⟨plan, c⟩ := outcome
  simp only
  split <;> rfl

theorem compile_errors (r : Registry) (s : Settings) (source : String) :
    (r.compile s source).errors =
      (({ settings := s, registry := r : Workshop }.compileTemplate source).run {}).2.report.errors
    := by
  rw [CompileOutcome.errors, compile_result]
  simp only
  generalize ({ settings := s, registry := r : Workshop }.compileTemplate source).run {} = outcome
  split
  · next ok =>
    split at ok
    · next clean => exact (List.isEmpty_iff.mp clean).symm
    · cases ok
  · next found =>
    split at found
    · cases found
    · cases found
      rfl

theorem result_of_errors {r : Registry} {s : Settings} {source : String}
    (none : (r.compile s source).errors = []) : ∃ t, (r.compile s source).result = .ok t := by
  rw [compile_errors] at none
  rw [compile_result]
  simp [none]

theorem hasHelper_eq (r : Registry) (name : String) :
    r.hasHelper name = (Table.contains r.helpers name || Table.contains r.blockHelpers name) := by
  unfold hasHelper style?
  cases Table.contains r.helpers name <;> cases Table.contains r.blockHelpers name <;> rfl

/-- The names that a source gives to inline partials. -/
def declared (registry : Registry) (settings : Settings) (source : String) : List String :=
  ((Markup.readTemplate settings registry.hasHelper source).run {}).1.flatMap fun
    | .text _ => []
    | .tag tag => pendingName tag

/-- The names of inline partials in a source or in that of a registered partial. -/
def inlineNames (registry : Registry) (settings : Settings) (source : String) : List String :=
  registry.declared settings source ++
    registry.partials.flatMap fun entry => registry.declared settings entry.2

theorem declared_runtimePartials (registry : Registry) (settings : Settings) (runtime : Bool)
    (source : String) :
    registry.declared { settings with runtimePartials := runtime } source =
      registry.declared settings source := by
  rw [declared, declared, Markup.readTemplate_runtimePartials _ settings runtime]

theorem mem_declared {registry : Registry} {settings : Settings} {source name : String}
    {tag : Markup.Tag}
    (member : .tag tag ∈ ((Markup.readTemplate settings registry.hasHelper source).run {}).1)
    (h : name ∈ pendingName tag) : name ∈ registry.declared settings source :=
  List.mem_flatMap.mpr ⟨_, member, h⟩

theorem mem_inlineNames {registry : Registry} {settings : Settings}
    {source name other text : String} (here : registry.partial? other = some text)
    (h : name ∈ registry.declared settings text) : name ∈ registry.inlineNames settings source :=
  List.mem_append_right _ (List.mem_flatMap.mpr ⟨(other, text), Table.mem_of_get? here, h⟩)

/-- A template is what a compile call without errors leaves behind. -/
theorem of_compile {registry : Registry} {settings : Settings} {source : String}
    {t : Template} (h : (registry.compile settings source).result = .ok t) :
    let outcome := ({ settings, registry : Workshop }.compileTemplate source).run {}
    outcome.2.report.errors = [] ∧ t.plan = outcome.1 ∧ t.partials = outcome.2.table ∧
      t.helpers = registry.helpers ∧ t.blockHelpers = registry.blockHelpers ∧
        t.settings = settings := by
  intro outcome
  rw [compile] at h
  change (if outcome.2.report.errors.isEmpty then _ else _ : CompileOutcome).result = _ at h
  split at h
  · next clean =>
    cases h
    exact ⟨List.isEmpty_iff.mp clean, rfl, rfl, rfl, rfl, rfl⟩
  · cases h

/-- A compile call without errors gives a template. -/
theorem compiles {registry : Registry} {settings : Settings} {source : String}
    (h : (({ settings, registry : Workshop }.compileTemplate source).run {}).2.report.errors.isEmpty =
      true) : ∃ t, (registry.compile settings source).result = .ok t := by
  rw [compile]
  revert h
  simp only
  generalize ({ settings, registry : Workshop }.compileTemplate source).run {} = outcome
  obtain ⟨plan, c⟩ := outcome
  intro h
  change c.report.errors.isEmpty = true at h
  simp only [h, if_true]
  exact ⟨_, rfl⟩

/-- The partials whose sources a compile call compiles, according to its journal. -/
def compiledPartials (registry : Registry) (settings : Settings) (source : String) : List String :=
  (registry.compile settings source).events.filterMap Event.partial?

theorem compiledPartials_eq (registry : Registry) (settings : Settings) (source : String) :
    registry.compiledPartials settings source =
      (({ settings, registry : Workshop }.compileTemplate source).run {}).2.report.compiled.reverse := by
  rw [compiledPartials, compile]
  simp only
  generalize ({ settings, registry : Workshop }.compileTemplate source).run {} = outcome
  obtain ⟨plan, c⟩ := outcome
  cases errors : c.report.errors with
  | nil => simp [errors, Report.compiled, Event.partial?, List.filterMap_reverse]
  | cons d errors' => simp [errors, Report.compiled, Event.partial?, List.filterMap_reverse]

end Registry

end Stencil
