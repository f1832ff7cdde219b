import Stencil.Proofs.Compile.Sources
import Stencil.Proofs.Render.Unfolding

/-!
Copying partials in and finding them by name.

One compile call embeds the plans of partials, the other puts them into the
table that is searched when rendering. The calls run in lockstep: whenever
one has embedded the plan of a partial, the other has one under its name,
and the first unfolds the second. When no inline partial has the name of a
registered one, the two templates therefore render alike.
-/

namespace Stencil

open Compiling

namespace Directory

variable {dir : Directory}

theorem planUnfolds_of_match {layers : Layers} {p p' : Plan}
    (h : PlanMatch (fun _ => dir.NodeUnfolds) layers p p') : dir.PlanUnfolds p p' := by
  obtain ⟨layer, h⟩ := h
  exact planUnfolds_iff.mpr h.nodes

/-- Plans that embed partials against plans that name them, in a call that ends with
this directory. -/
def comparison (dir : Directory) : Comparison where
  left := .any
  right := openCourse []
  ok _ s' := Table.Within s'.table dir.table ∧ (s'.hasDynamic = true → dir.dynamic)
  back _ grows ok := ⟨grows.2.2.1.trans ok.1, fun h => ok.2 (grows.1 h)⟩
  declared name := ¬dir.registered name
  node _ := dir.NodeUnfolds
  target _ _ _ := dir.TargetUnfolds
  mono h := h
  literal _ text := .literal text
  literal_left h := by cases h; rfl
  literal_right h := by cases h; rfl
  lookup _ e encoding := .lookup e encoding
  helper _ call encoding := .helper call encoding
  block hbody hinverse := by
    cases hinverse with
    | none => exact .block _ _ (planUnfolds_of_match hbody)
    | some hinverse =>
        exact .blockElse _ _ (planUnfolds_of_match hbody) (planUnfolds_of_match hinverse)
  inclusion h := .inclusion _ h
  inclusionBlock hb h := .inclusionBlock _ h (planUnfolds_iff.mpr hb.nodes)
  inlineDef declared h := .inlineDef declared (planUnfolds_of_match h)
  dynamic ok _ h := .dynamic _ (ok.2 h)

/-- The stores of the two calls while some partials are open: what one has embedded, the
other has in its table, and neither has a plan of an open partial. -/
structure Stores (dir : Directory) (entered : List String) (s s' : Store) : Prop where
  dynamic : s.hasDynamic = s'.hasDynamic
  known : ∀ name, Option.Rel dir.PlanUnfolds (Table.get? s.embedded name) (Table.get? s'.table name)
  opened : ∀ name ∈ entered, Table.get? s.embedded name = none
  registered : ∀ name plan, Table.get? s'.table name = some plan → dir.registered name
  copied : Table.Within s.table s.embedded

/-- What one call has copied into its table is unfolded alike in the table of the other. -/
theorem Stores.of_copied {entered : List String} {s s' : Store} (h : dir.Stores entered s s')
    {name : String} {plan : Plan} (found : Table.get? s.table name = some plan) :
    ∃ plan', Table.get? s'.table name = some plan' ∧ dir.PlanUnfolds plan plan' := by
  have known := h.known name
  rw [h.copied name plan found] at known
  revert known
  generalize Table.get? s'.table name = plan'
  rintro (_ | _)
  rename_i plan' known
  exact ⟨plan', rfl, known⟩

/-- Where all partials are in the tables, what the two calls find unfolds alike. -/
theorem Stores.tables_unfold {entered : List String} {s s' : Store} (h : dir.Stores entered s s')
    (present : ∀ name, dir.registered name → (Table.get? s.table name).isSome = true)
    (name : String) :
    Option.Rel dir.PlanUnfolds (Table.get? s.table name) (Table.get? s'.table name) := by
  cases found : Table.get? s.table name with
  | some plan =>
      obtain ⟨plan', found', unfolds⟩ := h.of_copied found
      rw [found']
      exact .some unfolds
  | none =>
      cases found' : Table.get? s'.table name with
      | none => exact .none
      | some plan' =>
          have here := present name (h.registered name plan' found')
          rw [found] at here
          cases here

/-- Templates with the tables of two such stores are found alike in their scenes. -/
theorem Stores.scenes {entered : List String} {r r' : Store} (h : dir.Stores entered r r')
    {s s' : Scene} (similar : s.Similar s') (tables : s.template.partials = r.table)
    (tables' : s'.template.partials = r'.table) (listed : dir.table = r'.table)
    (present : dir.dynamic →
      ∀ name, dir.registered name → (Table.get? r.table name).isSome = true) :
    dir.Scenes s s' := by
  refine ⟨similar, tables'.trans listed.symm, ?registered, ?partials, ?dynamic⟩
  case registered =>
    rw [listed]
    exact h.registered
  case partials =>
    intro name other
    rw [tables]
    by_contra present
    obtain ⟨plan, found⟩ := Option.ne_none_iff_exists'.mp present
    obtain ⟨plan', found', -⟩ := h.of_copied found
    exact other (h.registered name plan' found')
  case dynamic =>
    intro met
    rw [tables, listed]
    exact h.tables_unfold (present met)

end Directory

namespace Workshop

variable {w w' : Workshop} {dir : Directory}

/-- Workshops that differ in where partials are found, and in nothing that is built. -/
structure Dispatching (dir : Directory) (w w' : Workshop) : Prop where
  registry : w.registry = w'.registry
  settings : w'.settings = { w.settings with runtimePartials := true }
  embeds : w.settings.runtimePartials = false
  registered : ∀ name, dir.registered name ↔ (w.registry.partial? name).isSome = true
  /-- The sources of partials declare no name of a registered partial. -/
  declared : ∀ name source, w.registry.partial? name = some source →
    ∀ inline ∈ w.registry.declared w.settings source, ¬dir.registered inline

/-- Compiling a source inside some partials comes to plans of which one unfolds the
other, and to a layer of its own above those that were known. -/
def SourceAgrees (dir : Directory) (w w' : Workshop) (entered : List String)
    (available : Table String) (source : String) : Prop :=
  ∀ layers, dir.comparison.Relates
    (dir.comparison.Together (dir.Stores entered) ([] :: layers))
    (w.compileSource entered available source) (w'.compileSource entered available source)
    fun p p' c c' => dir.PlanUnfolds p p' ∧
      ∃ layer, dir.comparison.Together (dir.Stores entered) (layer :: layers) c c'

variable {entered : List String} {available : Table String} {name : String} {layers : Layers}

/-- Entering the source of a partial for the first time. -/
theorem stores_enter {c c' : Compilation}
    (start : dir.comparison.Together (dir.Stores entered) layers c c')
    (new : Table.get? c.embedded name = none) :
    dir.comparison.Together (dir.Stores (name :: entered)) ([] :: layers) (enterPartial name c)
      (enterPartial name c') := by
  obtain ⟨left, right, declared, stores⟩ := start
  refine ⟨congrArg ([] :: ·) left, congrArg ([] :: ·) right, ?_, ?_⟩
  · intro layer member inline inside
    cases member with
    | head => cases inside
    | tail _ member => exact declared layer member inline inside
  · refine ⟨stores.dynamic, stores.known, ?_, stores.registered, stores.copied⟩
    intro other member
    cases member with
    | head => exact new
    | tail _ member => exact stores.opened other member

/-- Behind the source both calls have its plan. -/
theorem stores_leave {c c' : Compilation} {layer : List String} {plan plan' : Plan}
    {errors errors' : List Diagnostic} (registered : dir.registered name) (outside : name ∉ entered)
    (done : dir.comparison.Together (dir.Stores (name :: entered)) (layer :: layers) c c')
    (h : dir.PlanUnfolds plan plan') :
    dir.comparison.Together (dir.Stores entered) layers
      (embedding name (plan, leavePartial name errors c))
      (tabulating name (plan', leavePartial name errors' c')) := by
  obtain ⟨left, right, declared, stores⟩ := done
  refine ⟨congrArg List.tail left, congrArg List.tail right,
    fun layer member => declared layer (.tail _ member), ?_⟩
  have new : Table.get? c.embedded name = none := stores.opened name (.head _)
  refine ⟨stores.dynamic, ?_, ?_, ?_, ?_⟩
  · intro other
    change Option.Rel _ (Table.get? (Table.insert c.embedded name plan) other)
      (Table.get? (Table.insert c'.table name plan') other)
    rw [Table.get?_insert, Table.get?_insert]
    split
    · exact .some h
    · exact stores.known other
  · intro other member
    refine (Table.get?_insert _ _ _ _).trans ((if_neg ?_).trans (stores.opened other (.tail _ member)))
    rintro rfl
    exact outside member
  · intro other found' found
    change Table.get? (Table.insert c'.table name plan') other = some found' at found
    rw [Table.get?_insert] at found
    split at found
    · next same => rw [← same]; exact registered
    · exact stores.registered other found' found
  · exact stores.copied.trans (Table.Within.insert new _)

theorem guard_inside {c c' : Compilation} {plan plan' : Plan} {errors errors' : List Diagnostic}
    (guard : dir.comparison.Guard (embedding name (plan, leavePartial name errors c))
      (tabulating name (plan', leavePartial name errors' c')))
    (new : Table.get? c'.table name = none) : dir.comparison.Guard c c' := by
  obtain ⟨clean, clean', within, dynamic⟩ := guard
  refine ⟨leavePartial_errors clean, leavePartial_errors clean', ?_, dynamic⟩
  exact (Table.Within.insert new plan').trans within

/-- Where one call embeds a partial the other puts it into its table, unless both have
its plan already. -/
theorem embed_relates (both : Dispatching dir w w') (given : w.Available entered available)
    (registered : dir.registered name)
    (ih : name ∉ entered → ∀ source, w.registry.partial? name = some source →
      SourceAgrees dir w w' (name :: entered) (Table.erase available name) source) :
    dir.comparison.Relates (dir.comparison.Together (dir.Stores entered) layers)
      (embed entered name (w.inner entered available name))
      (tabulate entered name (w'.inner entered available name))
      fun plan? _ c c' => (∃ plan plan', plan? = some plan ∧
        Table.get? c.embedded name = some plan ∧ Table.get? c'.table name = some plan' ∧
          dir.PlanUnfolds plan plan') ∧
        dir.comparison.Together (dir.Stores entered) layers c c' := by
  intro c c' start guard
  by_cases member : name ∈ entered
  · -- Entering an open partial again is an error.
    rw [embed_run_open entered name member] at guard
    simp [Report.addError, Comparison.Guard] at guard
  have known := start.stores.known name
  change Option.Rel _ (Table.get? c.embedded name) (Table.get? c'.table name) at known
  cases found : Table.get? c.embedded name with
  | some plan =>
      cases found' : Table.get? c'.table name with
      | none => rw [found, found'] at known; cases known
      | some plan' =>
          rw [found, found'] at known
          obtain ⟨h⟩ := known
          rw [embed_run_known entered name member _ found,
            tabulate_run_known entered name _ (.inr (by rw [found']; rfl))]
          exact ⟨⟨plan, plan', rfl, found, found', h⟩, start⟩
  | none =>
      cases found' : Table.get? c'.table name with
      | some plan' => rw [found, found'] at known; cases known
      | none =>
          obtain ⟨source, here⟩ := Option.isSome_iff_exists.mp ((both.registered name).mp registered)
          have given' : w'.Available entered available := by
            intro other outside
            rw [given other outside, both.registry]
          have here' : w'.registry.partial? name = some source := by rw [← both.registry, here]
          have action : w.inner entered available name =
              some (w.compileSource (name :: entered) (Table.erase available name) source) := by
            rw [given.inner_eq member, here, Option.map_some]
          have action' : w'.inner entered available name =
              some (w'.compileSource (name :: entered) (Table.erase available name) source) := by
            rw [given'.inner_eq member, here', Option.map_some]
          rw [embed_run_new entered name member _ found, action,
            tabulate_run_new entered name member _ found', action'] at guard ⊢
          simp only [insidePartial_run] at guard ⊢
          -- The source leaves its own name alone, so the guard holds in it as well.
          have follows := w'.compileSource_follows (name :: entered) (Table.erase available name)
            source (enterPartial name c')
          have still := (follows.2.2.2.2 name (.head _)).2.trans found'
          have inside := ih member source here layers (enterPartial name c) (enterPartial name c')
            (stores_enter start found) (guard_inside guard still)
          obtain ⟨h, layer, done⟩ := inside
          refine ⟨⟨_, _, rfl, Table.get?_insert_self _ _ _, Table.get?_insert_self _ _ _, h⟩, ?_⟩
          exact stores_leave registered member done h

/-- Nothing is put into the table for a name without a source. -/
theorem tabulate_missing (given : w.Available entered available)
    (missing : w.registry.partial? name = none) (c : Compilation) :
    (tabulate entered name (w.inner entered available name)).run c = ((), c) := by
  by_cases known : name ∈ entered ∨ (Table.get? c.table name).isSome = true
  · exact tabulate_run_known entered name _ known
  · obtain ⟨outside, found⟩ := not_or.mp known
    rw [Option.not_isSome_iff_eq_none] at found
    rw [tabulate_run_new entered name outside _ found, given.inner_eq outside, missing]
    rfl

/-- The resolvers find targets of which one unfolds the other. -/
theorem resolve_relates (both : Dispatching dir w w') (given : w.Available entered available)
    (ih : ∀ name, name ∉ entered → ∀ source, w.registry.partial? name = some source →
      SourceAgrees dir w w' (name :: entered) (Table.erase available name) source)
    (layers : Layers) (name : String) (hasBlock : Bool) (site : Site) :
    dir.comparison.Relates (dir.comparison.Together (dir.Stores entered) layers)
      (w.resolve entered name hasBlock site (w.inner entered available name))
      (w'.resolve entered name hasBlock site (w'.inner entered available name))
      fun t t' c c' => Option.Rel dir.TargetUnfolds t t' ∧
        dir.comparison.Together (dir.Stores entered) layers c c' := by
  intro c c' start guard
  have run := resolve_run entered name w hasBlock site (w.inner entered available name) c
  have run' := resolve_run entered name w' hasBlock site (w'.inner entered available name) c'
  rw [start.left] at run
  rw [start.right, both.settings] at run'
  by_cases isBlock : name = "@partial-block"
  · rw [if_pos isBlock] at run run'
    rw [run, run']
    exact ⟨.some .partialBlock, start⟩
  rw [if_neg isBlock] at run run'
  by_cases inline : layers.any (·.contains name) = true
  · rw [if_pos inline] at run run'
    rw [run, run']
    obtain ⟨layer, member, inside⟩ := List.any_eq_true.mp inline
    exact ⟨.some (.named (start.declared layer member name (List.contains_iff_mem.mp inside))), start⟩
  rw [if_neg inline] at run run'
  rw [both.embeds, if_neg Bool.false_ne_true] at run
  rw [if_pos rfl] at run'
  cases here : w.registry.partial? name with
  | none =>
      have other : ¬dir.registered name := by
        rw [both.registered, here]
        exact Bool.false_ne_true
      have given' : w'.Available entered available := by
        intro other outside
        rw [given other outside, both.registry]
      rw [tabulate_missing given' (by rw [← both.registry, here])] at run'
      rw [here, if_pos Option.isNone_none] at run
      cases hasBlock with
      | true =>
          rw [if_pos rfl] at run
          rw [run, run']
          exact ⟨.some (.named other), start⟩
      | false =>
          -- A missing partial is an error.
          rw [if_neg Bool.false_ne_true] at run
          rw [run] at guard
          simp [Report.addError, Comparison.Guard] at guard
  | some source =>
      have registered : dir.registered name := by
        rw [both.registered, here]
        rfl
      rw [here, if_neg (by simp)] at run
      rw [run, run'] at guard ⊢
      obtain ⟨⟨plan, plan', result, _, found, h⟩, done⟩ :=
        embed_relates both given registered (ih name) c c' start guard
      have within : Table.get? dir.table name = some plan' := guard.2.2.1 name plan' found
      simp only [result]
      exact ⟨.some (.embedded registered within h), done⟩

/-- Every source is compiled alike, by induction on the partials that it may enter. -/
theorem sources_agree (both : Dispatching dir w w') (entered : List String)
    (available : Table String) (given : w.Available entered available) (source : String)
    (declared : ∀ inline ∈ w.registry.declared w.settings source, ¬dir.registered inline) :
    SourceAgrees dir w w' entered available source := by
  revert given source
  refine source_induction (motive := fun entered available => w.Available entered available →
    ∀ source, (∀ inline ∈ w.registry.declared w.settings source, ¬dir.registered inline) →
      SourceAgrees dir w w' entered available source) ?_ entered available
  intro entered available ih given source declared layers
  have builders : dir.comparison.Builders (dir.Stores entered) (w.builder entered available)
      (w'.builder entered available) := by
    constructor
    case style => simp only [builder, both.registry]
    case encoding => simp only [builder, both.settings]
    case knownHelpersOnly => simp only [builder, both.settings]
    case left =>
      exact fun name hasBlock site => (builder_follows entered name w available hasBlock site).any
    case right =>
      exact fun name hasBlock site => builder_follows entered name w' available hasBlock site
    case dynamic =>
      exact fun s t h => ⟨rfl, h.known, h.opened, h.registered, h.copied⟩
    case resolve =>
      refine resolve_relates both given fun name outside source here => ?_
      exact ih name source ((given name outside).trans here) (given.enter name) source
        (both.declared name source here)
  have reads : Markup.readTemplate w'.settings w'.registry.hasHelper source =
      Markup.readTemplate w.settings w.registry.hasHelper source := by
    rw [both.settings, ← both.registry]
    exact Markup.readTemplate_runtimePartials _ w.settings true source
  rw [compileSource_eq, compileSource_eq, reads]
  refine .reading_bind (Markup.readTemplate_steady _ _ _) fun tokens read => ?_
  refine .weaken (Comparison.build_relates builders ?_) ?_
  · intro tag member name pending
    rw [read] at member
    exact declared name (Registry.mem_declared member pending)
  · exact fun p p' c c' ⟨h, done⟩ => ⟨Directory.planUnfolds_of_match h, done⟩

/-! ### Computed names -/

/-- The stores after the partials `names` were looked after for computed names: both
tables have them. -/
structure Tabulated (dir : Directory) (names : List String) (s s' : Store) : Prop where
  stores : dir.Stores [] s s'
  present : ∀ name ∈ names, (Table.get? s.table name).isSome = true

/-- One name: the copy goes into the table on one side, and the plan on the other. -/
theorem copyInto_relates (both : Dispatching dir w w') (registered : dir.registered name)
    (done : List String) :
    dir.comparison.Relates (dir.comparison.Together (Tabulated dir done) layers)
      (w.copyInto name) (tabulate [] name (w'.compileNamed name))
      fun _ _ c c' => dir.comparison.Together (Tabulated dir (name :: done)) layers c c' := by
  have named : w'.compileNamed name = w'.inner [] w.registry.partials name := by
    rw [both.registry]
    rfl
  rw [named]
  rintro c c' ⟨left, right, declared, stores, present⟩ guard
  have step : dir.comparison.Relates (dir.comparison.Together (dir.Stores []) layers)
      (embed [] name (w.compileNamed name))
      (tabulate [] name (w'.inner [] w.registry.partials name)) _ :=
    embed_relates both (Available.start w) registered fun _ source here =>
      sources_agree both [name] _ ((Available.start w).enter name) source
        (both.declared name source here)
  have grows := embed_follows [] name (inner_follows [] name w w.registry.partials) c
  change c.report.errors <+: ((embed [] name (w.compileNamed name)).run c).2.report.errors ∧ _
    at grows
  rw [copyInto_run] at guard ⊢
  have middle : dir.comparison.Guard ((embed [] name (w.compileNamed name)).run c).2
      ((tabulate [] name (w'.inner [] w.registry.partials name)).run c').2 := by
    cases result : ((embed [] name (w.compileNamed name)).run c).1 with
    | some plan =>
        simp only [result] at guard
        exact guard
    | none =>
        simp only [result] at guard
        exact guard
  obtain ⟨⟨plan, plan', result, found, -⟩, after⟩ := step c c' ⟨left, right, declared, stores⟩ middle
  simp only [result]
  refine ⟨after.left, after.right, after.declared, ⟨?_, ?_⟩⟩
  · refine ⟨after.stores.dynamic, after.stores.known, after.stores.opened, after.stores.registered, ?_⟩
    intro other copy here
    change Table.get? (Table.insert _ name plan) other = some copy at here
    rw [Table.get?_insert] at here
    split at here
    · next same =>
      rw [← same, ← here]
      exact found
    · exact after.stores.copied other copy here
  · intro other member
    change (Table.get? (Table.insert _ name plan) other).isSome = true
    rw [Table.get?_insert]
    split
    · rfl
    · next different =>
      have earlier : other ∈ done := by
        rcases List.mem_cons.mp member with rfl | earlier
        · exact absurd rfl different
        · exact earlier
      obtain ⟨copy, here⟩ := Option.isSome_iff_exists.mp (present other earlier)
      exact Option.isSome_iff_exists.mpr ⟨copy, grows.2.2.2.1 other copy here⟩

theorem tabulateAll_relates (both : Dispatching dir w w') (names done : List String)
    (registered : ∀ name ∈ names, dir.registered name) :
    dir.comparison.Relates (dir.comparison.Together (Tabulated dir done) layers)
      (w.tabulateAll names) (w'.tabulateAll names)
      fun _ _ c c' => dir.comparison.Together (Tabulated dir (names.reverse ++ done)) layers c c' := by
  induction names generalizing done with
  | nil => exact .pure fun _ _ start => start
  | cons name names ih =>
      have dispatches : w'.settings.runtimePartials = true := by rw [both.settings]
      rw [tabulateAll_embedding name both.embeds, tabulateAll_dispatching name dispatches,
        List.reverse_cons, List.append_assoc]
      refine .bind (copyInto_relates both (registered name (.head _)) done)
        (fun _ => w.tabulateAll_follows names) (fun _ => tabulateAll_grows dispatches names)
          fun _ _ => ?_
      exact ih (name :: done) fun other member => registered other (.tail _ member)

/-- Two whole calls end with plans of which one unfolds the other. When a name is
computed somewhere, both have all partials in their tables. -/
theorem compileTemplate_agrees (both : Dispatching dir w w') (source : String)
    (declared : ∀ inline ∈ w.registry.declared w.settings source, ¬dir.registered inline)
    (guard : dir.comparison.Guard ((w.compileTemplate source).run {}).2
      ((w'.compileTemplate source).run {}).2) :
    let outcome := (w.compileTemplate source).run {}
    let outcome' := (w'.compileTemplate source).run {}
    dir.PlanUnfolds outcome.1 outcome'.1 ∧ dir.Stores [] outcome.2.store outcome'.2.store ∧
      (outcome'.2.hasDynamic = true → ∀ name, dir.registered name →
        (Table.get? outcome.2.table name).isSome = true) := by
  have dispatches : w'.settings.runtimePartials = true := by rw [both.settings]
  rw [compileTemplate_run, compileTemplate_run] at guard ⊢
  have first := sources_agree both [] w.registry.partials (Available.start w) source declared []
  rw [both.registry] at first
  let begun : Compilation :=
    { ({} : Compilation) with
      report := ({} : Report).addEvent (.compiling source.utf8ByteSize) }
  have start : dir.comparison.Together (dir.Stores []) [[]] begun begun := by
    refine ⟨rfl, rfl, ?_, rfl, fun _ => .none, nofun, nofun, .refl _⟩
    intro layer member name inside
    rw [List.mem_singleton.mp member] at inside
    cases inside
  have first := first begun begun start
  simp only at guard ⊢
  rw [both.registry] at guard ⊢
  change dir.comparison.Guard
    ((w.finish _).run ((w.compileSource [] w'.registry.partials source).run begun).2).2
    ((w'.finish _).run ((w'.compileSource [] w'.registry.partials source).run begun).2).2 at guard
  generalize (w.compileSource [] w'.registry.partials source).run begun = r at first guard ⊢
  generalize (w'.compileSource [] w'.registry.partials source).run begun = r' at first guard ⊢
  have middle : dir.comparison.Guard r.2 r'.2 :=
    Comparison.Guard.before (w.finish_follows _) (finish_grows dispatches _) guard
  obtain ⟨h, layer, done⟩ := first middle
  have same : r.2.hasDynamic = r'.2.hasDynamic := done.stores.dynamic
  rw [← same] at guard ⊢
  cases computed : r.2.hasDynamic with
  | false =>
      refine ⟨h, done.stores, fun met => ?_⟩
      change r'.2.hasDynamic = true at met
      rw [← same, computed] at met
      cases met
  | true =>
      rw [computed] at guard
      simp only [finish, ← both.registry] at guard ⊢
      have registered : ∀ name ∈ w.registry.partialNames, dir.registered name :=
        fun name member => (both.registered name).mpr (mem_partialNames_iff.mp member)
      have all := tabulateAll_relates both w.registry.partialNames [] registered r.2 r'.2
        ⟨done.left, done.right, done.declared, done.stores, nofun⟩ guard
      refine ⟨h, all.stores.stores, fun _ name here => ?_⟩
      refine all.stores.present name ?_
      rw [List.append_nil, List.mem_reverse]
      exact mem_partialNames_iff.mpr ((both.registered name).mp here)

end Workshop

/-- Copying partials in and finding them by name agree: a template that compiles both ways,
in which no inline partial has the name of a registered one, renders the same either
way, whatever the input. -/
theorem Registry.render_eq_of_runtimePartials {registry : Registry} {settings : Settings}
    {source : String} {t t' : Template}
    (apart : ∀ name ∈ registry.inlineNames settings source, registry.partial? name = none)
    (copied : (registry.compile { settings with runtimePartials := false } source).result = .ok t)
    (named : (registry.compile { settings with runtimePartials := true } source).result = .ok t')
    (input : Input) : (t.render input).result = (t'.render input).result := by
  obtain ⟨clean, plan, partials, helpers, blockHelpers, kept⟩ := of_compile copied
  obtain ⟨clean', plan', partials', helpers', blockHelpers', kept'⟩ := of_compile named
  let w : Workshop := { settings := { settings with runtimePartials := false }, registry }
  let w' : Workshop := { settings := { settings with runtimePartials := true }, registry }
  let dir : Directory :=
    { table := t'.partials
      registered := fun name => (registry.partial? name).isSome = true
      dynamic := ((w'.compileTemplate source).run {}).2.hasDynamic = true }
  have free : ∀ name ∈ registry.inlineNames settings source, ¬dir.registered name := by
    intro name member registered
    change (registry.partial? name).isSome = true at registered
    rw [apart name member] at registered
    cases registered
  have both : Workshop.Dispatching dir w w' := by
    refine ⟨rfl, rfl, rfl, fun _ => Iff.rfl, fun name text here inline declared => ?_⟩
    rw [declared_runtimePartials] at declared
    exact free inline (mem_inlineNames here declared)
  have declared : ∀ inline ∈ registry.declared w.settings source, ¬dir.registered inline := by
    intro inline declared
    rw [declared_runtimePartials] at declared
    exact free inline (List.mem_append_left _ declared)
  have guard : dir.comparison.Guard ((w.compileTemplate source).run {}).2
      ((w'.compileTemplate source).run {}).2 := by
    refine ⟨clean, clean', ?_, id⟩
    change Table.Within _ t'.partials
    rw [partials']
    exact .refl _
  obtain ⟨h, stores, present⟩ := Workshop.compileTemplate_agrees both source declared guard
  have depth : t.settings.maxPartialDepth = t'.settings.maxPartialDepth := by rw [kept, kept']
  let s : Scene := { template := t, root := input.data, functions := input.functions }
  let s' : Scene := { template := t', root := input.data, functions := input.functions }
  have similar : s.Similar s' :=
    ⟨rfl, rfl, helpers.trans helpers'.symm, blockHelpers.trans blockHelpers'.symm,
      by rw [kept, kept'], by rw [kept, kept'], by rw [kept, kept'], depth⟩
  have scenes : dir.Scenes s s' := stores.scenes similar partials partials' partials' present
  let machine : Machine := { env := { frames := [input.seed] }, context := input.data }
  have start : machine.Like dir.Unfolds machine := ⟨⟨rfl, rfl, rfl, .nil, .nil, rfl, rfl⟩, rfl⟩
  rw [← plan, ← plan'] at h
  have renders := Directory.renderPlan_unfolds scenes t.settings.maxPartialDepth h machine machine start
  change ((s.renderPlan t.settings.maxPartialDepth t.plan).run.run machine).1 =
    ((s'.renderPlan t'.settings.maxPartialDepth t'.plan).run.run machine).1
  rw [← depth]
  exact renders.result

/-- A registry with a partial that renders its block and includes another one. -/
def cards : Registry :=
  (Registry.builtin.registerPartial "card"
    "<\x7b\x7b> @partial-block\x7d\x7d>\x7b\x7b> name\x7d\x7d").registerPartial "name" "\x7b\x7bn\x7d\x7d"

/-- A block with an inline partial is handed to the card. -/
theorem cards_render_eq :
    let source := "\x7b\x7b#*inline \"row\"\x7d\x7dR\x7b\x7b/inline\x7d\x7d" ++
      "\x7b\x7b#> card\x7d\x7d\x7b\x7b> row\x7d\x7d\x7b\x7b/card\x7d\x7d"
    (∀ name ∈ cards.inlineNames {} source, cards.partial? name = none) ∧
      ∃ t t', (cards.compile { runtimePartials := false } source).result = .ok t ∧
        (cards.compile { runtimePartials := true } source).result = .ok t' ∧
          ∀ input, (t.render input).result = (t'.render input).result := by
  intro source
  have apart : ∀ name ∈ cards.inlineNames {} source, cards.partial? name = none := by
    decide +kernel
  obtain ⟨t, copied⟩ : ∃ t, (cards.compile { runtimePartials := false } source).result = .ok t :=
    Registry.compiles (by decide +kernel)
  obtain ⟨t', named⟩ : ∃ t, (cards.compile { runtimePartials := true } source).result = .ok t :=
    Registry.compiles (by decide +kernel)
  exact ⟨apart, t, t', copied, named, Registry.render_eq_of_runtimePartials apart copied named⟩

end Stencil
