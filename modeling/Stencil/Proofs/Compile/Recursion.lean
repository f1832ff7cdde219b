import Stencil.Proofs.Compile.Levels
import Stencil.Proofs.Compile.References

/-!
Partials that include themselves.

When plans are copied in, compiling is a search through the graph of inclusions: the
open partials are the path that is explored, and the partials whose plan is finished are
not entered again. An inclusion of an open partial is reported, and is all that is. Here it
is shown that the report misses no cycle: as long as nothing is reported, the inclusions of
every finished partial come to an end.
-/

namespace Stencil

open Compiling Markup

/-- Nothing is reported about partials that include each other. -/
def Compilation.IsClean (c : Compilation) : Prop :=
  ∀ d ∈ c.report.errors, d.IsPlain

namespace Registry

variable (registry : Registry) (settings : Settings)

/-- No name is computed in a partial or in one that it leads to. -/
def Quiet (name : String) : Prop :=
  ∀ other text, Relation.ReflTransGen (registry.Includes settings) name other →
    registry.partial? other = some text → ¬registry.Computes settings text

/-- The inclusions of a partial come to an end, and computed names are noted. -/
structure Finished (dynamic : Bool) (name : String) : Prop where
  ends : Acc (fun other name => registry.Includes settings name other) name
  quiet : dynamic = false → registry.Quiet settings name

variable {registry settings}

/-- A partial is finished when those that it includes are. -/
theorem Finished.of_source {dynamic : Bool} {name text : String}
    (here : registry.partial? name = some text)
    (refers : ∀ other, registry.Refers settings text other →
      registry.Finished settings dynamic other)
    (computes : dynamic = false → ¬registry.Computes settings text) :
    registry.Finished settings dynamic name := by
  have inner {other : String} (step : registry.Includes settings name other) :
      registry.Finished settings dynamic other := by
    obtain ⟨text', here', step⟩ := step
    cases here.symm.trans here'
    exact refers other step
  refine ⟨.intro name fun other step => (inner step).ends,
    fun no_dynamic other text' path here' => ?_⟩
  rcases Relation.ReflTransGen.cases_head path with rfl | ⟨first, step, rest⟩
  · cases here.symm.trans here'
    exact computes no_dynamic
  · exact (inner step).quiet no_dynamic other text' rest here'

theorem Finished.of_kept {dynamic dynamic' : Bool} {name : String}
    (h : registry.Finished settings dynamic name) (kept : dynamic = true → dynamic' = true) :
    registry.Finished settings dynamic' name := by
  refine ⟨h.ends, ?_⟩
  rintro rfl
  cases dynamic with
  | true => cases kept rfl
  | false => exact h.quiet rfl

end Registry

namespace Workshop

variable (w : Workshop)

/-! ### The search -/

/-- No inline partial is known, and the partials with a plan are finished, unless a
recursion is reported here or where `outer` says so. -/
structure Orderly (outer : Prop) (c : Compilation) : Prop where
  bare : ∀ layer ∈ c.inlines, layer = []
  finished : outer → c.IsClean → ∀ name plan, Table.get? c.embedded name = some plan →
    w.registry.Finished w.settings c.hasDynamic name

/-- Every recursion that is reported between two states is one, among the partials that
are `reached`, and every computed name is in a source. -/
structure Explores (reached : String → Prop) (computed outer : Prop) (c c' : Compilation) :
    Prop where
  orderly : w.Orderly outer c'
  errors : ∃ new, c'.report.errors = c.report.errors ++ new ∧
    ∀ d ∈ new, ∀ chain, d.chain? = some chain →
      w.registry.IsCycle w.settings chain ∧ ∀ name ∈ chain, reached name
  kept : c.hasDynamic = true → c'.hasDynamic = true
  computed : c'.hasDynamic = true → c.hasDynamic = true ∨ computed

variable {w} {reached : String → Prop} {computed outer : Prop} {c c' c'' : Compilation}

theorem Explores.clean (h : w.Explores reached computed outer c c') (clean : c'.IsClean) :
    c.IsClean := by
  obtain ⟨new, written, -⟩ := h.errors
  exact fun d member => clean d (written ▸ List.mem_append_left new member)

theorem Orderly.explores (h : w.Orderly outer c) : w.Explores reached computed outer c c :=
  ⟨h, ⟨[], (List.append_nil _).symm, nofun⟩, id, .inl⟩

theorem Explores.trans (h : w.Explores reached computed outer c c')
    (h' : w.Explores reached computed outer c' c'') :
    w.Explores reached computed outer c c'' := by
  obtain ⟨new, written, cycles⟩ := h.errors
  obtain ⟨new', written', cycles'⟩ := h'.errors
  refine ⟨h'.orderly, ⟨new ++ new', ?_, List.forall_mem_append.mpr ⟨cycles, cycles'⟩⟩,
    h'.kept ∘ h.kept, fun dynamic => ?_⟩
  · rw [written', written, List.append_assoc]
  · exact (h'.computed dynamic).elim h.computed .inr

/-- Errors are added; what is known of the plans stays. -/
theorem Orderly.explores_report (h : w.Orderly outer c) {r : Report} {new : List Diagnostic}
    (written : r.errors = c.report.errors ++ new)
    (cycles : ∀ d ∈ new, ∀ chain, d.chain? = some chain →
      w.registry.IsCycle w.settings chain ∧ ∀ name ∈ chain, reached name) :
    w.Explores reached computed outer c { c with report := r } := by
  refine ⟨⟨h.bare, fun sound clean => h.finished sound fun d member => ?_⟩, ⟨new, written, cycles⟩,
    id, .inl⟩
  exact clean d (written.symm ▸ List.mem_append_left new member)

theorem Orderly.explores_layers (h : w.Orderly outer c) {layers : List (List String)}
    (bare : ∀ layer ∈ layers, layer = []) :
    w.Explores reached computed outer c { c with inlines := layers } :=
  ⟨⟨bare, h.finished⟩, ⟨[], (List.append_nil _).symm, nofun⟩, id, .inl⟩

variable (w) in
/-- The passage of a search. -/
def exploring (reached : String → Prop) (computed outer : Prop) : Passage where
  leads c c' := w.Orderly outer c → w.Explores reached computed outer c c'
  refl _ h := h.explores
  trans h h' orderly := (h orderly).trans (h' (h orderly).orderly)
  report c _ _ written plain orderly := by
    refine orderly.explores_report written fun d member chain complaint => ?_
    rw [plain d member] at complaint
    cases complaint
  push _ h := h.explores_layers (List.forall_mem_cons.mpr ⟨rfl, h.bare⟩)
  pop _ h := h.explores_layers fun layer member => h.bare layer (List.mem_of_mem_tail member)

theorem Orderly.explores_dynamic (h : w.Orderly outer c) (here : computed) :
    w.Explores reached computed outer c { c with hasDynamic := true } := by
  refine ⟨⟨h.bare, fun sound clean name plan known => ?_⟩, ⟨[], (List.append_nil _).symm, nofun⟩,
    fun _ => rfl, fun _ => .inr here⟩
  exact (h.finished sound clean name plan known).of_kept fun _ => rfl

theorem Explores.weaken {reached' : String → Prop} (h : w.Explores reached computed outer c c')
    (imp : ∀ name, reached name → reached' name) : w.Explores reached' computed outer c c' := by
  obtain ⟨new, written, cycles⟩ := h.errors
  refine ⟨h.orderly, ⟨new, written, fun d member chain complaint => ?_⟩, h.kept, h.computed⟩
  obtain ⟨cycle, inside⟩ := cycles d member chain complaint
  exact ⟨cycle, fun name member => imp name (inside name member)⟩

/-! ### Entering partials -/

/-- The partials that are open, innermost first: each is included by the next. -/
structure Route (w : Workshop) (reached : String → Prop) (entered : List String) : Prop where
  path : entered.IsChain fun inner outer => w.registry.Includes w.settings outer inner
  reached : ∀ name ∈ entered, reached name

/-- A partial that may be included where the partials `entered` are open. -/
structure Next (w : Workshop) (reached : String → Prop) (entered : List String) (name : String) :
    Prop where
  reached : reached name
  includes : ∀ innermost ∈ entered.head?, w.registry.Includes w.settings innermost name

theorem Route.enter {entered : List String} {name : String} (h : w.Route reached entered)
    (next : w.Next reached entered name) : w.Route reached (name :: entered) :=
  ⟨List.isChain_cons.mpr ⟨next.includes, h.path⟩,
    List.forall_mem_cons.mpr ⟨next.reached, h.reached⟩⟩

/-- The computation explores the graph. If it reports no recursion, it finishes the partials
`names`, and `quiet` holds if it meets no computed name. -/
def Searches (w : Workshop) (reached : String → Prop) (computed : Prop) (names : String → Prop)
    (quiet : Prop) {α : Type} (x : Compiling α) : Prop :=
  ∀ outer c, w.Orderly outer c → w.Explores reached computed outer c (x.run c).2 ∧
    (outer → (x.run c).2.IsClean →
      (∀ name, names name → w.registry.Finished w.settings (x.run c).2.hasDynamic name) ∧
        ((x.run c).2.hasDynamic = false → quiet))

/-- Compiling a source finishes what the source includes. -/
def SourceSearches (w : Workshop) (reached : String → Prop) (computed : Prop)
    (entered : List String) (available : Table String) (source : String) : Prop :=
  w.Searches reached computed (w.registry.Refers w.settings source)
    (¬w.registry.Computes w.settings source) (w.compileSource entered available source)

theorem chain?_inPartial {name : String} {errors : List Diagnostic} {p : List String → Prop}
    (h : ∀ d ∈ errors, ∀ chain, d.chain? = some chain → p chain) :
    ∀ d ∈ errors.map (Diagnostic.inPartial name), ∀ chain, d.chain? = some chain → p chain := by
  intro d member chain complaint
  obtain ⟨d, inside, rfl⟩ := List.mem_map.mp member
  exact h d inside chain complaint

/-- The state in which the source of a partial is compiled. What is reported outside is not
seen there. -/
theorem Orderly.enter (h : w.Orderly outer c) (name : String) :
    w.Orderly (outer ∧ c.IsClean) (enterPartial name c) :=
  ⟨List.forall_mem_cons.mpr ⟨rfl, h.bare⟩, fun ⟨sound, clean⟩ _ => h.finished sound clean⟩

theorem isClean_leave {name : String} {plan : Plan} :
    (embedding name (plan, leavePartial name c.report.errors c')).IsClean ↔
      c.IsClean ∧ c'.IsClean := by
  have inside :
      (∀ d ∈ c'.report.errors.map (Diagnostic.inPartial name), d.IsPlain) ↔ c'.IsClean := by
    rw [List.forall_mem_map]
    exact Iff.rfl
  rw [Compilation.IsClean, embedding, leavePartial, List.forall_mem_append, inside]
  exact Iff.rfl

/-- Behind the source of a partial, its plan is noted. -/
theorem Explores.leave {name : String}
    (explores : w.Explores reached computed (outer ∧ c.IsClean) (enterPartial name c) c')
    (finished : outer → c.IsClean → c'.IsClean →
      w.registry.Finished w.settings c'.hasDynamic name) (plan : Plan) :
    w.Explores reached computed outer c
      (embedding name (plan, leavePartial name c.report.errors c')) := by
  obtain ⟨orderly, ⟨new, written, cycles⟩, kept, computed⟩ := explores
  rw [show (enterPartial name c).report.errors = [] from rfl, List.nil_append] at written
  refine ⟨⟨fun layer member => orderly.bare layer (List.mem_of_mem_tail member), ?_⟩,
    ⟨_, rfl, chain?_inPartial (written ▸ cycles)⟩, kept, computed⟩
  intro sound clean other plan' known
  obtain ⟨before, inside⟩ := isClean_leave.mp clean
  rw [embedding, Table.get?_insert] at known
  split at known
  · next same => exact same ▸ finished sound before inside
  · exact orderly.finished ⟨sound, before⟩ inside other plan' known

section

variable {entered : List String} {available : Table String} {name : String}

/-- A partial that may be included is searched, or it is open and that is reported. -/
theorem embed_searches (given : w.Available entered available) (route : w.Route reached entered)
    (next : w.Next reached entered name) (registered : (w.registry.partial? name).isSome = true)
    (ih : name ∉ entered → ∀ text, w.registry.partial? name = some text →
      w.SourceSearches reached computed (name :: entered) (Table.erase available name) text) :
    w.Searches reached computed (· = name) True
      (embed entered name (w.inner entered available name)) := by
  intro outer c orderly
  by_cases member : name ∈ entered
  -- Open: the names down to the one met again close a cycle.
  · rw [embed_run_open entered name member]
    refine ⟨orderly.explores_report rfl ?_, fun _ clean => ?_⟩
    · rintro d here chain complaint
      cases List.mem_singleton.mp here
      cases complaint
      exact ⟨isCycle_reported member route.path next.includes,
        fun other inside => route.reached other (mem_reported member inside)⟩
    · have plain := clean (recursion entered name) (List.mem_append_right _ (.head _))
      cases plain
  cases known : Table.get? c.embedded name with
  | some plan =>
      -- Not searched again: what is noted without a complaint was finished then.
      rw [embed_run_known entered name member _ known]
      refine ⟨orderly.explores, fun sound clean => ⟨?_, fun _ => trivial⟩⟩
      rintro _ rfl
      exact orderly.finished sound clean _ plan known
  | none =>
      obtain ⟨text, here⟩ := Option.isSome_iff_exists.mp registered
      have action : w.inner entered available name =
          some (w.compileSource (name :: entered) (Table.erase available name) text) := by
        rw [given.inner_eq member, here, Option.map_some]
      let inside := (w.compileSource (name :: entered) (Table.erase available name) text).run
        (enterPartial name c)
      have run : ((embed entered name (w.inner entered available name)).run c).2 =
          embedding name (inside.1, leavePartial name c.report.errors inside.2) := by
        rw [action, embed_run_new entered name member _ known]
        rfl
      rw [run]
      obtain ⟨explores, searched⟩ := ih member text here (outer ∧ c.IsClean) (enterPartial name c)
        (orderly.enter name)
      have finished (sound : outer) (before : c.IsClean) (clean : inside.2.IsClean) :
          w.registry.Finished w.settings inside.2.hasDynamic name := by
        obtain ⟨refers, quiet⟩ := searched ⟨sound, before⟩ clean
        exact .of_source here refers quiet
      refine ⟨Explores.leave explores finished inside.1, fun sound clean =>
        ⟨?_, fun _ => trivial⟩⟩
      rintro _ rfl
      obtain ⟨before, clean⟩ := isClean_leave.mp clean
      exact finished sound before clean

theorem resolve_searches (embeds : w.settings.runtimePartials = false)
    (given : w.Available entered available) (route : w.Route reached entered)
    (next : name ≠ "@partial-block" → (w.registry.partial? name).isSome = true →
      w.Next reached entered name)
    (ih : w.Next reached entered name → name ∉ entered → ∀ text,
      w.registry.partial? name = some text →
        w.SourceSearches reached computed (name :: entered) (Table.erase available name) text)
    (hasBlock : Bool) (site : Site) :
    w.Searches reached computed
      (fun other => other = name ∧ name ≠ "@partial-block" ∧
        (w.registry.partial? name).isSome = true) True
      (w.resolve entered name hasBlock site (w.inner entered available name)) := by
  intro outer c orderly
  have no_inline : c.inlines.any (·.contains name) = false := by
    rw [List.any_eq_false]
    intro layer member
    simp [orderly.bare layer member]
  rw [resolve_run]
  split
  · next block => exact ⟨orderly.explores, fun _ _ => ⟨fun _ ⟨_, other, _⟩ => absurd block other,
      fun _ => trivial⟩⟩
  next plain =>
  rw [if_neg (ne_true_of_eq_false no_inline), if_neg (ne_true_of_eq_false embeds)]
  split
  · next missing =>
    have none_named (c' : Compilation) : ∀ other, (other = name ∧ name ≠ "@partial-block" ∧
        (w.registry.partial? name).isSome = true) →
          w.registry.Finished w.settings c'.hasDynamic other := by
      rintro _ ⟨-, -, registered⟩
      rw [Option.isNone_iff_eq_none] at missing
      simp [missing] at registered
    split
    · exact ⟨orderly.explores, fun _ _ => ⟨none_named c, fun _ => trivial⟩⟩
    · refine ⟨orderly.explores_report rfl ?_, fun _ _ => ⟨none_named _, fun _ => trivial⟩⟩
      rintro d here chain complaint
      cases List.mem_singleton.mp here
      cases complaint
  · next found =>
    have registered : (w.registry.partial? name).isSome = true := by
      simpa [Option.isSome_iff_ne_none] using found
    obtain ⟨explores, searched⟩ :=
      embed_searches given route (next plain registered) registered (ih (next plain registered))
        outer c orderly
    refine ⟨explores, fun sound clean => ⟨?_, fun _ => trivial⟩⟩
    rintro _ ⟨rfl, -, -⟩
    exact (searched sound clean).1 _ rfl

end

/-! ### Sources -/

theorem readTemplate_run (w : Workshop) (source : String) (c : Compilation) :
    ∃ r errors, r.errors = c.report.errors ++ errors ∧ (∀ d ∈ errors, d.IsPlain) ∧
      (reporting (Markup.readTemplate w.settings w.registry.hasHelper source)).run c =
        (w.registry.tokensOf w.settings source, { c with report := r }) := by
  obtain ⟨tokens, errors, reads, plain⟩ := Markup.readTemplate_steady w.registry.hasHelper
    w.settings source
  refine ⟨_, errors, (reads c.report).2.1, plain, ?_⟩
  rw [Registry.tokensOf, (reads {}).1, ← (reads c.report).1]
  rfl

/-- The partials that are reached, and whether a name is computed in one of them. -/
structure Region (w : Workshop) (reached : String → Prop) (computed : Prop) : Prop where
  closed : ∀ name other, reached name → w.registry.Includes w.settings name other → reached other
  computed : ∀ name text, reached name → w.registry.partial? name = some text →
    w.registry.Computes w.settings text → computed

/-- Compiling a source searches the partials that it leads to, by induction on the partials
that it may enter. -/
theorem source_searches (embeds : w.settings.runtimePartials = false)
    (bare : ∀ name text, w.registry.partial? name = some text →
      w.registry.declared w.settings text = [])
    (region : w.Region reached computed) (entered : List String) (available : Table String) :
    w.Available entered available → w.Route reached entered → ∀ source,
      (∀ name, w.registry.Refers w.settings source name → w.Next reached entered name) →
      (w.registry.Computes w.settings source → computed) →
      w.registry.declared w.settings source = [] →
      w.SourceSearches reached computed entered available source := by
  refine source_induction (motive := fun entered available =>
    w.Available entered available → w.Route reached entered → ∀ source,
      (∀ name, w.registry.Refers w.settings source name → w.Next reached entered name) →
      (w.registry.Computes w.settings source → computed) →
      w.registry.declared w.settings source = [] →
      w.SourceSearches reached computed entered available source) ?_ entered available
  clear entered available
  intro entered available ih given route source refers computes none_declared outer c orderly
  obtain ⟨r, errors, written, plain, reads⟩ := readTemplate_run w source c
  let p := w.exploring reached computed outer
  let ctx := w.builder entered available
  let tokens := w.registry.tokensOf w.settings source
  have run : (w.compileSource entered available source).run c =
      (ctx.build tokens).run { c with report := r } := by
    rw [compileSource_eq, StateT.run_bind, reads]
    rfl
  rw [run]
  have first : w.Explores reached computed outer c { c with report := r } :=
    p.report c written plain orderly
  -- A partial that the source names is searched inside those that are open.
  have inside {name : String} (next : w.Next reached entered name) (outside : name ∉ entered)
      (text : String) (here : w.registry.partial? name = some text) :
      w.SourceSearches reached computed (name :: entered) (Table.erase available name) text := by
    refine ih name text ((given name outside).trans here) (given.enter name) (route.enter next) text
      (fun other step => ?_) (region.computed name text next.reached here) (bare name text here)
    have includes : w.registry.Includes w.settings name other := ⟨text, here, step⟩
    refine ⟨region.closed name other next.reached includes, ?_⟩
    rintro _ ⟨rfl⟩
    exact includes
  have resolves {tag : Tag} (here : .tag tag ∈ tokens) {name : String}
      (included : tag.included? = some (.static name)) (hasBlock : Bool) :=
    resolve_searches embeds given route
      (fun other registered => refers name ⟨other, registered, tag, here, included⟩) inside
      hasBlock tag.site
  have targets (tag : Tag) (name : PartialName) (hasBlock : Bool) (here : .tag tag ∈ tokens)
      (included : tag.included? = some name) : Passes p (ctx.target tag name hasBlock) := by
    intro c orderly
    cases name with
    | dynamic e => exact orderly.explores_dynamic (computes ⟨tag, e, here, included⟩)
    | static name => exact (resolves here included hasBlock outer c orderly).1
  have named (tag : Tag) (name : String) (here : .tag tag ∈ tokens) :
      tag.kind ≠ .inlineDef name := by
    intro kind
    have declared : name ∈ Registry.declared _ _ _ :=
      Registry.mem_declared here (by simp [pendingName, kind])
    rw [none_declared] at declared
    cases declared
  obtain ⟨leads, visits⟩ := BuildContext.build_visits targets named (fun _ here => here)
    { c with report := r }
  have explores := leads first.orderly
  refine ⟨first.trans explores, fun sound clean => ⟨?_, ?_⟩⟩
  · rintro name ⟨other, registered, tag, here, included⟩
    obtain ⟨hasBlock, c₁, before, after⟩ := visits tag _ here included
    have orderly₁ := (before first.orderly).orderly
    obtain ⟨explored, searched⟩ := resolves here included hasBlock outer c₁ orderly₁
    have rest := after explored.orderly
    exact ((searched sound (rest.clean clean)).1 name ⟨rfl, other, registered⟩).of_kept rest.kept
  · -- A computed name is noted where it is met, and nothing takes the note back.
    rintro no_dynamic ⟨tag, e, here, included⟩
    obtain ⟨hasBlock, c₁, before, after⟩ := visits tag _ here included
    have explored : w.Explores reached _ _ c₁ _ :=
      (before first.orderly).orderly.explores_dynamic (computes ⟨tag, e, here, included⟩)
    have noted := (after explored.orderly).kept rfl
    rw [no_dynamic] at noted
    cases noted

/-! ### Computed names -/

/-- The table is not looked at. -/
theorem Explores.tabulate (h : w.Explores reached computed outer c c') (table : Table Plan) :
    w.Explores reached computed outer c { c' with table } :=
  ⟨⟨h.orderly.bare, h.orderly.finished⟩, h.errors, h.kept, h.computed⟩

/-- Where a computed name is met, every registered partial is searched. -/
theorem copyInto_searches (embeds : w.settings.runtimePartials = false)
    (bare : ∀ name text, w.registry.partial? name = some text →
      w.registry.declared w.settings text = []) {name : String}
    (registered : (w.registry.partial? name).isSome = true) :
    w.Searches (fun name => (w.registry.partial? name).isSome = true) True (· = name) True
      (w.copyInto name) := by
  intro outer c orderly
  let reached (name : String) : Prop := (w.registry.partial? name).isSome = true
  have region : w.Region reached True :=
    ⟨fun _ _ _ ⟨_, _, _, registered, _⟩ => registered, fun _ _ _ _ _ => trivial⟩
  have next : w.Next reached [] name := ⟨registered, nofun⟩
  have route : w.Route reached [] := ⟨.nil, nofun⟩
  have given := Available.start w
  have inside (outside : name ∉ []) (text : String) (here : w.registry.partial? name = some text) :
      w.SourceSearches reached True [name] (Table.erase w.registry.partials name) text := by
    refine source_searches embeds bare region [name] _ (given.enter name) (route.enter next) text
      (fun other step => ⟨step.2.1, ?_⟩) (fun _ => trivial) (bare name text here)
    rintro _ ⟨rfl⟩
    exact ⟨text, here, step⟩
  obtain ⟨explores, searched⟩ :=
    embed_searches given route next registered inside outer c orderly
  rw [copyInto_run, compileNamed_eq]
  simp only
  split
  · exact ⟨explores.tabulate _, searched⟩
  · exact ⟨explores, searched⟩

theorem tabulateAll_searches (embeds : w.settings.runtimePartials = false)
    (bare : ∀ name text, w.registry.partial? name = some text →
      w.registry.declared w.settings text = []) {names : List String}
    (registered : ∀ name ∈ names, (w.registry.partial? name).isSome = true) :
    w.Searches (fun name => (w.registry.partial? name).isSome = true) True (· ∈ names) True
      (w.tabulateAll names) := by
  induction names with
  | nil => exact fun outer c orderly => ⟨orderly.explores, fun _ _ => ⟨nofun, fun _ => trivial⟩⟩
  | cons name names ih =>
      intro outer c orderly
      obtain ⟨here, others⟩ := List.forall_mem_cons.mp registered
      obtain ⟨first, searched⟩ := copyInto_searches embeds bare here outer c orderly
      obtain ⟨rest, searched'⟩ := ih others outer ((w.copyInto name).run c).2 first.orderly
      have run : ((w.tabulateAll (name :: names)).run c).2 =
          ((w.tabulateAll names).run ((w.copyInto name).run c).2).2 := by
        rw [tabulateAll_embedding name embeds]
        rfl
      rw [run]
      refine ⟨first.trans rest, fun sound clean =>
        ⟨List.forall_mem_cons.mpr ⟨?_, ?_⟩, fun _ => trivial⟩⟩
      · exact ((searched sound (rest.clean clean)).1 name rfl).of_kept rest.kept
      · exact (searched' sound clean).1

/-! ### Templates -/

/-- The state in which the source of a template is compiled. -/
def atSource (source : String) : Compilation :=
  { report := ({} : Report).addEvent (.compiling source.utf8ByteSize) }

theorem atSource_orderly (source : String) : w.Orderly True (atSource source) :=
  ⟨List.forall_mem_singleton.mpr rfl, nofun⟩

/-- Without inline partials, a template is searched for the partials that it leads to. -/
theorem template_searches (embeds : w.settings.runtimePartials = false) {source : String}
    (here : w.registry.declared w.settings source = [])
    (bare : ∀ name text, w.registry.partial? name = some text →
      w.registry.declared w.settings text = []) :
    w.SourceSearches (w.registry.Reaches w.settings source)
      (w.registry.ComputesWithin w.settings source) [] w.registry.partials source := by
  have region : w.Region (w.registry.Reaches w.settings source)
      (w.registry.ComputesWithin w.settings source) := by
    refine ⟨fun name other ⟨first, refers, path⟩ step => ⟨first, refers, path.tail step⟩, ?_⟩
    exact fun name text reached registered computes => .inr ⟨name, text, reached, registered, computes⟩
  exact source_searches embeds bare region [] _ (Available.start w) ⟨.nil, nofun⟩ source
    (fun name refers => ⟨⟨name, refers, .refl⟩, nofun⟩) .inl here

theorem finish_searches (w : Workshop) (embeds : w.settings.runtimePartials = false)
    (bare : ∀ name text, w.registry.partial? name = some text →
      w.registry.declared w.settings text = []) (dynamic : Bool) :
    w.Searches (fun name => dynamic = true ∧ (w.registry.partial? name).isSome = true) True
      (fun name => dynamic = true ∧ (w.registry.partial? name).isSome = true) True
      (w.finish dynamic) := by
  intro outer c orderly
  cases dynamic with
  | false => exact ⟨orderly.explores, fun _ _ => ⟨nofun, fun _ => trivial⟩⟩
  | true =>
      obtain ⟨explores, searched⟩ := tabulateAll_searches embeds bare
        (fun name => mem_partialNames_iff.mp) outer c orderly
      refine ⟨explores.weaken fun _ here => ⟨rfl, here⟩, fun sound clean => ⟨?_, fun _ => trivial⟩⟩
      rintro name ⟨-, here⟩
      exact (searched sound clean).1 name (mem_partialNames_iff.mpr here)

end Workshop

/-! ### Whole calls -/

namespace Registry

variable {registry : Registry} {settings : Settings}

theorem declared_of_inlineNames {source : String}
    (bare : registry.inlineNames settings source = []) :
    registry.declared settings source = [] ∧ ∀ name text, registry.partial? name = some text →
      registry.declared settings text = [] := by
  obtain ⟨here, -⟩ := List.append_eq_nil_iff.mp bare
  refine ⟨here, fun name text registered => List.eq_nil_iff_forall_not_mem.mpr fun other member => ?_⟩
  have named : other ∈ registry.inlineNames settings source := mem_inlineNames registered member
  rw [bare] at named
  cases named

/-- What a compile call complains about. -/
def complaints (registry : Registry) (settings : Settings) (source : String) : List Diagnostic :=
  match (registry.compile settings source).result with
  | .ok _ => []
  | .error errors => errors

theorem complaints_eq (source : String) : registry.complaints settings source =
    (({ settings, registry : Workshop }.compileTemplate source).run {}).2.report.errors := by
  rw [complaints, compile]
  simp only
  generalize ({ settings, registry : Workshop }.compileTemplate source).run {} = outcome
  obtain ⟨plan, c⟩ := outcome
  cases errors : c.report.errors with
  | nil => simp [errors]
  | cons d errors' => simp [errors]

theorem Finished.not_recursive {dynamic : Bool} {first name : String}
    (h : registry.Finished settings dynamic first)
    (path : Relation.ReflTransGen (registry.Includes settings) first name) :
    ¬registry.Recursive settings name :=
  not_recursive_of_acc (acc_of_reaches h.ends path)

/-- When plans are copied in and no inline partials are declared, compiling comes to an end
inside as many partials as there are, and it reports a recursion just when there is one:
among the partials that the template leads to or, if a name is computed there, among all.
Every chain that it reports is a cycle. -/
theorem recursion_reported_iff {source : String} (embeds : settings.runtimePartials = false)
    (bare : registry.inlineNames settings source = []) :
    let w : Workshop := { settings, registry }
    (∀ stuck, w.compileSource [] registry.partials source =
        w.sourceWithin stuck (registry.partials.length + 1) [] source ∧
      ∀ name, w.compileNamed name = (registry.partial? name).map
        (w.sourceWithin stuck registry.partials.length [name])) ∧
    ((∃ d ∈ registry.complaints settings source, ∃ chain, d.chain? = some chain) ↔
      (∃ name, registry.Reaches settings source name ∧ registry.Recursive settings name) ∨
        registry.ComputesWithin settings source ∧ ∃ first name,
          (registry.partial? first).isSome = true ∧
            Relation.ReflTransGen (registry.Includes settings) first name ∧
              registry.Recursive settings name) ∧
    ∀ d ∈ registry.complaints settings source, ∀ chain, d.chain? = some chain →
      registry.IsCycle settings chain := by
  intro w
  obtain ⟨here, bare⟩ := declared_of_inlineNames bare
  let c₁ := ((w.compileSource [] registry.partials source).run (Workshop.atSource source)).2
  let c₂ := ((w.finish c₁.hasDynamic).run c₁).2
  have run : registry.complaints settings source = c₂.report.errors := by
    rw [complaints_eq, Workshop.compileTemplate_run]
    rfl
  obtain ⟨explores, searched⟩ := Workshop.template_searches (w := w) embeds here bare True
    (Workshop.atSource source) (Workshop.atSource_orderly source)
  obtain ⟨explores', searched'⟩ := w.finish_searches embeds bare c₁.hasDynamic True c₁
    explores.orderly
  obtain ⟨new, written, cycles⟩ := explores.errors
  obtain ⟨new', written', cycles'⟩ := explores'.errors
  have errors : c₂.report.errors = new ++ new' := by
    rw [written', written]
    rfl
  rw [run]
  -- What is reported comes from the template or, where a name is computed, from the partials
  -- that are copied in afterwards.
  refine ⟨fun stuck => w.compile_within stuck source, ⟨?_, fun recursive => ?_⟩,
    fun d member chain complaint => ?_⟩
  · rintro ⟨d, member, chain, complaint⟩
    rw [errors, List.mem_append] at member
    rcases member with first | second
    · obtain ⟨cycle, reached⟩ := cycles d first chain complaint
      obtain ⟨name, inside, recursive⟩ := cycle.recursive
      exact .inl ⟨name, reached name inside, recursive⟩
    · obtain ⟨cycle, reached⟩ := cycles' d second chain complaint
      obtain ⟨name, inside, recursive⟩ := cycle.recursive
      obtain ⟨dynamic, registered⟩ := reached name inside
      exact .inr ⟨(explores.computed dynamic).resolve_left nofun, name, name, registered, .refl,
        recursive⟩
  -- Without a report both searches finish what they reach, and what is finished is on no cycle.
  · by_contra none_reported
    have clean : c₂.IsClean := by
      intro d member
      by_contra complaint
      obtain ⟨chain, complaint⟩ := Option.ne_none_iff_exists'.mp complaint
      exact none_reported ⟨d, member, chain, complaint⟩
    obtain ⟨finished, quiet⟩ := searched trivial (explores'.clean clean)
    rcases recursive with ⟨name, ⟨first, refers, path⟩, recursive⟩ |
      ⟨computes, first, name, registered, path, recursive⟩
    · exact (finished first refers).not_recursive path recursive
    · have dynamic : c₁.hasDynamic = true := by
        by_contra no_dynamic
        have no_dynamic := eq_false_of_ne_true no_dynamic
        rcases computes with source | ⟨other, text, ⟨first, refers, path⟩, here, computes⟩
        · exact quiet no_dynamic source
        · exact (finished first refers).quiet no_dynamic other text path here computes
      exact ((searched' trivial clean).1 first ⟨dynamic, registered⟩).not_recursive path recursive
  · rw [errors, List.mem_append] at member
    rcases member with first | second
    · exact (cycles d first chain complaint).1
    · exact (cycles' d second chain complaint).1

/-- Two partials that include each other. -/
def mirrors : Registry :=
  (builtin.registerPartial "left" "\x7b\x7b> right\x7d\x7d").registerPartial "right"
    "\x7b\x7b> left\x7d\x7d"

def mirror : String :=
  "\x7b\x7b> left\x7d\x7d"

theorem mirrors_recursive :
    mirrors.complaints {} mirror =
        [.inPartial "left" (.inPartial "right" (.recursivePartial ["left", "right", "left"]))] ∧
      mirrors.IsCycle {} ["left", "right", "left"] ∧
      ((∃ name, mirrors.Reaches {} mirror name ∧ mirrors.Recursive {} name) ∨
        mirrors.ComputesWithin {} mirror ∧ ∃ first name,
          (mirrors.partial? first).isSome = true ∧
            Relation.ReflTransGen (mirrors.Includes {}) first name ∧ mirrors.Recursive {} name) := by
  have complaints : mirrors.complaints {} mirror =
      [.inPartial "left" (.inPartial "right" (.recursivePartial ["left", "right", "left"]))] := by
    decide +kernel
  have bare : mirrors.inlineNames {} mirror = [] := by decide +kernel
  obtain ⟨-, reported, cycles⟩ := recursion_reported_iff (by rfl) bare
  have here := complaints.symm ▸ List.mem_singleton.mpr rfl
  exact ⟨complaints, cycles _ here _ rfl, reported.mp ⟨_, here, _, rfl⟩⟩

end Registry

end Stencil
