import Stencil.Proofs.Compile.Findings
import Stencil.Proofs.Render.Strictness

/-!
Strict mode only rejects.

Compiling does not ask whether rendering will be strict, so both templates have the same plans. What
these interpolate was read off tags of the source or of the partials that are compiled with it. A
strict render differs from one that is not strict by a complaint about one of these paths.
-/

namespace Stencil

open Markup

/-! ### Compiling does not ask for strictness -/

namespace BuildContext

/-- The same builder with another strictness. -/
def withStrict (strict : Bool) (ctx : BuildContext) : BuildContext :=
  { ctx with settings := { ctx.settings with strict } }

variable (ctx : BuildContext) (strict : Bool)

theorem closeScopes_withStrict (n : Nat) (d : Draft) :
    (ctx.withStrict strict).closeScopes n d = ctx.closeScopes n d := by
  induction n generalizing d with
  | zero => rfl
  | succ n ih =>
      rw [closeScopes, closeScopes]
      exact bind_congr ih

theorem addTag_withStrict (d : Draft) (tag : Tag) :
    (ctx.withStrict strict).addTag d tag = ctx.addTag d tag := by
  unfold addTag
  cases tag.kind with
  | closing => exact closeScopes_withStrict ctx strict _ d
  | _ => rfl

theorem addTokens_withStrict (d : Draft) (tokens : List Token) :
    (ctx.withStrict strict).addTokens d tokens = ctx.addTokens d tokens := by
  induction tokens generalizing d with
  | nil => rfl
  | cons token tokens ih =>
      cases token with
      | text s => exact ih _
      | tag tag =>
          rw [addTokens, addTokens, addTag_withStrict]
          exact bind_congr ih

theorem build_withStrict (tokens : List Token) :
    (ctx.withStrict strict).build tokens = ctx.build tokens := by
  simp only [build, addTokens_withStrict, closeScopes_withStrict]

end BuildContext

namespace Workshop

/-- The same workshop with another strictness. -/
def withStrict (strict : Bool) (w : Workshop) : Workshop :=
  { w with settings := { w.settings with strict } }

variable (w : Workshop) (strict : Bool)

/-- By induction on the partials that may be entered. -/
theorem compileSource_withStrict (entered : List String) (available : Table String)
    (source : String) : (w.withStrict strict).compileSource entered available source =
      w.compileSource entered available source := by
  revert source
  refine source_induction (motive := fun entered available => ∀ source,
    (w.withStrict strict).compileSource entered available source =
      w.compileSource entered available source) ?_ entered available
  clear entered available
  intro entered available ih source
  have inner (name : String) :
      (w.withStrict strict).inner entered available name = w.inner entered available name := by
    rw [Workshop.inner, Workshop.inner]
    cases found : Table.get? available name with
    | none => rfl
    | some source => rw [Option.map_some, Option.map_some, ih name source found source]
  have builders : (w.withStrict strict).builder entered available =
      (w.builder entered available).withStrict strict := by
    simp only [builder, inner]
    rfl
  have alike : ReadAlike (w.withStrict strict).settings w.settings := ⟨rfl, rfl, rfl⟩
  rw [compileSource_eq, compileSource_eq, builders, alike.readTemplate_eq]
  exact bind_congr fun tokens => BuildContext.build_withStrict _ strict tokens

theorem compileNamed_withStrict (name : String) :
    (w.withStrict strict).compileNamed name = w.compileNamed name :=
  congrArg (Option.map · _) (funext (compileSource_withStrict w strict _ _))

theorem tabulateAll_withStrict (names : List String) :
    (w.withStrict strict).tabulateAll names = w.tabulateAll names := by
  induction names with
  | nil => rfl
  | cons name names ih =>
      simp only [tabulateAll, compileNamed_withStrict, ih]
      rfl

theorem compileTemplate_withStrict (source : String) :
    (w.withStrict strict).compileTemplate source = w.compileTemplate source := by
  simp only [compileTemplate, compileSource_withStrict, tabulateAll_withStrict]
  rfl

end Workshop

namespace Registry

variable (registry : Registry) (settings : Settings) (source : String)

theorem compile_withStrict (strict : Bool) :
    (registry.compile { settings with strict } source).result =
      (registry.compile settings source).result.map (Template.withStrict strict) := by
  rw [compile_result, compile_result]
  have same := Workshop.compileTemplate_withStrict { settings, registry } strict source
  rw [Workshop.withStrict] at same
  simp only [same]
  split <;> rfl

end Registry

/-! ### Where interpolated paths come from -/

/-- The tag interpolates a path: it is not the name of a helper, and nothing is called with
arguments. -/
structure Markup.Tag.Interpolates (isHelper : String → Bool) (tag : Tag) (p : Path) : Prop where
  kind : ∃ raw, tag.kind = .interpolation raw
  path : Path.parse tag.content.head.toList tag.site = .ok p
  noHelper : isHelper tag.content.head = false
  params : tag.content.params = []
  hash : tag.content.hash = []

namespace Registry

variable (registry : Registry) (settings : Settings)

/-- A tag of the text interpolates the path. -/
def Interpolates (text : String) (p : Path) : Prop :=
  ∃ tag, .tag tag ∈ registry.tokensOf settings text ∧ tag.Interpolates registry.hasHelper p

/-- The text is the source of a template, or that of a partial that is compiled with it. -/
def CompiledWith (source text : String) : Prop :=
  text = source ∨ ∃ name ∈ registry.compiledPartials settings source,
    registry.partial? name = some text

end Registry

/-- The paths that the node interpolates are as `Q` says. -/
abbrev Node.AllInterpolated (Q : Path → Prop) (node : Node) : Prop :=
  ∀ p ∈ node.interpolated, Q p

variable {Q : Path → Prop}

theorem Plan.all_interpolated {plan : Plan} :
    Plan.All (Node.AllInterpolated Q) plan ↔ ∀ p ∈ Plan.interpolated plan, Q p := by
  constructor
  · intro all p inside
    obtain ⟨node, member, inside⟩ := Plan.mem_interpolated.mp inside
    exact all node member p inside
  · intro all node member p inside
    exact all p (Plan.mem_interpolated.mpr ⟨node, member, inside⟩)

namespace Node

theorem literal_interpolated (text : String) : AllInterpolated Q (.literal text) := by
  rw [AllInterpolated, interpolated]
  exact nofun

theorem block_interpolated {kind : BlockKind} {body : Plan} {inverse : Option Plan}
    {params : List String} (hb : Plan.All (AllInterpolated Q) body)
    (hi : ∀ plan ∈ inverse, Plan.All (AllInterpolated Q) plan) :
    AllInterpolated Q (.block kind body inverse params) := by
  have hb := Plan.all_interpolated.mp hb
  cases inverse with
  | none =>
      rw [AllInterpolated, interpolated]
      exact hb
  | some inverse =>
      rw [AllInterpolated, interpolated]
      exact List.forall_mem_append.mpr ⟨hb, Plan.all_interpolated.mp (hi inverse rfl)⟩

theorem inclusion_interpolated {call : Inclusion} {target : Target} {block : Option Plan}
    (ht : ∀ p ∈ target.interpolated, Q p)
    (hb : ∀ plan ∈ block, Plan.All (AllInterpolated Q) plan) :
    AllInterpolated Q (.inclusion call target block) := by
  cases block with
  | none =>
      rw [AllInterpolated, interpolated]
      exact ht
  | some block =>
      rw [AllInterpolated, interpolated]
      exact List.forall_mem_append.mpr ⟨ht, Plan.all_interpolated.mp (hb block rfl)⟩

end Node

/-! ### Reading -/

theorem Path.read_finds (token : List Char) (site : Site) :
    Reading.Finds (Path.read token site) fun p => Path.parse token site = .ok p := by
  refine .bind (Preserves.pure fun p parsed => parsed) fun p =>
    .bind (.steady (.count _)) fun _ => .pure fun _ parsed => parsed

/-- A word that is read as a path is one by itself. -/
theorem Expr.read_interpolated (isHelper : String → Bool) (site : Site) (token : List Char) :
    Reading.Finds (Expr.read isHelper site token) fun e =>
      ∀ p ∈ e.interpolated, Path.parse token site = .ok p := by
  rw [Expr.read]
  split
  · exact .pure (List.forall_mem_nil _)
  · split
    · refine .bind (Path.read_finds token site) fun p => .pure fun parsed => ?_
      exact List.forall_mem_singleton.mpr parsed
    · split
      · exact .throw _
      · exact .throw _
      · exact .bind (.steady (Expr.readArguments_steady _ _ _ _)) fun arguments =>
          .bind (.steady (.count _)) fun _ =>
            .bind (.steady (Expr.callee_steady _ _ _ _)) fun callee =>
              .pure fun _ _ _ => List.forall_mem_nil _

/-! ### Building -/

namespace BuildContext

open Compiling (Maintains)

variable {ctx : BuildContext} {tidy : String → Prop} {P : Node → Prop}

theorem headExpr_interpolated (tag : Tag) :
    Maintains tidy P (ctx.headExpr tag) fun e =>
      ∀ p ∈ e.interpolated, Path.parse tag.content.head.toList tag.site = .ok p :=
  Maintains.readOr (Expr.read_interpolated _ tag.site _) (Expr.read_steady _ _ _) _

/-- A tag that calls nothing is not the name of a helper and has no arguments. -/
theorem callee?_none (tag : Tag) :
    Maintains tidy P (ctx.callee? tag) fun found => found = none →
      ctx.isHelper tag.content.head = false ∧ tag.content.params = [] ∧ tag.content.hash = [] := by
  have calls (callee : Callee × HelperStyle) (silent : some callee = none) :
      ctx.isHelper tag.content.head = false ∧ tag.content.params = [] ∧ tag.content.hash = [] :=
    absurd silent (Option.some_ne_none callee)
  unfold callee?
  split
  · exact .pure (calls _)
  · next unknown =>
    split
    · next bare =>
      rw [Bool.and_eq_true, List.isEmpty_iff, List.isEmpty_iff] at bare
      refine .pure fun _ => ⟨?_, bare⟩
      rw [isHelper, unknown]
      rfl
    · split
      · exact .bind (Maintains.addError _) fun _ =>
          .bind (Maintains.steadily (headPath_steady tag)) fun _ => .pure fun _ _ => calls _
      · exact .bind (Maintains.steadily (headPath_steady tag)) fun _ => .pure fun _ => calls _

/-- All that the nodes of a builder interpolate are paths that its tags interpolate. -/
theorem upkeep_interpolated (ctx : BuildContext) {T : Tag → Prop}
    (known : ∀ tag p, T tag → tag.Interpolates ctx.isHelper p → Q p) :
    ctx.Upkeep tidy (Node.AllInterpolated Q) T where
  joined _ _ _ _ := Node.literal_interpolated _
  inlineDef name plan all := by
    rw [Node.AllInterpolated, Node.interpolated]
    exact Plan.all_interpolated.mp all
  interpolation tag raw kind := by
    refine interpolation_made ctx ((callee?_none tag).weaken fun found bare => ⟨?_, bare⟩)
      ((headExpr_interpolated tag).weaken fun e read bare ht encoding => ?_) raw
    · intro callee style _ _ encoding
      rw [Node.AllInterpolated, Node.interpolated]
      exact nofun
    · rw [Node.AllInterpolated, Node.interpolated]
      obtain ⟨noHelper, params, hash⟩ := bare
      exact fun p inside => known tag p ht ⟨⟨raw, kind⟩, read p inside, noHelper, params, hash⟩
  block tag _ body inverse inverted :=
    (block_closed ctx (fun _ _ _ _ => Node.block_interpolated) tag body inverse inverted).weaken
      fun _ closed _ => closed
  rawBlock tag body _ :=
    (rawBlock_closed ctx (fun _ _ _ _ => Node.block_interpolated) Node.literal_interpolated tag
      body).weaken fun _ closed _ => closed
  inclusion tag name kind ht shown target block fits hb := by
    refine Node.inclusion_interpolated ?_ hb
    cases target with
    | embedded plan =>
        rw [Target.interpolated]
        exact Plan.all_interpolated.mp fits
    | _ =>
        rw [Target.interpolated]
        exact nofun

end BuildContext

namespace Workshop

variable (w : Workshop) {good : String → Prop} {P : Node → Prop}

/-- The tag stands in a good source. -/
def Tags (good : String → Prop) (tag : Tag) : Prop :=
  ∃ text, good text ∧ .tag tag ∈ w.registry.tokensOf w.settings text

/-- A workshop reads the tags of good sources. -/
theorem upkeep_of_tags (literals : ∀ s, P (.literal s))
    (builds : ∀ entered available,
      (w.builder entered available).Upkeep (w.GoodPartial good) P (w.Tags good)) :
    w.Upkeep good P (w.Tags good) where
  reads source := by
    refine .steady (.reporting (readTemplate_steady _ _ _)) fun c here token member => ?_
    obtain ⟨r, -, -, -, run⟩ := readTemplate_run w source c
    rw [run] at member
    cases token with
    | text s => exact literals s
    | tag tag => exact ⟨source, here, member⟩
  builds := builds

/-- What the plans of a workshop interpolate, tags of good sources interpolate. -/
theorem upkeep_interpolated :
    w.Upkeep good
      (Node.AllInterpolated fun p => ∃ text, good text ∧ w.registry.Interpolates w.settings text p)
      (w.Tags good) := by
  refine w.upkeep_of_tags Node.literal_interpolated fun entered available => ?_
  refine (w.builder entered available).upkeep_interpolated ?_
  rintro tag p ⟨text, here, member⟩ interpolates
  exact ⟨text, here, tag, member, interpolates⟩

end Workshop

namespace Registry

variable {registry : Registry} {settings : Settings} {source : String} {t : Template}

/-- What is kept up from the sources that a template is compiled with, its plans are. -/
theorem compile_keeps {P : Node → Prop} {T : Tag → Prop}
    (upkeep : ({ settings, registry } : Workshop).Upkeep (registry.CompiledWith settings source)
      P T)
    (compiled : (registry.compile settings source).result = .ok t) :
    Plan.All P t.plan ∧ Table.All (Plan.All P) t.partials := by
  obtain ⟨clean, plan, table, -⟩ := of_compile compiled
  rw [plan, table]
  refine Workshop.compileTemplate_keeps upkeep (.inl rfl) clean fun name member text here => ?_
  rw [← List.mem_reverse, ← compiledPartials_eq] at member
  exact .inr ⟨name, member, here⟩

/-- The paths that a template interpolates stand in its source, or in that of a partial that is
compiled with it. -/
theorem compile_interpolated (compiled : (registry.compile settings source).result = .ok t)
    {p : Path} (inside : p ∈ t.interpolated) :
    ∃ text, registry.CompiledWith settings source text ∧ registry.Interpolates settings text p := by
  obtain ⟨root, kept⟩ := compile_keeps (Workshop.upkeep_interpolated _) compiled
  rcases List.mem_append.mp inside with inside | inside
  · exact Plan.all_interpolated.mp root p inside
  · obtain ⟨e, member, inside⟩ := List.mem_flatMap.mp inside
    exact Plan.all_interpolated.mp (kept e member) p inside

/-! ### Strict renders -/

/-- A template that is compiled to be strict, or not to be, is that of the other settings but for
its strictness. -/
theorem of_compile_withStrict {strict : Bool}
    (compiled : (registry.compile { settings with strict } source).result = .ok t) :
    ∃ base, (registry.compile settings source).result = .ok base ∧ t = base.withStrict strict := by
  rw [compile_withStrict] at compiled
  cases result : (registry.compile settings source).result with
  | ok base =>
      rw [result] at compiled
      cases compiled
      exact ⟨base, rfl, rfl⟩
  | error errors =>
      rw [result] at compiled
      cases compiled

/-- Strict mode only rejects. With builtin helpers, and data and seed without functions, what a
strict template renders, the same template renders when it is not strict. Where only the one that is
not strict renders, the other is compiled, and fails for want of a variable: a path that a tag
interpolates, in the source or in a partial that is compiled with it. -/
theorem strict_only_rejects (registry : Registry) (settings : Settings) (source : String)
    (input : Input) (builtin : registry.OnlyBuiltin) (data : input.data.isPassive = true)
    (seed : Table.All (fun v => v.isPassive = true) input.seed) :
    let strict := registry.compile { settings with strict := true } source
    let lax := registry.compile { settings with strict := false } source
    (∀ t text, strict.result = .ok t → (t.render input).result = .ok text →
      ∃ t', lax.result = .ok t' ∧ (t'.render input).result = .ok text) ∧
    (∀ t' text, lax.result = .ok t' → (t'.render input).result = .ok text →
      ∃ t, strict.result = .ok t ∧ ∀ e, (t.render input).result = .error e →
        ∃ p origin, e = .missingVariable p.source ∧
          registry.CompiledWith settings source origin ∧
            registry.Interpolates settings origin p) := by
  intro strict lax
  have compiles {base : Template} (compiled : (registry.compile settings source).result = .ok base)
      (b : Bool) : (registry.compile { settings with strict := b } source).result =
        .ok (base.withStrict b) := by
    rw [compile_withStrict, compiled]
    rfl
  have splits {base : Template}
      (compiled : (registry.compile settings source).result = .ok base) :
      (∃ p ∈ base.interpolated, ((base.withStrict true).render input).result =
          .error (.missingVariable p.source)) ∨
        (base.withStrict true).render input = (base.withStrict false).render input := by
    obtain ⟨-, -, -, helpers, blockHelpers, -⟩ := of_compile compiled
    exact Template.render_splits (helpers ▸ builtin.helpers)
      (blockHelpers.trans builtin.blockHelpers) data seed
  constructor
  · intro t text compiled rendered
    obtain ⟨base, plain, rfl⟩ := of_compile_withStrict compiled
    refine ⟨_, compiles plain false, ?_⟩
    obtain ⟨p, -, failed⟩ | same := splits plain
    · rw [rendered] at failed
      cases failed
    · rw [← same]
      exact rendered
  · intro t' text compiled rendered
    obtain ⟨base, plain, rfl⟩ := of_compile_withStrict compiled
    refine ⟨_, compiles plain true, fun e failed => ?_⟩
    obtain ⟨p, inside, missing⟩ | same := splits plain
    · rw [failed] at missing
      cases missing
      obtain ⟨origin, compiledWith, interpolates⟩ := compile_interpolated plain inside
      exact ⟨p, origin, rfl, compiledWith, interpolates⟩
    · rw [same, rendered] at failed
      cases failed

/-- Each row of a table is a partial with one cell. -/
def cells : Registry :=
  Registry.builtin.registerPartial "row" "\x7b\x7bcell\x7d\x7d;"

def cellTable : String :=
  "\x7b\x7b#each rows\x7d\x7d\x7b\x7b> row\x7d\x7d\x7b\x7b/each\x7d\x7d"

/-- A row without a cell is a failure of the partial, in strict mode only. -/
theorem cellTable_strict :
    let table (rows : List Value) : Input :=
      { data := .object [("rows", .array rows)], functions := fun _ _ => .done .null }
    let row : Value := .object [("cell", .string "A")]
    let strict := (cells.compile { strict := true } cellTable).result
    let lax := (cells.compile { strict := false } cellTable).result
    (∃ t, lax = .ok t ∧ (t.render (table [row])).result = .ok "A;") ∧
      ∃ t, strict = .ok t ∧
        (t.render (table [row, .object []])).result = .error (.missingVariable "cell") ∧
          ∃ p origin, RenderError.missingVariable "cell" = .missingVariable p.source ∧
            cells.CompiledWith {} cellTable origin ∧ cells.Interpolates {} origin p := by
  intro table row strict lax
  have only : cells.OnlyBuiltin := ⟨fun _ member => member, rfl⟩
  have passive (rows : List Value) : Table.All (fun v => v.isPassive = true) (table rows).seed :=
    List.forall_mem_nil _
  have strictRuns : (strict.toOption.any fun t =>
      (t.render (table [row])).result.toOption == some "A;" &&
        decide ((t.render (table [row, .object []])).result =
          .error (.missingVariable "cell"))) = true := by
    decide +kernel
  have laxRuns : (lax.toOption.any fun t =>
      (t.render (table [row, .object []])).result.toOption == some "A;;") = true := by
    decide +kernel
  obtain ⟨t, compiled, outcomes⟩ := (Option.any_eq_true _ _).mp strictRuns
  obtain ⟨t', compiled', rendered'⟩ := (Option.any_eq_true _ _).mp laxRuns
  have compiled := eq_ok_of_toOption compiled
  have compiled' := eq_ok_of_toOption compiled'
  have rendered' := eq_ok_of_toOption (beq_iff_eq.mp rendered')
  obtain ⟨rendered, failed⟩ := Bool.and_eq_true_iff.mp outcomes
  have rendered := eq_ok_of_toOption (beq_iff_eq.mp rendered)
  have failed := of_decide_eq_true failed
  refine ⟨?_, t, compiled, failed, ?_⟩
  · exact (strict_only_rejects cells {} cellTable (table [row]) only (by decide +kernel)
      (passive [row])).1 t "A;" compiled rendered
  · obtain ⟨again, here, missing⟩ := (strict_only_rejects cells {} cellTable
      (table [row, .object []]) only (by decide +kernel)
      (passive [row, .object []])).2 t' "A;;" compiled' rendered'
    obtain rfl : t = again := Except.ok.inj (compiled.symm.trans here)
    exact missing _ failed

end Registry

end Stencil
