import Stencil.Proofs.Compile.Afresh

/-!
When reuse is transparent.

A compile call that copies plans in and one that compiles every partial
afresh make the same template exactly when the source of each partial comes
to one plan at all its inclusions. A template of which this holds never
misses a partial that is included by a written name. Where inline partials
are known at one inclusion and not at another it need not hold.
-/

namespace Stencil

open Compiling

namespace Workshop

variable {w : Workshop}

/-! ### Whole calls -/

theorem tabulateAllAfresh_shown {plan : Plan} (names : List String) {c : Compilation}
    (h : Shown plan c.store) : Shown plan ((w.tabulateAllAfresh names).run c).2.store := by
  induction names generalizing c with
  | nil => exact h
  | cons name names ih => exact ih (tabulateAfresh_shown name h)

theorem tabulateAll_noted (embeds : w.settings.runtimePartials = false) {plan : Plan}
    (names : List String) {c : Compilation} (h : Noted plan c.store) :
    Noted plan ((w.tabulateAll names).run c).2.store := by
  induction names generalizing c with
  | nil => exact h
  | cons name names ih =>
      rw [tabulateAll_embedding name embeds]
      exact ih (copyInto_noted embeds name h)

/-- A call that compiles afresh shows all its copies. -/
theorem templateAfresh_shown (w : Workshop) (source : String) :
    Shown ((w.templateAfresh source).run {}).1 ((w.templateAfresh source).run {}).2.store := by
  rw [templateAfresh_run]
  have accounts := sourceBy_accounts (renew_meets w) [] w.registry.partials source {} start_settled
  have read : Shown ((w.sourceBy renew [] w.registry.partials source).run {}).1
      ((w.sourceBy renew [] w.registry.partials source).run {}).2.store := by
    refine ⟨accounts.settled, fun name p member => ?_⟩
    rcases accounts.copies name p member with ⟨⟨⟩⟩ | inside
    exact .inl inside
  unfold finishAfresh
  simp only
  split
  · exact tabulateAllAfresh_shown _ read
  · exact read

theorem compileTemplate_run_embedding (embeds : w.settings.runtimePartials = false)
    (source : String) : (w.compileTemplate source).run {} =
      let result := (w.sourceBy embed [] w.registry.partials source).run
        { report := Report.addEvent (.compiling source.utf8ByteSize) {} }
      (result.1, ((w.finish result.2.hasDynamic).run result.2).2) := by
  rw [compileTemplate_run, compileSource_eq_sourceBy embeds]

/-- A call that reuses plans notes all that its template shows. -/
theorem compileTemplate_noted (embeds : w.settings.runtimePartials = false) (source : String) :
    Noted ((w.compileTemplate source).run {}).1 ((w.compileTemplate source).run {}).2.store := by
  rw [compileTemplate_run_embedding embeds]
  let c : Compilation := { report := Report.addEvent (.compiling source.utf8ByteSize) {} }
  have accounts := sourceBy_accounts (embed_meets embeds) [] w.registry.partials source c
    start_settled
  have follows : Copying.Follows keepsTable embed := embed_follows_of fun _ _ _ => rfl
  have table : ((w.sourceBy embed [] w.registry.partials source).run c).2.table = [] :=
    (sourceBy_follows follows w [] w.registry.partials source c).2
  have read : Noted ((w.sourceBy embed [] w.registry.partials source).run c).1
      ((w.sourceBy embed [] w.registry.partials source).run c).2.store := by
    refine ⟨accounts.settled, accounts.noted, fun e member => ?_⟩
    change e ∈ ((w.sourceBy embed [] w.registry.partials source).run c).2.table at member
    rw [table] at member
    cases member
  unfold finish
  simp only
  split
  · exact tabulateAll_noted embeds _ read
  · exact read

theorem embed_distinct : Copying.Follows distinct embed :=
  embed_follows_of fun _ name plan h => Table.nodup_keys_insert h name plan

theorem tabulateAll_distinct (embeds : w.settings.runtimePartials = false) (names : List String) :
    Follows distinct (w.tabulateAll names) := by
  induction names with
  | nil => exact .pure _
  | cons name names ih =>
      rw [tabulateAll_embedding name embeds]
      refine .bind ?_ fun _ => ih
      rw [copyInto, compileNamed_eq, inner_eq_innerBy _ _ embeds]
      refine .bind (innerBy_follows embed_distinct w [] w.registry.partials name) fun plan => ?_
      cases plan with
      | some plan => exact fun c => ⟨List.prefix_refl _, id⟩
      | none => exact .pure _

/-- A call that reuses plans has one for each name. -/
theorem compileTemplate_distinct (embeds : w.settings.runtimePartials = false) (source : String) :
    (Table.keys ((w.compileTemplate source).run {}).2.embedded).Nodup := by
  rw [compileTemplate_run_embedding embeds]
  let c : Compilation := { report := Report.addEvent (.compiling source.utf8ByteSize) {} }
  have read := (sourceBy_follows embed_distinct w [] w.registry.partials source c).2 List.nodup_nil
  unfold finish
  simp only
  split
  · exact (tabulateAll_distinct embeds w.registry.partialNames _).2 read
  · exact read

/-- Calls that make the same template have copies that agree. -/
theorem agree_of_eq (embeds : w.settings.runtimePartials = false) (source : String)
    (plans : ((w.compileTemplate source).run {}).1 = ((w.templateAfresh source).run {}).1)
    (tables : ((w.compileTemplate source).run {}).2.table =
      ((w.templateAfresh source).run {}).2.table) :
    Agree ((w.templateAfresh source).run {}).2.embedded := by
  have shown := templateAfresh_shown w source
  have noted := compileTemplate_noted embeds source
  have distinct := compileTemplate_distinct embeds source
  have reused (name : String) (p : Plan)
      (member : (name, p) ∈ ((w.templateAfresh source).run {}).2.embedded) :
      Table.get? ((w.compileTemplate source).run {}).2.embedded name = some p := by
    have shows : Shows ((w.templateAfresh source).run {}).1
        ((w.templateAfresh source).run {}).2.table (name, .embedded p) := shown.copies name p member
    rw [← plans, ← tables] at shows
    exact Table.get?_of_mem distinct (noted.notes shows)
  intro name p p' member member'
  have same := (reused name p member).symm.trans (reused name p' member')
  exact Option.some.inj same

/-! ### Names that are written down -/

/-- Without computed names a call that copies plans in leaves no table. -/
theorem compileTemplate_table (embeds : w.settings.runtimePartials = false) {source : String}
    (static : Plan.Static ((w.compileTemplate source).run {}).1) :
    ((w.compileTemplate source).run {}).2.table = [] := by
  rw [compileTemplate_run_embedding embeds] at static ⊢
  let c : Compilation := { report := Report.addEvent (.compiling source.utf8ByteSize) {} }
  let read := (w.sourceBy embed [] w.registry.partials source).run c
  have follows : Copying.Follows keepsTable embed := embed_follows_of fun _ _ _ => rfl
  have table : read.2.table = [] :=
    (sourceBy_follows follows w [] w.registry.partials source c).2
  have plain : read.2.hasDynamic = false := by
    rw [Bool.eq_false_iff]
    intro met
    obtain ⟨name, e, inside⟩ :=
      (hasDynamic_iff (embed_meets embeds) [] w.registry.partials source rfl).mp met
    exact static _ inside
  change ((w.finish read.2.hasDynamic).run read.2).2.table = []
  rw [plain]
  exact table

/-- Without computed names and blocks that are asked for, a plan compiled afresh is covered. -/
theorem templateAfresh_covered {source : String}
    (clean : ((w.templateAfresh source).run {}).2.report.errors = [])
    (static : Plan.Static ((w.templateAfresh source).run {}).1) :
    Plan.Covered ((w.templateAfresh source).run {}).1 fun _ => False := by
  rw [templateAfresh_run] at clean static ⊢
  let read := (w.sourceBy renew [] w.registry.partials source).run {}
  have before : read.2.report.errors = [] :=
    List.prefix_nil.mp (clean ▸ (w.finishAfresh_follows read.2.hasDynamic read.2).1)
  have covered := (source_covered (Available.start w) source rfl before).2 static
  exact NodesCovered.mono (Plan.inside_mono _ fun _ ⟨_, member, _⟩ => nomatch member) covered

end Workshop

/-! ### Templates -/

mutual

/-- A partial is missing, as far as the failure tells; a helper may have passed it on. -/
def RenderError.Misses : RenderError → Prop
  | .missingPartial _ => True
  | .helper _ cause => cause.Misses
  | .missingVariable _ | .missingHelper _ | .partialDepth _ _ => False

def HelperError.Misses : HelperError → Prop
  | .message _ => False
  | .render cause => cause.Misses

end

/-- No helper and no function makes up a failure that tells of a missing partial. -/
def Template.Honest (t : Template) (input : Input) : Prop :=
  Scene.KeepsTo { template := t, root := input.data, functions := input.functions }
    fun e => ¬e.Misses

namespace Registry

/-- What compiling afresh comes to is left behind by a call without errors. -/
theorem of_compileAfresh {registry : Registry} {settings : Settings} {source : String}
    {a : Afresh} (h : registry.compileAfresh settings source = .ok a) :
    let outcome := ({ settings, registry : Workshop }.templateAfresh source).run {}
    outcome.2.report.errors = [] ∧ a.plan = outcome.1 ∧ a.partials = outcome.2.table ∧
      a.copies = outcome.2.embedded := by
  intro outcome
  rw [compileAfresh] at h
  change (if outcome.2.report.errors.isEmpty then _ else _ : Except _ Afresh) = _ at h
  split at h
  · next clean =>
    cases h
    exact ⟨List.isEmpty_iff.mp clean, rfl, rfl, rfl⟩
  · cases h

/-- Reusing the plan of a partial makes the template that compiling it afresh at every
inclusion makes just when its source comes to one plan at all of them. Then no inclusion by
a written name misses its partial, whatever the input. -/
theorem reuses_iff_uniform {registry : Registry} {settings : Settings} {source : String}
    {t : Template} {a : Afresh} (embeds : settings.runtimePartials = false)
    (compiled : (registry.compile settings source).result = .ok t)
    (afresh : registry.compileAfresh settings source = .ok a) :
    (t.plan = a.plan ∧ t.partials = a.partials ↔ a.Uniform) ∧
      (a.Uniform → t.plan.Static → ∀ input, t.Honest input →
        ∀ e, (t.render input).result = .error e → ¬e.Misses) := by
  obtain ⟨clean, plan, partials, -⟩ := of_compile compiled
  obtain ⟨clean', plan', partials', copies⟩ := of_compileAfresh afresh
  let w : Workshop := { settings, registry }
  have reuses (uniform : a.Uniform) : t.plan = a.plan ∧ t.partials = a.partials := by
    have agree : Workshop.Agree ((w.templateAfresh source).run {}).2.embedded := by
      rw [← copies]
      exact uniform
    rw [plan, plan', partials, partials']
    exact Workshop.template_reuses embeds source clean clean' agree
  refine ⟨⟨?_, reuses⟩, ?_⟩
  · rw [plan, plan', partials, partials']
    rintro ⟨plans, tables⟩
    have agree := Workshop.agree_of_eq (w := w) embeds source plans tables
    rw [← copies] at agree
    exact agree
  · intro uniform static input honest e failed
    have bare : t.partials = [] := by
      rw [partials]
      refine Workshop.compileTemplate_table (w := w) embeds ?_
      rw [← plan]
      exact static
    have covered : t.plan.Covered fun _ => False := by
      rw [(reuses uniform).1] at static ⊢
      rw [plan'] at static ⊢
      exact Workshop.templateAfresh_covered clean' static
    exact t.render_covered bare covered input honest failed

end Registry

/-! ### A partial that includes another one -/

/-- A registry with a partial that includes another one by its name. -/
def rows : Registry :=
  (Registry.builtin.registerPartial "list" "\x7b\x7b> row\x7d\x7d").registerPartial "row" "R"

/-- Both inclusions of the list know the inline partial that hides the row. -/
def sharedRow : String :=
  "\x7b\x7b#*inline \"row\"\x7d\x7dX\x7b\x7b/inline\x7d\x7d\x7b\x7b> list\x7d\x7d\x7b\x7b> list\x7d\x7d"

/-- What compiling it afresh comes to. -/
def sharedRowAfresh : Afresh :=
  let list : Plan := [.inclusion ⟨"row", none, [], ""⟩ (.named "row") none]
  let inclusion : Node := .inclusion ⟨"list", none, [], ""⟩ (.embedded list) none
  { plan := [.inlineDef "row" [.literal "X"], inclusion, inclusion], partials := []
    copies := [("list", list), ("list", list)] }

/-- Whether compiling came to that. -/
def isSharedRowAfresh : Except (List Diagnostic) Afresh → Bool
  | .ok ⟨[.inlineDef "row" [.literal "X"],
      .inclusion ⟨"list", none, [], ""⟩
        (.embedded [.inclusion ⟨"row", none, [], ""⟩ (.named "row") none]) none,
      .inclusion ⟨"list", none, [], ""⟩
        (.embedded [.inclusion ⟨"row", none, [], ""⟩ (.named "row") none]) none], [],
      [("list", [.inclusion ⟨"row", none, [], ""⟩ (.named "row") none]),
        ("list", [.inclusion ⟨"row", none, [], ""⟩ (.named "row") none])]⟩ => true
  | _ => false

theorem rows_compileAfresh : rows.compileAfresh {} sharedRow = .ok sharedRowAfresh := by
  have run : isSharedRowAfresh (rows.compileAfresh {} sharedRow) = true := by decide +kernel
  unfold isSharedRowAfresh at run
  split at run
  · next found => exact found
  · cases run

theorem sharedRowAfresh_uniform : sharedRowAfresh.Uniform := by
  intro name plan plan' member member'
  simp only [sharedRowAfresh, List.mem_cons, Prod.mk.injEq, List.not_mem_nil, or_false,
    or_self] at member member'
  rw [member.2, member'.2]

/-- The builtin helpers fail with messages of their own only. -/
theorem Template.honest_of_builtin {t : Template} (helpers : t.helpers = Registry.builtin.helpers)
    (blockHelpers : t.blockHelpers = []) (data : Value) :
    t.Honest { data, functions := fun _ _ => .done .null } := by
  constructor
  case missingVariable | missingHelper | partialDepth => simp [RenderError.Misses]
  case functions => exact fun _ _ => trivial
  case blockHelpers => simp [blockHelpers, Table.get?]
  case helpers =>
    intro name helper found call
    change Table.get? t.helpers name = some helper at found
    have message (text other : String) : ¬(RenderError.helper other (.message text)).Misses := by
      simp [RenderError.Misses, HelperError.Misses]
    rw [helpers] at found
    rcases List.mem_cons.mp (Table.mem_of_get? found) with lookup | log
    · cases lookup
      unfold Helper.lookup
      split
      · trivial
      · exact message _
    · cases List.mem_singleton.mp log
      unfold Helper.log
      split
      · trivial
      · split
        · trivial
        · exact message _

/-- The list is reused where it would be compiled to the same plan again. -/
theorem sharedRow_reuses : ∃ t, (rows.compile {} sharedRow).result = .ok t ∧
    rows.compileAfresh {} sharedRow = .ok sharedRowAfresh ∧ sharedRowAfresh.Uniform ∧
      t.plan.Static ∧ t.plan = sharedRowAfresh.plan ∧ t.partials = sharedRowAfresh.partials ∧
        ∀ data e, (t.render { data, functions := fun _ _ => .done .null }).result = .error e →
          ¬e.Misses := by
  obtain ⟨t, compiled⟩ : ∃ t, (rows.compile {} sharedRow).result = .ok t :=
    Registry.compiles (by decide +kernel)
  obtain ⟨-, -, -, helpers, blockHelpers, -⟩ := Registry.of_compile compiled
  obtain ⟨same, covers⟩ := Registry.reuses_iff_uniform rfl compiled rows_compileAfresh
  obtain ⟨plan, partials⟩ := same.mpr sharedRowAfresh_uniform
  have static : t.plan.Static := by
    rw [plan]
    simp [Plan.Static, sharedRowAfresh, Plan.inclusions, Node.inclusions, Target.inclusions,
      Target.Static]
  exact ⟨t, compiled, rows_compileAfresh, sharedRowAfresh_uniform, static, plan, partials,
    fun data => covers sharedRowAfresh_uniform static _ (t.honest_of_builtin helpers blockHelpers data)⟩

/-- Only the first inclusion of the list knows the inline partial. -/
def scopedRow : String :=
  "\x7b\x7b#if a\x7d\x7d\x7b\x7b#*inline \"row\"\x7d\x7dX\x7b\x7b/inline\x7d\x7d\x7b\x7b> list\x7d\x7d" ++
    "\x7b\x7b/if\x7d\x7d\x7b\x7b> list\x7d\x7d"

/-- The plan of the list is reused where its row is another one: the template compiles, but misses
the row, which is there when the list is compiled afresh. -/
theorem scopedRow_misses :
    let input : Input :=
      { data := .object [("a", .bool true)], functions := fun _ _ => .done .null }
    ∃ t a, (rows.compile {} scopedRow).result = .ok t ∧ rows.compileAfresh {} scopedRow = .ok a ∧
      (t.render input).result = .error (.missingPartial "row") ∧
        (Template.render { t with plan := a.plan, partials := a.partials } input).result =
          .ok "XR" := by
  intro input
  have run : (match (rows.compile {} scopedRow).result, rows.compileAfresh {} scopedRow with
      | .ok t, .ok a =>
        match (t.render input).result,
          (Template.render { t with plan := a.plan, partials := a.partials } input).result with
        | .error (.missingPartial "row"), .ok "XR" => true
        | _, _ => false
      | _, _ => false) = true := by decide +kernel
  split at run
  · next t a compiled afresh =>
    refine ⟨t, a, compiled, afresh, ?_⟩
    split at run
    · next missed rendered => exact ⟨missed, rendered⟩
    · cases run
  · cases run

end Stencil
