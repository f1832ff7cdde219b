import Stencil.Proofs.Compile.Covering

/-!
Reusing the plans of partials.

A call that copies plans in compiles each partial once. Its copies are right
exactly when the source of a partial comes to the same plan wherever it is
included: then the call makes the plan that it would make by compiling every
partial afresh, and otherwise it does not.
-/

namespace Stencil

open Compiling

namespace Workshop

variable (w : Workshop)

/-- Puts a partial, compiled afresh, into the table for computed names, unless it is
there. -/
def tabulateAfresh (name : String) : Compiling Unit := do
  if Table.contains (← get).table name then return
  match ← renew [] name (w.innerBy renew [] w.registry.partials name) with
  | some plan => modify fun c => { c with table := Table.insert c.table name plan }
  | none => pure ()

def tabulateAllAfresh : List String → Compiling Unit
  | [] => return
  | name :: names => do
    w.tabulateAfresh name
    tabulateAllAfresh names

/-- What follows the source of a template. -/
def finishAfresh (dynamic : Bool) : Compiling Unit :=
  if dynamic then w.tabulateAllAfresh w.registry.partialNames else pure ()

/-- Compiles a template, and a partial at every inclusion. -/
def templateAfresh (source : String) : Compiling Plan := do
  let plan ← w.sourceBy renew [] w.registry.partials source
  w.finishAfresh (← get).hasDynamic
  return plan

end Workshop

/-- What a compile call comes to that compiles a partial at every inclusion. -/
structure Afresh where
  plan : Plan
  partials : Table Plan
  /-- What the sources of partials came to, by their names. -/
  copies : List (String × Plan)

/-- The source of a partial comes to the same plan at every inclusion. -/
def Afresh.Uniform (a : Afresh) : Prop :=
  ∀ name plan plan', (name, plan) ∈ a.copies → (name, plan') ∈ a.copies → plan = plan'

/-- Compiles a template, and a partial at every inclusion, with the inline partials that
are known there. -/
def Registry.compileAfresh (registry : Registry) (settings : Settings) (source : String) :
    Except (List Diagnostic) Afresh :=
  let (plan, c) := ({ settings, registry : Workshop }.templateAfresh source).run {}
  if c.report.errors.isEmpty then
    .ok { plan, partials := c.table, copies := c.embedded }
  else .error c.report.errors

namespace Workshop

variable {w : Workshop}

/-! ### Courses -/

/-- Noted copies stay noted. -/
def keepsCopies : Course where
  grows s t := ∀ e ∈ s.embedded, e ∈ t.embedded
  refl _ _ h := h
  trans h h' e member := h' e (h e member)
  dynamic _ _ h := h

/-- The table stays as it is. -/
def keepsTable : Course where
  grows s t := t.table = s.table
  refl _ := rfl
  trans h h' := h'.trans h
  dynamic _ := rfl

/-- There is one plan for a name. -/
def distinct : Course where
  grows s t := (Table.keys s.embedded).Nodup → (Table.keys t.embedded).Nodup
  refl _ := id
  trans h h' := h' ∘ h
  dynamic _ := id

theorem embed_follows_of {course : Course} (added : ∀ (s : Store) (name : String) (plan : Plan),
    course.grows s { s with embedded := Table.insert s.embedded name plan }) :
    Copying.Follows course embed := by
  intro entered name compile h c
  by_cases member : name ∈ entered
  · rw [embed_run_open entered name member]
    exact ⟨List.prefix_append _ _, course.refl _⟩
  cases found : Table.get? c.embedded name with
  | some plan =>
      rw [embed_run_known entered name member _ found]
      exact ⟨List.prefix_refl _, course.refl _⟩
  | none =>
      rw [embed_run_new entered name member _ found]
      cases compile with
      | none => exact ⟨List.prefix_refl _, course.refl _⟩
      | some action =>
          obtain ⟨errors, grows⟩ := Follows.insidePartial (h action rfl) name c
          exact ⟨errors, course.trans grows (added _ _ _)⟩

/-- Compiling a source afresh takes no copy back, and leaves the table alone. -/
theorem renew_source_keeps (w : Workshop) (entered : List String) (available : Table String)
    (source : String) (c : Compilation) :
    (∀ e ∈ c.embedded, e ∈ ((w.sourceBy renew entered available source).run c).2.embedded) ∧
      ((w.sourceBy renew entered available source).run c).2.table = c.table := by
  have copies : Follows keepsCopies (w.sourceBy renew entered available source) :=
    sourceBy_follows (renew_follows fun _ _ _ _ member => .tail _ member) w entered available source
  have table : Follows keepsTable (w.sourceBy renew entered available source) :=
    sourceBy_follows (renew_follows fun _ _ _ => rfl) w entered available source
  exact ⟨(copies c).2, (table c).2⟩

/-! ### Reuse -/

theorem eq_of_planMatch {layers : Layers} {p p' : Plan}
    (h : PlanMatch (fun _ n n' => n = n') layers p p') : p = p' := by
  obtain ⟨layer, h⟩ := h
  have nodes : List.Forall₂ (· = ·) p p' := h.nodes
  rwa [List.forall₂_eq_eq_eq] at nodes

/-- A call that reuses plans against one that compiles afresh and ends with these copies:
both make the same nodes. -/
def reusing (copies : List (String × Plan)) : Comparison where
  left := .any
  right := keepsCopies
  ok _ s' := ∀ e ∈ s'.embedded, e ∈ copies
  back _ grows ok e member := ok e (grows e member)
  declared _ := True
  node _ n n' := n = n'
  target _ _ _ t t' := t = t'
  mono h := h
  literal _ _ := rfl
  literal_left h := h.symm
  literal_right h := h
  lookup _ _ _ := rfl
  helper _ _ _ := rfl
  block h hi := by
    cases hi with
    | none => rw [eq_of_planMatch h]
    | some hi => rw [eq_of_planMatch h, eq_of_planMatch hi]
  inclusion h := by rw [h]
  inclusionBlock hb h := by rw [h, eq_of_planMatch ⟨_, hb⟩]
  inlineDef _ h := by rw [eq_of_planMatch h]
  dynamic _ _ _ := rfl

/-- What one call has for a name, the other has noted for it. -/
structure Reused (s s' : Store) : Prop where
  noted : ∀ name plan, Table.get? s.embedded name = some plan → (name, plan) ∈ s'.embedded
  table : s.table = s'.table
  copied : Table.Within s.table s.embedded

/-- The copies of each name agree. -/
def Agree (copies : List (String × Plan)) : Prop :=
  ∀ name plan plan', (name, plan) ∈ copies → (name, plan') ∈ copies → plan = plan'

theorem Reused.add {s s' : Store} (h : Reused s s') {name : String}
    (new : Table.get? s.embedded name = none) (plan : Plan) :
    Reused { s with embedded := Table.insert s.embedded name plan }
      { s' with embedded := (name, plan) :: s'.embedded } := by
  refine ⟨fun other plan' found => ?_, h.table, h.copied.trans (Table.Within.insert new plan)⟩
  rw [Table.get?_insert] at found
  split at found
  · next same =>
    cases found
    exact same ▸ .head _
  · exact .tail _ (h.noted other plan' found)

theorem planMatch_refl (layers : Layers) (p : Plan) :
    PlanMatch (fun _ n n' => n = n') layers p p :=
  ⟨[], nofun, List.forall₂_same.mpr fun _ _ => rfl⟩

/-- A plan that is reused is the one that its source comes to again. -/
theorem embed_reuses (embeds : w.settings.runtimePartials = false) {copies : List (String × Plan)}
    (agree : Agree copies) :
    w.Copyings (reusing copies) (fun _ => Reused) embed renew := by
  constructor
  case left => exact embed_follows_of fun _ _ _ => trivial
  case right => exact renew_follows fun _ _ _ _ member => .tail _ member
  case declared => exact fun _ => trivial
  case dynamic => exact fun _ _ _ h => ⟨h.noted, h.table, h.copied⟩
  case partialBlock => exact fun _ _ => rfl
  case inline => exact fun _ _ _ => rfl
  case unregistered => exact fun _ _ _ => rfl
  case embedded => exact fun name hasBlock h => congrArg Target.embedded (eq_of_planMatch h)
  case reopens =>
    intro entered name compile c member
    rw [embed_run_open entered name member]
    simp [Report.addError]
  case copies =>
    intro entered available name source layers given outside here ih c c' start guard
    rw [given.innerBy_eq embed outside here, given.innerBy_eq renew outside here,
      renew_run_new entered outside] at guard ⊢
    cases found : Table.get? c.embedded name with
    | some plan =>
        rw [embed_run_known entered name outside _ found] at guard ⊢
        simp only [insidePartial_run] at guard ⊢
        obtain ⟨_, clean', within⟩ := guard
        -- The source is compiled on one side only; both copies of it are noted in the end.
        let again := (w.sourceBy renew (name :: entered) (Table.erase available name) source).run
          (enterPartial name c')
        have kept : ∀ e ∈ c'.embedded, e ∈ again.2.embedded :=
          (renew_source_keeps w (name :: entered) (Table.erase available name) source
            (enterPartial name c')).1
        have table : again.2.table = c'.table :=
          (renew_source_keeps w (name :: entered) (Table.erase available name) source
            (enterPartial name c')).2
        obtain ⟨⟨layer, inlines⟩, _⟩ := source_covered (given.enter name) source
          (congrArg ([] :: ·) start.right) (leavePartial_errors clean')
        have same : plan = again.1 :=
          agree name plan again.1 (within _ (.tail _ (kept _ (start.stores.noted name plan found))))
            (within _ (.head _))
        refine ⟨⟨plan, again.1, rfl, rfl, same ▸ planMatch_refl layers plan⟩, start.left,
          congrArg List.tail inlines, start.declared, ?_⟩
        exact ⟨fun other plan' known => .tail _ (kept _ (start.stores.noted other plan' known)),
          start.stores.table.trans table.symm, start.stores.copied⟩
    | none =>
        rw [embed_run_new entered name outside _ found] at guard ⊢
        simp only [insidePartial_run] at guard ⊢
        obtain ⟨clean, clean', within⟩ := guard
        obtain ⟨h, layer, done⟩ := ih layers (enterPartial name c) (enterPartial name c')
          (together_enter start start.stores) ⟨leavePartial_errors clean,
            leavePartial_errors clean', fun e member => within e (.tail _ member)⟩
        have still := embed_source_new entered (Table.erase available name) embeds source found
        refine ⟨⟨_, _, rfl, rfl, h⟩, together_leave done rfl rfl ?_⟩
        have added := done.stores.add still
          ((w.sourceBy embed (name :: entered) (Table.erase available name) source).run
            (enterPartial name c)).1
        have same := eq_of_planMatch h
        rw [noting, embedding]
        simp only [← same]
        exact added

/-! ### Computed names -/

theorem tabulateAfresh_run_known {name : String} {c : Compilation}
    (h : (Table.get? c.table name).isSome = true) : (w.tabulateAfresh name).run c = ((), c) := by
  change StateT.run (if Table.contains c.table name then _ else _) c = _
  rw [if_pos (by exact h)]
  rfl

theorem tabulateAfresh_run_new {name : String} {c : Compilation}
    (h : Table.get? c.table name = none) : (w.tabulateAfresh name).run c =
      let result := (renew [] name (w.innerBy renew [] w.registry.partials name)).run c
      match result.1 with
      | some plan => ((), tabulating name (plan, result.2))
      | none => ((), result.2) := by
  have new : ¬Table.contains c.table name = true := by
    rw [Table.contains, h]
    exact Bool.false_ne_true
  change StateT.run (if Table.contains c.table name then _ else _) c = _
  rw [if_neg new, StateT.run_bind]
  generalize (renew [] name (w.innerBy renew [] w.registry.partials name)).run c = result
  obtain ⟨plan, c'⟩ := result
  cases plan <;> rfl

/-- A plan that is handed out is kept. -/
theorem embed_has (entered : List String) (name : String) (compile : Option (Compiling Plan))
    (c : Compilation) {plan : Plan} (h : ((embed entered name compile).run c).1 = some plan) :
    Table.get? ((embed entered name compile).run c).2.embedded name = some plan := by
  by_cases member : name ∈ entered
  · rw [embed_run_open entered name member] at h
    cases h
  cases found : Table.get? c.embedded name with
  | some plan' =>
      rw [embed_run_known entered name member _ found] at h ⊢
      exact found.trans h
  | none =>
      rw [embed_run_new entered name member _ found] at h ⊢
      cases compile with
      | none => cases h
      | some action =>
          cases h
          exact Table.get?_insert_self _ _ _

variable {copies : List (String × Plan)} {layers : Layers}

theorem copyInto_reuses (embeds : w.settings.runtimePartials = false) (agree : Agree copies)
    {name : String} (here : (w.registry.partial? name).isSome = true) :
    (reusing copies).Relates ((reusing copies).Together Reused layers)
      (w.copyInto name) (w.tabulateAfresh name)
      fun _ _ => (reusing copies).Together Reused layers := by
  intro c c' start guard
  rw [copyInto_run, compileNamed_eq, inner_eq_innerBy _ _ embeds] at guard ⊢
  cases known : Table.get? c'.table name with
  | some plan =>
      have table : Table.get? c.table name = some plan := by
        rw [← known]
        exact congrArg (Table.get? · name) start.stores.table
      have embedded : Table.get? c.embedded name = some plan := start.stores.copied name plan table
      rw [tabulateAfresh_run_known (by rw [known]; rfl),
        embed_run_known [] name List.not_mem_nil _ embedded]
      simp only [tabulating, Table.insert_of_get? table]
      exact start
  | none =>
      obtain ⟨source, here⟩ := Option.isSome_iff_exists.mp here
      have ways := embed_reuses embeds agree
      have inside := ways.copies layers (Available.start w) List.not_mem_nil here
        (sources_relate ways _ _ ((Available.start w).enter name) source) c c' start
      have has (plan : Plan) (h : _ = some plan) :=
        embed_has [] name (w.innerBy embed [] w.registry.partials name) c h
      rw [tabulateAfresh_run_new known] at guard ⊢
      revert guard inside has
      generalize (embed [] name (w.innerBy embed [] w.registry.partials name)).run c = r
      generalize (renew [] name (w.innerBy renew [] w.registry.partials name)).run c' = r'
      obtain ⟨plan?, d⟩ := r
      obtain ⟨plan?', d'⟩ := r'
      intro guard inside has
      have before : (reusing copies).Guard d d' := by
        cases plan? <;> cases plan?' <;> exact guard
      obtain ⟨⟨plan, plan', rfl, rfl, h⟩, done⟩ := inside before
      obtain rfl := eq_of_planMatch h
      obtain ⟨noted, table, copied⟩ := done.stores
      change d.table = d'.table at table
      refine ⟨done.left, done.right, done.declared, noted, ?_, ?_⟩
      · exact congrArg (Table.insert · name plan) table
      · intro other plan' found
        change Table.get? (Table.insert d.table name plan) other = some plan' at found
        rw [Table.get?_insert] at found
        split at found
        · next same =>
          cases found
          exact same ▸ has plan rfl
        · exact copied other plan' found

theorem tabulateAfresh_follows (name : String) : Follows keepsCopies (w.tabulateAfresh name) := by
  intro c
  cases known : Table.get? c.table name with
  | some plan =>
      rw [tabulateAfresh_run_known (by rw [known]; rfl)]
      exact ⟨List.prefix_refl _, fun _ member => member⟩
  | none =>
      have follows : Copying.Follows keepsCopies renew := renew_follows fun _ _ _ _ member => .tail _ member
      have copies := innerBy_follows follows w [] w.registry.partials name c
      rw [tabulateAfresh_run_new known]
      revert copies
      generalize (renew [] name (w.innerBy renew [] w.registry.partials name)).run c = r
      obtain ⟨plan?, d⟩ := r
      intro copies
      cases plan? <;> exact copies

theorem tabulateAllAfresh_follows (names : List String) :
    Follows keepsCopies (w.tabulateAllAfresh names) := by
  induction names with
  | nil => exact .pure _
  | cons name names ih => exact .bind (tabulateAfresh_follows name) fun _ => ih

theorem tabulateAll_reuses (embeds : w.settings.runtimePartials = false) (agree : Agree copies)
    {names : List String} (here : ∀ name ∈ names, (w.registry.partial? name).isSome = true) :
    (reusing copies).Relates ((reusing copies).Together Reused layers)
      (w.tabulateAll names) (w.tabulateAllAfresh names)
      fun _ _ => (reusing copies).Together Reused layers := by
  induction names with
  | nil => exact .pure fun _ _ start => start
  | cons name names ih =>
      obtain ⟨first, others⟩ := List.forall_mem_cons.mp here
      rw [tabulateAll_embedding name embeds]
      exact .bind (copyInto_reuses embeds agree first) (fun _ => w.tabulateAll_follows names)
        (fun _ => tabulateAllAfresh_follows names) fun _ _ => ih others

/-! ### Whole calls -/

/-- The store at the start of a compile call. -/
def start : Store :=
  { embedded := [], table := [], hasDynamic := false }

theorem start_settled : start.Settled :=
  fun _ _ member => absurd member List.not_mem_nil

/-- A name is computed when compiling just if the plan has an inclusion with a computed name. -/
theorem hasDynamic_iff {copy : Copying} (meets : w.Meets copy) (entered : List String)
    (available : Table String) (source : String) {c : Compilation} (fresh : c.store = start) :
    ((w.sourceBy copy entered available source).run c).2.hasDynamic = true ↔ ∃ name e,
      (name, Target.dynamic e) ∈
        Plan.inclusions ((w.sourceBy copy entered available source).run c).1 := by
  have accounts := sourceBy_accounts meets entered available source c (fresh ▸ start_settled)
  constructor
  · intro flag
    rcases accounts.computed flag with before | found
    · rw [fresh] at before
      cases before
    · exact found
  · rintro ⟨name, e, inside⟩
    exact accounts.noted _ inside

theorem templateAfresh_run (w : Workshop) (source : String) (c : Compilation) :
    (w.templateAfresh source).run c =
      let result := (w.sourceBy renew [] w.registry.partials source).run c
      (result.1, ((w.finishAfresh result.2.hasDynamic).run result.2).2) :=
  rfl

theorem finishAfresh_follows (w : Workshop) (dynamic : Bool) :
    Follows keepsCopies (w.finishAfresh dynamic) := by
  cases dynamic with
  | true => exact tabulateAllAfresh_follows _
  | false => exact .pure _

theorem finish_reuses (embeds : w.settings.runtimePartials = false) (agree : Agree copies)
    (dynamic : Bool) : (reusing copies).Relates ((reusing copies).Together Reused layers)
      (w.finish dynamic) (w.finishAfresh dynamic)
      fun _ _ => (reusing copies).Together Reused layers := by
  cases dynamic with
  | true => exact tabulateAll_reuses embeds agree fun _ member => Table.mem_keys_iff.mp member
  | false => exact .pure fun _ _ start => start

/-- Clean calls make the same plans when the copies agree. -/
theorem template_reuses (embeds : w.settings.runtimePartials = false) (source : String)
    (clean : ((w.compileTemplate source).run {}).2.report.errors = [])
    (clean' : ((w.templateAfresh source).run {}).2.report.errors = [])
    (agree : Agree ((w.templateAfresh source).run {}).2.embedded) :
    ((w.compileTemplate source).run {}).1 = ((w.templateAfresh source).run {}).1 ∧
      ((w.compileTemplate source).run {}).2.table = ((w.templateAfresh source).run {}).2.table := by
  let c : Compilation := { report := Report.addEvent (.compiling source.utf8ByteSize) {} }
  let read := (w.sourceBy embed [] w.registry.partials source).run c
  let read' := (w.sourceBy renew [] w.registry.partials source).run {}
  have run : (w.compileTemplate source).run {} =
      (read.1, ((w.finish read.2.hasDynamic).run read.2).2) := by
    rw [compileTemplate_run, compileSource_eq_sourceBy embeds]
  have run' : (w.templateAfresh source).run {} =
      (read'.1, ((w.finishAfresh read'.2.hasDynamic).run read'.2).2) :=
    templateAfresh_run w source {}
  rw [run] at clean ⊢
  rw [run'] at clean' agree ⊢
  have guard : (reusing ((w.finishAfresh read'.2.hasDynamic).run read'.2).2.embedded).Guard
      ((w.finish read.2.hasDynamic).run read.2).2
      ((w.finishAfresh read'.2.hasDynamic).run read'.2).2 :=
    ⟨clean, clean', fun _ member => member⟩
  have before : (reusing _).Guard read.2 read'.2 :=
    Comparison.Guard.before (w.finish_follows _) (w.finishAfresh_follows _) guard
  obtain ⟨plans, layer, done⟩ := sources_relate (embed_reuses embeds agree) [] _ (Available.start w)
    source [] c {} ⟨rfl, rfl, fun _ _ _ _ => trivial, nofun, rfl, fun _ _ found => found⟩ before
  have same : read.1 = read'.1 := eq_of_planMatch plans
  refine ⟨same, ?_⟩
  have dynamic : read.2.hasDynamic = read'.2.hasDynamic := by
    rw [Bool.eq_iff_iff, hasDynamic_iff (embed_meets embeds) [] w.registry.partials source rfl,
      hasDynamic_iff (renew_meets w) [] w.registry.partials source rfl]
    change (∃ name e, _ ∈ Plan.inclusions read.1) ↔ ∃ name e, _ ∈ Plan.inclusions read'.1
    rw [same]
  rw [dynamic] at guard ⊢
  exact (finish_reuses embeds agree _ read.2 read'.2 done guard).stores.table

/-! ### Copies and inclusions -/

/-- The inclusions in a plan, in the plans of a table, and of these. -/
def Shows (plan : Plan) (table : Table Plan) (i : String × Target) : Prop :=
  i ∈ Plan.inclusions plan ∨
    ∃ name p, (name, p) ∈ table ∧ (i = (name, .embedded p) ∨ i ∈ Plan.inclusions p)

/-- Every copy that is noted shows. -/
structure Shown (plan : Plan) (s : Store) : Prop where
  settled : s.Settled
  copies : ∀ name p, (name, p) ∈ s.embedded → Shows plan s.table (name, .embedded p)

/-- Every inclusion that shows is noted. -/
structure Noted (plan : Plan) (s : Store) : Prop where
  settled : s.Settled
  plan : ∀ i ∈ Plan.inclusions plan, s.Notes i
  table : ∀ e ∈ s.table, e ∈ s.embedded

theorem Noted.notes {plan : Plan} {s : Store} (h : Noted plan s) {i : String × Target}
    (shows : Shows plan s.table i) : s.Notes i := by
  rcases shows with inside | ⟨name, p, member, rfl | inside⟩
  · exact h.plan i inside
  · exact h.table _ member
  · exact h.settled name p (h.table _ member) i inside

theorem tabulateAfresh_shown {plan : Plan} (name : String) {c : Compilation}
    (h : Shown plan c.store) : Shown plan ((w.tabulateAfresh name).run c).2.store := by
  cases known : Table.get? c.table name with
  | some _ =>
      rw [tabulateAfresh_run_known (by rw [known]; rfl)]
      exact h
  | none =>
      have accounts := renew_meets w [] w.registry.partials name c h.settled
        fun source _ => sourceBy_accounts (renew_meets w) _ _ source
      have follows : Copying.Follows keepsTable renew := renew_follows fun _ _ _ => rfl
      have table := (innerBy_follows follows w [] w.registry.partials name c).2
      rw [tabulateAfresh_run_new known]
      revert accounts table
      generalize (renew [] name (w.innerBy renew [] w.registry.partials name)).run c = r
      obtain ⟨plan?, d⟩ := r
      intro accounts table
      change d.table = c.table at table
      cases plan? with
      | none =>
          refine ⟨accounts.settled, fun other p member => ?_⟩
          rcases accounts.copies other p member with before | ⟨_, ⟨⟩, _⟩
          change Shows plan d.table (other, .embedded p)
          rw [table]
          exact h.copies other p before
      | some found =>
          refine ⟨accounts.settled, fun other p member => ?_⟩
          have new : Table.get? d.table name = none := by rw [table, known]
          have inserted (e : String × Plan) : e ∈ Table.insert d.table name found ↔
              e ∈ d.table ∨ e = (name, found) := Table.mem_insert_of_new new found
          change Shows plan (Table.insert d.table name found) (other, .embedded p)
          rcases accounts.copies other p member with before | ⟨_, ⟨rfl⟩, now⟩
          · rcases h.copies other p before with inside | ⟨name', p', member', shows⟩
            · exact .inl inside
            · exact .inr ⟨name', p', (inserted _).mpr (.inl (table ▸ member')), shows⟩
          · exact .inr ⟨name, found, (inserted _).mpr (.inr rfl), now⟩

theorem copyInto_noted (embeds : w.settings.runtimePartials = false) {plan : Plan} (name : String)
    {c : Compilation} (h : Noted plan c.store) : Noted plan ((w.copyInto name).run c).2.store := by
  have accounts := embed_meets embeds [] w.registry.partials name c h.settled
    fun source _ => sourceBy_accounts (embed_meets embeds) _ _ source
  have follows : Copying.Follows keepsTable embed := embed_follows_of fun _ _ _ => rfl
  have table := (innerBy_follows follows w [] w.registry.partials name c).2
  rw [copyInto_run, compileNamed_eq, inner_eq_innerBy _ _ embeds]
  revert accounts table
  generalize (embed [] name (w.innerBy embed [] w.registry.partials name)).run c = r
  obtain ⟨plan?, d⟩ := r
  intro accounts table
  change d.table = c.table at table
  have kept : ∀ e ∈ d.table, e ∈ d.embedded := by
    intro e member
    rw [table] at member
    exact accounts.kept (e.1, .embedded e.2) (h.table e member)
  have noted : ∀ i ∈ Plan.inclusions plan, d.store.Notes i :=
    fun i inside => accounts.kept i (h.plan i inside)
  cases plan? with
  | none => exact ⟨accounts.settled, noted, kept⟩
  | some found =>
      refine ⟨accounts.settled, noted, fun e member => ?_⟩
      rcases Table.mem_of_mem_insert member with before | rfl
      · exact kept e before
      · exact accounts.noted (name, .embedded found) ⟨found, rfl, .inl rfl⟩

end Workshop

end Stencil
