import Stencil.Proofs.Compile.Sources

/-!
Where a tag stands does not matter.

The site of a tag, its text and its line, goes into what is reported and nowhere else, and what
has been reported is never asked for. So tags that say the same become the same node wherever they
stand, and a compile call builds one plan whatever has been reported before.
-/

namespace Stencil

open Markup

/-! ### Coupled computations -/

/-- From states related by `S` both computations come to results related by `R` and to states
related by `S`. -/
def Coupled {σ α α' : Type} (S : σ → σ → Prop) (R : α → α' → Prop) (x : StateM σ α)
    (y : StateM σ α') : Prop :=
  ∀ s s', S s s' → R (x.run s).1 (y.run s').1 ∧ S (x.run s).2 (y.run s').2

namespace Coupled

variable {σ α α' β β' : Type} {S : σ → σ → Prop} {R : α → α' → Prop} {Q : β → β' → Prop}

theorem pure {a : α} {a' : α'} (h : R a a') : Coupled S R (Pure.pure a) (Pure.pure a') := by
  intro s s' states
  exact ⟨h, states⟩

theorem bind {x : StateM σ α} {y : StateM σ α'} {f : α → StateM σ β} {g : α' → StateM σ β'}
    (h : Coupled S R x y) (next : ∀ a a', R a a' → Coupled S Q (f a) (g a')) :
    Coupled S Q (x >>= f) (y >>= g) := by
  intro s s' states
  obtain ⟨result, states⟩ := h s s' states
  exact next _ _ result _ _ states

/-- What comes second need only agree with itself on one result. -/
theorem bind_eq {x y : StateM σ α} {f : α → StateM σ β} {g : α → StateM σ β'}
    (h : Coupled S Eq x y) (next : ∀ a, Coupled S Q (f a) (g a)) :
    Coupled S Q (x >>= f) (y >>= g) := by
  refine h.bind ?_
  rintro a _ rfl
  exact next a

theorem writes {f g : σ → σ} (h : ∀ s s', S s s' → S (f s) (g s')) :
    Coupled S Eq (modify f : StateM σ Unit) (modify g) := by
  intro s s' states
  exact ⟨rfl, h s s' states⟩

end Coupled

/-! ### Reading -/

/-- Reports of equally many errors. -/
def Report.Even (r r' : Report) : Prop :=
  r.errors.length = r'.errors.length

theorem Report.Even.addError {r r' : Report} (h : r.Even r') (d d' : Diagnostic) :
    (r.addError d).Even (r'.addError d') := by
  simpa [Report.Even, Report.addError] using h

/-- Both readings give one result or both stop, and they report equally many errors. -/
def Reading.Evenly {α : Type} (x y : Reading α) : Prop :=
  Coupled Report.Even (fun outcome outcome' => outcome.toOption = outcome'.toOption) x.run y.run

namespace Reading.Evenly

variable {α β : Type}

theorem pure (a : α) : Evenly (Pure.pure a) (Pure.pure a) :=
  Coupled.pure rfl

theorem throw (d d' : Diagnostic) : Evenly (throw d : Reading α) (throw d') :=
  Coupled.pure rfl

theorem bind {x y : Reading α} {f g : α → Reading β} (h : Evenly x y)
    (next : ∀ a, Evenly (f a) (g a)) : Evenly (x >>= f) (y >>= g) := by
  show Coupled _ _ (x.run >>= ExceptT.bindCont f) (y.run >>= ExceptT.bindCont g)
  apply Coupled.bind h
  intro outcome outcome' same
  cases outcome with
  | ok a =>
      cases outcome' with
      | ok a' =>
          obtain rfl : a = a' := Option.some.inj same
          exact next a
      | error d' => cases same
  | error d =>
      cases outcome' with
      | ok a' => cases same
      | error d' => exact Coupled.pure rfl

theorem writes {f g : Report → Report} (h : ∀ r r', r.Even r' → (f r).Even (g r')) :
    Evenly (modify f : Reading Unit) (modify g) := by
  intro r r' even
  exact ⟨rfl, h r r' even⟩

theorem addError (d d' : Diagnostic) : Evenly (Reading.addError d) (Reading.addError d') :=
  writes fun _ _ even => even.addError d d'

theorem addWarning (text text' : String) :
    Evenly (Reading.addWarning text) (Reading.addWarning text') :=
  writes fun _ _ even => even

theorem count (f : Usage → Usage) : Evenly (Reading.count f) (Reading.count f) :=
  writes fun _ _ even => even

end Reading.Evenly

section

open Reading

variable (isHelper : String → Bool) (site site' : Site)

theorem Path.parse_site (token : List Char) :
    (Path.parse token site).toOption = (Path.parse token site').toOption := by
  unfold Path.parse
  split
  simp only
  split
  · rfl
  · split
    · rfl
    · rfl

theorem Path.read_site (token : List Char) : Evenly (Path.read token site) (Path.read token site') := by
  have parsed : Evenly (Path.parse token site) (Path.parse token site') :=
    Coupled.pure (Path.parse_site site site' token)
  exact parsed.bind fun p => .bind (.count p.usage) fun _ => .pure p

namespace Expr

theorem callee_site (head : List Char) (hasArguments : Bool) :
    Evenly (callee isHelper site head hasArguments) (callee isHelper site' head hasArguments) := by
  unfold callee
  simp only
  split
  · exact .bind (.count _) fun _ => .pure _
  · refine .bind (Path.read_site site site' head) fun path => ?_
    split
    · exact .bind (.addError _ _) fun _ => .pure _
    · exact .pure _

mutual

/-- The structure of the proof is that of reading: an expression in parentheses is shorter. -/
theorem read_site (token : List Char) :
    Evenly (read isHelper site token) (read isHelper site' token) := by
  rw [read, read]
  split
  · exact .pure _
  · split
    · exact .bind (Path.read_site site site' token) fun path => .pure _
    · next inner h =>
      split
      · exact .throw _ _
      · exact .throw _ _
      · next head rest params ht =>
        have smaller : room rest < token.length := by
          have inner := length_of_parenthesized? h
          have fits := room_of_tokens ht
          rw [room_cons] at fits
          omega
        exact .bind (readArguments_site [] rest) fun arguments =>
          .bind (.count _) fun _ => .bind (callee_site isHelper site site' head _) fun callee => .pure _
termination_by token.length

theorem readArguments_site (hash : Table Expr) (ts : List (List Char)) :
    Evenly (readArguments isHelper site hash ts) (readArguments isHelper site' hash ts) := by
  match ts with
  | [] =>
      rw [readArguments, readArguments]
      exact .pure _
  | token :: ts =>
      have first : token.length < room (token :: ts) := by rw [room_cons]; omega
      have others : room ts < room (token :: ts) := by rw [room_cons]; omega
      rw [readArguments, readArguments]
      split
      · next name value h =>
        have shorter : value.length < room (token :: ts) := Nat.lt_trans (length_of_named? h) first
        refine .bind (read_site value) fun v => ?_
        simp only
        split
        · exact .bind (.addWarning _ _) fun _ => readArguments_site _ ts
        · exact readArguments_site _ ts
      · exact .bind (read_site token) fun arg =>
          .bind (readArguments_site hash ts) fun arguments => .pure _
termination_by room ts

end

end Expr

end

/-! ### Builtin blocks -/

namespace Builtin

variable (site site' : Site)

/-- Reporting one error after another. -/
theorem checkNames_site (allowed : List String) (hash : Table Expr) :
    Coupled Report.Even Eq (checkNames allowed hash site) (checkNames allowed hash site') := by
  apply Coupled.writes
  generalize ((Table.keys hash).filter fun name => !allowed.contains name) = wrong
  intro r r' even
  induction wrong generalizing r r' with
  | nil => exact even
  | cons name wrong ih =>
      apply ih
      exact even.addError _ _

theorem addError_site (d d' : Diagnostic) :
    Coupled Report.Even Eq (modify (Report.addError d)) (modify (Report.addError d')) :=
  .writes fun _ _ even => even.addError d d'

/-- The name of the block and its site only stand in what is reported. -/
theorem check_site (label label' : String) (least most : Nat) (allowed : List String)
    (content : Content) :
    Coupled Report.Even Eq (check label least most allowed content site)
      (check label' least most allowed content site') := by
  unfold check
  split
  · split
    · exact addError_site _ _
    · exact addError_site _ _
  · simp only
    split
    · exact .bind_eq (addError_site _ _) fun _ => checkNames_site site site' allowed content.hash
    · exact checkNames_site site site' allowed content.hash

theorem open?_site {content : Content} {openBlock : Site → StateM Report BlockKind}
    (h : open? content = some openBlock) :
    Coupled Report.Even Eq (openBlock site) (openBlock site') := by
  unfold open? at h
  split at h
  · cases h
    exact .bind_eq (check_site site site' _ _ _ _ _ content) fun _ => .pure rfl
  split at h
  · cases h
    exact .bind_eq (check_site site site' _ _ _ _ _ content) fun _ => .pure rfl
  split at h
  · cases h
    exact .bind_eq (check_site site site' _ _ _ _ _ content) fun _ => .pure rfl
  split at h
  · cases h
    exact .bind_eq (check_site site site' _ _ _ _ _ content) fun _ => .pure rfl
  · cases h

end Builtin

/-! ### Compile calls -/

/-- States that differ in what has been reported at most, and not in how many errors. -/
structure Compilation.SameButReports (c c' : Compilation) : Prop where
  report : c.report.Even c'.report
  inlines : c.inlines = c'.inlines
  store : c.store = c'.store

namespace Compilation.SameButReports

variable {c c' : Compilation}

theorem refl (c : Compilation) : c.SameButReports c :=
  ⟨rfl, rfl, rfl⟩

theorem embedded (h : c.SameButReports c') : c.embedded = c'.embedded :=
  congrArg Store.embedded h.store

theorem table (h : c.SameButReports c') : c.table = c'.table :=
  congrArg Store.table h.store

end Compilation.SameButReports

namespace Compiling

open Compilation (SameButReports)

variable {α α' : Type} {R : α → α' → Prop}

/-- Whatever has been reported before, the computations come to related results, and they change
the state alike. -/
abbrev Coincide (R : α → α' → Prop) (x : Compiling α) (y : Compiling α') : Prop :=
  Coupled SameButReports R x y

namespace Coincide

theorem reporting {x : StateM Report α} {y : StateM Report α'} (h : Coupled Report.Even R x y) :
    Coincide R (reporting x) (reporting y) := by
  intro c c' same
  obtain ⟨result, report⟩ := h _ _ same.report
  exact ⟨result, report, same.inlines, same.store⟩

theorem addError (d d' : Diagnostic) :
    Coincide Eq (Compiling.addError d) (Compiling.addError d') :=
  .reporting (Builtin.addError_site d d')

theorem count (f : Usage → Usage) : Coincide Eq (Compiling.count f) (Compiling.count f) :=
  .reporting (.writes fun _ _ even => even)

theorem readOr {x y : Reading α} (h : x.Evenly y) (default : α) :
    Coincide Eq (readOr default x) (readOr default y) := by
  refine Coupled.bind (Coincide.reporting h) fun outcome outcome' same => ?_
  cases outcome with
  | ok a =>
      cases outcome' with
      | ok a' =>
          obtain rfl : a = a' := Option.some.inj same
          exact Coupled.pure rfl
      | error d' => cases same
  | error d =>
      cases outcome' with
      | ok a' => cases same
      | error d' => exact Coupled.bind_eq (Coincide.addError d d') fun _ => Coupled.pure rfl

/-- A computation that only writes to the report does not ask what is in it. -/
theorem steady {x : Compiling α} (h : IsSteady x) : Coincide Eq x x := by
  obtain ⟨a, errors, h, -⟩ := h
  intro c c' same
  obtain ⟨r, run, written, -⟩ := h c
  obtain ⟨r', run', written', -⟩ := h c'
  rw [run, run']
  refine ⟨rfl, ?_, same.inlines, same.store⟩
  show r.errors.length = r'.errors.length
  rw [written, written', List.length_append, List.length_append, same.report]

theorem layers (f : List (List String) → List (List String)) :
    Coincide Eq (modify fun c => { c with inlines := f c.inlines } : Compiling Unit)
      (modify fun c => { c with inlines := f c.inlines }) := by
  apply Coupled.writes
  intro c c' same
  exact ⟨same.report, congrArg f same.inlines, same.store⟩

theorem declareInline (name : String) :
    Coincide Eq (declareInline name) (declareInline name) := by
  intro c c' same
  rw [declareInline_run, declareInline_run, ← same.inlines]
  cases c.inlines with
  | nil => exact ⟨rfl, same⟩
  | cons layer layers =>
      simp only
      split
      · exact ⟨rfl, same⟩
      · exact ⟨rfl, same.report, rfl, same.store⟩

theorem meetDynamic :
    Coincide Eq (modify fun c => { c with hasDynamic := true } : Compiling Unit)
      (modify fun c => { c with hasDynamic := true }) := by
  apply Coupled.writes
  intro c c' same
  refine ⟨same.report, same.inlines, ?_⟩
  show ({ c.store with hasDynamic := true } : Store) = { c'.store with hasDynamic := true }
  rw [same.store]

/-- Inside a partial the errors of its source are counted anew. -/
theorem insidePartial {x : Compiling α} {y : Compiling α'} (h : Coincide R x y) (name : String) :
    Coincide R (insidePartial name x) (insidePartial name y) := by
  intro c c' same
  rw [insidePartial_run, insidePartial_run]
  have entered : (enterPartial name c).SameButReports (enterPartial name c') :=
    ⟨rfl, congrArg ([] :: ·) same.inlines, same.store⟩
  obtain ⟨result, inside⟩ := h _ _ entered
  refine ⟨result, ?_, congrArg List.tail inside.inlines, inside.store⟩
  show List.length (_ ++ _) = List.length (_ ++ _)
  rw [List.length_append, List.length_append, List.length_map, List.length_map, same.report,
    inside.report]

end Coincide

/-- Not to look at the report is a discipline. -/
def Discipline.blind : Discipline where
  Keeps x := Coincide Eq x x
  steady := .steady
  bind h next := h.bind_eq next
  pushLayer := .layers ([] :: ·)
  popLayer := .layers List.tail
  declareInline := .declareInline
  meetDynamic := .meetDynamic

end Compiling

/-! ### Tags -/

namespace BuildContext

open Compiling

variable (ctx : BuildContext) {tag tag' : Tag} (same : tag.content = tag'.content)

include same

theorem headExpr_coincide : Coincide Eq (ctx.headExpr tag) (ctx.headExpr tag') := by
  unfold headExpr
  rw [← same]
  exact .readOr (Expr.read_site _ _ _ _) _

theorem headPath_coincide : Coincide Eq (headPath tag) (headPath tag') := by
  unfold headPath
  rw [← same]
  exact .readOr (Path.read_site _ _ _) _

theorem callee?_coincide : Coincide Eq (ctx.callee? tag) (ctx.callee? tag') := by
  have path := headPath_coincide same
  unfold callee?
  rw [← same]
  split
  · exact .pure rfl
  · split
    · exact .pure rfl
    · split
      · exact .bind_eq (Coincide.addError _ _) fun _ => path.bind_eq fun _ => .pure rfl
      · exact path.bind_eq fun _ => .pure rfl

/-- A block becomes the same node wherever its tag stands. -/
theorem block_coincide (body : Plan) (inverse : Option Plan) (inverted : Bool) :
    Coincide Eq (ctx.block tag body inverse inverted) (ctx.block tag' body inverse inverted) := by
  have callee := ctx.callee?_coincide same
  have head := ctx.headExpr_coincide same
  unfold block callOf
  simp only [← same]
  split
  · next openBlock found =>
    refine .bind_eq (Coincide.reporting (Builtin.open?_site _ _ found)) fun kind => ?_
    split
    · exact .pure rfl
    · exact .pure rfl
  · refine callee.bind_eq fun callee => ?_
    split
    · exact .bind_eq (Coincide.count _) fun _ => .pure rfl
    · exact head.bind_eq fun _ => .pure rfl

end BuildContext

/-! ### Sources -/

namespace Workshop

open Compiling

variable {entered : List String} {name : String} {compile : Option (Compiling Plan)}

section

variable {plan : Plan} {c c' : Compilation} (same : c.SameButReports c')

include same

theorem embedding_same : (embedding name (plan, c)).SameButReports (embedding name (plan, c')) := by
  refine ⟨same.report, same.inlines, ?_⟩
  show ({ c.store with embedded := Table.insert c.embedded name plan } : Store) =
    { c'.store with embedded := Table.insert c'.embedded name plan }
  rw [same.store, same.embedded]

theorem tabulating_same : (tabulating name (plan, c)).SameButReports (tabulating name (plan, c')) := by
  refine ⟨same.report, same.inlines, ?_⟩
  show ({ c.store with table := Table.insert c.table name plan } : Store) =
    { c'.store with table := Table.insert c'.table name plan }
  rw [same.store, same.table]

theorem addError_same (d : Diagnostic) :
    { c with report := c.report.addError d }.SameButReports
      { c' with report := c'.report.addError d } := by
  exact ⟨same.report.addError d d, same.inlines, same.store⟩

end

section

variable (h : ∀ action, compile = some action → Coincide Eq action action)

include h

theorem embed_coincide : Coincide Eq (embed entered name compile) (embed entered name compile) := by
  intro c c' same
  by_cases member : name ∈ entered
  · rw [embed_run_open entered name member, embed_run_open entered name member]
    exact ⟨rfl, addError_same same _⟩
  cases found : Table.get? c.embedded name with
  | some plan =>
      have found' : Table.get? c'.embedded name = some plan := by rw [← same.embedded, found]
      rw [embed_run_known entered name member _ found, embed_run_known entered name member _ found']
      exact ⟨rfl, same⟩
  | none =>
      have found' : Table.get? c'.embedded name = none := by rw [← same.embedded, found]
      rw [embed_run_new entered name member _ found, embed_run_new entered name member _ found']
      cases compile with
      | none => exact ⟨rfl, same⟩
      | some action =>
          have inside := Coincide.insidePartial (h action rfl) name c c' same
          simp only
          generalize (insidePartial name action).run c = r at inside ⊢
          generalize (insidePartial name action).run c' = r' at inside ⊢
          obtain ⟨plan, after⟩ := r
          obtain ⟨_, after'⟩ := r'
          obtain ⟨rfl, after⟩ := inside
          exact ⟨rfl, embedding_same after⟩

theorem tabulate_coincide :
    Coincide Eq (tabulate entered name compile) (tabulate entered name compile) := by
  intro c c' same
  by_cases known : name ∈ entered ∨ (Table.get? c.table name).isSome = true
  · have known' : name ∈ entered ∨ (Table.get? c'.table name).isSome = true := by
      rw [← same.table]
      exact known
    rw [tabulate_run_known entered name _ known, tabulate_run_known entered name _ known']
    exact ⟨rfl, same⟩
  obtain ⟨member, found⟩ := not_or.mp known
  rw [Option.not_isSome_iff_eq_none] at found
  have found' : Table.get? c'.table name = none := by rw [← same.table, found]
  rw [tabulate_run_new entered name member _ found, tabulate_run_new entered name member _ found']
  cases compile with
  | none => exact ⟨rfl, same⟩
  | some action =>
      have inside := Coincide.insidePartial (h action rfl) name c c' same
      show () = () ∧ (tabulating name _).SameButReports (tabulating name _)
      generalize (insidePartial name action).run c = r at inside ⊢
      generalize (insidePartial name action).run c' = r' at inside ⊢
      obtain ⟨plan, after⟩ := r
      obtain ⟨_, after'⟩ := r'
      obtain ⟨rfl, after⟩ := inside
      exact ⟨rfl, tabulating_same after⟩

theorem resolve_coincide (w : Workshop) (hasBlock : Bool) (site : Site) :
    Coincide Eq (w.resolve entered name hasBlock site compile)
      (w.resolve entered name hasBlock site compile) := by
  intro c c' same
  have known : c'.inlines.any (·.contains name) = c.inlines.any (·.contains name) := by
    rw [same.inlines]
  rw [resolve_run, resolve_run, known]
  split
  · exact ⟨rfl, same⟩
  split
  · exact ⟨rfl, same⟩
  split
  · exact ⟨rfl, (tabulate_coincide h c c' same).2⟩
  split
  · split
    · exact ⟨rfl, same⟩
    · exact ⟨rfl, addError_same same _⟩
  · have copied : Coincide Eq (embed entered name compile) (embed entered name compile) :=
      embed_coincide h
    obtain ⟨result, after⟩ := copied c c' same
    exact ⟨by simp only [result], after⟩

end

/-- Compiling a source does not look at the report, nor does compiling in the partials that it
enters. -/
theorem compileSource_blind (w : Workshop) (entered : List String) (available : Table String)
    (source : String) : Discipline.blind.Keeps (w.compileSource entered available source) := by
  revert source
  refine source_induction (motive := fun entered available =>
    ∀ source, Discipline.blind.Keeps (w.compileSource entered available source)) ?_
      entered available
  intro entered available ih source
  rw [compileSource_eq]
  apply Discipline.blind.bind (.steady (.reporting (Markup.readTemplate_steady _ _ _)))
  intro tokens
  apply BuildContext.build_keeps
  intro name hasBlock site
  apply resolve_coincide
  intro action given
  obtain ⟨source, found, rfl⟩ := Option.map_eq_some_iff.mp given
  exact ih name source found source

/-- The resolver of a builder does not look at the report. -/
theorem builder_blind (w : Workshop) (entered : List String) (available : Table String)
    (name : String) (hasBlock : Bool) (site : Site) :
    Discipline.blind.Keeps ((w.builder entered available).resolve name hasBlock site) := by
  apply resolve_coincide
  intro action given
  obtain ⟨source, found, rfl⟩ := Option.map_eq_some_iff.mp given
  exact compileSource_blind w _ _ source

end Workshop

end Stencil
