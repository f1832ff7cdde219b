import Stencil.Proofs.Compile.Agreement

/-!
Settings about white space change white space only.

The bare form of a plan is what is left without literals and without the indentation of partials, at
every depth. Two settings that differ in how white space is treated are read, reported and counted
alike, and the plans that they lead to have one bare form: literals come and go, and are merged with
different neighbours, but no other node does.
-/

namespace Stencil

open Markup Compiling

/-! ### Bare plans -/

mutual

/-- What is left of a node without literals and indentation. -/
def Node.bare : Node → List Node
  | .literal _ => []
  | .lookup e encoding => [.lookup e encoding]
  | .helper call encoding => [.helper call encoding]
  | .block kind body inverse params =>
    [.block kind (Node.bares body)
      (match inverse with
        | some inverse => some (Node.bares inverse)
        | none => none) params]
  | .inclusion call target block =>
    [.inclusion { call with indent := "" } (Target.bare target)
      (match block with
        | some block => some (Node.bares block)
        | none => none)]
  | .inlineDef name plan => [.inlineDef name (Node.bares plan)]

def Target.bare : Target → Target
  | .embedded plan => .embedded (Node.bares plan)
  | .named name => .named name
  | .dynamic e => .dynamic e
  | .partialBlock => .partialBlock

def Node.bares : List Node → List Node
  | [] => []
  | node :: nodes => Node.bare node ++ Node.bares nodes

end

/-- A plan without literals and without the indentation of partials, at every depth. -/
def Plan.bare (p : Plan) : Plan :=
  Node.bares p

namespace Plan

variable {p p' : Plan}

@[simp] theorem bare_nil : Plan.bare [] = [] := by
  rw [bare, Node.bares]

@[simp] theorem bare_cons (n : Node) (p : Plan) : Plan.bare (n :: p) = n.bare ++ p.bare := by
  rw [bare, Node.bares, bare]

theorem bare_append (p p' : Plan) : Plan.bare (p ++ p') = p.bare ++ p'.bare := by
  induction p with
  | nil => simp
  | cons n p ih => rw [List.cons_append, bare_cons, bare_cons, ih, List.append_assoc]

theorem bare_singleton (n : Node) : Plan.bare [n] = n.bare := by
  rw [bare_cons, bare_nil, List.append_nil]

/-- One node at most is left of a node. -/
theorem reverse_bare (n : Node) : n.bare.reverse = n.bare := by
  cases n <;> rfl

theorem bare_reverse (p : Plan) : Plan.bare p.reverse = p.bare.reverse := by
  induction p with
  | nil => simp
  | cons n p ih =>
      calc Plan.bare (n :: p).reverse
          = Plan.bare (p.reverse ++ [n]) := congrArg Plan.bare List.reverse_cons
        _ = (Plan.bare p).reverse ++ n.bare := by rw [bare_append, ih, bare_singleton]
        _ = (Plan.bare (n :: p)).reverse := by rw [bare_cons, List.reverse_append, reverse_bare]

/-- Merging literals does not show. -/
theorem bare_push (n : Node) (p : Plan) : (Plan.push n p).bare = n.bare ++ p.bare := by
  unfold push
  split
  · simp [Node.bare]
  · exact bare_cons _ _

theorem bare_push? (n : Option Node) (p : Plan) :
    Plan.bare (n.elim p (Plan.push · p)) = Plan.bare n.toList ++ p.bare := by
  cases n with
  | none => simp
  | some n => simp [bare_push]

end Plan

/-! ### Tags that differ in their indentation -/

theorem Markup.Tag.Alike.eq {t t' : Tag} (h : t.Alike Eq t') :
    t = { t' with indent := t.indent } := by
  obtain ⟨kind, content, site, indent⟩ := t
  obtain ⟨kind', ⟨head', params', hash', blockParams'⟩, site', indent'⟩ := t'
  obtain ⟨hkind, ⟨rfl, params, hash, rfl⟩, rfl⟩ := h
  rw [List.forall₂_eq_eq_eq] at params
  cases params
  cases hash.eq
  have kinds : kind = kind' := by
    cases hkind with
    | inclusion name => cases name <;> simp_all
    | inclusionBlock name => cases name <;> simp_all
    | _ => rfl
  rw [kinds]

theorem Target.Alike.bare_eq {g g' : Target}
    (h : g.Alike Eq (fun p p' => Plan.bare p = Plan.bare p') g') : g.bare = g'.bare := by
  cases h with
  | embedded h => exact congrArg Target.embedded h
  | dynamic h => rw [h]
  | _ => rfl

/-- Reports agree but for the journal, expressions are the same, and plans have one bare form. -/
def Correspondence.bare : Correspondence where
  report r r' := r.errors = r'.errors ∧ r.warnings = r'.warnings ∧ r.usage = r'.usage
  expr := Eq
  callee := Eq
  plan p p' := Plan.bare p = Plan.bare p'
  count f := fun ⟨errors, warnings, usage⟩ => ⟨errors, warnings, congrArg f usage⟩
  addError _ := fun ⟨errors, warnings, usage⟩ => ⟨congrArg (· ++ [_]) errors, warnings, usage⟩
  addWarning _ := fun ⟨errors, warnings, usage⟩ => ⟨errors, congrArg (· ++ [_]) warnings, usage⟩
  addEvent _ _ := fun ⟨errors, warnings, usage⟩ => ⟨errors, warnings, usage⟩
  enter := fun ⟨_, warnings, usage⟩ => ⟨rfl, warnings, usage⟩
  leave name := fun ⟨errors, _, _⟩ ⟨inside, warnings, usage⟩ =>
    ⟨congrArg₂ (· ++ ·) errors (congrArg (List.map (Diagnostic.inPartial name)) inside), warnings,
      usage⟩
  path _ := rfl
  literal _ _ := rfl
  literal_left := Eq.symm
  literal_right := id
  call callee args hash := by
    rw [List.forall₂_eq_eq_eq] at args
    rw [callee, args, hash.eq]
  nil := rfl
  text_left _ := rfl
  text_right _ := rfl
  push node plan := by rw [Plan.bare_push?, Plan.bare_push?, node, plan]
  reverse plan := by rw [Plan.bare_reverse, Plan.bare_reverse, plan]
  inlineDef name plan := by
    rw [Plan.bare_singleton, Plan.bare_singleton]
    exact congrArg (fun p => [Node.inlineDef name p]) plan
  inclusion {t t' g g' b b'} name tag target block := by
    have call : { BuildContext.inclusionOf t name with indent := "" } =
        { BuildContext.inclusionOf t' name with indent := "" } := by
      rw [tag.eq]
      rfl
    have bare (g : Target) (b : Option Plan) (call : Inclusion) :
        Plan.bare [.inclusion call g b] =
          [.inclusion { call with indent := "" } g.bare (b.map Plan.bare)] := by
      rw [Plan.bare_singleton]
      cases b <;> rfl
    rw [bare, bare, call, target.bare_eq]
    cases block with
    | none => rfl
    | some h => rw [Option.map_some, Option.map_some, h]

namespace Correspondence

theorem bare_addError {r r' : Report} (d : Diagnostic) (h : Correspondence.bare.report r r') :
    Correspondence.bare.report (r.addError d) (r'.addError d) := by
  obtain ⟨errors, warnings, usage⟩ := h
  exact ⟨congrArg (· ++ [d]) errors, warnings, usage⟩

/-- What a reader or a builder does with one set of helpers is done alike. -/
theorem bare_readsCallees (isHelper : String → Bool) :
    Correspondence.bare.ReadsCallees isHelper isHelper := by
  intro site head hasArguments
  unfold Expr.callee
  simp only
  split
  · exact .bind (.count _) fun _ _ _ => .pure rfl
  · refine .bind (path_reads head site) ?_
    rintro path _ rfl
    split
    · exact .bind (.writes fun _ _ => bare_addError _) fun _ _ _ => .pure rfl
    · exact .pure rfl

section Builders

variable (ctx : BuildContext) (tag : Tag)

theorem bare_headExpr : Correspondence.bare.Agree Eq (ctx.headExpr tag) (ctx.headExpr tag) :=
  .readOr (expr_reads (bare_readsCallees _) _ _) rfl

theorem bare_callee? : Correspondence.bare.Agree Eq (ctx.callee? tag) (ctx.callee? tag) := by
  have head :
      Correspondence.bare.Agree Eq (BuildContext.headPath tag) (BuildContext.headPath tag) :=
    .readOr (path_reads _ _) rfl
  have path : Correspondence.bare.Agree Eq
      (do return some (Callee.path (← BuildContext.headPath tag), HelperStyle.rendering))
      (do return some (Callee.path (← BuildContext.headPath tag), HelperStyle.rendering)) := by
    refine .bind head ?_
    rintro p _ rfl
    exact .pure rfl
  unfold BuildContext.callee?
  split
  · exact .pure rfl
  · split
    · exact .pure rfl
    · split
      · exact .bind (.reporting (.writes fun _ _ => bare_addError _)) fun _ _ _ => path
      · exact path

theorem bare_interpolation (raw : Bool) :
    Correspondence.bare.Agree Eq (ctx.interpolation tag raw) (ctx.interpolation tag raw) := by
  unfold BuildContext.interpolation
  split
  · exact .bind (.addError rfl) fun _ _ _ => .pure rfl
  · refine .bind (bare_callee? ctx tag) ?_
    rintro callee _ rfl
    split
    · exact .bind (.count _) fun _ _ _ => .pure rfl
    · refine .bind (bare_headExpr ctx tag) ?_
      rintro e _ rfl
      exact .pure rfl

theorem bare_kind_eq {kind kind' : BlockKind} (h : kind.Alike Eq kind') : kind = kind' := by
  cases h with
  | condition negate h zero =>
      rw [h]
      cases zero with
      | none => rfl
      | some zero => rw [zero]
  | context h => rw [h]
  | each h => rw [h]

/-- Blocks of one kind whose branches have bare forms in common. -/
theorem bare_blockNode (kind : BlockKind) (params : List String) {b b' : Plan} {i i' : Option Plan}
    (body : Correspondence.bare.plan b b') (inverse : Option.Rel Correspondence.bare.plan i i') :
    Correspondence.bare.plan [.block kind b i params] [.block kind b' i' params] := by
  have bare (b : Plan) (i : Option Plan) :
      Plan.bare [.block kind b i params] = [.block kind b.bare (i.map Plan.bare) params] := by
    rw [Plan.bare_singleton]
    cases i <;> rfl
  change Plan.bare [.block kind b i params] = Plan.bare [.block kind b' i' params]
  have body : b.bare = b'.bare := body
  rw [bare, bare, body]
  cases inverse with
  | none => rfl
  | some inverse => exact congrArg (fun p => [Node.block kind _ (some p) params]) inverse

theorem bare_block {b b' : Plan} {i i' : Option Plan} (body : Correspondence.bare.plan b b')
    (inverse : Option.Rel Correspondence.bare.plan i i') (inverted : Bool) :
    Correspondence.bare.Agree (fun n n' => Correspondence.bare.plan [n] [n'])
      (ctx.block tag b i inverted) (ctx.block tag b' i' inverted) := by
  have opened : Option.Rel (fun o o' => ∀ site, Correspondence.bare.Reports
      (BlockKind.Alike Correspondence.bare.expr) (o site) (o' site))
      (Builtin.open? tag.content) (Builtin.open? tag.content) :=
    open?_reports ⟨rfl, List.forall₂_same.mpr fun _ _ => rfl,
      List.forall₂_same.mpr fun _ _ => ⟨rfl, rfl⟩, rfl⟩
  unfold BuildContext.block
  simp only
  split
  · next openBlock found =>
    rw [found] at opened
    cases opened with
    | some kinds =>
        refine .bind (.reporting (kinds tag.site)) fun kind kind' same => ?_
        obtain rfl := bare_kind_eq same
        split
        · refine .pure (bare_blockNode _ _ ?_ (.some body))
          cases inverse with
          | none => rfl
          | some inverse => exact inverse
        · exact .pure (bare_blockNode _ _ body inverse)
  · refine .bind (bare_callee? ctx tag) ?_
    rintro callee _ rfl
    split
    · exact .bind (.count _) fun _ _ _ => .pure (bare_blockNode _ _ body inverse)
    · refine .bind (bare_headExpr ctx tag) ?_
      rintro e _ rfl
      exact .pure (bare_blockNode _ _ body inverse)

theorem bare_rawBlock (body : String) :
    Correspondence.bare.Agree Eq (ctx.rawBlock tag body) (ctx.rawBlock tag body) := by
  unfold BuildContext.rawBlock
  split
  · exact .pure rfl
  · exact .bind (.count _) fun _ _ _ => .pure rfl

end Builders

/-- Settings that differ in how white space is treated. -/
theorem bare_between (s : Settings) (ignore prevent : Bool) (registry : Registry) :
    Correspondence.bare.Between { settings := s, registry }
      { settings := { s with ignoreStandalone := ignore, preventIndent := prevent }, registry }
    where
  start := ⟨rfl, rfl, rfl⟩
  callees := bare_readsCallees _
  delimiters := rfl
  runtimePartials := rfl
  partials := rfl
  builders := by
    rintro ⟨settings, style?, resolve⟩ ⟨settings', style?', resolve'⟩ ⟨⟩ ⟨⟩ ⟨⟩ ⟨⟩ resolves
    -- these nodes ask neither the settings nor the tag for anything that differs
    constructor
    case interpolation =>
      intro t t' raw alike
      rw [alike.eq]
      exact (bare_interpolation ⟨s, registry.style?, resolve⟩ t' raw).mono fun _ _ same =>
        congrArg (fun n : Option Node => Plan.bare n.toList) same
    case block =>
      intro t t' b b' i i' inverted alike body inverse
      rw [alike.eq]
      exact bare_block ⟨s, registry.style?, resolve⟩ t' body inverse inverted
    case rawBlock =>
      intro t t' body alike
      rw [alike.eq]
      exact (bare_rawBlock ⟨s, registry.style?, resolve⟩ t' body).mono fun _ _ same =>
        congrArg (fun n : Node => Plan.bare [n]) same
    case resolve => exact resolves

end Correspondence

/-! ### Whole calls -/

/-- A table of plans without literals and without the indentation of partials. -/
def Table.bare (t : Table Plan) : Table Plan :=
  t.map fun e => (e.1, Plan.bare e.2)

theorem Table.bare_eq {t t' : Table Plan}
    (h : Table.Rel (fun _ p p' => Plan.bare p = Plan.bare p') t t') : t.bare = t'.bare := by
  induction h with
  | nil => rfl
  | cons first _ ih => exact congrArg₂ List.cons (Prod.ext first.1 first.2) ih

/-- Two results that differ in white space at most: the same complaints, or templates with the same
warnings and usage, whose plans and partials are the same but for literals and indentation. -/
inductive SameButWhiteSpace :
    Except (List Diagnostic) Template → Except (List Diagnostic) Template → Prop
  | error (errors : List Diagnostic) : SameButWhiteSpace (.error errors) (.error errors)
  | ok {t t' : Template} (warnings : t.warnings = t'.warnings) (usage : t.usage = t'.usage)
      (plan : Plan.bare t.plan = Plan.bare t'.plan)
      (partials : Table.bare t.partials = Table.bare t'.partials) :
      SameButWhiteSpace (.ok t) (.ok t')

/-- For every registry, every template and any two settings that differ only in whether lines of
their own are kept and how partials are indented, a compile call finds the same errors and warnings
and counts the same features, and the results differ in white space at most. -/
theorem Registry.compile_sameButWhiteSpace (registry : Registry) (s : Settings)
    (ignore prevent : Bool) (source : String) :
    let s' : Settings := { s with ignoreStandalone := ignore, preventIndent := prevent }
    let report := (({ settings := s, registry : Workshop }.compileTemplate source).run {}).2.report
    let report' :=
      (({ settings := s', registry : Workshop }.compileTemplate source).run {}).2.report
    (report.errors = report'.errors ∧ report.warnings = report'.warnings ∧
        report.usage = report'.usage) ∧
      SameButWhiteSpace (registry.compile s source).result (registry.compile s' source).result := by
  intro s' report report'
  have between := Correspondence.bare_between s ignore prevent registry
  obtain ⟨plan, states⟩ := Correspondence.compileTemplate_agree between source {} {}
    ⟨between.start, rfl, .nil, .nil, rfl⟩
  refine ⟨states.report, ?_⟩
  obtain ⟨errors, warnings, usage⟩ := states.report
  have partials := Table.bare_eq states.table
  rw [Registry.compile_result, Registry.compile_result]
  simp only [errors]
  split
  · exact .ok warnings usage plan partials
  · exact .error _

end Stencil
