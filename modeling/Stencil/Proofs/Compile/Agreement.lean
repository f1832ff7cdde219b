import Stencil.Proofs.Compile.Correspondence
import Stencil.Proofs.Compile.Sources

/-!
Compile calls that agree.

Two calls agree when they take states that are related into related states and give related results.
Builders that make related nodes of tags that are alike agree on whole plans, because the blocks of
both are opened and closed by the same tags. Calls that resolve partials by the same rules agree on
every source, by induction on the partials that may still be entered.
-/

namespace Stencil

open Compiling Markup

namespace Correspondence

/-! ### States -/

/-- States of two calls that have come equally far. -/
structure States (cor : Correspondence) (c c' : Compilation) : Prop where
  report : cor.report c.report c'.report
  inlines : c.inlines = c'.inlines
  embedded : Table.Rel (fun _ => cor.plan) c.embedded c'.embedded
  table : Table.Rel (fun _ => cor.plan) c.table c'.table
  hasDynamic : c.hasDynamic = c'.hasDynamic

variable (cor : Correspondence) {α α' β β' : Type} {R : α → α' → Prop} {S : β → β' → Prop}

/-- From related states the computations come to results related by `R` and to related states. -/
def Agree (R : α → α' → Prop) (x : Compiling α) (y : Compiling α') : Prop :=
  ∀ c c', cor.States c c' → R (x.run c).1 (y.run c').1 ∧ cor.States (x.run c).2 (y.run c').2

variable {cor}

namespace Agree

theorem pure {a : α} {b : α'} (h : R a b) : cor.Agree R (Pure.pure a) (Pure.pure b) :=
  fun _ _ states => ⟨h, states⟩

theorem bind {x : Compiling α} {y : Compiling α'} {f : α → Compiling β} {g : α' → Compiling β'}
    (h : cor.Agree R x y) (next : ∀ a b, R a b → cor.Agree S (f a) (g b)) :
    cor.Agree S (x >>= f) (y >>= g) := by
  intro c c' states
  obtain ⟨result, states⟩ := h c c' states
  exact next _ _ result _ _ states

theorem mono {R' : α → α' → Prop} {x : Compiling α} {y : Compiling α'} (h : cor.Agree R x y)
    (imp : ∀ a b, R a b → R' a b) : cor.Agree R' x y :=
  fun c c' states => ⟨imp _ _ (h c c' states).1, (h c c' states).2⟩

theorem reporting {x : StateM Report α} {y : StateM Report α'} (h : cor.Reports R x y) :
    cor.Agree R (reporting x) (reporting y) := by
  intro c c' states
  obtain ⟨result, report⟩ := h _ _ states.report
  exact ⟨result, { states with report }⟩

theorem addError {d : Diagnostic} (found : d.missing? = none) :
    cor.Agree Eq (Compiling.addError d) (Compiling.addError d) :=
  .reporting (.addError found)

theorem count (f : Usage → Usage) : cor.Agree Eq (Compiling.count f) (Compiling.count f) :=
  .reporting (.writes fun _ _ => cor.count f)

theorem readOr {default : α} {default' : α'} {x : Reading α} {y : Reading α'}
    (h : cor.Reads R x y) (related : R default default') :
    cor.Agree R (readOr default x) (readOr default' y) := by
  refine .bind (.reporting h) fun outcome outcome' both => ?_
  cases both with
  | ok result => exact .pure result
  | error found => exact .bind (.addError found) fun _ _ _ => .pure related

/-- Both calls change the known inline partials in the same way. -/
theorem layers (f : List (List String) → List (List String)) :
    cor.Agree Eq (modify fun c => { c with inlines := f c.inlines } : Compiling Unit)
      (modify fun c => { c with inlines := f c.inlines }) :=
  fun _ _ states => ⟨rfl, { states with inlines := congrArg f states.inlines }⟩

theorem pushLayer : cor.Agree Eq pushLayer pushLayer :=
  .layers ([] :: ·)

theorem popLayer : cor.Agree Eq popLayer popLayer :=
  .layers List.tail

theorem declareInline (name : String) :
    cor.Agree Eq (declareInline name) (declareInline name) := by
  intro c c' states
  rw [declareInline_run, declareInline_run, ← states.inlines]
  cases c.inlines with
  | nil => exact ⟨rfl, states⟩
  | cons layer layers =>
      simp only
      split
      · exact ⟨rfl, states⟩
      · exact ⟨rfl, { states with inlines := rfl }⟩

theorem meetDynamic :
    cor.Agree Eq (modify fun c => { c with hasDynamic := true } : Compiling Unit)
      (modify fun c => { c with hasDynamic := true }) :=
  fun _ _ states => ⟨rfl, { states with hasDynamic := rfl }⟩

/-- Both calls have met a computed name, or neither has. -/
theorem ask {f : Bool → Compiling α} {g : Bool → Compiling α'}
    (h : ∀ dynamic, cor.Agree R (f dynamic) (g dynamic)) :
    cor.Agree R (do f (← get).hasDynamic) (do g (← get).hasDynamic) := by
  intro c c' states
  change R ((f c.hasDynamic).run c).1 ((g c'.hasDynamic).run c').1 ∧
    cor.States ((f c.hasDynamic).run c).2 ((g c'.hasDynamic).run c').2
  rw [← states.hasDynamic]
  exact h _ c c' states

/-- The sources of a partial agree inside it. -/
theorem insidePartial {x : Compiling α} {y : Compiling α'} (h : cor.Agree R x y) (name : String) :
    cor.Agree R (insidePartial name x) (insidePartial name y) := by
  intro c c' states
  rw [insidePartial_run, insidePartial_run]
  have entered : cor.States (enterPartial name c) (enterPartial name c') :=
    { states with
      report := cor.enter (cor.addEvent _ _ states.report)
      inlines := congrArg ([] :: ·) states.inlines }
  obtain ⟨result, inside⟩ := h _ _ entered
  exact ⟨result, { inside with
    report := cor.leave name states.report inside.report
    inlines := congrArg List.tail inside.inlines }⟩

end Agree

/-! ### Drafts -/

/-- Open blocks of tags that are alike, with related branches. -/
structure ScopesAlike (cor : Correspondence) (s s' : OpenBranches) : Prop where
  tag : s.tag.Alike cor.expr s'.tag
  body : cor.plan s.body s'.body
  inverse : Option.Rel cor.plan s.inverse s'.inverse
  chained : s.chained = s'.chained

structure DraftsAlike (cor : Correspondence) (d d' : Draft) : Prop where
  root : cor.plan d.root d'.root
  scopes : List.Forall₂ cor.ScopesAlike d.scopes d'.scopes

variable {d d' : Draft}

/-- Adding a node, or none, changes the innermost branch. -/
theorem push?_eq (n : Option Node) (d : Draft) :
    d.push? n =
      match d.scopes with
      | [] => { d with root := n.elim d.root (Plan.push · d.root) }
      | scope :: scopes =>
        match scope.inverse with
        | none => { d with scopes :=
            { scope with body := n.elim scope.body (Plan.push · scope.body) } :: scopes }
        | some inverse => { d with scopes :=
            { scope with inverse := some (n.elim inverse (Plan.push · inverse)) } :: scopes } := by
  obtain ⟨root, _ | ⟨⟨tag, body, inverse, chained⟩, scopes⟩⟩ := d
  · cases n <;> rfl
  · cases inverse <;> cases n <;> rfl

theorem DraftsAlike.push? (h : cor.DraftsAlike d d') (n n' : Option Node)
    (node : cor.plan n.toList n'.toList) : cor.DraftsAlike (d.push? n) (d'.push? n') := by
  obtain ⟨root, scopes⟩ := d
  obtain ⟨root', scopes'⟩ := d'
  obtain ⟨hroot, hscopes⟩ := h
  rw [push?_eq, push?_eq]
  cases hscopes with
  | nil => exact ⟨cor.push node hroot, .nil⟩
  | @cons s s' _ _ first others =>
      obtain ⟨tag, body, inverse, chained⟩ := s
      obtain ⟨tag', body', inverse', chained'⟩ := s'
      obtain ⟨htag, hbody, hinverse, hchained⟩ := first
      cases hinverse with
      | none => exact ⟨hroot, .cons ⟨htag, cor.push node hbody, .none, hchained⟩ others⟩
      | some h => exact ⟨hroot, .cons ⟨htag, hbody, .some (cor.push node h), hchained⟩ others⟩

theorem DraftsAlike.closedByTag_eq (h : cor.DraftsAlike d d') :
    BuildContext.closedByTag d = BuildContext.closedByTag d' := by
  have scopes := h.scopes
  unfold BuildContext.closedByTag
  generalize d.scopes = s, d'.scopes = s' at scopes
  induction scopes with
  | nil => rfl
  | cons first _ ih =>
      simp only [List.takeWhile_cons, first.chained]
      split
      · simpa using ih
      · rfl

theorem acceptsElse_eq {s s' : OpenBranches} (h : cor.ScopesAlike s s') :
    BuildContext.acceptsElse s = BuildContext.acceptsElse s' := by
  obtain ⟨⟨kind, content, site, indent⟩, body, inverse, chained⟩ := s
  obtain ⟨⟨kind', content', site', indent'⟩, body', inverse', chained'⟩ := s'
  obtain ⟨⟨hkind, -, -⟩, -, hinverse, -⟩ := h
  unfold BuildContext.acceptsElse
  cases hinverse <;> cases hkind <;> rfl

/-! ### Building -/

/-- Builders that make related nodes of tags that are alike, and resolve partials alike. -/
structure Builders (cor : Correspondence) (ctx ctx' : BuildContext) : Prop where
  interpolation : ∀ {t t' : Tag} (raw : Bool), t.Alike cor.expr t' →
    cor.Agree (fun n n' => cor.plan n.toList n'.toList) (ctx.interpolation t raw)
      (ctx'.interpolation t' raw)
  block : ∀ {t t' : Tag} {b b' i i'} (inverted : Bool), t.Alike cor.expr t' → cor.plan b b' →
    Option.Rel cor.plan i i' →
      cor.Agree (fun n n' => cor.plan [n] [n']) (ctx.block t b i inverted)
        (ctx'.block t' b' i' inverted)
  rawBlock : ∀ {t t' : Tag} (body : String), t.Alike cor.expr t' →
    cor.Agree (fun n n' => cor.plan [n] [n']) (ctx.rawBlock t body) (ctx'.rawBlock t' body)
  resolve : ∀ name hasBlock site, cor.Agree (Option.Rel (Target.Alike cor.expr cor.plan))
    (ctx.resolve name hasBlock site) (ctx'.resolve name hasBlock site)

section Building

variable {ctx ctx' : BuildContext} {t t' : Tag}

theorem openScope_agree (tag : t.Alike cor.expr t') (chained : Bool) (h : cor.DraftsAlike d d') :
    cor.Agree cor.DraftsAlike (BuildContext.openScope t chained d)
      (BuildContext.openScope t' chained d') :=
  .bind .pushLayer fun _ _ _ => .pure ⟨h.root, .cons ⟨tag, cor.nil, .none, rfl⟩ h.scopes⟩

theorem beginElse_agree (tag : t.Alike cor.expr t') (chained : Bool) (h : cor.DraftsAlike d d') :
    cor.Agree cor.DraftsAlike (BuildContext.beginElse t chained d)
      (BuildContext.beginElse t' chained d') := by
  obtain ⟨root, scopes⟩ := d
  obtain ⟨root', scopes'⟩ := d'
  obtain ⟨hroot, hscopes⟩ := h
  unfold BuildContext.beginElse
  cases hscopes with
  | nil => exact .pure ⟨hroot, .nil⟩
  | @cons s s' scopes scopes' first others =>
      simp only [acceptsElse_eq first]
      split
      · refine .bind .popLayer fun _ _ _ => .bind .pushLayer fun _ _ _ => ?_
        have begun : cor.DraftsAlike { root, scopes := { s with inverse := some [] } :: scopes }
            { root := root', scopes := { s' with inverse := some [] } :: scopes' } :=
          ⟨hroot, .cons { first with inverse := .some cor.nil } others⟩
        split
        · exact openScope_agree tag true begun
        · exact .pure begun
      · exact .pure ⟨hroot, .cons first others⟩

/-- Both definitions of an inline partial are new, or neither is. -/
theorem beginInline_agree (tag : t.Alike cor.expr t') (name : String) (h : cor.DraftsAlike d d') :
    cor.Agree cor.DraftsAlike (BuildContext.beginInline t name d)
      (BuildContext.beginInline t' name d') := by
  refine .bind (.declareInline name) ?_
  rintro fresh _ rfl
  simp only [tag.site]
  split
  · exact .bind (.reporting (.writes fun _ _ => cor.addWarning _)) fun _ _ _ =>
      openScope_agree tag false h
  · exact openScope_agree tag false h

section

variable (builders : cor.Builders ctx ctx')

include builders

theorem target_agree (tag : t.Alike cor.expr t') {name name' : PartialName}
    (alike : name.Alike cor.expr name') (hasBlock : Bool) :
    cor.Agree (Option.Rel fun g g' => g.1 = g'.1 ∧ g.2.Alike cor.expr cor.plan g'.2)
      (ctx.target t name hasBlock) (ctx'.target t' name' hasBlock) := by
  cases alike with
  | static name =>
      unfold BuildContext.target
      rw [← tag.site]
      refine .bind (builders.resolve name hasBlock t.site) ?_
      rintro _ _ (⟨target⟩ | _)
      · exact .pure (.some ⟨rfl, target⟩)
      · exact .pure .none
  | dynamic computed =>
      exact .bind .meetDynamic fun _ _ _ =>
        .pure (.some ⟨congrArg Site.tag tag.site, .dynamic computed⟩)

theorem inclusion_agree (tag : t.Alike cor.expr t') {name name' : PartialName}
    (alike : name.Alike cor.expr name') {b b' : Option Plan} (block : Option.Rel cor.plan b b') :
    cor.Agree (fun n n' => cor.plan n.toList n'.toList) (ctx.inclusion t name b)
      (ctx'.inclusion t' name' b') := by
  have same : b.isSome = b'.isSome := by cases block <;> rfl
  have found : cor.Agree (fun n n' => cor.plan n.toList n'.toList)
      (do return (← ctx.target t name b.isSome).map fun e =>
        Node.inclusion (BuildContext.inclusionOf t e.1) e.2 b)
      (do return (← ctx'.target t' name' b'.isSome).map fun e =>
        Node.inclusion (BuildContext.inclusionOf t' e.1) e.2 b') := by
    rw [← same]
    refine .bind (target_agree builders tag alike b.isSome) ?_
    rintro _ _ (@⟨⟨found, g⟩, ⟨_, g'⟩, ⟨rfl, target⟩⟩ | _)
    · exact .pure (cor.inclusion found tag target block)
    · exact .pure cor.nil
  rw [BuildContext.inclusion_eq, BuildContext.inclusion_eq, tag.content.params.length_eq, tag.site]
  split
  · exact .bind (.addError rfl) fun _ _ _ => found
  · exact found

theorem scopeNode_agree {s s' : OpenBranches} (h : cor.ScopesAlike s s') :
    cor.Agree (fun n n' => cor.plan n.toList n'.toList) (ctx.scopeNode s) (ctx'.scopeNode s') := by
  obtain ⟨⟨kind, content, site, indent⟩, body, inverse, chained⟩ := s
  obtain ⟨⟨kind', content', site', indent'⟩, body', inverse', chained'⟩ := s'
  obtain ⟨tag, hbody, hinverse, -⟩ := h
  have branch := cor.reverse hbody
  have other : Option.Rel cor.plan (inverse.map List.reverse) (inverse'.map List.reverse) := by
    cases hinverse with
    | none => exact .none
    | some h => exact .some (cor.reverse h)
  have hkind := tag.kind
  unfold BuildContext.scopeNode
  cases hkind with
  | opening inverted =>
      exact .bind (builders.block inverted tag branch other) fun _ _ node => .pure node
  | alternative =>
      exact .bind (builders.block false tag branch other) fun _ _ node => .pure node
  | inclusionBlock name => exact inclusion_agree builders tag name (.some branch)
  | inlineDef name => exact .pure (cor.inlineDef name branch)
  | _ => exact .pure cor.nil

theorem closeScope_agree (h : cor.DraftsAlike d d') :
    cor.Agree cor.DraftsAlike (ctx.closeScope d) (ctx'.closeScope d') := by
  obtain ⟨root, scopes⟩ := d
  obtain ⟨root', scopes'⟩ := d'
  obtain ⟨hroot, hscopes⟩ := h
  unfold BuildContext.closeScope
  cases hscopes with
  | nil => exact .pure ⟨hroot, .nil⟩
  | @cons s s' scopes scopes' first others =>
      refine .bind (scopeNode_agree builders first) fun n n' node =>
        .bind .popLayer fun _ _ _ => .pure ?_
      have outer : cor.DraftsAlike { root, scopes } { root := root', scopes := scopes' } :=
        ⟨hroot, others⟩
      exact outer.push? n n' node

theorem closeScopes_agree (n : Nat) (h : cor.DraftsAlike d d') :
    cor.Agree cor.DraftsAlike (ctx.closeScopes n d) (ctx'.closeScopes n d') := by
  induction n generalizing d d' with
  | zero => exact .pure h
  | succ n ih => exact .bind (closeScope_agree builders h) fun _ _ closed => ih closed

theorem addTag_agree (tag : t.Alike cor.expr t') (h : cor.DraftsAlike d d') :
    cor.Agree cor.DraftsAlike (ctx.addTag d t) (ctx'.addTag d' t') := by
  obtain ⟨kind, content, site, indent⟩ := t
  obtain ⟨kind', content', site', indent'⟩ := t'
  have hkind := tag.kind
  unfold BuildContext.addTag
  cases hkind with
  | interpolation raw =>
      exact .bind (builders.interpolation raw tag) fun n n' node => .pure (h.push? n n' node)
  | comment => exact .pure h
  | opening => exact openScope_agree tag false h
  | inclusionBlock => exact openScope_agree tag false h
  | inlineDef name => exact beginInline_agree tag name h
  | alternative chained => exact beginElse_agree tag chained h
  | closing =>
      simp only [h.closedByTag_eq]
      exact closeScopes_agree builders _ h
  | inclusion name =>
      exact .bind (inclusion_agree builders tag name .none) fun n n' node =>
        .pure (h.push? n n' node)
  | rawBlock body =>
      exact .bind (builders.rawBlock body tag) fun n n' node =>
        .pure (h.push? (some n) (some n') node)

theorem addTokens_agree {tokens tokens' : List Token} (alike : TokensAlike cor.expr tokens tokens')
    (h : cor.DraftsAlike d d') :
    cor.Agree cor.DraftsAlike (ctx.addTokens d tokens) (ctx'.addTokens d' tokens') := by
  induction alike generalizing d d' with
  | nil => exact .pure h
  | left text _ ih => exact ih (h.push? (some (.literal text)) none (cor.text_left text))
  | right text _ ih =>
      exact ih (h.push? none (some (.literal text)) (cor.text_right text))
  | tag here _ ih => exact .bind (addTag_agree builders here h) fun _ _ added => ih added

/-- Tokens that are alike give related plans. -/
theorem build_agree {tokens tokens' : List Token} (alike : TokensAlike cor.expr tokens tokens') :
    cor.Agree cor.plan (ctx.build tokens) (ctx'.build tokens') := by
  refine .bind (addTokens_agree builders alike ⟨cor.nil, .nil⟩) fun d d' drafted => ?_
  rw [drafted.scopes.length_eq]
  exact .bind (closeScopes_agree builders _ drafted) fun _ _ closed =>
    .pure (cor.reverse closed.root)

end

end Building

/-! ### Partials -/

/-- Two workshops that look for the same partials and agree on all that a single tag needs. -/
structure Between (cor : Correspondence) (w w' : Workshop) : Prop where
  start : cor.report {} {}
  callees : cor.ReadsCallees w.registry.hasHelper w'.registry.hasHelper
  delimiters : w.settings.delimiters = w'.settings.delimiters
  runtimePartials : w.settings.runtimePartials = w'.settings.runtimePartials
  partials : w.registry.partials = w'.registry.partials
  builders : ∀ {ctx ctx' : BuildContext}, ctx.settings = w.settings →
    ctx.style? = w.registry.style? → ctx'.settings = w'.settings →
    ctx'.style? = w'.registry.style? →
    (∀ name hasBlock site, cor.Agree (Option.Rel (Target.Alike cor.expr cor.plan))
      (ctx.resolve name hasBlock site) (ctx'.resolve name hasBlock site)) → cor.Builders ctx ctx'

section Partials

variable {w w' : Workshop} {compile compile' : Option (Compiling Plan)}

/-- The plan of a partial is copied in by both calls, or by neither. -/
theorem embed_agree (entered : List String) (name : String)
    (sources : Option.Rel (cor.Agree cor.plan) compile compile') :
    cor.Agree (Option.Rel cor.plan) (Workshop.embed entered name compile)
      (Workshop.embed entered name compile') := by
  by_cases opened : name ∈ entered
  · intro c c' states
    rw [Workshop.embed_run_open entered name opened, Workshop.embed_run_open entered name opened]
    exact ⟨.none, { states with report := cor.addError rfl states.report }⟩
  intro c c' states
  have known := states.embedded.get? name
  cases found : Table.get? c.embedded name with
  | some plan =>
      cases found' : Table.get? c'.embedded name with
      | none =>
          rw [found, found'] at known
          cases known
      | some plan' =>
          rw [found, found'] at known
          rw [Workshop.embed_run_known entered name opened _ found,
            Workshop.embed_run_known entered name opened _ found']
          exact ⟨known, states⟩
  | none =>
      cases found' : Table.get? c'.embedded name with
      | some plan' =>
          rw [found, found'] at known
          cases known
      | none =>
          rw [Workshop.embed_run_new entered name opened _ found,
            Workshop.embed_run_new entered name opened _ found']
          cases sources with
          | none => exact ⟨.none, states⟩
          | some source =>
              obtain ⟨plan, behind⟩ := Agree.insidePartial source name c c' states
              exact ⟨.some plan, { behind with embedded := behind.embedded.insert plan }⟩

/-- The plan of a partial is put into the tables of both calls, or of neither. -/
theorem tabulate_agree (entered : List String) (name : String)
    (sources : Option.Rel (cor.Agree cor.plan) compile compile') :
    cor.Agree Eq (Workshop.tabulate entered name compile)
      (Workshop.tabulate entered name compile') := by
  intro c c' states
  have same : (Table.get? c.table name).isSome = (Table.get? c'.table name).isSome :=
    states.table.contains_eq name
  by_cases known : name ∈ entered ∨ (Table.get? c.table name).isSome = true
  · rw [Workshop.tabulate_run_known entered name _ known,
      Workshop.tabulate_run_known entered name _ (same ▸ known)]
    exact ⟨rfl, states⟩
  obtain ⟨opened, new⟩ := not_or.mp known
  have new' := same ▸ new
  rw [Option.not_isSome_iff_eq_none] at new new'
  rw [Workshop.tabulate_run_new entered name opened _ new,
    Workshop.tabulate_run_new entered name opened _ new']
  cases sources with
  | none => exact ⟨rfl, states⟩
  | some source =>
      obtain ⟨plan, behind⟩ := Agree.insidePartial source name c c' states
      exact ⟨rfl, { behind with table := behind.table.insert plan }⟩

variable (between : cor.Between w w')

include between

theorem resolve_agree (entered : List String) (name : String) (hasBlock : Bool) (site : Site)
    (sources : Option.Rel (cor.Agree cor.plan) compile compile') :
    cor.Agree (Option.Rel (Target.Alike cor.expr cor.plan))
      (w.resolve entered name hasBlock site compile)
      (w'.resolve entered name hasBlock site compile') := by
  intro c c' states
  have registered : w.registry.partial? name = w'.registry.partial? name :=
    congrArg (Table.get? · name) between.partials
  rw [Workshop.resolve_run, Workshop.resolve_run, ← states.inlines, ← between.runtimePartials,
    ← registered]
  split
  · exact ⟨.some .partialBlock, states⟩
  split
  · exact ⟨.some (.named name), states⟩
  split
  · exact ⟨.some (.named name), (tabulate_agree entered name sources c c' states).2⟩
  split
  · split
    · exact ⟨.some (.named name), states⟩
    · exact ⟨.none, { states with
        report := cor.addError rfl states.report
        inlines := rfl }⟩
  · obtain ⟨plan, behind⟩ := embed_agree entered name sources c c' states
    refine ⟨.some ?_, behind⟩
    revert plan
    generalize ((Workshop.embed entered name compile).run c).1 = found,
      ((Workshop.embed entered name compile').run c').1 = found'
    rintro (plan | _)
    · exact .embedded plan
    · exact .named name

/-- The calls agree on every source. By induction on the partials that may be entered. -/
theorem compileSource_agree (entered : List String) (available : Table String) (source : String) :
    cor.Agree cor.plan (w.compileSource entered available source)
      (w'.compileSource entered available source) := by
  revert source
  refine Workshop.source_induction (motive := fun entered available => ∀ source,
    cor.Agree cor.plan (w.compileSource entered available source)
      (w'.compileSource entered available source)) ?_ entered available
  intro entered available ih source
  rw [Workshop.compileSource_eq, Workshop.compileSource_eq]
  refine .bind (.reporting (readTemplate_reports between.callees between.delimiters source))
    fun tokens tokens' alike => ?_
  refine build_agree (between.builders rfl rfl rfl rfl fun name hasBlock site => ?_) alike
  refine resolve_agree between entered name hasBlock site ?_
  unfold Workshop.inner
  cases found : Table.get? available name with
  | none => exact .none
  | some source => exact .some (ih name source found source)

theorem compileNamed_agree (name : String) :
    Option.Rel (cor.Agree cor.plan) (w.compileNamed name) (w'.compileNamed name) := by
  unfold Workshop.compileNamed Registry.partial?
  rw [← between.partials]
  cases Table.get? w.registry.partials name with
  | none => exact .none
  | some source => exact .some (compileSource_agree between _ _ source)

theorem tabulateAll_agree (names : List String) :
    cor.Agree Eq (w.tabulateAll names) (w'.tabulateAll names) := by
  induction names with
  | nil => exact .pure rfl
  | cons name names ih =>
      have sources := compileNamed_agree between name
      rw [Workshop.tabulateAll, Workshop.tabulateAll, ← between.runtimePartials]
      split
      · exact .bind (tabulate_agree [] name sources) fun _ _ _ => ih
      · refine .bind (embed_agree [] name sources) ?_
        rintro _ _ (plan | _)
        · exact .bind (fun c c' states =>
            ⟨rfl, { states with table := states.table.insert plan }⟩) fun _ _ (_ : _ = _) => ih
        · exact ih

/-- Two compile calls of workshops that agree on single tags come to related plans and states. -/
theorem compileTemplate_agree (source : String) :
    cor.Agree cor.plan (w.compileTemplate source) (w'.compileTemplate source) := by
  unfold Workshop.compileTemplate
  refine .bind (.reporting (.writes fun _ _ => cor.addEvent _ _)) fun _ _ _ => ?_
  rw [← between.partials]
  refine .bind (compileSource_agree between _ _ source) fun plan plan' related => ?_
  have finish : cor.Agree Eq (w.tabulateAll w.registry.partialNames)
      (w'.tabulateAll w'.registry.partialNames) := by
    unfold Registry.partialNames
    rw [← between.partials]
    exact tabulateAll_agree between _
  refine .ask (f := fun dynamic => if dynamic then _ else _)
    (g := fun dynamic => if dynamic then _ else _) fun dynamic => ?_
  split
  · exact .bind finish fun _ _ _ => .pure related
  · exact .pure related

end Partials

end Correspondence

end Stencil
