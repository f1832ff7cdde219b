import Mathlib.Data.List.Forall2
import Stencil.Proofs.Compile.Following
import Stencil.Proofs.Table

/-!
Two readings of one template.

Calls that compile one source with other settings or other helpers meet the same tags. What they
read, report and build differs, but not at will: a correspondence says how reports, expressions and plans
of the two calls are related, and is closed under all that both calls do alike. What remains to be
shown of two readers is that they read callees alike. Then the tags that they read are alike, and so
are the tokens, whose texts and indentations may differ.
-/

namespace Stencil

open Markup

/-- The name of the helper that a diagnostic misses, in whatever source it was found. -/
def Diagnostic.missing? : Diagnostic → Option String
  | .missingHelper name _ => some name
  | .inPartial _ cause => cause.missing?
  | _ => none

/-! ### What is alike -/

section Alike

variable (expr : Expr → Expr → Prop)

/-- The same name, or names that are computed from related expressions. -/
inductive PartialName.Alike : PartialName → PartialName → Prop
  | static (name : String) : Alike (.static name) (.static name)
  | dynamic {e e' : Expr} (h : expr e e') : Alike (.dynamic e) (.dynamic e')

/-- Contents with the same words and related arguments. -/
structure Content.Alike (c c' : Content) : Prop where
  head : c.head = c'.head
  params : List.Forall₂ expr c.params c'.params
  hash : Table.Rel (fun _ => expr) c.hash c'.hash
  blockParams : c.blockParams = c'.blockParams

/-- Kinds of tag that differ in a computed name at most. -/
inductive Markup.TagKind.Alike : TagKind → TagKind → Prop
  | interpolation (raw : Bool) : Alike (.interpolation raw) (.interpolation raw)
  | opening (inverted : Bool) : Alike (.opening inverted) (.opening inverted)
  | alternative (chained : Bool) : Alike (.alternative chained) (.alternative chained)
  | closing : Alike .closing .closing
  | comment : Alike .comment .comment
  | inclusion {name name' : PartialName} (h : name.Alike expr name') :
      Alike (.inclusion name) (.inclusion name')
  | inclusionBlock {name name' : PartialName} (h : name.Alike expr name') :
      Alike (.inclusionBlock name) (.inclusionBlock name')
  | inlineDef (name : String) : Alike (.inlineDef name) (.inlineDef name)
  | rawBlock (body : String) : Alike (.rawBlock body) (.rawBlock body)

/-- Tags that stand at one place and say what is alike. They may be indented differently. -/
structure Markup.Tag.Alike (t t' : Tag) : Prop where
  kind : t.kind.Alike expr t'.kind
  content : t.content.Alike expr t'.content
  site : t.site = t'.site

/-- The same text, or one tag that is read alike. -/
inductive Markup.Item.Alike : Item → Item → Prop
  | text (content : List Char) : Alike (.text content) (.text content)
  | tag (raw : RawTag) {t t' : Tag} (h : t.Alike expr t') : Alike (.tag raw t) (.tag raw t')

/-- Tokens with tags that are alike; texts may stand anywhere between them. -/
inductive Markup.TokensAlike : List Token → List Token → Prop
  | nil : TokensAlike [] []
  | left {tokens tokens' : List Token} (text : String) (h : TokensAlike tokens tokens') :
      TokensAlike (.text text :: tokens) tokens'
  | right {tokens tokens' : List Token} (text : String) (h : TokensAlike tokens tokens') :
      TokensAlike tokens (.text text :: tokens')
  | tag {t t' : Tag} {tokens tokens' : List Token} (h : t.Alike expr t')
      (others : TokensAlike tokens tokens') :
      TokensAlike (.tag t :: tokens) (.tag t' :: tokens')

/-- Kinds of builtin block with related arguments. -/
inductive BlockKind.Alike : BlockKind → BlockKind → Prop
  | condition {e e' : Expr} {z z' : Option Expr} (negate : Bool) (h : expr e e')
      (zero : Option.Rel expr z z') : Alike (.condition e z negate) (.condition e' z' negate)
  | context {e e' : Expr} (h : expr e e') : Alike (.context e) (.context e')
  | each {e e' : Expr} (h : expr e e') : Alike (.each e) (.each e')

/-- Targets that differ in a computed name or in the plan that is copied in at most. -/
inductive Target.Alike (plan : Plan → Plan → Prop) : Target → Target → Prop
  | embedded {p p' : Plan} (h : plan p p') : Alike plan (.embedded p) (.embedded p')
  | named (name : String) : Alike plan (.named name) (.named name)
  | dynamic {e e' : Expr} (h : expr e e') : Alike plan (.dynamic e) (.dynamic e')
  | partialBlock : Alike plan .partialBlock .partialBlock

end Alike

/-- How two compile calls are related. -/
structure Correspondence where
  report : Report → Report → Prop
  expr : Expr → Expr → Prop
  callee : Callee → Callee → Prop
  plan : Plan → Plan → Prop
  count : ∀ {r r'} (f : Usage → Usage), report r r' → report (r.count f) (r'.count f)
  addError : ∀ {r r'} {d : Diagnostic}, d.missing? = none → report r r' →
    report (r.addError d) (r'.addError d)
  addWarning : ∀ {r r'} (text : String), report r r' →
    report (r.addWarning text) (r'.addWarning text)
  /-- The journals may differ. -/
  addEvent : ∀ {r r'} (e e' : Event), report r r' → report (r.addEvent e) (r'.addEvent e')
  enter : ∀ {r r'}, report r r' → report { r with errors := [] } { r' with errors := [] }
  leave : ∀ {r r' inner inner'} (name : String), report r r' → report inner inner' →
    report { inner with errors := r.errors ++ inner.errors.map (.inPartial name) }
      { inner' with errors := r'.errors ++ inner'.errors.map (.inPartial name) }
  path : ∀ p, expr (.path p) (.path p)
  literal : ∀ value source, expr (.literal value source) (.literal value source)
  literal_left : ∀ {value source e}, expr (.literal value source) e → e = .literal value source
  literal_right : ∀ {value source e}, expr e (.literal value source) → e = .literal value source
  call : ∀ {f f' args args' hash hash'}, callee f f' → List.Forall₂ expr args args' →
    Table.Rel (fun _ => expr) hash hash' →
      expr (.call { callee := f, args, hash })
        (.call { callee := f', args := args', hash := hash' })
  nil : plan [] []
  text_left : ∀ text, plan [.literal text] []
  text_right : ∀ text, plan [] [.literal text]
  /-- A plan is built node by node; either call may have no node where the other has one. -/
  push : ∀ {n n' : Option Node} {p p'}, plan n.toList n'.toList → plan p p' →
    plan (n.elim p (Plan.push · p)) (n'.elim p' (Plan.push · p'))
  reverse : ∀ {p p'}, plan p p' → plan p.reverse p'.reverse
  inlineDef : ∀ {p p'} (name : String), plan p p' → plan [.inlineDef name p] [.inlineDef name p']
  inclusion : ∀ {t t' : Tag} {g g' b b'} (name : String), t.Alike expr t' → g.Alike expr plan g' →
    Option.Rel plan b b' →
      plan [.inclusion (BuildContext.inclusionOf t name) g b]
        [.inclusion (BuildContext.inclusionOf t' name) g' b']

namespace Correspondence

variable (cor : Correspondence) {α α' β β' : Type} {R : α → α' → Prop} {S : β → β' → Prop}

/-! ### Reporting and reading -/

/-- From related reports the computations come to results related by `R` and to related reports. -/
def Reports (R : α → α' → Prop) (x : StateM Report α) (y : StateM Report α') : Prop :=
  ∀ r r', cor.report r r' → R (x.run r).1 (y.run r').1 ∧ cor.report (x.run r).2 (y.run r').2

/-- Two readings end well with related results, or at one diagnostic that misses no helper. -/
inductive Outcomes (R : α → α' → Prop) : Except Diagnostic α → Except Diagnostic α' → Prop
  | ok {a : α} {b : α'} (h : R a b) : Outcomes R (.ok a) (.ok b)
  | error {d : Diagnostic} (found : d.missing? = none) : Outcomes R (.error d) (.error d)

/-- Readings with related reports and outcomes. -/
def Reads (R : α → α' → Prop) (x : Reading α) (y : Reading α') : Prop :=
  cor.Reports (Outcomes R) x.run y.run

variable {cor}

namespace Reports

theorem pure {a : α} {b : α'} (h : R a b) : cor.Reports R (Pure.pure a) (Pure.pure b) :=
  fun _ _ reports => ⟨h, reports⟩

theorem bind {x : StateM Report α} {y : StateM Report α'} {f : α → StateM Report β}
    {g : α' → StateM Report β'} (h : cor.Reports R x y)
    (next : ∀ a b, R a b → cor.Reports S (f a) (g b)) : cor.Reports S (x >>= f) (y >>= g) := by
  intro r r' reports
  obtain ⟨result, reports⟩ := h r r' reports
  exact next _ _ result _ _ reports

theorem writes {f g : Report → Report} (h : ∀ r r', cor.report r r' → cor.report (f r) (g r')) :
    cor.Reports Eq (modify f : StateM Report Unit) (modify g) :=
  fun r r' reports => ⟨rfl, h r r' reports⟩

theorem addError {d : Diagnostic} (found : d.missing? = none) :
    cor.Reports Eq (modify (Report.addError d) : StateM Report Unit) (modify (Report.addError d)) :=
  .writes fun _ _ => cor.addError found

theorem addErrors {γ : Type} (complaint : γ → Diagnostic)
    (found : ∀ c, (complaint c).missing? = none) (cs : List γ) :
    cor.Reports Eq
      (modify fun r => cs.foldl (fun r c => r.addError (complaint c)) r : StateM Report Unit)
      (modify fun r => cs.foldl (fun r c => r.addError (complaint c)) r) := by
  refine .writes fun r r' reports => ?_
  induction cs generalizing r r' with
  | nil => exact reports
  | cons c cs ih => exact ih _ _ (cor.addError (found c) reports)

end Reports

namespace Reads

theorem pure {a : α} {b : α'} (h : R a b) : cor.Reads R (Pure.pure a) (Pure.pure b) :=
  Reports.pure (.ok h)

theorem throw {d : Diagnostic} (found : d.missing? = none) :
    cor.Reads R (throw d : Reading α) (throw d : Reading α') :=
  Reports.pure (.error found)

theorem bind {x : Reading α} {y : Reading α'} {f : α → Reading β} {g : α' → Reading β'}
    (h : cor.Reads R x y) (next : ∀ a b, R a b → cor.Reads S (f a) (g b)) :
    cor.Reads S (x >>= f) (y >>= g) := by
  change cor.Reports _ (x.run >>= ExceptT.bindCont f) (y.run >>= ExceptT.bindCont g)
  refine Reports.bind h fun outcome outcome' both => ?_
  cases both with
  | ok result => exact next _ _ result
  | error found => exact Reports.pure (.error found)

theorem writes {f g : Report → Report} (h : ∀ r r', cor.report r r' → cor.report (f r) (g r')) :
    cor.Reads Eq (modify f : Reading Unit) (modify g) :=
  fun r r' reports => ⟨.ok rfl, h r r' reports⟩

theorem count (f : Usage → Usage) : cor.Reads Eq (Reading.count f) (Reading.count f) :=
  .writes fun _ _ => cor.count f

theorem addWarning (text : String) :
    cor.Reads Eq (Reading.addWarning text) (Reading.addWarning text) :=
  .writes fun _ _ => cor.addWarning text

end Reads

/-! ### Expressions -/

theorem parse_missing? {token : List Char} {site : Site} {d : Diagnostic}
    (h : Path.parse token site = .error d) : d.missing? = none := by
  unfold Path.parse at h
  split at h
  simp only at h
  split at h
  · cases h
    rfl
  · split at h
    · cases h
    · cases h
      rfl

theorem path_reads (token : List Char) (site : Site) :
    cor.Reads Eq (Path.read token site) (Path.read token site) := by
  have parsed : Outcomes Eq (Path.parse token site) (Path.parse token site) := by
    cases outcome : Path.parse token site with
    | ok p => exact .ok rfl
    | error d => exact .error (parse_missing? outcome)
  refine .bind (R := Eq) (Reports.pure parsed) ?_
  rintro p _ rfl
  exact .bind (.count p.usage) fun _ _ _ => .pure rfl

section Readers

/-- Two readers, of whom `isHelper` and `isHelper'` say which helpers they know, read callees
alike. -/
def ReadsCallees (cor : Correspondence) (isHelper isHelper' : String → Bool) : Prop :=
  ∀ site head hasArguments, cor.Reads cor.callee (Expr.callee isHelper site head hasArguments)
    (Expr.callee isHelper' site head hasArguments)

variable {isHelper isHelper' : String → Bool}

mutual

theorem expr_reads (callees : cor.ReadsCallees isHelper isHelper') (site : Site)
    (token : List Char) : cor.Reads cor.expr (Expr.read isHelper site token) (Expr.read isHelper' site token) := by
  rw [Expr.read, Expr.read]
  split
  · exact .pure (cor.literal _ _)
  · split
    · refine .bind (path_reads token site) ?_
      rintro p _ rfl
      exact .pure (cor.path p)
    · next inner h =>
      split
      · exact .throw rfl
      · exact .throw rfl
      · next head rest params ht =>
        have smaller : Expr.room rest < token.length := by
          have inner := Expr.length_of_parenthesized? h
          have fits := Expr.room_of_tokens ht
          rw [Expr.room_cons] at fits
          omega
        refine .bind (arguments_read callees site rest .nil) ?_
        rintro ⟨args, hash⟩ ⟨args', hash'⟩ ⟨hargs, hhash⟩
        refine .bind (.count _) fun _ _ _ => ?_
        have empty : args.isEmpty = args'.isEmpty := by cases hargs <;> rfl
        rw [empty, hhash.isEmpty_eq]
        exact .bind (callees site head _) fun _ _ hcallee => .pure (cor.call hcallee hargs hhash)
termination_by token.length

theorem arguments_read (callees : cor.ReadsCallees isHelper isHelper') (site : Site)
    (ts : List (List Char)) {hash hash' : Table Expr} (h : Table.Rel (fun _ => cor.expr) hash hash') :
    cor.Reads (fun a a' => List.Forall₂ cor.expr a.1 a'.1 ∧ Table.Rel (fun _ => cor.expr) a.2 a'.2)
      (Expr.readArguments isHelper site hash ts) (Expr.readArguments isHelper' site hash' ts) := by
  match ts with
  | [] =>
      rw [Expr.readArguments, Expr.readArguments]
      exact .pure ⟨.nil, h⟩
  | token :: ts =>
      have first : token.length < Expr.room (token :: ts) := by
        rw [Expr.room_cons]
        omega
      have others : Expr.room ts < Expr.room (token :: ts) := by
        rw [Expr.room_cons]
        omega
      rw [Expr.readArguments, Expr.readArguments]
      split
      · next name value named =>
        have shorter : value.length < Expr.room (token :: ts) :=
          Nat.lt_trans (Expr.length_of_named? named) first
        refine .bind (expr_reads callees site value) fun v v' hv => ?_
        simp only [h.contains_eq]
        split
        · exact .bind (.addWarning _) fun _ _ _ => arguments_read callees site ts (h.insert hv)
        · exact arguments_read callees site ts (h.insert hv)
      · exact .bind (expr_reads callees site token) fun _ _ harg =>
          .bind (arguments_read callees site ts h) fun _ _ ⟨hargs, hhash⟩ =>
            .pure ⟨.cons harg hargs, hhash⟩
termination_by Expr.room ts

end

variable (callees : cor.ReadsCallees isHelper isHelper')

/-! ### Tags -/

include callees

theorem content_reads (site : Site) (text : List Char) :
    cor.Reads (Content.Alike cor.expr) (Content.read isHelper site text)
      (Content.read isHelper' site text) := by
  unfold Content.read
  split
  · exact .throw rfl
  · exact .pure ⟨rfl, .nil, .nil, rfl⟩
  · refine .bind (arguments_read callees site _ .nil) ?_
    rintro ⟨args, hash⟩ ⟨args', hash'⟩ ⟨hargs, hhash⟩
    simp only
    split
    · exact .bind (.count _) fun _ _ _ => .pure ⟨rfl, hargs, hhash, rfl⟩
    · exact .pure ⟨rfl, hargs, hhash, rfl⟩

theorem partial_reads (site : Site) (text : List Char) :
    cor.Reads (fun p p' => p.1.Alike cor.expr p'.1 ∧ p.2.Alike cor.expr p'.2)
      (Content.readPartial isHelper site text) (Content.readPartial isHelper' site text) := by
  refine .bind (content_reads callees site text) fun content content' alike => ?_
  simp only [alike.head]
  split
  · exact .bind (expr_reads callees site _) fun _ _ name => .pure ⟨.dynamic name, alike⟩
  · exact .pure ⟨.static _, rfl, alike.params, alike.hash, alike.blockParams⟩

omit callees in
/-- Contents that are alike define one inline partial. -/
theorem inlineName?_eq {content content' : Content} (alike : content.Alike cor.expr content') :
    inlineName? content = inlineName? content' := by
  obtain ⟨head, params, hash, blockParams⟩ := content
  obtain ⟨head', params', hash', blockParams'⟩ := content'
  obtain ⟨rfl, hparams, -, -⟩ := alike
  unfold inlineName?
  simp only
  congr 1
  cases hparams with
  | nil => rfl
  | @cons e e' _ _ first others =>
      cases e with
      | literal value source =>
          rw [cor.literal_left first]
          cases value <;> rfl
      | _ =>
          cases e' with
          | literal value source => cases cor.literal_right first
          | _ => rfl

theorem inline_reads (site : Site) (inner : List Char) :
    cor.Reads (fun p p' => p.1.Alike cor.expr p'.1 ∧ p.2.Alike cor.expr p'.2)
      (readInline isHelper site inner) (readInline isHelper' site inner) := by
  refine .bind (content_reads callees site inner) fun content content' alike => ?_
  rw [inlineName?_eq alike]
  split
  · exact .pure ⟨.inlineDef _, alike⟩
  · exact .throw rfl

omit callees in
theorem orReport_reports {default : α} {default' : α'} {x : Reading α} {y : Reading α'}
    (h : cor.Reads R x y) (related : R default default') :
    cor.Reports R (orReport default x) (orReport default' y) := by
  refine .bind h fun outcome outcome' both => ?_
  cases both with
  | ok result => exact .pure result
  | error found => exact .bind (.addError found) fun _ _ _ => .pure related

omit callees in
theorem fallback_alike (inner : List Char) : (fallback inner).Alike cor.expr (fallback inner) :=
  ⟨rfl, .nil, .nil, rfl⟩

theorem kind_reports (raw : RawTag) :
    cor.Reports (fun p p' => p.1.Alike cor.expr p'.1 ∧ p.2.Alike cor.expr p'.2)
      (readKind isHelper raw) (readKind isHelper' raw) := by
  have plain {kind : TagKind} (same : kind.Alike cor.expr kind) (text : List Char) :
      cor.Reports (fun p p' => p.1.Alike cor.expr p'.1 ∧ p.2.Alike cor.expr p'.2)
        (do return (kind, ← orReport (fallback raw.inner) (Content.read isHelper raw.site text)))
        (do return (kind, ← orReport (fallback raw.inner) (Content.read isHelper' raw.site text)))
        :=
    .bind (orReport_reports (content_reads callees raw.site text) (fallback_alike raw.inner))
      fun _ _ alike => .pure ⟨same, alike⟩
  have partials {kind : PartialName → TagKind}
      (same : ∀ name name', name.Alike cor.expr name' → (kind name).Alike cor.expr (kind name')) :
      cor.Reports (fun p p' => p.1.Alike cor.expr p'.1 ∧ p.2.Alike cor.expr p'.2)
        (do
          let default := (PartialName.static (fallback raw.inner).head, fallback raw.inner)
          let named ← orReport default (Content.readPartial isHelper raw.site raw.inner)
          return (kind named.1, named.2))
        (do
          let default := (PartialName.static (fallback raw.inner).head, fallback raw.inner)
          let named ← orReport default (Content.readPartial isHelper' raw.site raw.inner)
          return (kind named.1, named.2)) :=
    .bind (orReport_reports (partial_reads callees raw.site raw.inner)
      ⟨.static _, fallback_alike raw.inner⟩) fun _ _ alike => .pure ⟨same _ _ alike.1, alike.2⟩
  have bare {head : String} : Content.Alike cor.expr { head } { head } := ⟨rfl, .nil, .nil, rfl⟩
  unfold readKind
  simp only
  split
  · exact .pure ⟨.rawBlock _, bare⟩
  · exact plain (.interpolation _) _
  · exact plain (.interpolation _) _
  · exact plain (.opening _) _
  · split
    · exact .pure ⟨.alternative _, bare⟩
    · exact plain (.opening _) _
  · exact .pure ⟨.closing, bare⟩
  · exact .pure ⟨.comment, bare⟩
  · exact partials fun _ _ => .inclusion
  · exact partials fun _ _ => .inclusionBlock
  · exact orReport_reports (inline_reads callees raw.site raw.inner)
      ⟨.inlineDef _, fallback_alike raw.inner⟩
  · split
    · exact plain (.alternative _) _
    · exact plain (.interpolation _) _

omit callees in
theorem usage_eq {kind kind' : TagKind} (alike : kind.Alike cor.expr kind') :
    kind.usage = kind'.usage := by
  cases alike with
  | inclusion name => cases name <;> rfl
  | inclusionBlock name => cases name <;> rfl
  | _ => rfl

theorem tag_reports (raw : RawTag) :
    cor.Reports (Tag.Alike cor.expr) (raw.read isHelper) (raw.read isHelper') := by
  refine .bind (kind_reports callees raw) ?_
  rintro ⟨kind, content⟩ ⟨kind', content'⟩ ⟨hkind, hcontent⟩
  simp only [usage_eq hkind]
  exact .bind (.writes fun _ _ => cor.count _) fun _ _ _ => .pure ⟨hkind, hcontent, rfl⟩

omit callees in
/-- What is wrong with the delimiters misses no helper. -/
theorem fault_missing? {m : Marks} {c : Cursor} {d : Diagnostic} (h : .fault d ∈ c.pieces m) :
    d.missing? = none := by
  have here {c after : Cursor} {d : Diagnostic} (next : c.next? m = some (.fault d, after)) :
      d.missing? = none := by
    unfold Cursor.next? at next
    split at next
    · cases next
    split at next
    · cases next
    · simp only at next
      split at next
      · cases next
      · next fault _ =>
        cases next
        cases fault <;> rfl
  fun_induction Cursor.pieces m c with
  | case1 => cases h
  | case2 c piece after next shorter ih =>
      rcases List.mem_cons.mp h with rfl | later
      · exact here next
      · exact ih later
  | case3 c piece after next =>
      cases List.mem_singleton.mp h
      exact here next

theorem pieces_report {pieces : List Piece} (found : ∀ d, .fault d ∈ pieces → d.missing? = none) :
    cor.Reports (List.Forall₂ (Item.Alike cor.expr)) (readPieces isHelper pieces)
      (readPieces isHelper' pieces) := by
  induction pieces with
  | nil => exact .pure .nil
  | cons piece pieces ih =>
      have ih := ih fun d member => found d (.tail _ member)
      cases piece with
      | text content => exact .bind ih fun _ _ alike => .pure (.cons (.text content) alike)
      | tag raw =>
          exact .bind (tag_reports callees raw) fun _ _ tag =>
            .bind ih fun _ _ alike => .pure (.cons (.tag raw tag) alike)
      | fault cause =>
          exact .bind (.addError (found cause (.head _))) fun _ _ _ => ih

end Readers

/-! ### Tokens -/

section Tokens

variable {expr : Expr → Expr → Prop}

theorem run_left {placed : List Placed} {tokens : List Token} (run : Run)
    (h : TokensAlike expr (placed.filterMap Placed.token?) tokens) :
    TokensAlike expr ((.text run :: placed).filterMap Placed.token?) tokens := by
  rw [List.filterMap_cons, Placed.token?]
  split
  · exact h
  · next found =>
    split at found
    · cases found
    · cases found
      exact .left _ h

theorem run_right {placed : List Placed} {tokens : List Token} (run : Run)
    (h : TokensAlike expr tokens (placed.filterMap Placed.token?)) :
    TokensAlike expr tokens ((.text run :: placed).filterMap Placed.token?) := by
  rw [List.filterMap_cons, Placed.token?]
  split
  · exact h
  · next found =>
    split at found
    · cases found
    · cases found
      exact .right _ h

/-- Settling white space changes texts and indentations only. -/
theorem placeFrom_alike (s s' : Settings) {items items' : List Item}
    (h : List.Forall₂ (Item.Alike expr) items items') (before before' : List Item) :
    TokensAlike expr ((placeFrom s before items).filterMap Placed.token?)
      ((placeFrom s' before' items').filterMap Placed.token?) := by
  induction h generalizing before before' with
  | nil => exact .nil
  | @cons item item' items items' first others ih =>
      have rest := ih (item :: before) (item' :: before')
      rw [placeFrom, placeFrom]
      cases first with
      | text content => exact run_left _ (run_right _ rest)
      | tag raw h => exact .tag ⟨h.kind, h.content, h.site⟩ rest

end Tokens

/-- Blocks are opened and closed by kinds, heads and places. -/
theorem checkTag_eq {t t' : Tag} (alike : t.Alike cor.expr t') (stack : List OpenBlock) :
    checkTag stack t = checkTag stack t' := by
  obtain ⟨kind, ⟨head, params, hash, blockParams⟩, site, indent⟩ := t
  obtain ⟨kind', ⟨head', params', hash', blockParams'⟩, site', indent'⟩ := t'
  obtain ⟨hkind, ⟨rfl, -, -, -⟩, rfl⟩ := alike
  cases hkind with
  | inclusionBlock name => cases name <;> rfl
  | _ => rfl

theorem checkTag_reports (t : Tag) (stack : List OpenBlock) :
    cor.Reports Eq (checkTag stack t) (checkTag stack t) := by
  unfold checkTag
  simp only
  split
  · exact .pure rfl
  · exact .pure rfl
  · exact .pure rfl
  · split
    · exact .pure rfl
    · exact .bind (.addError rfl) fun _ _ _ => .pure rfl
  · split
    · exact .bind (.addError rfl) fun _ _ _ => .pure rfl
    · next opened stack _ =>
      have closes : cor.Reports Eq (checkClosing t opened) (checkClosing t opened) := by
        unfold checkClosing
        split
        · exact .pure rfl
        · split
          · exact .writes fun _ _ => cor.addWarning _
          · exact .addError rfl
      exact .bind closes fun _ _ _ => .pure rfl
  all_goals exact .pure rfl

theorem checkTokens_report {tokens tokens' : List Token}
    (alike : TokensAlike cor.expr tokens tokens') (stack : List OpenBlock) :
    cor.Reports Eq (checkTokens stack tokens) (checkTokens stack tokens') := by
  induction alike generalizing stack with
  | nil => exact .pure rfl
  | left text _ ih => exact ih stack
  | right text _ ih => exact ih stack
  | tag h _ ih =>
      rw [checkTokens, checkTokens, checkTag_eq h]
      refine .bind (checkTag_reports _ stack) ?_
      rintro stack _ rfl
      exact ih stack

theorem checkNesting_reports {tokens tokens' : List Token}
    (alike : TokensAlike cor.expr tokens tokens') :
    cor.Reports Eq (checkNesting tokens) (checkNesting tokens') := by
  refine .bind (checkTokens_report alike []) ?_
  rintro stack _ rfl
  exact .addErrors (fun opened : OpenBlock => .unclosedBlock opened.site) (fun _ => rfl) _

/-- Readers that know callees alike and look for the same delimiters read tokens that are alike. -/
theorem readTemplate_reports {isHelper isHelper' : String → Bool}
    (callees : cor.ReadsCallees isHelper isHelper') {s s' : Settings}
    (delimiters : s.delimiters = s'.delimiters) (source : String) :
    cor.Reports (TokensAlike cor.expr) (readTemplate s isHelper source)
      (readTemplate s' isHelper' source) := by
  unfold readTemplate
  rw [delimiters]
  refine .bind (pieces_report callees fun _ => fault_missing?) fun items items' alike => ?_
  have tokens : TokensAlike cor.expr (layout s items) (layout s' items') :=
    placeFrom_alike s s' alike [] []
  exact .bind (checkNesting_reports tokens) fun _ _ _ =>
    .bind (.writes fun _ _ => cor.addEvent _ _) fun _ _ _ => .pure tokens

/-! ### Builtin blocks -/

section Builtin

variable {content content' : Content} (alike : content.Alike cor.expr content')

include alike

theorem check_reports (label : String) (least most : Nat) (allowed : List String) (site : Site) :
    cor.Reports Eq (Builtin.check label least most allowed content site)
      (Builtin.check label least most allowed content' site) := by
  obtain ⟨head, params, hash, blockParams⟩ := content
  obtain ⟨head', params', hash', blockParams'⟩ := content'
  obtain ⟨-, hparams, hhash, -⟩ := alike
  have names : cor.Reports Eq (Builtin.checkNames allowed hash site)
      (Builtin.checkNames allowed hash' site) := by
    unfold Builtin.checkNames
    rw [hhash.keys_eq]
    exact .addErrors (fun name => .namedArgument name site) (fun _ => rfl) _
  have empty : params.isEmpty = params'.isEmpty := by cases hparams <;> rfl
  unfold Builtin.check
  simp only [empty, hparams.length_eq]
  split
  · cases hhash with
    | nil => exact .addError rfl
    | cons first _ =>
        simp only [first.1]
        exact .addError rfl
  · split
    · exact .bind (.addError rfl) fun _ _ _ => names
    · exact names

theorem head_alike {e : Expr} (default : cor.expr e e) :
    cor.expr (content.params.headD e) (content'.params.headD e) := by
  have params := alike.params
  generalize content.params = params, content'.params = params' at params
  cases params with
  | nil => exact default
  | cons first _ => exact first

/-- Tags that are alike open one builtin block, or none. -/
theorem open?_reports :
    Option.Rel (fun o o' => ∀ site, cor.Reports (BlockKind.Alike cor.expr) (o site) (o' site))
      (Builtin.open? content) (Builtin.open? content') := by
  have condition (label : String) (negate : Bool) (site : Site) :
      cor.Reports (BlockKind.Alike cor.expr) (Builtin.openCondition label negate content site)
        (Builtin.openCondition label negate content' site) :=
    .bind (check_reports alike label 1 1 _ site) fun _ _ _ =>
      .pure (.condition negate (head_alike alike (cor.literal _ _)) (alike.hash.get? _))
  unfold Builtin.open?
  rw [alike.head]
  split
  · exact .some (condition _ _)
  split
  · exact .some (condition _ _)
  split
  · exact .some fun site => .bind (check_reports alike _ _ _ _ site) fun _ _ _ =>
      .pure (.context (head_alike alike (cor.literal _ _)))
  split
  · exact .some fun site => .bind (check_reports alike _ _ _ _ site) fun _ _ _ =>
      .pure (.each (head_alike alike (cor.path _)))
  · exact .none

end Builtin

end Correspondence

end Stencil
