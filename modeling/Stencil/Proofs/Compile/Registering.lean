import Stencil.Bundle.Basic
import Stencil.Proofs.Compile.Agreement
import Stencil.Proofs.Expr.Paths

/-!
Registering more helpers.

A name that is registered as a helper is not looked up as a path, so a call of it is not missed any
more, and nothing else that a compile call complains about depends on the helpers. With more helpers
a call therefore finds what it found before without the complaints about helpers that are there now.
A bundle is checked with the builtin helpers alone and forgives exactly these complaints: what it
accepts compiles as soon as the helpers are registered.
-/

namespace Stencil

open Markup Compiling

/-! ### Names that are paths -/

/-- The name can be read as a path, wherever it stands. -/
def Path.IsLegal (token : List Char) : Prop :=
  ∀ site, ∃ p, Path.parse token site = .ok p

namespace Path

/-- Whether a token is a path does not depend on the tag around it. -/
theorem IsLegal.of_parse {token : List Char} {site : Site} {p : Path}
    (h : parse token site = .ok p) : IsLegal token := by
  intro site'
  refine ⟨p, ?_⟩
  unfold parse at h ⊢
  split at h
  simp only at h ⊢
  split at h
  · cases h
  · next plain =>
    rw [if_neg plain]
    split at h
    · exact h
    · cases h

/-- Of the characters that need brackets, a path starts with the mark of special variables or with
a bracket at most. -/
theorem IsLegal.start {c : Char} {rest : List Char} (h : IsLegal (c :: rest))
    (reserved : isReserved c = true) : c = '@' ∨ c = '[' := by
  by_contra other
  obtain ⟨mark, bracket⟩ := not_or.mp other
  have apart {d : Char} (plain : isReserved d = false) : c ≠ d := by
    rintro rfl
    simp [plain] at reserved
  have point : c ≠ '.' := apart (by decide)
  have letter : c ≠ 't' := apart (by decide)
  have slash : c ≠ '/' := apart (by decide)
  obtain ⟨p, parsed⟩ := h { tag := "", line := 0 }
  have front : steps 0 (c :: rest) = (0, c :: rest) := by
    rw [steps.eq_def]
    split <;> simp_all
  have whole : members (c :: rest) = c :: rest := by simp [members, letter, point]
  obtain ⟨tail, others, parts⟩ := splitFrom_start false [c] rest
  have segments : split (c :: rest) = (c :: tail) :: others := by
    simpa [split, splitFrom, bracket, point, slash] using parts
  have illegal : segmentName? (c :: tail) = none := by
    simp [segmentName?, bracketed?, bracket, reserved]
  have refused : (split (members (steps 0 (c :: rest)).2)).mapM segmentName? = none := by
    rw [front, whole, segments, List.mapM_cons, illegal]
    rfl
  unfold parse at parsed
  split at parsed
  next special body read =>
  split at read
  · next marked => exact mark (List.cons.inj marked).1
  · cases read
    simp only [refused] at parsed
    split at parsed <;> cases parsed

/-- A path does not start with a parenthesis. -/
theorem IsLegal.not_parenthesized {token : List Char} (h : IsLegal token) :
    Expr.parenthesized? token = none := by
  unfold Expr.parenthesized?
  split
  · exact absurd (h.start (by decide)) (by decide)
  · rfl

end Path

/-! ### What is complained about -/

/-- A diagnostic that does not miss a helper which is known. -/
def Diagnostic.stays (known : String → Bool) (d : Diagnostic) : Bool :=
  !d.missing?.any known

/-- An expression and what it may become when its callees are helpers. -/
inductive Expr.SameShape : Expr → Expr → Prop
  | path (p : Path) : SameShape (.path p) (.path p)
  | literal (value : Literal) (source : String) :
      SameShape (.literal value source) (.literal value source)
  | call (c c' : Call) : SameShape (.call c) (.call c')

/-- One report has the complaints of the other but those about helpers that are known. Unless only
known helpers may be called, the names that are missed are paths. -/
def Report.Spared (strict : Bool) (known : String → Bool) (r r' : Report) : Prop :=
  r'.errors = r.errors.filter (·.stays known) ∧
    (strict = false → ∀ d ∈ r.errors, ∀ name, d.missing? = some name → Path.IsLegal name.toList)

namespace Report.Spared

variable {strict : Bool} {known : String → Bool} {r r' : Report}

theorem congr {q q' : Report} (h : Spared strict known r r') (errors : q.errors = r.errors)
    (errors' : q'.errors = r'.errors) : Spared strict known q q' := by
  rw [Spared, errors, errors']
  exact h

theorem addError {d : Diagnostic} (h : Spared strict known r r') (stays : d.stays known = true)
    (legal : strict = false → ∀ name, d.missing? = some name → Path.IsLegal name.toList) :
    Spared strict known (r.addError d) (r'.addError d) := by
  obtain ⟨errors, names⟩ := h
  refine ⟨?_, fun loose => List.forall_mem_append.mpr ⟨names loose, ?_⟩⟩
  · simp [Report.addError, errors, stays]
  · exact List.forall_mem_singleton.mpr (legal loose)

/-- A helper that is known is missed by one call only. -/
theorem drop {d : Diagnostic} (h : Spared strict known r r') (dropped : d.stays known = false)
    (legal : strict = false → ∀ name, d.missing? = some name → Path.IsLegal name.toList) :
    Spared strict known (r.addError d) r' := by
  obtain ⟨errors, names⟩ := h
  refine ⟨?_, fun loose => List.forall_mem_append.mpr ⟨names loose, ?_⟩⟩
  · simp [Report.addError, errors, dropped]
  · exact List.forall_mem_singleton.mpr (legal loose)

theorem leave {inner inner' : Report} (name : String) (h : Spared strict known r r')
    (inside : Spared strict known inner inner') :
    Spared strict known { inner with errors := r.errors ++ inner.errors.map (.inPartial name) }
      { inner' with errors := r'.errors ++ inner'.errors.map (.inPartial name) } := by
  obtain ⟨errors, names⟩ := h
  obtain ⟨errors', names'⟩ := inside
  refine ⟨?_, fun loose => List.forall_mem_append.mpr ⟨names loose, ?_⟩⟩
  · have within : (fun d : Diagnostic => d.stays known) ∘ Diagnostic.inPartial name =
        fun d => d.stays known := rfl
    simp only [errors, errors', List.filter_append, List.filter_map, within]
  · intro d member
    obtain ⟨cause, inside, rfl⟩ := List.mem_map.mp member
    exact names' loose cause inside

end Report.Spared

/-- The calls find the same but for helpers that are known; their plans may differ. -/
def Correspondence.spared (strict : Bool) (known : String → Bool) : Correspondence where
  report := Report.Spared strict known
  expr := Expr.SameShape
  callee _ _ := True
  plan _ _ := True
  count _ h := h.congr rfl rfl
  addError found h := h.addError (by rw [Diagnostic.stays, found]; rfl) fun _ name here => by
    rw [found] at here
    cases here
  addWarning _ h := h.congr rfl rfl
  addEvent _ _ h := h.congr rfl rfl
  enter _ := ⟨rfl, nofun⟩
  leave name h inside := h.leave name inside
  path := .path
  literal := .literal
  literal_left h := by cases h; rfl
  literal_right h := by cases h; rfl
  call _ _ _ := .call _ _
  nil := trivial
  text_left _ := trivial
  text_right _ := trivial
  push _ _ := trivial
  reverse _ := trivial
  inlineDef _ _ := trivial
  inclusion _ _ _ _ := trivial

/-- A registry with the same partials and all helpers, and perhaps with more of them, whose names
are paths. -/
structure Registry.Extends (r r' : Registry) : Prop where
  partials : r.partials = r'.partials
  helpers : ∀ name, r.hasHelper name = true → r'.hasHelper name = true
  legal : ∀ name, r.hasHelper name = false → r'.hasHelper name = true → Path.IsLegal name.toList

namespace Correspondence

variable {strict : Bool} {r r' : Registry} (ext : r.Extends r')

/-! ### Callees -/

theorem spared_addError {known : String → Bool} {c c' : Report} {d : Diagnostic}
    (h : (spared strict known).report c c') (stays : d.stays known = true)
    (legal : ∀ name, d.missing? = some name → Path.IsLegal name.toList) :
    (spared strict known).report (c.addError d) (c'.addError d) :=
  Report.Spared.addError h stays fun _ => legal

theorem spared_drop {known : String → Bool} {c c' : Report} {d : Diagnostic}
    (h : (spared strict known).report c c') (dropped : d.stays known = false)
    (legal : ∀ name, d.missing? = some name → Path.IsLegal name.toList) :
    (spared strict known).report (c.addError d) c' :=
  Report.Spared.drop h dropped fun _ => legal

theorem missing_stays {known : String → Bool} {name : String} (site : Site)
    (h : known name = false) : (Diagnostic.missingHelper name site).stays known = true := by
  simp [Diagnostic.stays, Diagnostic.missing?, h]

theorem missing_dropped {known : String → Bool} {name : String} (site : Site)
    (h : known name = true) : (Diagnostic.missingHelper name site).stays known = false := by
  simp [Diagnostic.stays, Diagnostic.missing?, h]

theorem legal_of_missing {head : List Char} (site : Site) (legal : Path.IsLegal head)
    (name : String)
    (h : (Diagnostic.missingHelper (String.ofList head) site).missing? = some name) :
    Path.IsLegal name.toList := by
  cases h
  rwa [String.toList_ofList]

theorem read_of_parse {token : List Char} {site : Site} {p : Path}
    (h : Path.parse token site = .ok p) :
    Path.read token site = (do Reading.count p.usage; return p) := by
  unfold Path.read
  rw [h]
  rfl

theorem read_of_parse_error {token : List Char} {site : Site} {d : Diagnostic}
    (h : Path.parse token site = .error d) : Path.read token site = throw d := by
  unfold Path.read
  rw [h]
  rfl

section Callees

variable {isHelper isHelper' : String → Bool} {head : List Char} (site : Site) (hasArguments : Bool)

/-- A head that is a helper in the right call only is a path in the left one, which may miss it. -/
theorem callee_registered (before : isHelper (String.ofList head) = false)
    (after : isHelper' (String.ofList head) = true) (legal : Path.IsLegal head) :
    (spared strict isHelper').Reads (fun _ _ => True) (Expr.callee isHelper site head hasArguments)
      (Expr.callee isHelper' site head hasArguments) := by
  obtain ⟨p, parsed⟩ := legal site
  unfold Expr.callee
  simp only [before, after, read_of_parse parsed, Bool.false_eq_true, if_false, if_true, bind_assoc,
    pure_bind]
  intro c c' reports
  have counted : (spared strict isHelper').report (c.count p.usage)
      (c'.count fun u => { u with helpers := u.helpers + 1 }) :=
    Report.Spared.congr reports rfl rfl
  split
  · have dropped := missing_dropped site after
    exact ⟨.ok trivial, spared_drop counted dropped (legal_of_missing site legal)⟩
  · exact ⟨.ok trivial, counted⟩

/-- A head that is a helper in neither call is read and missed alike. -/
theorem callee_unknown (before : isHelper (String.ofList head) = false)
    (after : isHelper' (String.ofList head) = false) :
    (spared strict isHelper').Reads (fun _ _ => True) (Expr.callee isHelper site head hasArguments)
      (Expr.callee isHelper' site head hasArguments) := by
  unfold Expr.callee
  simp only [before, after, Bool.false_eq_true, if_false]
  cases parsed : Path.parse head site with
  | error d =>
      simp only [read_of_parse_error parsed]
      exact .bind (R := fun _ _ => False) (.throw (parse_missing? parsed)) nofun
  | ok p =>
      simp only [read_of_parse parsed]
      refine .bind (R := Eq) (.bind (.count _) fun _ _ _ => .pure rfl) ?_
      rintro p _ rfl
      split
      · have stays := missing_stays site after
        have legal := legal_of_missing site (.of_parse parsed)
        exact .bind (.writes fun _ _ h => spared_addError h stays legal) fun _ _ _ => .pure trivial
      · exact .pure trivial

end Callees

include ext in
/-- Callees are read alike but for the helpers that are missed by one call only. -/
theorem spared_readsCallees :
    (spared strict r'.hasHelper).ReadsCallees r.hasHelper r'.hasHelper := by
  intro site head hasArguments
  cases before : r.hasHelper (String.ofList head) with
  | true =>
      unfold Expr.callee
      simp only [before, ext.helpers _ before]
      exact .bind (.count _) fun _ _ _ => .pure trivial
  | false =>
      cases after : r'.hasHelper (String.ofList head) with
      | false => exact callee_unknown site hasArguments before after
      | true =>
          have legal := ext.legal _ before after
          rw [String.toList_ofList] at legal
          exact callee_registered site hasArguments before after legal

/-! ### What one call does alone -/

section Sides

variable {cor : Correspondence} {α β : Type}

/-- What the left call does here does not count. -/
def Ahead (cor : Correspondence) (x : Compiling α) : Prop :=
  ∀ c c', cor.States c c' → cor.States (x.run c).2 c'

theorem Ahead.pure (a : α) : cor.Ahead (Pure.pure a) :=
  fun _ _ states => states

theorem Ahead.bind {x : Compiling α} {f : α → Compiling β} (h : cor.Ahead x)
    (next : ∀ a, cor.Ahead (f a)) : cor.Ahead (x >>= f) :=
  fun c c' states => next _ _ c' (h c c' states)

theorem Ahead.writes {f : Report → Report} (h : ∀ r r', cor.report r r' → cor.report (f r) r') :
    cor.Ahead (reporting (modify f)) :=
  fun _ _ states => { states with report := h _ _ states.report }

/-- Two calls agree if what the left one does does not count, and the right one complains of
nothing. -/
theorem Ahead.agree {x : Compiling α} (h : cor.Ahead x) {a : β} {f : Report → Report}
    (counts : ∀ r r', cor.report r r' → cor.report r (f r')) :
    cor.Agree (fun _ _ => True) x (do reporting (modify f); return a) := by
  intro c c' states
  have left := h c c' states
  exact ⟨trivial, { left with report := counts _ _ left.report }⟩

end Sides

/-! ### Nodes -/

/-- What a tag calls is made into one thing, and what it only names into another. -/
def settle {α : Type} (ctx : BuildContext) (tag : Tag) (f : Usage → Usage)
    (called : Callee × HelperStyle → α) (named : Expr → α) : Compiling α := do
  match ← ctx.callee? tag with
  | some found =>
    Compiling.count f
    return called found
  | none => return named (← ctx.headExpr tag)

/-- Builders with the settings of one call each, which know the helpers of their registry. -/
structure Staffed (strict : Bool) (r : Registry) (ctx : BuildContext) : Prop where
  style : ctx.style? = r.style?
  strict : ctx.settings.knownHelpersOnly = strict

section Nodes

variable {ctx ctx' : BuildContext} {t t' : Tag} {α β : Type}
  (staffed : Staffed strict r ctx) (staffed' : Staffed strict r' ctx')

theorem readOr_ahead {known : String → Bool} {x : Reading α} {f : Usage → Usage} {a : α}
    (h : x = do Reading.count f; return a) (default : α) :
    (spared strict known).Ahead (readOr default x) := by
  rw [h]
  exact fun c c' states => { states with report := Report.Spared.congr states.report rfl rfl }

/-- A head that is a path is read without complaint, as an expression … -/
theorem headExpr_ahead {known : String → Bool} (legal : Path.IsLegal t.content.head.toList) :
    (spared strict known).Ahead (ctx.headExpr t) := by
  obtain ⟨p, parsed⟩ := legal t.site
  unfold BuildContext.headExpr
  rw [Expr.read]
  split
  · exact .pure _
  · split
    · exact readOr_ahead (by rw [read_of_parse parsed]; rfl) _
    · next inner call =>
      rw [legal.not_parenthesized] at call
      cases call

/-- … and as the path of what is called. -/
theorem headPath_ahead {known : String → Bool} (legal : Path.IsLegal t.content.head.toList) :
    (spared strict known).Ahead (BuildContext.headPath t) := by
  obtain ⟨p, parsed⟩ := legal t.site
  exact readOr_ahead (read_of_parse parsed) _

/-- What a tag calls is decided without complaint that counts, if its head is to be a helper. -/
theorem callee?_ahead {known : String → Bool} (legal : Path.IsLegal t.content.head.toList)
    (here : known t.content.head = true) : (spared strict known).Ahead (ctx.callee? t) := by
  have path : (spared strict known).Ahead
      (do return some (Callee.path (← BuildContext.headPath t), HelperStyle.rendering)) :=
    .bind (headPath_ahead legal) fun _ => .pure _
  unfold BuildContext.callee?
  split
  · exact .pure _
  · split
    · exact .pure _
    · split
      · have dropped := missing_dropped t.site here
        refine .bind (.writes fun _ _ h => spared_drop h dropped ?_) fun _ => path
        rintro name ⟨⟩
        exact legal
      · exact path

theorem callee?_of_style {style : HelperStyle} (h : ctx.style? t.content.head = some style) :
    ctx.callee? t = pure (some (.helper t.content.head, style)) := by
  unfold BuildContext.callee?
  rw [h]

variable (alike : t.Alike Expr.SameShape t')

theorem Staffed.isHelper_eq (h : Staffed strict r ctx) : ctx.isHelper = r.hasHelper := by
  funext name
  rw [BuildContext.isHelper, h.style, Registry.hasHelper]

include ext staffed staffed' alike

theorem headExpr_agree :
    (spared strict r'.hasHelper).Agree Expr.SameShape (ctx.headExpr t) (ctx'.headExpr t') := by
  unfold BuildContext.headExpr
  rw [staffed.isHelper_eq, staffed'.isHelper_eq, alike.site, alike.content.head]
  exact .readOr (expr_reads (spared_readsCallees ext) _ _) (.path _)

/-- Where no helper is registered, both calls decide alike what a tag calls. -/
theorem callee?_agree (after : r'.style? t.content.head = none) :
    (spared strict r'.hasHelper).Agree (Option.Rel fun _ _ => True) (ctx.callee? t)
      (ctx'.callee? t') := by
  have unknown : r'.hasHelper t.content.head = false := by
    rw [Registry.hasHelper, after]
    rfl
  have before : r.style? t.content.head = none := by
    refine Option.not_isSome_iff_eq_none.mp fun known => ?_
    rw [ext.helpers _ known] at unknown
    cases unknown
  have params : t.content.params.isEmpty = t'.content.params.isEmpty := by
    have params := alike.content.params
    generalize t.content.params = p, t'.content.params = p' at params
    cases params <;> rfl
  have path : (spared strict r'.hasHelper).Agree (Option.Rel fun _ _ => True)
      (do return some (Callee.path (← BuildContext.headPath t), HelperStyle.rendering))
      (do return some (Callee.path (← BuildContext.headPath t'), HelperStyle.rendering)) := by
    unfold BuildContext.headPath
    rw [alike.site, alike.content.head]
    exact .bind (.readOr (path_reads _ _) rfl) fun _ _ _ => .pure (.some trivial)
  unfold BuildContext.callee?
  rw [staffed.style, staffed'.style, ← alike.content.head, before, after, staffed.strict,
    staffed'.strict, params, alike.content.hash.isEmpty_eq, alike.site]
  simp only
  split
  · exact .pure .none
  · split
    · next loose =>
      refine .bind (.reporting (.writes fun _ _ h => Report.Spared.addError h
        (missing_stays _ unknown) fun tolerant => ?_)) fun _ _ _ => path
      rw [tolerant] at loose
      cases loose
    · exact path

/-- Both calls make something of a tag, and complain alike but for helpers that are known. -/
theorem settle_agree (f f' : Usage → Usage) (called : Callee × HelperStyle → α)
    (called' : Callee × HelperStyle → β) (named : Expr → α) (named' : Expr → β) :
    (spared strict r'.hasHelper).Agree (fun _ _ => True) (settle ctx t f called named)
      (settle ctx' t' f' called' named') := by
  have count : ∀ c c', (spared strict r'.hasHelper).report c c' →
      (spared strict r'.hasHelper).report (c.count f) (c'.count f') :=
    fun c c' h => Report.Spared.congr h rfl rfl
  unfold settle
  cases after : r'.style? t.content.head with
  | some style' =>
      have known' : ctx'.style? t'.content.head = some style' := by
        rw [staffed'.style, ← alike.content.head, after]
      rw [callee?_of_style known', pure_bind]
      cases before : r.style? t.content.head with
      | some style =>
          have known : ctx.style? t.content.head = some style := by rw [staffed.style, before]
          rw [callee?_of_style known, pure_bind]
          exact .bind (.reporting (.writes count)) fun _ _ _ => .pure trivial
      | none =>
          have known : r'.hasHelper t.content.head = true := by
            rw [Registry.hasHelper, after]
            rfl
          have legal := ext.legal t.content.head (by rw [Registry.hasHelper, before]; rfl) known
          refine Ahead.agree ?_ fun _ _ h => Report.Spared.congr h rfl rfl
          refine .bind (callee?_ahead legal known) fun found => ?_
          cases found with
          | some found =>
              exact .bind (.writes fun _ _ h => Report.Spared.congr h rfl rfl) fun _ => .pure _
          | none => exact .bind (headExpr_ahead legal) fun _ => .pure _
  | none =>
      refine .bind (callee?_agree ext staffed staffed' alike after) ?_
      rintro _ _ (_ | _)
      · exact .bind (.reporting (.writes count)) fun _ _ _ => .pure trivial
      · exact .bind (headExpr_agree ext staffed staffed' alike) fun _ _ _ => .pure trivial

omit ext staffed staffed' alike in
theorem interpolation_settles (ctx : BuildContext) (tag : Tag) (raw : Bool) :
    ∃ called named, ctx.interpolation tag raw =
      if tag.content.head.isEmpty then do
        Compiling.addError (.arguments "empty tag" tag.site)
        return none
      else settle ctx tag (fun u => { u with helpers := u.helpers + 1 }) called named := by
  refine ⟨fun found => some (.helper (BuildContext.callOf found.1 tag)
      (if raw then .none else ctx.settings.encoding)),
    fun e => some (.lookup e (if raw then .none else ctx.settings.encoding)), ?_⟩
  unfold BuildContext.interpolation settle
  split
  · rfl
  · exact bind_congr fun found => by cases found <;> rfl

omit ext staffed staffed' alike in
theorem block_settles (ctx : BuildContext) (tag : Tag) (b : Plan) (i : Option Plan)
    (inverted : Bool) (h : Builtin.open? tag.content = none) :
    ∃ called named, ctx.block tag b i inverted =
      settle ctx tag (fun u => { u with blockHelpers := u.blockHelpers + 1 }) called named := by
  refine ⟨fun found => .block (.helper (BuildContext.callOf found.1 tag) found.2 inverted) b i
      tag.content.blockParams,
    fun e => .block (.value e inverted) b i tag.content.blockParams, ?_⟩
  unfold BuildContext.block settle
  rw [h]
  exact bind_congr fun found => by cases found <;> rfl

theorem interpolation_agree (raw : Bool) :
    (spared strict r'.hasHelper).Agree (fun _ _ => True) (ctx.interpolation t raw)
      (ctx'.interpolation t' raw) := by
  obtain ⟨called, named, left⟩ := interpolation_settles ctx t raw
  obtain ⟨called', named', right⟩ := interpolation_settles ctx' t' raw
  rw [left, right, ← alike.content.head, ← alike.site]
  split
  · exact .bind (.addError rfl) fun _ _ _ => .pure trivial
  · exact settle_agree ext staffed staffed' alike _ _ called called' named named'

/-- A builtin block is opened in both calls or in none. -/
theorem block_agree (b b' : Plan) (i i' : Option Plan) (inverted : Bool) :
    (spared strict r'.hasHelper).Agree (fun _ _ => True) (ctx.block t b i inverted)
      (ctx'.block t' b' i' inverted) := by
  have opened : Option.Rel (fun o o' => ∀ site, (spared strict r'.hasHelper).Reports
      (BlockKind.Alike Expr.SameShape) (o site) (o' site))
      (Builtin.open? t.content) (Builtin.open? t'.content) := open?_reports alike.content
  generalize known : Builtin.open? t.content = o, known' : Builtin.open? t'.content = o' at opened
  cases opened with
  | none =>
      obtain ⟨called, named, left⟩ := block_settles ctx t b i inverted known
      obtain ⟨called', named', right⟩ := block_settles ctx' t' b' i' inverted known'
      rw [left, right]
      exact settle_agree ext staffed staffed' alike _ _ called called' named named'
  | some kinds =>
      unfold BuildContext.block
      rw [known, known', ← alike.site]
      refine .bind (.reporting (kinds t.site)) fun _ _ _ => ?_
      split <;> exact .pure trivial

omit ext staffed staffed' alike in
/-- A raw block complains of nothing, whether a helper is called or not. -/
theorem rawBlock_agree {known : String → Bool} (body : String) :
    (spared strict known).Agree (fun _ _ => True) (ctx.rawBlock t body) (ctx'.rawBlock t' body) := by
  have counts : ∀ c c', (spared strict known).report c c' → ∀ f,
      (spared strict known).report (c.count f) c' ∧
        (spared strict known).report c (c'.count f) :=
    fun c c' h f => ⟨Report.Spared.congr h rfl rfl, Report.Spared.congr h rfl rfl⟩
  unfold BuildContext.rawBlock
  split <;> split
  · exact .pure trivial
  · exact (Ahead.pure _).agree fun _ _ h => (counts _ _ h _).2
  · intro c c' states
    exact ⟨trivial, { states with report := (counts _ _ states.report _).1 }⟩
  · exact .bind (.count _) fun _ _ _ => .pure trivial

omit alike in
/-- The two calls build what is alike. -/
theorem spared_builders
    (resolves : ∀ name hasBlock site,
      (spared strict r'.hasHelper).Agree
        (Option.Rel (Target.Alike Expr.SameShape (spared strict r'.hasHelper).plan))
        (ctx.resolve name hasBlock site) (ctx'.resolve name hasBlock site)) :
    (spared strict r'.hasHelper).Builders ctx ctx' where
  interpolation raw alike := interpolation_agree ext staffed staffed' alike raw
  block inverted alike _ _ := block_agree ext staffed staffed' alike _ _ _ _ inverted
  rawBlock body _ := rawBlock_agree body
  resolve := resolves

end Nodes

include ext in
/-- A registry with more helpers works like the one that it extends. -/
theorem spared_between (s : Settings) :
    (spared s.knownHelpersOnly r'.hasHelper).Between { settings := s, registry := r }
      { settings := s, registry := r' } where
  start := ⟨rfl, nofun⟩
  callees := spared_readsCallees ext
  delimiters := rfl
  runtimePartials := rfl
  partials := ext.partials
  builders settings style settings' style' resolves :=
    spared_builders ext ⟨style, congrArg _ settings⟩ ⟨style', congrArg _ settings'⟩ resolves

end Correspondence

/-! ### Whole calls -/

namespace Registry

theorem hasHelper_registerHelper {r : Registry} {name other : String} {h : Helper} :
    (r.registerHelper name h).hasHelper other = true ↔ r.hasHelper other = true ∨ other = name := by
  rw [hasHelper_eq, hasHelper_eq, Bool.or_eq_true, Bool.or_eq_true]
  exact (or_congr_left (Table.isSome_get?_insert.trans or_comm)).trans or_right_comm

theorem hasHelper_registerBlockHelper {r : Registry} {name other : String} {h : BlockHelper} :
    (r.registerBlockHelper name h).hasHelper other = true ↔
      r.hasHelper other = true ∨ other = name := by
  rw [hasHelper_eq, hasHelper_eq, Bool.or_eq_true, Bool.or_eq_true]
  exact (or_congr_right (Table.isSome_get?_insert.trans or_comm)).trans or_assoc.symm

variable {r r' : Registry}

theorem Extends.refl (r : Registry) : r.Extends r :=
  ⟨rfl, fun _ => id, fun _ unknown known => by rw [unknown] at known; cases known⟩

theorem Extends.spared (ext : r.Extends r') (s : Settings) (source : String) :
    (r'.compile s source).errors = (r.compile s source).errors.filter (·.stays r'.hasHelper) ∧
      (s.knownHelpersOnly = false → ∀ d ∈ (r.compile s source).errors, ∀ name,
        d.missing? = some name → Path.IsLegal name.toList) := by
  have between := Correspondence.spared_between ext s
  have states := (Correspondence.compileTemplate_agree between source {} {}
    ⟨between.start, rfl, .nil, .nil, rfl⟩).2
  rw [compile_errors, compile_errors]
  exact states.report

end Registry

/-! ### Checking ahead of time -/

namespace Bundle

theorem isReportable_eq (d : Diagnostic) : isReportable d = d.missing?.isNone := by
  induction d with
  | inPartial name cause ih => exact ih
  | _ => rfl

theorem checkRegistry_hasHelper (partials : List Source) :
    (checkRegistry partials).hasHelper = Registry.builtin.hasHelper := by
  have kept (r : Registry) :
      (partials.foldl (fun r source => r.registerPartial source.name source.content) r).hasHelper =
        r.hasHelper := by
    induction partials generalizing r with
    | nil => rfl
    | cons source partials ih => exact ih _
  exact kept Registry.builtin

/-- The helpers that a check forgives to be missing. -/
def forgiven (partials : List Source) (source : Source) : List String :=
  ((checkRegistry partials).compile { runtimePartials := true } source.content).errors.filterMap
    Diagnostic.missing?

variable {partials : List Source} {source : Source}

/-- A check that accepts leaves no complaint but the forgiven ones. -/
theorem missing_mem_forgiven (accepted : check partials source = []) :
    ∀ d ∈ ((checkRegistry partials).compile { runtimePartials := true } source.content).errors,
      ∃ name ∈ forgiven partials source, d.missing? = some name := by
  intro d member
  have missing : ∃ name, d.missing? = some name := by
    unfold check at accepted
    have found := member
    unfold CompileOutcome.errors at found
    split at accepted
    · next ok =>
      rw [ok] at found
      cases found
    · next errors failed =>
      rw [failed] at found
      have kept := List.filter_eq_nil_iff.mp (List.map_eq_nil_iff.mp accepted) d found
      rw [isReportable_eq, Option.isNone_iff_eq_none] at kept
      exact Option.ne_none_iff_exists'.mp kept
  obtain ⟨name, named⟩ := missing
  exact ⟨name, List.mem_filterMap.mpr ⟨d, member, named⟩, named⟩

/-- With the helpers that were forgiven the registry of the check becomes a larger one. -/
theorem checkRegistry_extends {r : Registry} (same : r.partials = (checkRegistry partials).partials)
    (builtins : ∀ name, Registry.builtin.hasHelper name = true → r.hasHelper name = true)
    (others : ∀ name, r.hasHelper name = true → Registry.builtin.hasHelper name = true ∨
      name ∈ forgiven partials source ∨ Path.IsLegal name.toList) :
    (checkRegistry partials).Extends r where
  partials := same.symm
  helpers := by
    rw [checkRegistry_hasHelper]
    exact builtins
  legal name unknown known := by
    rw [checkRegistry_hasHelper] at unknown
    obtain builtin | missed | legal := others name known
    · rw [unknown] at builtin
      cases builtin
    · obtain ⟨d, member, named⟩ := List.mem_filterMap.mp missed
      exact ((Registry.Extends.refl _).spared _ _).2 rfl d member name named
    · exact legal

end Bundle

/-- Registering more helpers adds no complaint, so what a check accepts compiles with the builtin
helpers, all that the check forgave to be missing and whatever else is named by a path. -/
theorem Registry.errors_sublist_of_extends :
    (∀ (r r' : Registry) (s : Settings) (source : String), r.Extends r' →
      (r'.compile s source).errors.Sublist (r.compile s source).errors) ∧
    ∀ (partials : List Bundle.Source) (source : Bundle.Source) (r : Registry),
      Bundle.check partials source = [] →
      r.partials = (Bundle.checkRegistry partials).partials →
      (∀ name, Registry.builtin.hasHelper name = true → r.hasHelper name = true) →
      (∀ name ∈ Bundle.forgiven partials source, r.hasHelper name = true) →
      (∀ name, r.hasHelper name = true → Registry.builtin.hasHelper name = true ∨
        name ∈ Bundle.forgiven partials source ∨ Path.IsLegal name.toList) →
      ∃ t, (r.compile { runtimePartials := true } source.content).result = .ok t := by
  refine ⟨fun r r' s source ext => ?_,
    fun partials source r accepted same builtins forgiven others => ?_⟩
  · rw [(ext.spared s source).1]
    exact List.filter_sublist
  · have ext := Bundle.checkRegistry_extends same builtins others
    have none : (r.compile { runtimePartials := true } source.content).errors = [] := by
      rw [(ext.spared _ _).1, List.filter_eq_nil_iff]
      intro d member stays
      obtain ⟨name, missed, named⟩ := Bundle.missing_mem_forgiven accepted d member
      simp [Diagnostic.stays, named, forgiven name missed] at stays
    exact result_of_errors none

/-- A partial that asks a helper which is registered later. -/
def signature : Bundle.Source :=
  { name := "signature"
    content := "\x7b\x7b#if (known user)\x7d\x7d\x7b\x7buser\x7d\x7d\x7b\x7b/if\x7d\x7d" }

def letter : Bundle.Source :=
  { name := "letter"
    content := "\x7b\x7blookup names (pick 3)\x7d\x7d\x7b\x7b> signature\x7d\x7d" }

/-- The registry of the check with the helpers that the partial and its caller need. -/
def writing : Registry :=
  ((Bundle.checkRegistry [signature]).registerHelper "pick" Helper.lookup).registerBlockHelper
    "known" fun _ _ _ => .ok .null

/-- The template is in order but for the helpers, and with the helpers it compiles. -/
theorem letter_compiles :
    (Bundle.checkRegistry [signature]).Extends writing ∧
      (writing.compile { runtimePartials := true } letter.content).errors.Sublist
        ((Bundle.checkRegistry [signature]).compile { runtimePartials := true }
          letter.content).errors ∧
      Bundle.check [signature] letter = [] ∧
      Bundle.forgiven [signature] letter = ["pick", "known"] ∧
      ∃ t, (writing.compile { runtimePartials := true } letter.content).result = .ok t := by
  have accepted : Bundle.check [signature] letter = [] := by decide +kernel
  have forgiven : Bundle.forgiven [signature] letter = ["pick", "known"] := by decide +kernel
  have known (name : String) : writing.hasHelper name = true ↔
      Registry.builtin.hasHelper name = true ∨ name ∈ Bundle.forgiven [signature] letter := by
    rw [writing, Registry.hasHelper_registerBlockHelper, Registry.hasHelper_registerHelper,
      Bundle.checkRegistry_hasHelper, forgiven, List.mem_pair, or_assoc]
  have same : writing.partials = (Bundle.checkRegistry [signature]).partials := rfl
  have builtins (name : String) (h : Registry.builtin.hasHelper name = true) :=
    (known name).mpr (.inl h)
  have others (name : String) (h : writing.hasHelper name = true) :
      Registry.builtin.hasHelper name = true ∨ name ∈ Bundle.forgiven [signature] letter ∨
        Path.IsLegal name.toList :=
    ((known name).mp h).imp_right Or.inl
  have ext := Bundle.checkRegistry_extends same builtins others
  exact ⟨ext, Registry.errors_sublist_of_extends.1 _ _ _ _ ext, accepted, forgiven,
    Registry.errors_sublist_of_extends.2 _ _ _ accepted same builtins
      (fun name missed => (known name).mpr (.inr missed)) others⟩

end Stencil
