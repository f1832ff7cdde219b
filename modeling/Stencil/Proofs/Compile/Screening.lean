import Stencil.Proofs.Compile.Findings
import Stencil.Proofs.Render.Missing

/-!
Which calls a compile call lets through.

Calls are formed in two places: a tag that says more than a name becomes a call, and so does what
stands in parentheses. With known helpers only, the first asks for a helper whatever the head is;
the second does so only for a head that is one plain name. So what a compiled template calls is a
helper, or a path without arguments, or a path in parentheses that is more than a plain name. Only
the last can fail for want of a helper.
-/

namespace Stencil

open Markup

/-! ### Screened calls -/

/-- The call invokes a helper, or it has no arguments, or it stands in parentheses and invokes a
path that is not one plain name. -/
def Screened (isHelper : String → Bool) (i : Place × Call) : Prop :=
  match i.2.callee with
  | .helper name => isHelper name = true
  | .path p =>
    (i.2.args = [] ∧ i.2.hash = []) ∨ (i.1 = .parentheses ∧ p.simpleName? = none)

/-- The calls in the arguments of a tag. -/
def Content.calls (content : Content) : List (Place × Call) :=
  Expr.callsOfArgs content.params ++ Expr.callsOfHash content.hash

/-- The calls in the name of a partial, if a tag computes one. -/
def Markup.TagKind.calls : TagKind → List (Place × Call)
  | .inclusion (.dynamic e) | .inclusionBlock (.dynamic e) => e.calls
  | _ => []

/-- The calls in what a tag says; its own is not among them. -/
def Markup.Tag.calls (tag : Tag) : List (Place × Call) :=
  tag.content.calls ++ tag.kind.calls

variable {isHelper : String → Bool}

/-- All calls are screened. -/
abbrev AllScreened (isHelper : String → Bool) (calls : List (Place × Call)) : Prop :=
  ∀ i ∈ calls, Screened isHelper i

theorem AllScreened.append {calls calls' : List (Place × Call)} :
    AllScreened isHelper (calls ++ calls') ↔
      AllScreened isHelper calls ∧ AllScreened isHelper calls' :=
  List.forall_mem_append

theorem AllScreened.insert {hash : Table Expr} {name : String} {e : Expr}
    (h : AllScreened isHelper (Expr.callsOfHash hash)) (he : AllScreened isHelper e.calls) :
    AllScreened isHelper (Expr.callsOfHash (Table.insert hash name e)) := by
  intro i inside
  obtain ⟨entry, member, inside⟩ := Expr.mem_callsOfHash.mp inside
  rcases Table.mem_of_mem_insert member with before | rfl
  · exact h i (Expr.mem_callsOfHash.mpr ⟨entry, before, inside⟩)
  · exact he i inside

/-! ### Reading -/

namespace Expr

open Reading (Finds)

variable (site : Site)

theorem callee_finds (head : List Char) (args : List Expr) (hash : Table Expr) :
    Finds (callee isHelper site head (!(args.isEmpty && hash.isEmpty))) fun callee =>
      Screened isHelper (.parentheses, { callee, args, hash }) := by
  unfold callee
  simp only
  split
  · next known => exact .bind (.steady (.count _)) fun _ => .pure fun _ => known
  · refine .bind (.steady (Path.read_steady head site)) fun path => ?_
    split
    · exact .bind (.addError _) fun _ => .pure fun never => never.elim
    · next fine =>
      refine .pure fun _ => ?_
      -- only of a plain name is it asked whether there are arguments
      by_cases plain : path.simpleName? = none
      · exact .inr ⟨rfl, plain⟩
      · refine .inl ?_
        simpa [Option.isSome_iff_ne_none, plain] using fine

mutual

theorem read_finds (token : List Char) :
    Finds (read isHelper site token) fun e => AllScreened isHelper e.calls := by
  rw [read]
  split
  · refine .pure ?_
    rw [Expr.calls]
    exact nofun
  · split
    · refine .bind (.steady (Path.read_steady token site)) fun path => .pure fun _ => ?_
      rw [Expr.calls]
      exact nofun
    · next inner h =>
      split
      · exact .throw _
      · exact .throw _
      · next head rest params ht =>
        have smaller : room rest < token.length := by
          have inner := length_of_parenthesized? h
          have fits := room_of_tokens ht
          rw [room_cons] at fits
          omega
        refine .bind (readArguments_finds [] rest) fun arguments =>
          .bind (.steady (.count _)) fun _ =>
            .bind (callee_finds site head arguments.1 arguments.2) fun callee =>
              .pure fun called _ inside => ?_
        rw [Expr.calls, Call.inner]
        exact List.forall_mem_cons.mpr ⟨called, inside (by rw [Expr.callsOfHash]; exact nofun)⟩
termination_by token.length

/-- The named arguments before are among those that are read. -/
theorem readArguments_finds (hash : Table Expr) (ts : List (List Char)) :
    Finds (readArguments isHelper site hash ts) fun arguments =>
      AllScreened isHelper (Expr.callsOfHash hash) →
        AllScreened isHelper (Expr.callsOfArgs arguments.1 ++ Expr.callsOfHash arguments.2) := by
  match ts with
  | [] =>
      rw [readArguments]
      refine .pure fun before => ?_
      rw [Expr.callsOfArgs]
      exact before
  | token :: ts =>
      have first : token.length < room (token :: ts) := by rw [room_cons]; omega
      have others : room ts < room (token :: ts) := by rw [room_cons]; omega
      rw [readArguments]
      split
      · next name value h =>
        have shorter : value.length < room (token :: ts) := Nat.lt_trans (length_of_named? h) first
        refine .bind (read_finds value) fun v => ?_
        have rest := (readArguments_finds (Table.insert hash (String.ofList name) v) ts).weaken
          fun _ found (here : AllScreened isHelper v.calls) before =>
            found (AllScreened.insert before here)
        simp only
        split
        · exact .bind (.steady (.addWarning _)) fun _ => rest.weaken fun _ found _ => found
        · exact rest
      · refine .bind (read_finds token) fun arg => .bind (readArguments_finds hash ts)
          fun arguments => .pure fun found here before => ?_
        rw [Expr.callsOfArgs, List.append_assoc]
        exact AllScreened.append.mpr ⟨here, found before⟩
termination_by room ts

end

end Expr

namespace Content

open Reading (Finds)

variable (site : Site) (text : List Char)

theorem read_finds :
    Finds (read isHelper site text) fun content => AllScreened isHelper content.calls := by
  unfold read
  split
  · exact .throw _
  · exact .pure nofun
  · refine .bind (Expr.readArguments_finds site [] _) fun arguments => ?_
    simp only
    split
    · exact .bind (.steady (.count _)) fun _ => .pure fun _ found =>
        found (by rw [Expr.callsOfHash]; exact nofun)
    · exact .pure fun found => found (by rw [Expr.callsOfHash]; exact nofun)

theorem readPartial_finds :
    Finds (readPartial isHelper site text) fun named =>
      AllScreened isHelper named.2.calls ∧
        ∀ e, named.1 = .dynamic e → AllScreened isHelper e.calls := by
  refine .bind (read_finds site text) fun content => ?_
  simp only
  split
  · refine .bind (Expr.read_finds site _) fun name => .pure fun computed screened =>
      ⟨screened, ?_⟩
    rintro _ ⟨⟩
    exact computed
  · exact .pure fun screened => ⟨screened, nofun⟩

end Content

/-! ### Tags and tokens -/

namespace Markup

open Reading (Finds)

theorem readInline_finds (site : Site) (inner : List Char) :
    Finds (readInline isHelper site inner) fun read =>
      AllScreened isHelper (read.2.calls ++ read.1.calls) := by
  refine .bind (Content.read_finds site inner) fun content => ?_
  split
  · exact .pure fun screened => AllScreened.append.mpr ⟨screened, List.forall_mem_nil _⟩
  · exact .throw _

theorem readKind_finds (raw : RawTag) :
    Report.Finds (readKind isHelper raw) fun read =>
      AllScreened isHelper (read.2.calls ++ read.1.calls) := by
  have plain {kind : TagKind} (silent : kind.calls = []) (text : List Char) : Report.Finds (do
        return (kind, ← orReport (fallback raw.inner) (Content.read isHelper raw.site text)))
      fun read => AllScreened isHelper (read.2.calls ++ read.1.calls) := by
    refine .bind (orReport_finds (Content.read_finds raw.site text) _) fun content =>
      .pure fun screened => ?_
    rw [silent, List.append_nil]
    exact screened
  have inclusion {kind : PartialName → TagKind}
      (computes : ∀ name, (kind name).calls = (TagKind.inclusion name).calls) : Report.Finds (do
        let default := (PartialName.static (fallback raw.inner).head, fallback raw.inner)
        let named ← orReport default (Content.readPartial isHelper raw.site raw.inner)
        return (kind named.1, named.2))
      fun read => AllScreened isHelper (read.2.calls ++ read.1.calls) := by
    refine .bind (orReport_finds (Content.readPartial_finds raw.site raw.inner) _) fun named =>
      .pure fun screened => AllScreened.append.mpr ⟨screened.1, ?_⟩
    rw [computes]
    cases name : named.1 with
    | static name => exact List.forall_mem_nil _
    | dynamic e => exact screened.2 e name
  unfold readKind
  simp only
  split
  · exact .pure nofun
  · exact plain rfl _
  · exact plain rfl _
  · exact plain rfl _
  · split
    · exact .pure nofun
    · exact plain rfl _
  · exact .pure nofun
  · exact .pure nofun
  · exact inclusion fun _ => rfl
  · exact inclusion fun name => by cases name <;> rfl
  · exact orReport_finds (readInline_finds raw.site raw.inner) _
  · split
    · exact plain rfl _
    · exact plain rfl _

theorem RawTag.read_finds (raw : RawTag) :
    Report.Finds (raw.read isHelper) fun tag => AllScreened isHelper tag.calls :=
  .bind (readKind_finds raw) fun _ => .bind (Report.Finds.steady (.count _)) fun _ =>
    .pure fun _ screened => screened

theorem readPieces_finds (pieces : List Piece) :
    Report.Finds (readPieces isHelper pieces) fun items =>
      ∀ raw tag, .tag raw tag ∈ items → AllScreened isHelper tag.calls := by
  induction pieces with
  | nil => exact .pure fun _ _ member => nomatch member
  | cons piece pieces ih =>
      cases piece with
      | text t =>
          refine .bind ih fun items => .pure fun screened raw tag member => ?_
          cases member with
          | tail _ member => exact screened raw tag member
      | tag raw =>
          refine .bind (RawTag.read_finds raw) fun tag => .bind ih fun items =>
            .pure fun screened here raw' tag' member => ?_
          cases member with
          | head => exact here
          | tail _ member => exact screened raw' tag' member
      | fault cause =>
          exact .bind Report.Finds.addError fun _ => ih.weaken fun _ _ never => never.elim

/-- The calls in the tags of a template are screened. -/
theorem readTemplate_finds (s : Settings) (source : String) :
    Report.Finds (readTemplate s isHelper source) fun tokens =>
      ∀ tag, .tag tag ∈ tokens → AllScreened isHelper tag.calls := by
  refine .bind (readPieces_finds _) fun items =>
    .bind (Report.Finds.steady (checkNesting_steady _)) fun _ =>
      .bind (Report.Finds.steady (.addEvent rfl)) fun _ => .pure fun _ _ screened tag member => ?_
  obtain ⟨raw, read, before, after, rfl, rfl⟩ := of_mem_layout member
  exact screened raw read (List.mem_append_right _ (.head _))

end Markup

/-! ### Nodes -/

/-- The calls in a node are screened. -/
abbrev Node.Screened (isHelper : String → Bool) (node : Node) : Prop :=
  AllScreened isHelper node.calls

theorem Plan.all_screened {plan : Plan} :
    Plan.All (Node.Screened isHelper) plan ↔ AllScreened isHelper (Plan.calls plan) := by
  constructor
  · intro all i inside
    obtain ⟨node, member, inside⟩ := Plan.mem_calls.mp inside
    exact all node member i inside
  · intro screened node member i inside
    exact screened i (Plan.mem_calls.mpr ⟨node, member, inside⟩)

theorem Node.screened_block {kind : BlockKind} {body : Plan} {inverse : Option Plan}
    {params : List String} (hk : AllScreened isHelper kind.calls)
    (hb : Plan.All (Node.Screened isHelper) body)
    (hi : ∀ plan ∈ inverse, Plan.All (Node.Screened isHelper) plan) :
    Node.Screened isHelper (.block kind body inverse params) := by
  have hb := Plan.all_screened.mp hb
  cases inverse with
  | none =>
      rw [Node.Screened, Node.calls]
      exact AllScreened.append.mpr ⟨hk, hb⟩
  | some inverse =>
      rw [Node.Screened, Node.calls]
      exact AllScreened.append.mpr
        ⟨hk, AllScreened.append.mpr ⟨hb, Plan.all_screened.mp (hi inverse rfl)⟩⟩

theorem Node.screened_inclusion {call : Inclusion} {target : Target} {block : Option Plan}
    (hc : AllScreened isHelper call.calls) (ht : AllScreened isHelper target.calls)
    (hb : ∀ plan ∈ block, Plan.All (Node.Screened isHelper) plan) :
    Node.Screened isHelper (.inclusion call target block) := by
  cases block with
  | none =>
      rw [Node.Screened, Node.calls]
      exact AllScreened.append.mpr ⟨hc, ht⟩
  | some block =>
      rw [Node.Screened, Node.calls]
      exact AllScreened.append.mpr
        ⟨hc, AllScreened.append.mpr ⟨ht, Plan.all_screened.mp (hb block rfl)⟩⟩

namespace Content

variable {content : Content}

theorem screened_param (h : AllScreened isHelper content.calls) {e : Expr}
    (member : e ∈ content.params) : AllScreened isHelper e.calls :=
  fun i inside => h i (List.mem_append_left _ (Expr.mem_callsOfArgs.mpr ⟨e, member, inside⟩))

theorem screened_hash (h : AllScreened isHelper content.calls) :
    AllScreened isHelper (Expr.callsOfHash content.hash) :=
  (AllScreened.append.mp h).2

/-- The first argument, if there is one. -/
theorem screened_head (h : AllScreened isHelper content.calls) {default : Expr}
    (quiet : default.calls = []) : AllScreened isHelper (content.params.headD default).calls := by
  cases given : content.params with
  | nil =>
      rw [List.headD_nil, quiet]
      exact List.forall_mem_nil _
  | cons e es =>
      rw [List.headD_cons]
      exact screened_param h (given ▸ List.mem_cons_self)

end Content

theorem Builtin.open?_screened {content : Content} (h : AllScreened isHelper content.calls)
    {openBlock : Site → StateM Report BlockKind} (opens : open? content = some openBlock)
    (site : Site) (r : Report) : AllScreened isHelper ((openBlock site).run r).1.calls := by
  have subject : AllScreened isHelper (subject content).calls :=
    Content.screened_head h (by rw [Expr.calls])
  have condition (label : String) (negate : Bool) :
      AllScreened isHelper ((openCondition label negate content site).run r).1.calls := by
    refine AllScreened.append.mpr ⟨subject, ?_⟩
    cases found : Table.get? content.hash "includeZero" with
    | none => exact List.forall_mem_nil _
    | some e =>
        intro i inside
        have member := Table.mem_of_get? found
        exact Content.screened_hash h i (Expr.mem_callsOfHash.mpr ⟨_, member, inside⟩)
  unfold open? at opens
  split at opens
  · cases opens
    exact condition "if" false
  split at opens
  · cases opens
    exact condition "unless" true
  split at opens
  · cases opens
    exact subject
  split at opens
  · cases opens
    exact Content.screened_head h (by rw [Expr.this, Expr.calls])
  · cases opens

namespace BuildContext

open Compiling

variable {ctx : BuildContext} {tidy : String → Prop} {P : Node → Prop}

theorem headExpr_screened (tag : Tag) :
    Maintains tidy P (ctx.headExpr tag) fun e => AllScreened ctx.isHelper e.calls :=
  Maintains.readOr (Expr.read_finds tag.site _) (Expr.read_steady _ _ _) _

/-- With known helpers only, a tag calls no path with arguments. -/
theorem callee?_screened (known : ctx.settings.knownHelpersOnly = true) (tag : Tag) :
    Maintains tidy P (ctx.callee? tag) fun found => ∀ callee style,
      found = some (callee, style) → ctx.isHelper tag.content.head = true ∧
        callee = .helper tag.content.head := by
  unfold callee?
  split
  · next style registered =>
    refine .pure ?_
    rintro _ _ ⟨⟩
    refine ⟨?_, rfl⟩
    rw [isHelper, registered]
    rfl
  split
  · refine .pure ?_
    rintro _ _ ⟨⟩
  exact .bind (Maintains.addError _) fun _ =>
    .bind (Maintains.steadily (headPath_steady tag)) fun _ => .pure fun _ never => never.elim

/-- The call of a tag that calls a helper. -/
theorem screened_callOf {tag : Tag} (screened : AllScreened ctx.isHelper tag.calls)
    {callee : Callee}
    (h : ctx.isHelper tag.content.head = true ∧ callee = .helper tag.content.head) :
    AllScreened ctx.isHelper (callOf callee tag).calls := by
  obtain ⟨registered, rfl⟩ := h
  rw [Call.calls, callOf, Call.inner]
  exact List.forall_mem_cons.mpr ⟨registered, (AllScreened.append.mp screened).1⟩

theorem interpolation_screened (known : ctx.settings.knownHelpersOnly = true) (tag : Tag)
    (raw : Bool) :
    Maintains tidy (Node.Screened ctx.isHelper) (ctx.interpolation tag raw) fun node =>
      AllScreened ctx.isHelper tag.calls → ∀ n ∈ node, n.Screened ctx.isHelper := by
  refine interpolation_made ctx (q := True) ?_ ?_ raw
  · refine (callee?_screened known tag).weaken fun found called => ⟨?_, fun _ => trivial⟩
    intro callee style here screened encoding
    rw [Node.Screened, Node.calls]
    exact screened_callOf screened (called callee style here)
  · refine (headExpr_screened tag).weaken fun e here _ _ encoding => ?_
    rw [Node.Screened, Node.calls]
    exact here

theorem block_screened (known : ctx.settings.knownHelpersOnly = true) (tag : Tag) (body : Plan)
    (inverse : Option Plan) (inverted : Bool) :
    Maintains tidy (Node.Screened ctx.isHelper) (ctx.block tag body inverse inverted) fun node =>
      AllScreened ctx.isHelper tag.calls → Plan.All (Node.Screened ctx.isHelper) body →
        (∀ plan ∈ inverse, Plan.All (Node.Screened ctx.isHelper) plan) →
          node.Screened ctx.isHelper := by
  let K (kind : BlockKind) : Prop := AllScreened ctx.isHelper kind.calls
  refine block_made ctx (K := K) (fun _ _ _ _ => Node.screened_block) ?_ ?_ ?_ body inverse inverted
  · intro openBlock opens
    refine .steady (.reporting (Builtin.open?_steady opens tag.site)) fun c screened => ?_
    exact Builtin.open?_screened (AllScreened.append.mp screened).1 opens tag.site c.report
  · refine (callee?_screened known tag).weaken fun found called callee style here screened _ => ?_
    exact screened_callOf screened (called callee style here)
  · exact (headExpr_screened tag).weaken fun e here _ _ => here

theorem rawBlock_screened (tag : Tag) (body : String) :
    Maintains tidy (Node.Screened ctx.isHelper) (ctx.rawBlock tag body)
      (Node.Screened ctx.isHelper) := by
  have literal : Node.Screened ctx.isHelper (.literal body) := by
    rw [Node.Screened, Node.calls]
    exact List.forall_mem_nil _
  unfold rawBlock
  split
  · exact .pure literal
  · next style registered =>
    have isHelper : ctx.isHelper tag.content.head = true := by
      rw [BuildContext.isHelper, registered]
      rfl
    refine .bind (Maintains.steadily (.count _)) fun _ => .pure fun _ => ?_
    refine Node.screened_block ?_ (List.forall_mem_singleton.mpr literal) ?_
    · exact List.forall_mem_singleton.mpr isHelper
    · rintro _ ⟨⟩

theorem inclusion_screened {tag : Tag} {name : PartialName}
    (kind : tag.kind = .inclusion name ∨ tag.kind = .inclusionBlock name)
    (screened : AllScreened ctx.isHelper tag.calls) (shown : String) {target : Target}
    {block : Option Plan} (fits : target.Fits (Node.Screened ctx.isHelper) name)
    (hb : ∀ plan ∈ block, Plan.All (Node.Screened ctx.isHelper) plan) :
    Node.Screened ctx.isHelper (.inclusion (inclusionOf tag shown) target block) := by
  obtain ⟨content, computed⟩ := AllScreened.append.mp screened
  refine Node.screened_inclusion (AllScreened.append.mpr ⟨?_, ?_⟩) ?_ hb
  · change AllScreened ctx.isHelper (tag.content.params.head?.elim [] Expr.calls)
    cases given : tag.content.params with
    | nil => exact List.forall_mem_nil _
    | cons e es => exact Content.screened_param content (given ▸ List.mem_cons_self)
  · exact Content.screened_hash content
  · cases target with
    | embedded plan =>
        rw [Target.calls]
        exact Plan.all_screened.mp fits
    | dynamic e =>
        obtain rfl : name = .dynamic e := fits
        rw [Target.calls]
        rcases kind with kind | kind <;> rw [kind] at computed <;> exact computed
    | _ =>
        rw [Target.calls]
        exact List.forall_mem_nil _

/-- With known helpers only, the builder makes screened nodes of tags with screened calls. -/
theorem upkeep_screened (ctx : BuildContext) (known : ctx.settings.knownHelpersOnly = true) :
    ctx.Upkeep tidy (Node.Screened ctx.isHelper) fun tag => AllScreened ctx.isHelper tag.calls where
  joined _ _ _ _ := by
    rw [Node.Screened, Node.calls]
    exact List.forall_mem_nil _
  inlineDef name plan all := by
    rw [Node.Screened, Node.calls]
    exact Plan.all_screened.mp all
  interpolation tag raw _ := interpolation_screened known tag raw
  block tag _ := block_screened known tag
  rawBlock tag body _ := (rawBlock_screened tag body).weaken fun _ screened _ => screened
  inclusion tag name kind screened shown target block := inclusion_screened kind screened shown

end BuildContext

namespace Workshop

variable {w : Workshop}

theorem upkeep_screened (w : Workshop) (known : w.settings.knownHelpersOnly = true) :
    w.Upkeep (fun _ => True) (Node.Screened w.registry.hasHelper) fun tag =>
      AllScreened w.registry.hasHelper tag.calls where
  reads source := by
    refine (Compiling.Maintains.reporting (readTemplate_finds w.settings source)
      (readTemplate_steady _ _ _)).weaken fun tokens screened _ token member => ?_
    cases token with
    | text s =>
        change AllScreened _ (Node.calls (.literal s))
        rw [Node.calls]
        exact List.forall_mem_nil _
    | tag tag => exact screened tag member
  builds entered available := (w.builder entered available).upkeep_screened known

end Workshop

namespace Registry

variable {registry : Registry} {settings : Settings} {source : String} {t : Template}

/-- With known helpers only, all calls of a template are screened when it is compiled. -/
theorem compile_screened (known : settings.knownHelpersOnly = true)
    (compiled : (registry.compile settings source).result = .ok t) :
    AllScreened registry.hasHelper t.calls := by
  obtain ⟨clean, plan, table, -⟩ := of_compile compiled
  let w : Workshop := { settings, registry }
  obtain ⟨root, kept⟩ := w.compileTemplate_keeps (w.upkeep_screened known) trivial clean
    fun _ _ _ _ => trivial
  rw [Template.calls, plan, table]
  refine AllScreened.append.mpr ⟨Plan.all_screened.mp root, fun i inside => ?_⟩
  obtain ⟨e, member, inside⟩ := List.mem_flatMap.mp inside
  exact Plan.all_screened.mp (kept e member) i inside

/-- With known helpers only, every call of what is no helper is found when a template is compiled,
except for calls in parentheses, with arguments, of a path that is not one plain name. Where a
render fails for want of a helper, on whatever data, the template has such a call, in its own plan
or in that of a partial, and the name in the error is that of its path. -/
theorem unknown_calls_caught (known : settings.knownHelpersOnly = true)
    (compiled : (registry.compile settings source).result = .ok t) {input : Input} {name : String}
    (failed : (t.render input).result = .error (.missingHelper name)) :
    ∃ c p, (Place.parentheses, c) ∈ t.calls ∧ c.callee = .path p ∧ p.simpleName? = none ∧
      (c.args ≠ [] ∨ c.hash ≠ []) ∧ name = p.source := by
  obtain ⟨⟨place, callee, args, hash⟩, member, misses⟩ := Template.render_misses failed
  have screened := compile_screened known compiled _ member
  obtain ⟨-, -, -, helpers, blockHelpers, -⟩ := of_compile compiled
  cases callee with
  | helper other =>
      obtain ⟨-, noHelper, noBlockHelper⟩ := misses
      have registered : registry.hasHelper other = true := screened
      rw [hasHelper_eq, Table.contains, Table.contains, ← helpers, ← blockHelpers] at registered
      rw [show Table.get? t.helpers other = none from noHelper,
        show Table.get? t.blockHelpers other = none from noBlockHelper] at registered
      cases registered
  | path p =>
      obtain ⟨named, given⟩ := misses
      -- without arguments the path is looked up, which misses nothing
      rcases screened with ⟨noArgs, noHash⟩ | ⟨rfl, long⟩
      · exact absurd given (not_or.mpr ⟨not_not.mpr noArgs, not_not.mpr noHash⟩)
      · exact ⟨⟨.path p, args, hash⟩, p, member, rfl, long, given, named⟩

end Registry

/-- Each row of a table is a partial, with a cell that is looked up by a name that nothing
computes. -/
def rowPartials : Registry :=
  Registry.builtin.registerPartial "row" "\x7b\x7bcell\x7d\x7d;"

def tableOfRows : String :=
  "\x7b\x7b#each xs\x7d\x7d" ++
    "\x7b\x7b> row cell=(lookup . (names.first 1))\x7d\x7d\x7b\x7b/each\x7d\x7d"

/-- The call inside another call, in a named argument of a partial inside a block. -/
theorem tableOfRows_misses :
    let settings : Settings := { knownHelpersOnly := true }
    let data : Value := .object [("xs", .array [.object [("a", .string "A")]])]
    let input : Input := { data, functions := fun _ _ => .done .null }
    ∃ t, (rowPartials.compile settings tableOfRows).result = .ok t ∧
      (t.render input).result = .error (.missingHelper "names.first") ∧
        ∃ c p, (Place.parentheses, c) ∈ t.calls ∧ c.callee = .path p ∧ p.simpleName? = none ∧
          (c.args ≠ [] ∨ c.hash ≠ []) ∧ "names.first" = p.source := by
  intro settings data input
  have run : ((rowPartials.compile settings tableOfRows).result.toOption.any fun t =>
      (t.render input).result = .error (.missingHelper "names.first")) = true := by
    decide +kernel
  obtain ⟨t, compiled, failed⟩ := (Option.any_eq_true _ _).mp run
  have compiled := eq_ok_of_toOption compiled
  have failed := of_decide_eq_true failed
  exact ⟨t, compiled, failed, Registry.unknown_calls_caught rfl compiled failed⟩

/-- A call in the condition of a block. -/
def dottedCondition : String :=
  "\x7b\x7b#if (foo.bar 1)\x7d\x7dA\x7b\x7b/if\x7d\x7d"

/-- The same call as a tag. -/
def dottedTag : String :=
  "\x7b\x7bfoo.bar 1\x7d\x7d"

/-- The call is not found when compiling, and rendering fails. As a tag it is an error. -/
theorem dottedCondition_misses :
    let settings : Settings := { knownHelpersOnly := true }
    let input : Input := { data := .null, functions := fun _ _ => .done .null }
    (∃ t, (Registry.builtin.compile settings dottedCondition).result = .ok t ∧
      (t.render input).result = .error (.missingHelper "foo.bar")) ∧
      (Registry.builtin.compile settings dottedTag).errors =
        [.missingHelper "foo.bar" ⟨dottedTag, 1⟩] := by
  intro settings input
  have run : ((Registry.builtin.compile settings dottedCondition).result.toOption.any fun t =>
      (t.render input).result = .error (.missingHelper "foo.bar")) = true := by
    decide +kernel
  obtain ⟨t, compiled, failed⟩ := (Option.any_eq_true _ _).mp run
  refine ⟨⟨t, eq_ok_of_toOption compiled, of_decide_eq_true failed⟩, ?_⟩
  decide +kernel

end Stencil
