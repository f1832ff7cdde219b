import Stencil.Proofs.Compile.Recursion

/-!
What every node of a compile call has.

The plan of a source is made of nodes that the builder makes of tags, and the plans that a compile
call keeps come from the sources of the partials that it compiles. So a property of nodes holds of
every plan that the call makes, if the builder gives it to each node that it makes of a tag with
some property of tags, and if the tags of all sources have that. A call is read backwards here: it
ends without errors, so there was none at any moment before.
-/

namespace Stencil

open Markup

/-! ### Looking back -/

section

variable {σ α β : Type}

/-- If the last state is fine, so was the first. Then what is kept in the first is kept in the
last, and the result is as `p` says. -/
def Preserves (fine kept : σ → Prop) (x : StateM σ α) (p : α → Prop) : Prop :=
  ∀ s, fine (x.run s).2 → fine s ∧ (kept s → kept (x.run s).2 ∧ p (x.run s).1)

namespace Preserves

variable {fine kept : σ → Prop} {x : StateM σ α} {p : α → Prop}

theorem pure {a : α} (h : p a) : Preserves fine kept (Pure.pure a) p :=
  fun _ fine => ⟨fine, fun kept => ⟨kept, h⟩⟩

/-- What comes second may rely on the result of what comes first. -/
theorem bind {f : α → StateM σ β} {q : β → Prop} (h : Preserves fine kept x p)
    (next : ∀ a, Preserves fine kept (f a) fun b => p a → q b) :
    Preserves fine kept (x >>= f) q := by
  intro s last
  -- backwards through the states that are fine, forwards through what is kept
  obtain ⟨middle, second⟩ := next (x.run s).1 (x.run s).2 last
  obtain ⟨start, first⟩ := h s middle
  refine ⟨start, fun keeps => ?_⟩
  obtain ⟨keeps, result⟩ := first keeps
  obtain ⟨keeps, result'⟩ := second keeps
  exact ⟨keeps, result' result⟩

theorem weaken {q : α → Prop} (h : Preserves fine kept x p) (imp : ∀ a, p a → q a) :
    Preserves fine kept x q := by
  intro s last
  obtain ⟨start, first⟩ := h s last
  refine ⟨start, fun keeps => ?_⟩
  obtain ⟨keeps, result⟩ := first keeps
  exact ⟨keeps, imp _ result⟩

theorem change {f : σ → σ} (before : ∀ s, fine (f s) → fine s)
    (keeps : ∀ s, kept s → kept (f s)) :
    Preserves fine kept (modify f) fun _ => True :=
  fun s last => ⟨before s last, fun keptBefore => ⟨keeps s keptBefore, trivial⟩⟩

end Preserves

end

/-- The nodes of a plan have a property. -/
def Plan.All (P : Node → Prop) (plan : Plan) : Prop :=
  ∀ node ∈ plan, P node

variable {P : Node → Prop}

theorem Plan.All.reverse {plan : Plan} (h : Plan.All P plan) : Plan.All P plan.reverse :=
  fun node member => h node (List.mem_reverse.mp member)

/-! ### Compile calls -/

/-- No error is reported, and all that is compiled is tidy. -/
structure Compilation.Fine (tidy : String → Prop) (c : Compilation) : Prop where
  errors : c.report.errors = []
  compiled : ∀ name ∈ c.report.compiled, tidy name

/-- The nodes of the plans that a call keeps have a property. -/
structure Compilation.Keeps (P : Node → Prop) (c : Compilation) : Prop where
  embedded : Table.All (Plan.All P) c.embedded
  table : Table.All (Plan.All P) c.table

namespace Compiling

variable {α : Type} {tidy : String → Prop} {p : α → Prop} {x : Compiling α}

/-- If the call ends without errors and all that it compiles is tidy, then the plans that it keeps
go on to have nodes as `P` says, and the result is as `p` says. -/
abbrev Maintains (tidy : String → Prop) (P : Node → Prop) (x : Compiling α) (p : α → Prop) : Prop :=
  Preserves (Compilation.Fine tidy) (Compilation.Keeps P) x p

namespace Maintains

theorem steady (h : IsSteady x) (gives : ∀ c, p (x.run c).1) : Maintains tidy P x p := by
  obtain ⟨a, errors, h, -⟩ := h
  intro c last
  have result := gives c
  obtain ⟨r, run, written, compiled⟩ := h c
  rw [run] at result last ⊢
  refine ⟨⟨?_, ?_⟩, fun keeps => ⟨⟨keeps.embedded, keeps.table⟩, result⟩⟩
  · exact (List.append_eq_nil_iff.mp (written.symm.trans last.errors)).1
  · rw [← compiled]
    exact last.compiled

/-- What only writes to the report changes nothing that is kept. -/
theorem steadily (h : IsSteady x) : Maintains tidy P x fun _ => True :=
  .steady h fun _ => trivial

/-- Changes of anything but the report and the plans that are kept. -/
theorem aside {f : Compilation → Compilation} (report : ∀ c, (f c).report = c.report)
    (embedded : ∀ c, (f c).embedded = c.embedded) (table : ∀ c, (f c).table = c.table) :
    Maintains tidy P (modify f) fun _ => True := by
  refine .change (fun c fine => ?_) fun c keeps => ?_
  · have before := report c
    exact ⟨before ▸ fine.errors, before ▸ fine.compiled⟩
  · exact ⟨embedded c ▸ keeps.embedded, table c ▸ keeps.table⟩

theorem pushLayer : Maintains tidy P pushLayer fun _ => True :=
  .aside (fun _ => rfl) (fun _ => rfl) fun _ => rfl

theorem popLayer : Maintains tidy P popLayer fun _ => True :=
  .aside (fun _ => rfl) (fun _ => rfl) fun _ => rfl

theorem declareInline (name : String) : Maintains tidy P (declareInline name) fun _ => True := by
  intro c
  rw [declareInline_run]
  split
  · exact fun fine => ⟨fine, fun keeps => ⟨keeps, trivial⟩⟩
  · split <;> exact fun fine => ⟨⟨fine.1, fine.2⟩, fun keeps => ⟨⟨keeps.1, keeps.2⟩, trivial⟩⟩

theorem hasInline (name : String) : Maintains tidy P (hasInline name) fun _ => True :=
  fun _ fine => ⟨fine, fun keeps => ⟨keeps, trivial⟩⟩

/-- What is kept of the source of a partial rests on its name being tidy. -/
theorem insidePartial {name : String} (h : Maintains tidy P x fun a => tidy name → p a) :
    Maintains tidy P (insidePartial name x) p := by
  intro c
  rw [insidePartial_run]
  intro last
  have inside : ((x.run (enterPartial name c)).2).Fine tidy :=
    ⟨leavePartial_errors last.errors, last.compiled⟩
  obtain ⟨start, keeps⟩ := h (enterPartial name c) inside
  refine ⟨⟨(List.append_eq_nil_iff.mp last.errors).1, ?_⟩, fun before => ?_⟩
  · exact fun other member => start.compiled other (.tail _ member)
  · obtain ⟨after, result⟩ := keeps ⟨before.embedded, before.table⟩
    exact ⟨⟨after.embedded, after.table⟩, result (start.compiled name (.head _))⟩

end Maintains

end Compiling

/-! ### The builder -/

/-- The tag starts a block that a name decides over. -/
def Markup.Tag.StartsBlock (tag : Tag) : Prop :=
  (∃ inverted, tag.kind = .opening inverted) ∨ tag.kind = .alternative true

/-- The target is one for a partial of this name, and the plan in it has nodes as `P` says. -/
def Target.Fits (P : Node → Prop) (name : PartialName) : Target → Prop
  | .embedded plan => Plan.All P plan
  | .dynamic e => name = .dynamic e
  | .named _ | .partialBlock => True

/-- The nodes that a builder makes of tags as `T` says are as `P` says, when those inside them
are. -/
structure BuildContext.Upkeep (tidy : String → Prop) (P : Node → Prop) (T : Tag → Prop)
    (ctx : BuildContext) : Prop where
  joined : ∀ s t, P (.literal s) → P (.literal t) → P (.literal (s ++ t))
  inlineDef : ∀ name plan, Plan.All P plan → P (.inlineDef name plan)
  interpolation : ∀ tag raw, tag.kind = .interpolation raw →
    Compiling.Maintains tidy P (ctx.interpolation tag raw) fun node =>
      T tag → ∀ n ∈ node, P n
  block : ∀ tag, tag.StartsBlock → ∀ body inverse inverted,
    Compiling.Maintains tidy P (ctx.block tag body inverse inverted) fun node =>
      T tag → Plan.All P body → (∀ plan ∈ inverse, Plan.All P plan) → P node
  rawBlock : ∀ tag body, tag.kind = .rawBlock body →
    Compiling.Maintains tidy P (ctx.rawBlock tag body) fun node => T tag → P node
  inclusion : ∀ tag name, tag.kind = .inclusion name ∨ tag.kind = .inclusionBlock name → T tag →
    ∀ shown target block, Target.Fits P name target → (∀ plan ∈ block, Plan.All P plan) →
      P (.inclusion (inclusionOf tag shown) target block)

namespace BuildContext

open Compiling (Maintains)

variable (ctx : BuildContext) {tidy : String → Prop}

/-- An interpolation is as `P` says if the tag makes it so, by what it calls or else by what its
head names. -/
theorem interpolation_made {q t : Prop} {tag : Tag}
    (calls : Maintains tidy P (ctx.callee? tag) fun found =>
      (∀ callee style, found = some (callee, style) → t →
        ∀ encoding, P (.helper (callOf callee tag) encoding)) ∧ (found = none → q))
    (names : Maintains tidy P (ctx.headExpr tag) fun e =>
      q → t → ∀ encoding, P (.lookup e encoding)) (raw : Bool) :
    Maintains tidy P (ctx.interpolation tag raw) fun node => t → ∀ n ∈ node, P n := by
  unfold interpolation
  split
  · exact .bind (Maintains.steadily (.addError rfl)) fun _ => .pure fun _ _ => nofun
  · refine .bind calls fun found => ?_
    split
    · next callee style =>
      refine .bind (Maintains.steadily (.count _)) fun _ => .pure fun _ made here => ?_
      rintro _ ⟨rfl⟩
      exact made.1 callee style rfl here _
    · refine .bind names fun e => .pure fun named made here => ?_
      rintro _ ⟨rfl⟩
      exact named (made.2 rfl) here _

/-- Where lookups and helper calls are as `P` says, all interpolations are. -/
theorem interpolation_closed (helpers : ∀ call encode, P (.helper call encode))
    (lookups : ∀ e encode, P (.lookup e encode)) (tag : Tag) (raw : Bool) :
    Maintains tidy P (ctx.interpolation tag raw) fun node => ∀ n ∈ node, P n := by
  have calls : Maintains tidy P (ctx.callee? tag) fun found =>
      (∀ callee style, found = some (callee, style) → True →
        ∀ encoding, P (.helper (callOf callee tag) encoding)) ∧ (found = none → True) :=
    (Maintains.steadily (callee?_steady ctx tag)).weaken fun _ _ =>
      ⟨fun _ _ _ _ => helpers _, fun _ => trivial⟩
  have names : Maintains tidy P (ctx.headExpr tag) fun e =>
      True → True → ∀ encoding, P (.lookup e encoding) :=
    (Maintains.steadily (headExpr_steady ctx tag)).weaken fun e _ _ _ => lookups e
  exact (interpolation_made ctx calls names raw).weaken fun _ made => made trivial

/-- A block is as `P` says if the tag makes something decide over it that is as `K` says, and all
blocks are as `P` says over which that decides, whichever way round their branches are. -/
theorem block_made {K : BlockKind → Prop} {t : Prop} {tag : Tag}
    (blocks : ∀ kind body inverse params, K kind → Plan.All P body →
      (∀ plan ∈ inverse, Plan.All P plan) → P (.block kind body inverse params))
    (builtin : ∀ openBlock, Builtin.open? tag.content = some openBlock →
      Maintains tidy P (Compiling.reporting (openBlock tag.site)) fun kind => t → K kind)
    (calls : Maintains tidy P (ctx.callee? tag) fun found => ∀ callee style,
      found = some (callee, style) → t → ∀ inverted, K (.helper (callOf callee tag) style inverted))
    (names : Maintains tidy P (ctx.headExpr tag) fun e => t → ∀ inverted, K (.value e inverted))
    (body : Plan) (inverse : Option Plan) (inverted : Bool) :
    Maintains tidy P (ctx.block tag body inverse inverted) fun node =>
      t → Plan.All P body → (∀ plan ∈ inverse, Plan.All P plan) → P node := by
  unfold block
  simp only
  split
  · next openBlock opens =>
    refine .bind (builtin openBlock opens) fun kind => ?_
    split
    · refine .pure fun hk here hb hi => blocks _ _ _ _ (hk here) ?_ ?_
      · cases inverse with
        | none => exact List.forall_mem_nil _
        | some inverse => exact hi inverse rfl
      · rintro _ ⟨rfl⟩
        exact hb
    · exact .pure fun hk here => blocks _ _ _ _ (hk here)
  · refine .bind calls fun found => ?_
    split
    · next callee style =>
      exact .bind (Maintains.steadily (.count _)) fun _ => .pure fun _ made here =>
        blocks _ _ _ _ (made callee style rfl here inverted)
    · exact .bind names fun e => .pure fun named _ here => blocks _ _ _ _ (named here inverted)

variable (blocks : ∀ kind body inverse params, Plan.All P body →
  (∀ plan ∈ inverse, Plan.All P plan) → P (.block kind body inverse params))

include blocks

/-- Where all blocks of plans as `P` says are as `P` says, a block is as `P` says whatever decides
over it. -/
theorem block_closed (tag : Tag) (body : Plan) (inverse : Option Plan) (inverted : Bool) :
    Maintains tidy P (ctx.block tag body inverse inverted) fun node =>
      Plan.All P body → (∀ plan ∈ inverse, Plan.All P plan) → P node := by
  let K : BlockKind → Prop := fun _ => True
  have builtin openBlock (opens : Builtin.open? tag.content = some openBlock) :
      Maintains tidy P (Compiling.reporting (openBlock tag.site)) fun kind => True → K kind :=
    (Maintains.steadily (.reporting (Builtin.open?_steady opens tag.site))).weaken
      fun _ _ _ => trivial
  have calls : Maintains tidy P (ctx.callee? tag) fun found => ∀ callee style,
      found = some (callee, style) → True →
        ∀ inverted, K (.helper (callOf callee tag) style inverted) :=
    (Maintains.steadily (callee?_steady ctx tag)).weaken fun _ _ _ _ _ _ _ => trivial
  have names : Maintains tidy P (ctx.headExpr tag) fun e =>
      True → ∀ inverted, K (.value e inverted) :=
    (Maintains.steadily (headExpr_steady ctx tag)).weaken fun _ _ _ _ => trivial
  exact (block_made ctx (fun kind body inverse params _ => blocks kind body inverse params) builtin
    calls names body inverse inverted).weaken fun _ made => made trivial

theorem rawBlock_closed (literals : ∀ s, P (.literal s)) (tag : Tag) (body : String) :
    Maintains tidy P (ctx.rawBlock tag body) P := by
  unfold rawBlock
  split
  · exact .pure (literals body)
  · refine .bind (Maintains.steadily (.count _)) fun _ => .pure fun _ => ?_
    exact blocks _ _ _ _ (List.forall_mem_singleton.mpr (literals body)) nofun

end BuildContext

/-- A token of which the builder makes nodes as `P` says. -/
def Markup.Token.Suits (P : Node → Prop) (T : Tag → Prop) : Token → Prop
  | .text s => P (.literal s)
  | .tag t => T t

/-! ### Drafts -/

/-- The block keeps what it was opened by, and the nodes of its branches are as `P` says. -/
structure OpenBranches.Keeps (P : Node → Prop) (T : Tag → Prop) (scope : OpenBranches) : Prop where
  tag : T scope.tag
  opens : scope.tag.kind ≠ .alternative false
  body : Plan.All P scope.body
  inverse : ∀ plan ∈ scope.inverse, Plan.All P plan

structure Draft.Keeps (P : Node → Prop) (T : Tag → Prop) (d : Draft) : Prop where
  root : Plan.All P d.root
  scopes : ∀ scope ∈ d.scopes, scope.Keeps P T

variable {T : Tag → Prop}

section

variable (joined : ∀ s t, P (.literal s) → P (.literal t) → P (.literal (s ++ t)))

include joined

theorem Plan.All.push {node : Node} {nodes : Plan} (h : P node) (h' : Plan.All P nodes) :
    Plan.All P (Plan.push node nodes) := by
  unfold Plan.push
  split
  · obtain ⟨last, rest⟩ := List.forall_mem_cons.mp h'
    exact List.forall_mem_cons.mpr ⟨joined _ _ last h, rest⟩
  · exact List.forall_mem_cons.mpr ⟨h, h'⟩

namespace Draft.Keeps

variable {d : Draft}

theorem push (h : d.Keeps P T) {node : Node} (hn : P node) : (d.push node).Keeps P T := by
  obtain ⟨root, scopes⟩ := d
  unfold Draft.push
  cases scopes with
  | nil => exact ⟨Plan.All.push joined hn h.root, List.forall_mem_nil _⟩
  | cons scope scopes =>
      obtain ⟨here, others⟩ := List.forall_mem_cons.mp h.scopes
      simp only
      cases begun : scope.inverse with
      | none =>
          refine ⟨h.root, List.forall_mem_cons.mpr ⟨⟨here.tag, here.opens, ?_, ?_⟩, others⟩⟩
          · exact Plan.All.push joined hn here.body
          · exact fun plan member => here.inverse plan (begun ▸ member)
      | some inverse =>
          refine ⟨h.root, List.forall_mem_cons.mpr ⟨⟨here.tag, here.opens, here.body, ?_⟩, others⟩⟩
          rintro _ ⟨rfl⟩
          exact Plan.All.push joined hn (here.inverse inverse begun)

theorem push? (h : d.Keeps P T) {node : Option Node} (hn : ∀ n ∈ node, P n) :
    (d.push? node).Keeps P T := by
  cases node with
  | none => exact h
  | some node => exact h.push joined (hn node rfl)

end Draft.Keeps

end

namespace Draft.Keeps

theorem start : Draft.Keeps P T {} :=
  ⟨List.forall_mem_nil _, List.forall_mem_nil _⟩

theorem open' {d : Draft} (h : d.Keeps P T) {tag : Tag} (ht : T tag)
    (opens : tag.kind ≠ .alternative false) (chained : Bool) :
    Draft.Keeps P T { d with scopes := { tag, chained } :: d.scopes } :=
  ⟨h.root, List.forall_mem_cons.mpr ⟨⟨ht, opens, List.forall_mem_nil _, nofun⟩, h.scopes⟩⟩

end Draft.Keeps

/-! ### Tags and tokens -/

namespace BuildContext

open Compiling (Maintains)

section

variable {tidy : String → Prop}

theorem openScope_maintains {tag : Tag} (opens : tag.kind ≠ .alternative false) (chained : Bool)
    (d : Draft) :
    Maintains tidy P (openScope tag chained d) fun d' => d.Keeps P T → T tag → d'.Keeps P T :=
  .bind Maintains.pushLayer fun _ => .pure fun _ hd ht => hd.open' ht opens chained

theorem beginElse_maintains {tag : Tag} {chained : Bool} (kind : tag.kind = .alternative chained)
    (d : Draft) :
    Maintains tidy P (beginElse tag chained d) fun d' => d.Keeps P T → T tag → d'.Keeps P T := by
  unfold beginElse
  split
  · exact .pure fun hd _ => hd
  · next scope scopes same =>
    have begun (hd : d.Keeps P T) : Draft.Keeps P T
        { d with scopes := { scope with inverse := some [] } :: scopes } := by
      have keeps := hd.scopes
      rw [same] at keeps
      obtain ⟨here, others⟩ := List.forall_mem_cons.mp keeps
      refine ⟨hd.root, List.forall_mem_cons.mpr ⟨⟨here.tag, here.opens, here.body, ?_⟩, others⟩⟩
      rintro _ ⟨rfl⟩
      exact List.forall_mem_nil _
    split
    · refine .bind Maintains.popLayer fun _ => .bind Maintains.pushLayer fun _ => ?_
      simp only
      cases chained with
      | true =>
          have opens : tag.kind ≠ .alternative false := by simp [kind]
          exact (openScope_maintains opens true _).weaken fun _ h _ _ hd ht => h (begun hd) ht
      | false => exact .pure fun _ _ hd _ => begun hd
    · exact .pure fun hd _ => hd

theorem beginInline_maintains {tag : Tag} {name : String} (kind : tag.kind = .inlineDef name)
    (d : Draft) :
    Maintains tidy P (beginInline tag name d) fun d' => d.Keeps P T → T tag → d'.Keeps P T := by
  have opens : tag.kind ≠ .alternative false := by simp [kind]
  refine .bind (Maintains.declareInline name) fun fresh => ?_
  simp only
  split
  · refine .bind (Maintains.steadily (.addWarning _)) fun _ => ?_
    exact (openScope_maintains opens false d).weaken fun _ h _ _ => h
  · exact (openScope_maintains opens false d).weaken fun _ h _ => h

end

section

variable {ctx : BuildContext} {tidy : String → Prop} (upkeep : ctx.Upkeep tidy P T)
  (resolves : ∀ name hasBlock site,
    Maintains tidy P (ctx.resolve name hasBlock site) fun found =>
      ∀ t ∈ found, t.Fits P (.static name))

include resolves

theorem target_maintains (tag : Tag) (name : PartialName) (hasBlock : Bool) :
    Maintains tidy P (ctx.target tag name hasBlock) fun found =>
      ∀ e ∈ found, e.2.Fits P name := by
  cases name with
  | dynamic e =>
      refine .bind (Maintains.aside (fun _ => rfl) (fun _ => rfl) fun _ => rfl) fun _ =>
        .pure fun _ => ?_
      rintro _ ⟨rfl⟩
      rfl
  | static name =>
      refine .bind (resolves name hasBlock tag.site) fun found => .pure fun fits => ?_
      intro e member
      obtain ⟨t, here, rfl⟩ := Option.map_eq_some_iff.mp member
      exact fits t here

include upkeep

theorem inclusion_maintains {tag : Tag} {name : PartialName}
    (kind : tag.kind = .inclusion name ∨ tag.kind = .inclusionBlock name) (block : Option Plan) :
    Maintains tidy P (ctx.inclusion tag name block) fun node =>
      T tag → (∀ plan ∈ block, Plan.All P plan) → ∀ n ∈ node, P n := by
  have found : Maintains tidy P (do
      return (← ctx.target tag name block.isSome).map fun e =>
        Node.inclusion (inclusionOf tag e.1) e.2 block)
      fun node => T tag → (∀ plan ∈ block, Plan.All P plan) → ∀ n ∈ node, P n := by
    refine .bind (target_maintains resolves tag name block.isSome) fun found =>
      .pure fun fits ht hb n member => ?_
    obtain ⟨e, here, rfl⟩ := Option.map_eq_some_iff.mp member
    exact upkeep.inclusion tag name kind ht e.1 e.2 block (fits e here) hb
  rw [inclusion_eq]
  split
  · exact .bind (Maintains.steadily (.addError rfl)) fun _ => found.weaken fun _ h _ => h
  · exact found

theorem scopeNode_maintains (scope : OpenBranches) :
    Maintains tidy P (ctx.scopeNode scope) fun node => scope.Keeps P T → ∀ n ∈ node, P n := by
  have built (inverted : Bool) (starts : scope.tag.StartsBlock) :
      Maintains tidy P (do
        return some (← ctx.block scope.tag scope.body.reverse (scope.inverse.map List.reverse)
          inverted)) fun node => scope.Keeps P T → ∀ n ∈ node, P n := by
    refine .bind (upkeep.block scope.tag starts _ _ inverted) fun n => .pure fun h keeps => ?_
    rintro _ ⟨rfl⟩
    refine h keeps.tag keeps.body.reverse fun plan member => ?_
    obtain ⟨nodes, here, rfl⟩ := Option.map_eq_some_iff.mp member
    exact (keeps.inverse nodes here).reverse
  unfold scopeNode
  simp only
  cases kind : scope.tag.kind with
  | opening inverted => exact built inverted (.inl ⟨inverted, kind⟩)
  | alternative chained =>
      cases chained with
      | true => exact built false (.inr kind)
      | false =>
          -- such a tag begins a branch of a block, and opens none
          refine .bind (Maintains.steadily (block_steady ctx _ _ _ _)) fun _ =>
            .pure fun _ keeps => ?_
          exact absurd kind keeps.opens
  | inclusionBlock name =>
      refine (inclusion_maintains upkeep resolves (.inr kind) (some scope.body.reverse)).weaken ?_
      refine fun node h keeps => h keeps.tag ?_
      rintro _ ⟨rfl⟩
      exact keeps.body.reverse
  | inlineDef name =>
      refine .pure fun keeps => ?_
      rintro _ ⟨rfl⟩
      exact upkeep.inlineDef name _ keeps.body.reverse
  | _ => exact .pure fun _ => nofun

theorem closeScope_maintains (d : Draft) :
    Maintains tidy P (ctx.closeScope d) fun d' => d.Keeps P T → d'.Keeps P T := by
  obtain ⟨root, scopes⟩ := d
  cases scopes with
  | nil => exact .pure id
  | cons scope scopes =>
      refine .bind (scopeNode_maintains upkeep resolves scope) fun node =>
        .bind Maintains.popLayer fun _ => .pure fun _ hn keeps => ?_
      obtain ⟨here, others⟩ := List.forall_mem_cons.mp keeps.scopes
      have outer : Draft.Keeps P T { root, scopes } := ⟨keeps.root, others⟩
      exact outer.push? upkeep.joined (hn here)

theorem closeScopes_maintains (n : Nat) (d : Draft) :
    Maintains tidy P (ctx.closeScopes n d) fun d' => d.Keeps P T → d'.Keeps P T := by
  induction n generalizing d with
  | zero => exact .pure id
  | succ n ih =>
      exact .bind (closeScope_maintains upkeep resolves d) fun d' =>
        (ih d').weaken fun _ h first keeps => h (first keeps)

theorem addTag_maintains (d : Draft) (tag : Tag) :
    Maintains tidy P (ctx.addTag d tag) fun d' => d.Keeps P T → T tag → d'.Keeps P T := by
  unfold addTag
  cases kind : tag.kind with
  | interpolation raw =>
      exact .bind (upkeep.interpolation tag raw kind) fun node =>
        .pure fun hn hd ht => hd.push? upkeep.joined (hn ht)
  | comment => exact .pure fun hd _ => hd
  | opening inverted => exact openScope_maintains (by simp [kind]) false d
  | inclusionBlock name => exact openScope_maintains (by simp [kind]) false d
  | inlineDef name => exact beginInline_maintains kind d
  | alternative chained => exact beginElse_maintains kind d
  | closing => exact (closeScopes_maintains upkeep resolves _ d).weaken fun _ h hd _ => h hd
  | inclusion name =>
      exact .bind (inclusion_maintains upkeep resolves (.inl kind) none) fun node =>
        .pure fun hn hd ht => hd.push? upkeep.joined (hn ht nofun)
  | rawBlock body =>
      exact .bind (upkeep.rawBlock tag body kind) fun node =>
        .pure fun hn hd ht => hd.push upkeep.joined (hn ht)

theorem addTokens_maintains (d : Draft) (tokens : List Token) :
    Maintains tidy P (ctx.addTokens d tokens) fun d' =>
      d.Keeps P T → (∀ t ∈ tokens, t.Suits P T) → d'.Keeps P T := by
  induction tokens generalizing d with
  | nil => exact .pure fun hd _ => hd
  | cons token tokens ih =>
      cases token with
      | text s =>
          refine (ih _).weaken fun d' h hd all => ?_
          obtain ⟨here, others⟩ := List.forall_mem_cons.mp all
          exact h (hd.push upkeep.joined here) others
      | tag tag =>
          refine .bind (addTag_maintains upkeep resolves d tag) fun d' =>
            (ih d').weaken fun _ h first hd all => ?_
          obtain ⟨here, others⟩ := List.forall_mem_cons.mp all
          exact h (first hd here) others

/-- The plan of suitable tokens has nodes as `P` says. -/
theorem build_maintains (tokens : List Token) :
    Maintains tidy P (ctx.build tokens) fun plan =>
      (∀ t ∈ tokens, t.Suits P T) → Plan.All P plan :=
  .bind (addTokens_maintains upkeep resolves {} tokens) fun d =>
    .bind (closeScopes_maintains upkeep resolves _ d) fun _ => .pure fun close first all =>
      (close (first .start all)).root.reverse

end

end BuildContext

/-! ### Sources -/

namespace Workshop

open Compiling (Maintains)

variable {w : Workshop}

section

variable {tidy : String → Prop} {entered : List String} {name : String}
  {compile : Option (Compiling Plan)}
  (h : name ∉ entered → ∀ action, compile = some action →
    Maintains tidy P action fun plan => tidy name → Plan.All P plan)

include h

theorem embed_maintains :
    Maintains tidy P (embed entered name compile) fun plan => ∀ nodes ∈ plan, Plan.All P nodes := by
  intro c
  by_cases member : name ∈ entered
  · -- a partial inside itself is an error, and there is none
    rw [embed_run_open entered name member]
    intro last
    exact absurd last.errors (List.append_ne_nil_of_right_ne_nil _ (List.cons_ne_nil _ _))
  cases found : Table.get? c.embedded name with
  | some plan =>
      rw [embed_run_known entered name member _ found]
      refine fun last => ⟨last, fun keeps => ⟨keeps, ?_⟩⟩
      rintro _ ⟨rfl⟩
      exact keeps.embedded.get? found
  | none =>
      rw [embed_run_new entered name member _ found]
      cases compile with
      | none => exact fun last => ⟨last, fun keeps => ⟨keeps, nofun⟩⟩
      | some action =>
          intro last
          obtain ⟨start, first⟩ := Maintains.insidePartial (h member action rfl) c
            ⟨last.errors, last.compiled⟩
          refine ⟨start, fun keeps => ?_⟩
          obtain ⟨keeps, plan⟩ := first keeps
          refine ⟨⟨keeps.embedded.insert name plan, keeps.table⟩, ?_⟩
          rintro _ ⟨rfl⟩
          exact plan

theorem tabulate_maintains :
    Maintains tidy P (tabulate entered name compile) fun _ => True := by
  intro c
  by_cases known : name ∈ entered ∨ (Table.get? c.table name).isSome = true
  · rw [tabulate_run_known entered name _ known]
    exact fun last => ⟨last, fun keeps => ⟨keeps, trivial⟩⟩
  obtain ⟨member, found⟩ := not_or.mp known
  rw [Option.not_isSome_iff_eq_none] at found
  rw [tabulate_run_new entered name member _ found]
  cases compile with
  | none => exact fun last => ⟨last, fun keeps => ⟨keeps, trivial⟩⟩
  | some action =>
      intro last
      obtain ⟨start, first⟩ := Maintains.insidePartial (h member action rfl) c
        ⟨last.errors, last.compiled⟩
      refine ⟨start, fun keeps => ?_⟩
      obtain ⟨keeps, plan⟩ := first keeps
      exact ⟨⟨keeps.embedded, keeps.table.insert name plan⟩, trivial⟩

theorem resolve_maintains (w : Workshop) (hasBlock : Bool) (site : Site) :
    Maintains tidy P (w.resolve entered name hasBlock site compile) fun found =>
      ∀ t ∈ found, t.Fits P (.static name) := by
  have by_name : ∀ t ∈ some (Target.named name), t.Fits P (.static name) := by
    rintro _ ⟨rfl⟩
    trivial
  unfold resolve
  split
  · refine .pure ?_
    rintro _ ⟨rfl⟩
    trivial
  refine .bind (Maintains.hasInline name) fun inline => ?_
  split
  · exact .pure fun _ => by_name
  split
  · exact .bind (tabulate_maintains h) fun _ => .pure fun _ _ => by_name
  split
  · split
    · exact .pure fun _ => by_name
    · exact .bind (Maintains.steadily (.addError rfl)) fun _ => .pure fun _ _ => nofun
  · refine .bind (embed_maintains h) fun plan => ?_
    cases plan with
    | some nodes =>
        refine .pure fun all _ => ?_
        rintro _ ⟨rfl⟩
        exact all nodes rfl
    | none => exact .pure fun _ _ => by_name

end

/-- The source of the partial is good. -/
def GoodPartial (w : Workshop) (good : String → Prop) (name : String) : Prop :=
  ∀ text ∈ w.registry.partial? name, good text

/-- The sources of a workshop that are good have suitable tokens, of which its builders make nodes
as `P` says. -/
structure Upkeep (w : Workshop) (good : String → Prop) (P : Node → Prop) (T : Tag → Prop) :
    Prop where
  reads : ∀ source, Maintains (w.GoodPartial good) P
    (Compiling.reporting (readTemplate w.settings w.registry.hasHelper source)) fun tokens =>
      good source → ∀ t ∈ tokens, t.Suits P T
  builds : ∀ entered available, (w.builder entered available).Upkeep
    (w.GoodPartial good) P T

section

variable {good : String → Prop} (upkeep : w.Upkeep good P T)

include upkeep

/-- By induction on the partials that may be entered. -/
theorem compileSource_maintains (entered : List String) (available : Table String) :
    w.Available entered available → ∀ source,
      Maintains (w.GoodPartial good) P
        (w.compileSource entered available source) fun plan => good source → Plan.All P plan := by
  refine source_induction (motive := fun entered available =>
    w.Available entered available → ∀ source,
      Maintains (w.GoodPartial good) P
        (w.compileSource entered available source) fun plan => good source → Plan.All P plan) ?_
      entered available
  clear entered available
  intro entered available ih given source
  rw [compileSource_eq]
  refine .bind (upkeep.reads source) fun tokens => ?_
  refine (BuildContext.build_maintains (upkeep.builds entered available) ?_ tokens).weaken
    fun plan all suit here => all (suit here)
  intro name hasBlock site
  refine resolve_maintains (fun outside action compiles => ?_) w hasBlock site
  obtain ⟨text, found, rfl⟩ := Option.map_eq_some_iff.mp compiles
  refine (ih name text found (given.enter name) text).weaken fun plan h tidy => h (tidy text ?_)
  exact (given name outside).symm.trans found

theorem compileNamed_maintains (name : String) (action : Compiling Plan)
    (h : w.compileNamed name = some action) :
    Maintains (w.GoodPartial good) P action fun plan =>
      w.GoodPartial good name → Plan.All P plan := by
  obtain ⟨text, found, rfl⟩ := Option.map_eq_some_iff.mp h
  exact (compileSource_maintains upkeep [name] _ ((Available.start w).enter name) text).weaken
    fun plan h tidy => h (tidy text found)

theorem copyInto_maintains (name : String) :
    Maintains (w.GoodPartial good) P (w.copyInto name)
      fun _ => True := by
  intro c
  have given (_ : name ∉ []) := compileNamed_maintains upkeep name
  have copies := embed_maintains given c
  rw [copyInto_run]
  simp only
  generalize (embed [] name (w.compileNamed name)).run c = result at copies
  obtain ⟨plan, c'⟩ := result
  cases plan with
  | none =>
      intro last
      obtain ⟨start, first⟩ := copies last
      exact ⟨start, fun keeps => ⟨(first keeps).1, trivial⟩⟩
  | some plan =>
      intro last
      obtain ⟨start, first⟩ := copies ⟨last.errors, last.compiled⟩
      refine ⟨start, fun keeps => ?_⟩
      obtain ⟨keeps, plans⟩ := first keeps
      exact ⟨⟨keeps.embedded, keeps.table.insert name (plans plan rfl)⟩, trivial⟩

theorem tabulateAll_maintains (names : List String) :
    Maintains (w.GoodPartial good) P (w.tabulateAll names)
      fun _ => True := by
  induction names with
  | nil => exact .pure trivial
  | cons name names ih =>
      cases mode : w.settings.runtimePartials with
      | true =>
          rw [tabulateAll_dispatching name mode]
          refine .bind (tabulate_maintains ?_) fun _ => ih.weaken fun _ _ _ => trivial
          exact fun _ => compileNamed_maintains upkeep name
      | false =>
          rw [tabulateAll_embedding name mode]
          exact .bind (copyInto_maintains upkeep name) fun _ => ih.weaken fun _ _ _ => trivial

/-- A compile call without errors makes plans with nodes as `P` says, if all that it compiles is
good. -/
theorem compileTemplate_keeps {source : String} (here : good source)
    (clean : ((w.compileTemplate source).run {}).2.report.errors = [])
    (partials : ∀ name ∈ ((w.compileTemplate source).run {}).2.report.compiled,
      w.GoodPartial good name) :
    Plan.All P ((w.compileTemplate source).run {}).1 ∧
      Table.All (Plan.All P) ((w.compileTemplate source).run {}).2.table := by
  have sweeps (dynamic : Bool) :
      Maintains (w.GoodPartial good) P (w.finish dynamic) fun _ => True := by
    cases dynamic with
    | true => exact tabulateAll_maintains upkeep _
    | false => exact .pure trivial
  have compiles := compileSource_maintains upkeep [] w.registry.partials (Available.start w) source
    (atSource source)
  rw [compileTemplate_run] at clean partials ⊢
  change ((w.finish _).run ((w.compileSource [] w.registry.partials source).run
    (atSource source)).2).2.report.errors = [] at clean
  obtain ⟨middle, second⟩ := sweeps _ _ ⟨clean, partials⟩
  obtain ⟨keeps, plan⟩ := (compiles middle).2 ⟨nofun, nofun⟩
  exact ⟨plan here, (second keeps).1.table⟩

end

end Workshop

end Stencil
