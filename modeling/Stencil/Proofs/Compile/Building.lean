import Stencil.Proofs.Compile.Lockstep

/-!
Building plans in lockstep.

The drafts of two builders are aligned: the same blocks are open, each with
its layer of inline partials, and the branches that are being built are
related node by node. Every tag keeps drafts aligned, so both builders end
with related plans.
-/

namespace Stencil

open Markup Compiling

/-- The name whose definition a tag begins, if it begins one. -/
def pendingName (tag : Tag) : List String :=
  match tag.kind with
  | .inlineDef name => [name]
  | _ => []

namespace Comparison

variable (cmp : Comparison)

/-- Open blocks with the same tag and related branches. The layer is that of the
branch that is being built, and an else branch is built only where one is accepted. -/
inductive ScopeMatch (layers : Layers) (pending layer : List String) :
    OpenBranches → OpenBranches → Prop
  | body {tag : Tag} {chained : Bool} {b b' : Plan}
      (branch : BranchMatch cmp.node layers pending layer b b') :
      ScopeMatch layers pending layer { tag, body := b, chained } { tag, body := b', chained }
  | inverse {tag : Tag} {chained : Bool} {b b' i i' : Plan}
      (accepts : BuildContext.acceptsElse { tag, chained } = true)
      (finished : PlanMatch cmp.node layers b b')
      (branch : BranchMatch cmp.node layers pending layer i i') :
      ScopeMatch layers pending layer { tag, body := b, inverse := some i, chained }
        { tag, body := b', inverse := some i', chained }

/-- Drafts with the same open blocks above `base`. A block that defines an inline
partial leaves its name pending in the branch around it. -/
inductive Aligned (base : Layers) : List String → Layers → Draft → Draft → Prop
  | root {pending layer : List String} {r r' : Plan}
      (branch : BranchMatch cmp.node base pending layer r r') :
      Aligned base pending (layer :: base) { root := r } { root := r' }
  | scope {pending layer : List String} {layers : Layers} {s s' : OpenBranches} {d d' : Draft}
      (innermost : cmp.ScopeMatch layers pending layer s s')
      (names : ∀ name ∈ pendingName s.tag, cmp.declared name)
      (outer : Aligned base (pendingName s.tag) layers d d') :
      Aligned base pending (layer :: layers) { d with scopes := s :: d.scopes }
        { d' with scopes := s' :: d'.scopes }

/-- The calls have come to aligned drafts. -/
def InStep (S : Store → Store → Prop) (base : Layers) (pending : List String) (d d' : Draft)
    (c c' : Compilation) : Prop :=
  ∃ layers, cmp.Aligned base pending layers d d' ∧ cmp.Together S layers c c'

/-- Builders that differ in how they resolve partials, and whose resolvers respect the
comparison. -/
structure Builders (S : Store → Store → Prop) (ctx ctx' : BuildContext) : Prop where
  style : ctx.style? = ctx'.style?
  encoding : ctx.settings.encoding = ctx'.settings.encoding
  knownHelpersOnly : ctx.settings.knownHelpersOnly = ctx'.settings.knownHelpersOnly
  left : ∀ name hasBlock site, Follows cmp.left (ctx.resolve name hasBlock site)
  right : ∀ name hasBlock site, Follows cmp.right (ctx'.resolve name hasBlock site)
  dynamic : ∀ s t, S s t → S { s with hasDynamic := true } { t with hasDynamic := true }
  resolve : ∀ layers name hasBlock site, cmp.Relates (cmp.Together S layers)
    (ctx.resolve name hasBlock site) (ctx'.resolve name hasBlock site)
    fun t t' c c' => Option.Rel (cmp.target layers name hasBlock) t t' ∧ cmp.Together S layers c c'

variable {cmp} {base layers : Layers} {pending layer : List String} {d d' : Draft}
  {S : Store → Store → Prop}

/-! ### Drafts -/

theorem ScopeMatch.chained_eq {s s' : OpenBranches} (h : cmp.ScopeMatch layers pending layer s s') :
    s.chained = s'.chained := by
  cases h <;> rfl

theorem Aligned.push {n n' : Node} (h : cmp.Aligned base pending layers d d')
    (node : cmp.node layers n n') (settled : ∀ name ∈ pending, ∃ body, n = .inlineDef name body) :
    cmp.Aligned base [] layers (d.push n) (d'.push n') := by
  have defined (b : Plan) : ∀ name ∈ pending, (Plan.push n b).Defines name := by
    intro name member
    obtain ⟨body, rfl⟩ := settled name member
    exact Plan.defines_push_self
  cases h with
  | root branch => exact .root (branch.push node (defined _))
  | scope innermost names outer =>
      cases innermost with
      | body branch => exact .scope (.body (branch.push node (defined _))) names outer
      | inverse accepts finished branch =>
          exact .scope (.inverse accepts finished (branch.push node (defined _))) names outer

theorem Aligned.push? {n n' : Option Node} (h : cmp.Aligned base [] layers d d')
    (node : Option.Rel (cmp.node layers) n n') :
    cmp.Aligned base [] layers (d.push? n) (d'.push? n') := by
  cases node with
  | none => exact h
  | some node => exact h.push node nofun

theorem Aligned.length_eq (h : cmp.Aligned base pending layers d d') :
    d.scopes.length = d'.scopes.length := by
  induction h with
  | root => rfl
  | scope _ _ _ ih => simp [ih]

/-- A closing tag closes as many blocks on both sides. -/
theorem Aligned.closedByTag_eq (h : cmp.Aligned base pending layers d d') :
    BuildContext.closedByTag d = BuildContext.closedByTag d' := by
  unfold BuildContext.closedByTag
  induction h with
  | root => rfl
  | scope innermost _ _ ih =>
      simp only [List.takeWhile_cons, innermost.chained_eq]
      split
      · simpa using ih
      · rfl

/-- Declaring a name puts it into the innermost layer. -/
theorem Aligned.declare (h : cmp.Aligned base [] (layer :: layers) d d') (name : String) :
    cmp.Aligned base [name] ((name :: layer) :: layers) d d' := by
  cases h with
  | root branch => exact .root (branch.declare name)
  | scope innermost names outer =>
      cases innermost with
      | body branch => exact .scope (.body (branch.declare name)) names outer
      | inverse accepts finished branch =>
          exact .scope (.inverse accepts finished (branch.declare name)) names outer

theorem Aligned.pend (h : cmp.Aligned base [] layers d d') (pending : List String) :
    cmp.Aligned base pending layers d d' := by
  cases h with
  | root branch => exact .root (branch.pend pending)
  | scope innermost names outer =>
      cases innermost with
      | body branch => exact .scope (.body (branch.pend pending)) names outer
      | inverse accepts finished branch =>
          exact .scope (.inverse accepts finished (branch.pend pending)) names outer

theorem length_push (n : Node) (d : Draft) : (d.push n).scopes.length = d.scopes.length := by
  unfold Draft.push
  split
  · next h => simp [h]
  · next h =>
    split <;> simp [h]

theorem length_push? (n : Option Node) (d : Draft) :
    (d.push? n).scopes.length = d.scopes.length := by
  cases n with
  | none => rfl
  | some n => exact length_push n d

/-! ### Nodes -/

section

variable {ctx ctx' : BuildContext}

theorem Builders.headExpr_eq (h : cmp.Builders S ctx ctx') : ctx.headExpr = ctx'.headExpr := by
  funext tag
  have isHelper : ctx.isHelper = ctx'.isHelper := by
    funext name
    simp only [BuildContext.isHelper, h.style]
  rw [BuildContext.headExpr, BuildContext.headExpr, isHelper]

theorem Builders.callee?_eq (h : cmp.Builders S ctx ctx') : ctx.callee? = ctx'.callee? := by
  funext tag
  simp only [BuildContext.callee?, h.style, h.knownHelpersOnly]

theorem Builders.interpolation_eq (h : cmp.Builders S ctx ctx') :
    ctx.interpolation = ctx'.interpolation := by
  funext tag raw
  simp only [BuildContext.interpolation, h.callee?_eq, h.headExpr_eq, h.encoding]

theorem Builders.block_eq (h : cmp.Builders S ctx ctx') : ctx.block = ctx'.block := by
  funext tag body inverse inverted
  simp only [BuildContext.block, h.callee?_eq, h.headExpr_eq]

theorem Builders.rawBlock_eq (h : cmp.Builders S ctx ctx') : ctx.rawBlock = ctx'.rawBlock := by
  funext tag body
  simp only [BuildContext.rawBlock, h.style]

variable (builders : cmp.Builders S ctx ctx')

include builders

theorem interpolation_relates (tag : Tag) (raw : Bool) :
    cmp.Relates (cmp.Together S layers) (ctx.interpolation tag raw) (ctx'.interpolation tag raw)
      fun n n' c c' => Option.Rel (cmp.node layers) n n' ∧ cmp.Together S layers c c' := by
  rw [← builders.interpolation_eq]
  unfold BuildContext.interpolation
  split
  · exact .steady_bind (.addError rfl) fun _ => .pure fun _ _ start => ⟨.none, start⟩
  · refine .steady_bind (BuildContext.callee?_steady ctx tag) fun callee => ?_
    split
    · exact .steady_bind (.count _) fun _ => .pure fun _ _ start => ⟨.some (cmp.helper _ _ _), start⟩
    · exact .steady_bind (BuildContext.headExpr_steady ctx tag) fun _ =>
        .pure fun _ _ start => ⟨.some (cmp.lookup _ _ _), start⟩

/-- Blocks with related branches; `layers` are known around the block, and others where
its tag is looked at. -/
theorem block_relates {inside : Layers} (tag : Tag) {body body' : Plan}
    {inverse inverse' : Option Plan} (hbody : PlanMatch cmp.node layers body body')
    (hinverse : Option.Rel (PlanMatch cmp.node layers) inverse inverse') (inverted : Bool) :
    cmp.Relates (cmp.Together S inside) (ctx.block tag body inverse inverted)
      (ctx'.block tag body' inverse' inverted)
      fun n n' c c' => cmp.node layers n n' ∧ cmp.Together S inside c c' := by
  rw [← builders.block_eq]
  unfold BuildContext.block
  simp only
  split
  · next openBlock found =>
    refine .steady_bind (.reporting (Builtin.open?_steady found tag.site)) fun kind => ?_
    split
    · refine .pure fun _ _ start => ⟨cmp.block ?_ (.some hbody), start⟩
      cases hinverse with
      | none => exact .nil
      | some hinverse => exact hinverse
    · exact .pure fun _ _ start => ⟨cmp.block hbody hinverse, start⟩
  · refine .steady_bind (BuildContext.callee?_steady ctx tag) fun callee => ?_
    split
    · exact .steady_bind (.count _) fun _ =>
        .pure fun _ _ start => ⟨cmp.block hbody hinverse, start⟩
    · exact .steady_bind (BuildContext.headExpr_steady ctx tag) fun _ =>
        .pure fun _ _ start => ⟨cmp.block hbody hinverse, start⟩

theorem rawBlock_relates (tag : Tag) (text : String) :
    cmp.Relates (cmp.Together S layers) (ctx.rawBlock tag text) (ctx'.rawBlock tag text)
      fun n n' c c' => cmp.node layers n n' ∧ cmp.Together S layers c c' := by
  rw [← builders.rawBlock_eq]
  unfold BuildContext.rawBlock
  split
  · exact .pure fun _ _ start => ⟨cmp.literal _ _, start⟩
  · refine .steady_bind (.count _) fun _ => .pure fun _ _ start => ⟨cmp.block ?_ .none, start⟩
    exact ⟨[], nofun, .cons (cmp.literal _ _) .nil⟩

theorem target_relates (tag : Tag) (name : PartialName) (hasBlock : Bool) :
    cmp.Relates (cmp.Together S layers) (ctx.target tag name hasBlock)
      (ctx'.target tag name hasBlock)
      fun t t' c c' => Option.Rel (fun t t' => t.1 = t'.1 ∧
          cmp.target layers t.1 hasBlock t.2 t'.2) t t' ∧
        cmp.Together S layers c c' := by
  cases name with
  | dynamic e =>
      intro c c' start guard
      have target : cmp.target layers tag.site.tag hasBlock (.dynamic e) (.dynamic e) :=
        cmp.dynamic guard.2.2 rfl rfl
      exact ⟨.some ⟨rfl, target⟩, start.left, start.right, start.declared,
        builders.dynamic _ _ start.stores⟩
  | static name =>
      refine .bind (builders.resolve layers name hasBlock tag.site) (fun _ => .pure _)
        (fun _ => .pure _) fun t t' => .pure ?_
      rintro c c' ⟨target | _, start⟩
      · exact ⟨.some ⟨rfl, target⟩, start⟩
      · exact ⟨.none, start⟩

/-- An inclusion is made of its tag, its target and its block. -/
theorem inclusion_relates (tag : Tag) (name : PartialName) {block block' : Option Plan}
    (same : block.isSome = block'.isSome) :
    cmp.Relates (cmp.Together S layers) (ctx.inclusion tag name block)
      (ctx'.inclusion tag name block')
      fun n n' c c' => Option.Rel (fun n n' => ∃ call t t', n = .inclusion call t block ∧
        n' = .inclusion call t' block' ∧ cmp.target layers call.name block.isSome t t') n n' ∧
          cmp.Together S layers c c' := by
  have found : cmp.Relates (cmp.Together S layers)
      (do return (← ctx.target tag name block.isSome).map fun e =>
        Node.inclusion (BuildContext.inclusionOf tag e.1) e.2 block)
      (do return (← ctx'.target tag name block'.isSome).map fun e =>
        Node.inclusion (BuildContext.inclusionOf tag e.1) e.2 block')
      fun n n' c c' => Option.Rel (fun n n' => ∃ call t t', n = .inclusion call t block ∧
        n' = .inclusion call t' block' ∧ cmp.target layers call.name block.isSome t t') n n' ∧
          cmp.Together S layers c c' := by
    rw [← same]
    refine .bind (target_relates builders tag name block.isSome) (fun _ => .pure _)
      (fun _ => .pure _) fun t t' => ?_
    rintro c c' ⟨⟨names, target⟩ | _, start⟩ guard
    · refine ⟨.some ⟨_, _, _, rfl, ?_, target⟩, start⟩
      simp only [names]
    · exact ⟨.none, start⟩
  rw [BuildContext.inclusion_eq, BuildContext.inclusion_eq]
  split
  · exact .steady_bind (.addError rfl) fun _ => found
  · exact found

/-! ### Blocks -/

omit builders in
theorem openScope_relates (tag : Tag) (chained : Bool)
    (names : ∀ name ∈ pendingName tag, cmp.declared name) :
    cmp.Relates (cmp.InStep S base (pendingName tag) d d') (BuildContext.openScope tag chained d)
      (BuildContext.openScope tag chained d') (cmp.InStep S base []) := by
  rintro c c' ⟨layers, aligned, start⟩ _
  refine ⟨[] :: layers, .scope (.body (.nil [])) names aligned, congrArg ([] :: ·) start.left,
    congrArg ([] :: ·) start.right, ?_, start.stores⟩
  intro layer member name named
  cases member with
  | head => cases named
  | tail _ member => exact start.declared layer member name named

omit builders in
/-- Opening a block that defines no inline partial. -/
theorem openPlain_relates {tag : Tag} (chained : Bool) (plain : pendingName tag = []) :
    cmp.Relates (cmp.InStep S base [] d d') (BuildContext.openScope tag chained d)
      (BuildContext.openScope tag chained d') (cmp.InStep S base []) := by
  have names : ∀ name ∈ pendingName tag, cmp.declared name := by
    rw [plain]
    exact nofun
  intro c c' start
  rw [← plain] at start
  exact openScope_relates tag chained names c c' start

omit builders in
/-- The layer of a finished block is dropped. -/
theorem popLayer_relates (P : Prop) :
    cmp.Relates (fun c c' => P ∧ cmp.Together S (layer :: layers) c c') popLayer popLayer
      fun _ _ c c' => P ∧ cmp.Together S layers c c' := by
  rintro c c' ⟨h, start⟩ _
  refine ⟨h, congrArg List.tail start.left, congrArg List.tail start.right, ?_, start.stores⟩
  exact fun layer member => start.declared layer (.tail _ member)

/-- The nodes of finished blocks are related, and give the pending name its definition. -/
theorem scopeNode_relates {s s' : OpenBranches} (h : cmp.ScopeMatch layers [] layer s s')
    (names : ∀ name ∈ pendingName s.tag, cmp.declared name) :
    cmp.Relates (cmp.Together S (layer :: layers)) (ctx.scopeNode s) (ctx'.scopeNode s')
      fun n n' c c' => (Option.Rel (cmp.node layers) n n' ∧
          ∀ name ∈ pendingName s.tag, ∃ body, n = some (.inlineDef name body)) ∧
        cmp.Together S (layer :: layers) c c' := by
  have some_block {tag : Tag} {inverted : Bool} {body body' : Plan} {inverse inverse' : Option Plan}
      (other : pendingName tag = []) (hbody : PlanMatch cmp.node layers body body')
      (hinverse : Option.Rel (PlanMatch cmp.node layers) inverse inverse') :
      cmp.Relates (cmp.Together S (layer :: layers))
        (do return some (← ctx.block tag body inverse inverted))
        (do return some (← ctx'.block tag body' inverse' inverted))
        fun n n' c c' => (Option.Rel (cmp.node layers) n n' ∧
            ∀ name ∈ pendingName tag, ∃ body, n = some (.inlineDef name body)) ∧
          cmp.Together S (layer :: layers) c c' := by
    refine .bind (block_relates builders tag hbody hinverse inverted) (fun _ => .pure _)
      (fun _ => .pure _) fun n n' => .pure ?_
    rintro c c' ⟨node, start⟩
    rw [other]
    exact ⟨⟨.some node, nofun⟩, start⟩
  cases h with
  | @body tag chained b b' branch =>
      unfold BuildContext.scopeNode
      simp only
      cases kind : tag.kind with
      | opening inverted =>
          exact some_block (by simp [pendingName, kind]) ⟨_, branch.reverse⟩ .none
      | alternative chained =>
          exact some_block (by simp [pendingName, kind]) ⟨_, branch.reverse⟩ .none
      | inclusionBlock name =>
          refine .weaken (inclusion_relates builders tag name rfl) ?_
          rintro n n' c c' ⟨related, start⟩
          refine ⟨⟨?_, by simp [pendingName, kind]⟩, start⟩
          cases related with
          | none => exact .none
          | some related =>
              obtain ⟨call, t, t', rfl, rfl, target⟩ := related
              exact .some (cmp.inclusionBlock branch.reverse target)
      | inlineDef name =>
          have declared : cmp.declared name := names name (by simp [pendingName, kind])
          refine .pure fun c c' start => ⟨⟨?_, ?_⟩, start⟩
          · exact .some (cmp.inlineDef declared ⟨_, branch.reverse⟩)
          · simp [pendingName, kind]
      | _ => exact .pure fun c c' start => ⟨⟨.none, by simp [pendingName, kind]⟩, start⟩
  | @inverse tag chained b b' i i' accepts finished branch =>
      unfold BuildContext.scopeNode
      simp only
      cases kind : tag.kind with
      | opening inverted =>
          exact some_block (by simp [pendingName, kind]) finished.reverse
            (.some ⟨_, branch.reverse⟩)
      | alternative chained =>
          exact some_block (by simp [pendingName, kind]) finished.reverse
            (.some ⟨_, branch.reverse⟩)
      | _ => simp [BuildContext.acceptsElse, kind] at accepts

/-- Closing the innermost block leaves one block less open. -/
theorem closeScope_relates :
    cmp.Relates (cmp.InStep S base [] d d') (ctx.closeScope d) (ctx'.closeScope d')
      fun e e' c c' => cmp.InStep S base [] e e' c c' ∧ e.scopes.length = d.scopes.length - 1 := by
  rintro c c' ⟨layers, aligned, start⟩
  cases aligned with
  | root branch =>
      intro _
      exact ⟨⟨_, .root branch, start⟩, rfl⟩
  | @scope _ layer layers s s' d d' innermost names outer =>
      have closed := Relates.bind (scopeNode_relates builders innermost names)
        (f := fun n => do
          popLayer
          return d.push? n)
        (g := fun n => do
          popLayer
          return d'.push? n)
        (T := fun e e' c c' => cmp.InStep S base [] e e' c c' ∧ e.scopes.length = d.scopes.length)
        (fun _ => .bind .popLayer fun _ => .pure _) (fun _ => .bind .popLayer fun _ => .pure _) ?_
      · exact closed c c' start
      intro n n'
      refine .bind (popLayer_relates _) (fun _ => .pure _) (fun _ => .pure _) fun _ _ => .pure ?_
      rintro c c' ⟨⟨node, settled⟩, start⟩
      refine ⟨⟨layers, ?_, start⟩, length_push? n d⟩
      cases node with
      | some node =>
          refine Aligned.push outer node fun name member => ?_
          obtain ⟨body, same⟩ := settled name member
          exact ⟨body, Option.some.inj same⟩
      | none =>
          have nothing : pendingName s.tag = [] := by
            rw [List.eq_nil_iff_forall_not_mem]
            intro name member
            obtain ⟨body, same⟩ := settled name member
            cases same
          rw [nothing] at outer
          exact outer

theorem closeScopes_relates (n : Nat) :
    cmp.Relates (cmp.InStep S base [] d d') (ctx.closeScopes n d) (ctx'.closeScopes n d')
      fun e e' c c' => cmp.InStep S base [] e e' c c' ∧ e.scopes.length = d.scopes.length - n := by
  induction n generalizing d d' with
  | zero => exact .pure fun c c' start => ⟨start, rfl⟩
  | succ n ih =>
      refine .bind (closeScope_relates builders) (BuildContext.closeScopes_follows builders.left n)
        (BuildContext.closeScopes_follows builders.right n) fun e e' => ?_
      rintro c c' ⟨start, count⟩ guard
      obtain ⟨done, rest⟩ := ih c c' start guard
      exact ⟨done, by omega⟩

omit builders in
theorem beginElse_relates {tag : Tag} (chained : Bool) (plain : pendingName tag = []) :
    cmp.Relates (cmp.InStep S base [] d d') (BuildContext.beginElse tag chained d)
      (BuildContext.beginElse tag chained d') (cmp.InStep S base []) := by
  rintro c c' ⟨layers, aligned, start⟩
  cases aligned with
  | root branch => exact fun _ => ⟨_, .root branch, start⟩
  | @scope _ layer layers s s' d d' innermost names outer =>
      cases innermost with
      | @inverse kind openedByElse b b' i i' accepts finished branch =>
          exact fun _ => ⟨_, .scope (.inverse accepts finished branch) names outer, start⟩
      | @body opened openedByElse b b' branch =>
          simp only [BuildContext.beginElse]
          by_cases accepts : BuildContext.acceptsElse { tag := opened, chained := openedByElse } = true
          · have accepts₁ (b : Plan) : BuildContext.acceptsElse
                { tag := opened, body := b, chained := openedByElse } = true := accepts
            rw [if_pos (accepts₁ b), if_pos (accepts₁ b')]
            have begun : cmp.InStep S base []
                { d with scopes :=
                  { tag := opened, body := b, inverse := some [], chained := openedByElse } ::
                    d.scopes }
                { d' with scopes :=
                  { tag := opened, body := b', inverse := some [], chained := openedByElse } ::
                    d'.scopes }
                { c with inlines := [] :: c.inlines.tail }
                { c' with inlines := [] :: c'.inlines.tail } := by
              refine ⟨[] :: layers, .scope (.inverse accepts ⟨_, branch⟩ (.nil [])) names outer,
                ?_, ?_, ?_, start.stores⟩
              · simp [start.left]
              · simp [start.right]
              · intro layer member name named
                cases member with
                | head => cases named
                | tail _ member => exact start.declared layer (.tail _ member) name named
            cases chained with
            | false => exact fun _ => begun
            | true => exact openPlain_relates true plain _ _ begun
          · have accepts₁ (b : Plan) : ¬BuildContext.acceptsElse
                { tag := opened, body := b, chained := openedByElse } = true := accepts
            rw [if_neg (accepts₁ b), if_neg (accepts₁ b')]
            exact fun _ => ⟨_, .scope (.body branch) names outer, start⟩

omit builders in
theorem beginInline_relates {tag : Tag} {name : String} (kind : tag.kind = .inlineDef name)
    (declared : cmp.declared name) :
    cmp.Relates (cmp.InStep S base [] d d') (BuildContext.beginInline tag name d)
      (BuildContext.beginInline tag name d') (cmp.InStep S base []) := by
  have pending : pendingName tag = [name] := by rw [pendingName, kind]
  have names : ∀ name ∈ pendingName tag, cmp.declared name := by
    rw [pending]
    intro other member
    rw [List.mem_singleton.mp member]
    exact declared
  have begins : cmp.Relates (cmp.InStep S base [] d d') (declareInline name) (declareInline name)
      fun fresh fresh' c c' => fresh = fresh' ∧ cmp.InStep S base (pendingName tag) d d' c c' := by
    rintro c c' ⟨layers, aligned, start⟩ _
    rw [declareInline_run, declareInline_run, start.left, start.right, pending]
    cases layers with
    | nil => cases aligned
    | cons layer layers =>
        simp only
        split
        · exact ⟨rfl, _, aligned.pend [name], start⟩
        · refine ⟨rfl, _, aligned.declare name, rfl, rfl, ?_, start.stores⟩
          intro other member named inside
          cases member with
          | head =>
              cases inside with
              | head => exact declared
              | tail _ inside => exact start.declared layer (.head _) _ inside
          | tail _ member => exact start.declared other (.tail _ member) _ inside
  have follows (course : Course) (d : Draft) (fresh : Bool) : Follows course (do
      if !fresh then
        addWarning ("inline partial '" ++ name ++ "' redefined on line " ++
          toString tag.site.line)
      BuildContext.openScope tag false d) := by
    cases fresh with
    | false =>
        exact .bind (.steady (.addWarning _)) fun _ => BuildContext.openScope_follows tag false d
    | true => exact BuildContext.openScope_follows tag false d
  refine .bind begins (follows _ d) (follows _ d') ?_
  rintro fresh fresh' c c' ⟨rfl, start⟩
  cases fresh with
  | true => exact openScope_relates tag false names c c' start
  | false =>
      obtain ⟨layers, aligned, start⟩ := start
      refine Relates.steady_bind (IsSteady.addWarning _) (fun _ c c' start => ?_) c c' start
      exact openScope_relates tag false names c c' ⟨layers, aligned, start⟩

theorem addTag_relates (tag : Tag) (names : ∀ name ∈ pendingName tag, cmp.declared name) :
    cmp.Relates (cmp.InStep S base [] d d') (ctx.addTag d tag) (ctx'.addTag d' tag)
      (cmp.InStep S base []) := by
  unfold BuildContext.addTag
  cases kind : tag.kind with
  | interpolation raw =>
      rintro c c' ⟨layers, aligned, start⟩
      refine Relates.bind (interpolation_relates builders tag raw) (fun _ => .pure _)
        (fun _ => .pure _) (fun n n' => .pure ?_) c c' start
      exact fun c c' ⟨node, start⟩ => ⟨layers, aligned.push? node, start⟩
  | comment => exact .pure fun _ _ start => start
  | opening inverted => exact openPlain_relates false (by rw [pendingName, kind])
  | inclusionBlock name => exact openPlain_relates false (by rw [pendingName, kind])
  | inlineDef name =>
      exact beginInline_relates kind (names name (by simp [pendingName, kind]))
  | alternative chained => exact beginElse_relates chained (by rw [pendingName, kind])
  | closing =>
      rintro c c' ⟨layers, aligned, start⟩ guard
      simp only [← aligned.closedByTag_eq] at guard ⊢
      exact (closeScopes_relates builders _ c c' ⟨layers, aligned, start⟩ guard).1
  | inclusion name =>
      rintro c c' ⟨layers, aligned, start⟩
      refine Relates.bind (inclusion_relates builders tag name rfl) (fun _ => .pure _)
        (fun _ => .pure _) (fun n n' => .pure ?_) c c' start
      rintro c c' ⟨related, start⟩
      refine ⟨layers, aligned.push? ?_, start⟩
      cases related with
      | none => exact .none
      | some related =>
          obtain ⟨call, t, t', rfl, rfl, target⟩ := related
          exact .some (cmp.inclusion target)
  | rawBlock body =>
      rintro c c' ⟨layers, aligned, start⟩
      refine Relates.bind (rawBlock_relates builders tag body) (fun _ => .pure _)
        (fun _ => .pure _) (fun n n' => .pure ?_) c c' start
      exact fun c c' ⟨node, start⟩ => ⟨layers, aligned.push node nofun, start⟩

theorem addTokens_relates {tokens : List Token}
    (names : ∀ tag, .tag tag ∈ tokens → ∀ name ∈ pendingName tag, cmp.declared name) :
    cmp.Relates (cmp.InStep S base [] d d') (ctx.addTokens d tokens) (ctx'.addTokens d' tokens)
      (cmp.InStep S base []) := by
  induction tokens generalizing d d' with
  | nil => exact .pure fun _ _ start => start
  | cons token tokens ih =>
      have names' : ∀ tag, .tag tag ∈ tokens → ∀ name ∈ pendingName tag, cmp.declared name :=
        fun tag member => names tag (.tail _ member)
      cases token with
      | text text =>
          rintro c c' ⟨layers, aligned, start⟩
          exact ih names' c c' ⟨layers, aligned.push (cmp.literal _ _) nofun, start⟩
      | tag tag =>
          exact .bind (addTag_relates builders tag (names tag (.head _)))
            (fun d => BuildContext.addTokens_follows builders.left d tokens)
            (fun d => BuildContext.addTokens_follows builders.right d tokens) fun d d' => ih names'

/-- From states with one empty layer above `base`, builders that read the same tokens
come to related plans. -/
theorem build_relates {tokens : List Token}
    (names : ∀ tag, .tag tag ∈ tokens → ∀ name ∈ pendingName tag, cmp.declared name) :
    cmp.Relates (cmp.Together S ([] :: base)) (ctx.build tokens) (ctx'.build tokens)
      fun p p' c c' => PlanMatch cmp.node base p p' ∧
        ∃ layer, cmp.Together S (layer :: base) c c' := by
  have begun : cmp.Relates (cmp.Together S ([] :: base)) (ctx.addTokens {} tokens)
      (ctx'.addTokens {} tokens) (cmp.InStep S base []) :=
    fun c c' start => addTokens_relates builders names c c' ⟨_, .root (.nil []), start⟩
  refine .bind begun ?_ ?_ fun d d' => ?_
  · exact fun d => .bind (BuildContext.closeScopes_follows builders.left _ d) fun _ => .pure _
  · exact fun d => .bind (BuildContext.closeScopes_follows builders.right _ d) fun _ => .pure _
  have ends (n : Nat) (none_open : d.scopes.length - n = 0) :
      cmp.Relates (cmp.InStep S base [] d d')
        (do return (← ctx.closeScopes n d).root.reverse)
        (do return (← ctx'.closeScopes n d').root.reverse)
        fun p p' c c' => PlanMatch cmp.node base p p' ∧
          ∃ layer, cmp.Together S (layer :: base) c c' := by
    refine .bind (closeScopes_relates builders n) (fun _ => .pure _) (fun _ => .pure _)
      fun e e' => .pure ?_
    rintro c c' ⟨⟨layers, aligned, start⟩, count⟩
    rw [none_open] at count
    cases aligned with
    | root branch => exact ⟨⟨_, branch.reverse⟩, _, start⟩
    | scope _ _ _ => cases count
  rintro c c' ⟨layers, aligned, start⟩
  rw [← aligned.length_eq]
  exact ends d.scopes.length (Nat.sub_self _) c c' ⟨layers, aligned, start⟩

end

end Comparison

end Stencil
