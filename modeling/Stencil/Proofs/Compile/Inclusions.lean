import Stencil.Proofs.Compile.Copying

/-!
What a compile call notes, and what its plan shows.

A plan shows the targets of its inclusions, at any depth. A compile call
that copies plans in notes each copy, and that a name is computed. Here the
two are compared: every inclusion of a plan is noted when the plan is
finished, and what is noted on the way is an inclusion of the plan.
-/

namespace Stencil

open Compiling Markup

mutual

/-- The inclusions in a node at any depth, by name and target. -/
def Node.inclusions : Node → List (String × Target)
  | .literal _ | .lookup _ _ | .helper _ _ => []
  | .block _ body none _ => Plan.inclusions body
  | .block _ body (some inverse) _ => Plan.inclusions body ++ Plan.inclusions inverse
  | .inclusion call target none => (call.name, target) :: target.inclusions
  | .inclusion call target (some block) =>
    (call.name, target) :: (target.inclusions ++ Plan.inclusions block)
  | .inlineDef _ plan => Plan.inclusions plan

def Target.inclusions : Target → List (String × Target)
  | .embedded plan => Plan.inclusions plan
  | .named _ | .dynamic _ | .partialBlock => []

def Plan.inclusions : List Node → List (String × Target)
  | [] => []
  | n :: p => n.inclusions ++ Plan.inclusions p

end

variable {i : String × Target}

theorem Plan.mem_inclusions {p : Plan} :
    i ∈ Plan.inclusions p ↔ ∃ n ∈ p, i ∈ n.inclusions := by
  induction p with
  | nil => simp [Plan.inclusions]
  | cons n p ih => simp [Plan.inclusions, ih]

@[simp] theorem Plan.mem_inclusions_reverse {p : Plan} :
    i ∈ Plan.inclusions p.reverse ↔ i ∈ Plan.inclusions p := by
  simp [Plan.mem_inclusions]

@[simp] theorem Plan.mem_inclusions_push {n : Node} {p : Plan} :
    i ∈ Plan.inclusions (Plan.push n p) ↔ i ∈ n.inclusions ∨ i ∈ Plan.inclusions p := by
  unfold Plan.push
  split
  · simp [Plan.inclusions, Node.inclusions]
  · simp [Plan.inclusions]

/-- The inclusions in the branches of an open block. -/
def OpenBranches.inclusions (scope : OpenBranches) : List (String × Target) :=
  Plan.inclusions scope.body ++ Plan.inclusions (scope.inverse.getD [])

def Draft.inclusions (d : Draft) : List (String × Target) :=
  Plan.inclusions d.root ++ d.scopes.flatMap OpenBranches.inclusions

theorem Draft.mem_inclusions_cons {scope : OpenBranches} {d : Draft} :
    i ∈ Draft.inclusions { d with scopes := scope :: d.scopes } ↔
      i ∈ scope.inclusions ∨ i ∈ d.inclusions := by
  simp only [Draft.inclusions, List.flatMap_cons, List.mem_append]
  tauto

theorem Draft.mem_inclusions_push {n : Node} {d : Draft} :
    i ∈ (d.push n).inclusions ↔ i ∈ n.inclusions ∨ i ∈ d.inclusions := by
  obtain ⟨root, scopes⟩ := d
  cases scopes with
  | nil => simp [Draft.push, Draft.inclusions]
  | cons scope scopes =>
      obtain ⟨tag, body, inverse, chained⟩ := scope
      cases inverse <;>
        simp only [Draft.push, Draft.inclusions, OpenBranches.inclusions, List.flatMap_cons,
          List.mem_append, Plan.mem_inclusions_push, Option.getD_some, Option.getD_none] <;>
        tauto

/-- The branches of an open block all become part of its node. -/
def OpenBranches.Sound (scope : OpenBranches) : Prop :=
  match scope.tag.kind with
  | .opening _ | .alternative _ => True
  | .inclusionBlock _ | .inlineDef _ => scope.inverse = none
  | _ => False

/-! ### Noted and shown -/

/-- What a store notes of an inclusion. -/
def Store.Notes (s : Store) : String × Target → Prop
  | (name, .embedded plan) => (name, plan) ∈ s.embedded
  | (_, .dynamic _) => s.hasDynamic = true
  | (_, .named _) => True
  | (_, .partialBlock) => True

/-- The inclusions in a copy are noted as the copy is. -/
def Store.Settled (s : Store) : Prop :=
  ∀ name plan, (name, plan) ∈ s.embedded → ∀ i ∈ Plan.inclusions plan, s.Notes i

/-- On the way from one store to another exactly these inclusions were met. -/
structure Accounts (s : Store) (met : String × Target → Prop) (t : Store) : Prop where
  settled : t.Settled
  kept : ∀ i, s.Notes i → t.Notes i
  noted : ∀ i, met i → t.Notes i
  copies : ∀ name plan, (name, plan) ∈ t.embedded →
    (name, plan) ∈ s.embedded ∨ met (name, .embedded plan)
  computed : t.hasDynamic = true → s.hasDynamic = true ∨ ∃ name e, met (name, .dynamic e)

namespace Accounts

variable {s t u : Store} {met met' : String × Target → Prop}

theorem none (h : s.Settled) : Accounts s (fun _ => False) s :=
  ⟨h, fun _ noted => noted, fun _ met => met.elim, fun _ _ member => .inl member, .inl⟩

theorem trans (h : Accounts s met t) (h' : Accounts t met' u) :
    Accounts s (fun i => met i ∨ met' i) u := by
  refine ⟨h'.settled, fun i noted => h'.kept i (h.kept i noted), ?_, ?_, ?_⟩
  · rintro i (inside | inside)
    · exact h'.kept i (h.noted i inside)
    · exact h'.noted i inside
  · intro name plan member
    rcases h'.copies name plan member with before | now
    · rcases h.copies name plan before with before | then_
      · exact .inl before
      · exact .inr (.inl then_)
    · exact .inr (.inr now)
  · intro flag
    rcases h'.computed flag with before | ⟨name, e, now⟩
    · rcases h.computed before with before | ⟨name, e, then_⟩
      · exact .inl before
      · exact .inr ⟨name, e, .inl then_⟩
    · exact .inr ⟨name, e, .inr now⟩

theorem congr (h : Accounts s met t) (same : ∀ i, met i ↔ met' i) : Accounts s met' t := by
  have : met = met' := funext fun i => propext (same i)
  exact this ▸ h

/-- A copy is noted behind its source. -/
theorem add {name : String} {plan : Plan}
    (h : Accounts s (· ∈ Plan.inclusions plan) t) (same : u.hasDynamic = t.hasDynamic)
    (copies : ∀ e, e ∈ u.embedded ↔ e ∈ t.embedded ∨ e = (name, plan)) :
    Accounts s (fun i => i = (name, .embedded plan) ∨ i ∈ Plan.inclusions plan) u := by
  have kept (i : String × Target) (noted : t.Notes i) : u.Notes i := by
    obtain ⟨other, _ | _ | _ | _⟩ := i
    · exact (copies _).mpr (.inl noted)
    · trivial
    · exact same.trans noted
    · trivial
  refine ⟨?_, fun i noted => kept i (h.kept i noted), ?_, ?_, ?_⟩
  · intro other plan' member i inside
    rcases (copies _).mp member with before | ⟨⟨⟩⟩
    · exact kept i (h.settled other plan' before i inside)
    · exact kept i (h.noted i inside)
  · rintro i (rfl | inside)
    · exact (copies _).mpr (.inr rfl)
    · exact kept i (h.noted i inside)
  · intro other plan' member
    rcases (copies _).mp member with before | ⟨⟨⟩⟩
    · rcases h.copies other plan' before with before | now
      · exact .inl before
      · exact .inr (.inr now)
    · exact .inr (.inl rfl)
  · intro flag
    rcases h.computed (same.symm.trans flag) with before | ⟨other, e, now⟩
    · exact .inl before
    · exact .inr ⟨other, e, .inr now⟩

end Accounts

/-! ### Nodes -/

namespace Compiling

variable {α β : Type}

/-- The computation leaves the store alone, and gives results with a property. -/
def Gives (x : Compiling α) (p : α → Prop) : Prop :=
  ∀ c, (x.run c).2.store = c.store ∧ p (x.run c).1

theorem Gives.pure {a : α} {p : α → Prop} (h : p a) : Gives (Pure.pure a) p :=
  fun _ => ⟨rfl, h⟩

/-- What comes second may rely on the result of what comes first. -/
theorem Gives.bind {x : Compiling α} {f : α → Compiling β} {q : α → Prop} {p : β → Prop}
    (h : Gives x q) (next : ∀ a, q a → Gives (f a) p) : Gives (x >>= f) p :=
  fun c => ⟨(next _ (h c).2 _).1.trans (h c).1, (next _ (h c).2 _).2⟩

theorem Gives.steady_bind {x : Compiling α} {f : α → Compiling β} {p : β → Prop}
    (h : IsSteady x) (next : ∀ a, Gives (f a) p) : Gives (x >>= f) p := by
  obtain ⟨a, errors, h, -⟩ := h
  intro c
  obtain ⟨r, run, _⟩ := h c
  rw [StateT.run_bind, run]
  exact next a { c with report := r }

end Compiling

namespace BuildContext

variable (ctx : BuildContext) (tag : Tag)

theorem interpolation_gives (raw : Bool) :
    Gives (ctx.interpolation tag raw) fun n => ∀ node, n = some node → node.inclusions = [] := by
  unfold interpolation
  split
  · exact .steady_bind (.addError rfl) fun _ => .pure nofun
  · refine .steady_bind (callee?_steady ctx tag) fun callee => ?_
    split
    · refine .steady_bind (.count _) fun _ => .pure ?_
      rintro _ ⟨rfl⟩
      rw [Node.inclusions]
    · refine .steady_bind (headExpr_steady ctx tag) fun _ => .pure ?_
      rintro _ ⟨rfl⟩
      rw [Node.inclusions]

theorem rawBlock_gives (body : String) :
    Gives (ctx.rawBlock tag body) fun n => n.inclusions = [] := by
  unfold rawBlock
  split
  · exact .pure (by rw [Node.inclusions])
  · refine .steady_bind (.count _) fun _ => .pure ?_
    simp [Node.inclusions, Plan.inclusions]

theorem mem_inclusions_block {kind : BlockKind} {body : Plan} {inverse : Option Plan}
    {params : List String} : i ∈ (Node.block kind body inverse params).inclusions ↔
      i ∈ Plan.inclusions body ∨ i ∈ Plan.inclusions (inverse.getD []) := by
  cases inverse with
  | none => simp [Node.inclusions, Plan.inclusions]
  | some inverse => simp [Node.inclusions]

/-- The branches of a block show what the block shows. -/
theorem block_gives (body : Plan) (inverse : Option Plan) (inverted : Bool) :
    Gives (ctx.block tag body inverse inverted) fun n => ∀ i, i ∈ n.inclusions ↔
      i ∈ Plan.inclusions body ∨ i ∈ Plan.inclusions (inverse.getD []) := by
  unfold block
  simp only
  split
  · next openBlock found =>
    refine .steady_bind (.reporting (Builtin.open?_steady found tag.site)) fun kind => ?_
    split
    · refine .pure fun i => ?_
      rw [mem_inclusions_block, Option.getD_some, or_comm]
    · exact .pure fun i => mem_inclusions_block
  · refine .steady_bind (callee?_steady ctx tag) fun callee => ?_
    split
    · exact .steady_bind (.count _) fun _ => .pure fun i => mem_inclusions_block
    · exact .steady_bind (headExpr_steady ctx tag) fun _ => .pure fun i => mem_inclusions_block

/-! ### Inclusions -/

/-- A resolver whose calls meet the inclusions of the target that they find. There is
one for every inclusion with a block. -/
structure Meets : Prop where
  accounts : ∀ name hasBlock site c, c.store.Settled →
    Accounts c.store
      (fun i => ∃ t, ((ctx.resolve name hasBlock site).run c).1 = some t ∧
        (i = (name, t) ∨ i ∈ t.inclusions))
      ((ctx.resolve name hasBlock site).run c).2.store
  found : ∀ name site c, ((ctx.resolve name true site).run c).1 ≠ none

variable {ctx} in
theorem target_accounts (meets : ctx.Meets) (name : PartialName) (hasBlock : Bool)
    (c : Compilation) (settled : c.store.Settled) :
    Accounts c.store
      (fun i => ∃ e, ((ctx.target tag name hasBlock).run c).1 = some e ∧
        (i = e ∨ i ∈ e.2.inclusions))
      ((ctx.target tag name hasBlock).run c).2.store ∧
      (hasBlock = true → ((ctx.target tag name hasBlock).run c).1 ≠ none) := by
  cases name with
  | dynamic e =>
      refine ⟨⟨?_, ?_, ?_, fun _ _ member => .inl member, fun _ => .inr ⟨_, _, _, rfl, .inl rfl⟩⟩,
        fun _ => nofun⟩
      · rintro name plan member ⟨other, _ | _ | _ | _⟩ inside
        · exact settled name plan member _ inside
        · trivial
        · rfl
        · trivial
      · rintro ⟨other, _ | _ | _ | _⟩ noted
        · exact noted
        · trivial
        · rfl
        · trivial
      · rintro i ⟨e, ⟨rfl⟩, rfl | inside⟩
        · rfl
        · simp [Target.inclusions] at inside
  | static name =>
      have accounts := meets.accounts name hasBlock tag.site c settled
      have found := meets.found name tag.site c
      change Accounts c.store
          (fun i => ∃ e, Option.map (fun t => (name, t))
            ((ctx.resolve name hasBlock tag.site).run c).1 = some e ∧ (i = e ∨ i ∈ e.2.inclusions))
          ((ctx.resolve name hasBlock tag.site).run c).2.store ∧
        (hasBlock = true →
          Option.map (fun t => (name, t)) ((ctx.resolve name hasBlock tag.site).run c).1 ≠ none)
      refine ⟨accounts.congr fun i => ?_, ?_⟩
      · cases ((ctx.resolve name hasBlock tag.site).run c).1 <;> simp
      · rintro rfl
        simpa using found

/-- A target that is found becomes the target of the node; before that there may be a
complaint. -/
theorem inclusion_run (name : PartialName) (block : Option Plan) (c : Compilation) :
    ∃ r errors, r.errors = c.report.errors ++ errors ∧ (∀ d ∈ errors, d.IsPlain) ∧
      (ctx.inclusion tag name block).run c =
        (((ctx.target tag name block.isSome).run { c with report := r }).1.map fun e =>
            .inclusion (inclusionOf tag e.1) e.2 block,
          ((ctx.target tag name block.isSome).run { c with report := r }).2) := by
  rw [inclusion_eq]
  split
  · have complaint : (Diagnostic.arguments "a partial takes at most one context argument"
        tag.site).IsPlain := rfl
    obtain ⟨_, errors, complains, plain⟩ := IsSteady.addError complaint
    obtain ⟨r, run, written, -⟩ := complains c
    refine ⟨r, errors, written, plain, ?_⟩
    rw [StateT.run_bind, run]
    rfl
  · exact ⟨c.report, [], (List.append_nil _).symm, nofun, rfl⟩

theorem mem_inclusions_inclusion {call : Inclusion} {t : Target} {block : Option Plan} :
    i ∈ (Node.inclusion call t block).inclusions ↔
      (i = (call.name, t) ∨ i ∈ t.inclusions) ∨ i ∈ Plan.inclusions (block.getD []) := by
  cases block with
  | none => simp [Node.inclusions, Plan.inclusions]
  | some block => simp [Node.inclusions, or_assoc]

variable {ctx}

/-- Including a partial meets what its node shows besides the block. -/
theorem inclusion_accounts (meets : ctx.Meets) (name : PartialName) (block : Option Plan)
    (c : Compilation) (settled : c.store.Settled) :
    ∃ met, Accounts c.store met ((ctx.inclusion tag name block).run c).2.store ∧
      ∀ i, (met i ∨ i ∈ Plan.inclusions (block.getD [])) ↔
        ∃ n, ((ctx.inclusion tag name block).run c).1 = some n ∧ i ∈ n.inclusions := by
  obtain ⟨r, -, -, -, run⟩ := inclusion_run ctx tag name block c
  obtain ⟨accounts, found⟩ :=
    target_accounts tag meets name block.isSome { c with report := r } settled
  rw [run]
  refine ⟨_, accounts, fun i => ?_⟩
  revert found
  generalize ((ctx.target tag name block.isSome).run { c with report := r }).1 = target
  intro found
  cases target with
  | some e => simp [mem_inclusions_inclusion, inclusionOf]
  | none =>
      -- Without a target there is no block that could be lost.
      cases block with
      | none => simp [Plan.inclusions]
      | some block => exact absurd rfl (found rfl)

/-! ### Blocks -/

theorem scopeNode_accounts (meets : ctx.Meets) {scope : OpenBranches} (sound : scope.Sound)
    (c : Compilation) (settled : c.store.Settled) :
    ∃ met, Accounts c.store met ((ctx.scopeNode scope).run c).2.store ∧
      ∀ i, (met i ∨ i ∈ scope.inclusions) ↔
        ∃ n, ((ctx.scopeNode scope).run c).1 = some n ∧ i ∈ n.inclusions := by
  obtain ⟨tag, body, inverse, chained⟩ := scope
  have blocks (inverted : Bool) :
      let x : Compiling (Option Node) := do
        return some (← ctx.block tag body.reverse (inverse.map List.reverse) inverted)
      ∃ met, Accounts c.store met (x.run c).2.store ∧
        ∀ i, (met i ∨ i ∈ OpenBranches.inclusions { tag, body, inverse, chained }) ↔
          ∃ n, (x.run c).1 = some n ∧ i ∈ n.inclusions := by
    intro x
    obtain ⟨same, shown⟩ :=
      block_gives ctx tag body.reverse (inverse.map List.reverse) inverted c
    refine ⟨fun _ => False, ?_, fun i => ?_⟩
    · change Accounts c.store _
        ((ctx.block tag body.reverse (inverse.map List.reverse) inverted).run c).2.store
      rw [same]
      exact .none settled
    · change _ ↔ ∃ n, some
        ((ctx.block tag body.reverse (inverse.map List.reverse) inverted).run c).1 = some n ∧ _
      have shown := shown i
      cases inverse <;> simpa [OpenBranches.inclusions] using shown.symm
  cases kind : tag.kind with
  | opening inverted => simpa only [scopeNode, kind] using blocks inverted
  | alternative _ => simpa only [scopeNode, kind] using blocks false
  | inclusionBlock name =>
      obtain rfl : inverse = none := by simpa only [OpenBranches.Sound, kind] using sound
      have := inclusion_accounts tag meets name (some body.reverse) c settled
      simpa [scopeNode, kind, OpenBranches.inclusions, Plan.inclusions] using this
  | inlineDef name =>
      obtain rfl : inverse = none := by simpa only [OpenBranches.Sound, kind] using sound
      simp only [scopeNode, kind]
      refine ⟨fun _ => False, .none settled, fun i => ?_⟩
      change _ ↔ ∃ n, some (Node.inlineDef name body.reverse) = some n ∧ _
      simp [OpenBranches.inclusions, Plan.inclusions, Node.inclusions]
  | _ => simp only [OpenBranches.Sound, kind] at sound

/-! ### Drafts -/

/-- A draft shows what was met since the store `s`, and all that is in its open blocks
will be part of the plan. -/
structure Faithful (s : Store) (d : Draft) (c : Compilation) : Prop where
  sound : ∀ scope ∈ d.scopes, scope.Sound
  accounts : Accounts s (· ∈ d.inclusions) c.store

/-- The computation takes a faithful draft to a faithful one. -/
def Keeps (d : Draft) (x : Compiling Draft) : Prop :=
  ∀ s c, Faithful s d c → Faithful s (x.run c).1 (x.run c).2

variable {d : Draft} {s : Store} {c c' : Compilation}

theorem sound_push (n : Node) (h : ∀ scope ∈ d.scopes, scope.Sound) :
    ∀ scope ∈ (d.push n).scopes, scope.Sound := by
  obtain ⟨root, scopes⟩ := d
  cases scopes with
  | nil => exact h
  | cons scope scopes =>
      obtain ⟨others, rest⟩ := List.forall_mem_cons.mp h
      obtain ⟨tag, body, inverse, chained⟩ := scope
      cases inverse with
      | none => exact List.forall_mem_cons.mpr ⟨others, rest⟩
      | some inverse =>
          refine List.forall_mem_cons.mpr ⟨?_, rest⟩
          unfold OpenBranches.Sound at others ⊢
          simp only at others ⊢
          split at others <;> simp_all

/-- A node that shows what was met is added. -/
theorem Faithful.push {n : Node} {met : String × Target → Prop} (h : Faithful s d c)
    (accounts : Accounts c.store met c'.store) (shows : ∀ i, met i ↔ i ∈ n.inclusions) :
    Faithful s (d.push n) c' := by
  refine ⟨sound_push n h.sound, (h.accounts.trans accounts).congr fun i => ?_⟩
  rw [Draft.mem_inclusions_push, shows, or_comm]

/-- Nothing is met, and a node without inclusions is added, if any. -/
theorem Faithful.push? {n : Option Node} (h : Faithful s d c) (same : c'.store = c.store)
    (shows : ∀ node, n = some node → node.inclusions = []) : Faithful s (d.push? n) c' := by
  have accounts : Accounts c.store (fun _ => False) c'.store := by
    rw [same]
    exact .none h.accounts.settled
  cases n with
  | none => exact ⟨h.sound, (h.accounts.trans accounts).congr fun i => by simp [Draft.push?]⟩
  | some n => exact h.push accounts fun i => by simp [shows n rfl]

theorem Faithful.store_eq (h : Faithful s d c) (same : c'.store = c.store) : Faithful s d c' :=
  ⟨h.sound, same ▸ h.accounts⟩

theorem keeps_openScope (chained : Bool)
    (kind : OpenBranches.Sound { tag, chained }) : Keeps d (openScope tag chained d) := by
  intro s c h
  refine ⟨List.forall_mem_cons.mpr ⟨kind, h.sound⟩, h.accounts.congr fun i => ?_⟩
  change i ∈ d.inclusions ↔
    i ∈ Draft.inclusions { d with scopes := { tag, chained } :: d.scopes }
  rw [Draft.mem_inclusions_cons]
  simp [OpenBranches.inclusions, Plan.inclusions]

/-- Closing a block makes its node part of the branch around it. -/
theorem keeps_closeScope (meets : ctx.Meets) (d : Draft) : Keeps d (ctx.closeScope d) := by
  intro s c h
  obtain ⟨root, scopes⟩ := d
  cases scopes with
  | nil => exact h
  | cons scope scopes =>
      obtain ⟨sound, rest⟩ := List.forall_mem_cons.mp h.sound
      obtain ⟨met, accounts, shows⟩ := scopeNode_accounts meets sound c h.accounts.settled
      change Faithful s (Draft.push? ((ctx.scopeNode scope).run c).1 { root, scopes })
        (popLayer.run ((ctx.scopeNode scope).run c).2).2
      have all := h.accounts.trans accounts
      have outer (i : String × Target) :
          i ∈ Draft.inclusions { root, scopes := scope :: scopes } ↔
            i ∈ scope.inclusions ∨ i ∈ Draft.inclusions { root, scopes } :=
        Draft.mem_inclusions_cons (d := { root, scopes })
      revert shows
      generalize ((ctx.scopeNode scope).run c).1 = n
      intro shows
      cases n with
      | none =>
          refine ⟨rest, all.congr fun i => ?_⟩
          have shows := shows i
          simp only [outer, Draft.push?]
          grind
      | some n =>
          refine ⟨sound_push n rest, all.congr fun i => ?_⟩
          have shows := shows i
          simp only [outer, Draft.push?, Draft.mem_inclusions_push]
          grind

theorem closeScope_length (d : Draft) (c : Compilation) :
    ((ctx.closeScope d).run c).1.scopes.length = d.scopes.length - 1 := by
  obtain ⟨root, scopes⟩ := d
  cases scopes with
  | nil => rfl
  | cons scope scopes =>
      change (Draft.push? ((ctx.scopeNode scope).run c).1 { root, scopes }).scopes.length = _
      rw [Comparison.length_push?]
      rfl

theorem keeps_closeScopes (meets : ctx.Meets) (n : Nat) (d : Draft) :
    Keeps d (ctx.closeScopes n d) := by
  induction n generalizing d with
  | zero => exact fun _ _ h => h
  | succ n ih => exact fun s c h => ih _ s _ (keeps_closeScope meets d s c h)

theorem closeScopes_length (n : Nat) (d : Draft) (c : Compilation) :
    ((ctx.closeScopes n d).run c).1.scopes.length = d.scopes.length - n := by
  induction n generalizing d c with
  | zero => rfl
  | succ n ih =>
      refine (ih ((ctx.closeScope d).run c).1 ((ctx.closeScope d).run c).2).trans ?_
      rw [closeScope_length]
      omega

/-- A block with an else branch that is begun shows as much as before. -/
theorem Faithful.beginElse {scope : OpenBranches} (accepts : acceptsElse scope = true)
    (h : Faithful s { d with scopes := scope :: d.scopes } c) (same : c'.store = c.store) :
    Faithful s { d with scopes := { scope with inverse := some [] } :: d.scopes } c' := by
  obtain ⟨tag, body, inverse, chained⟩ := scope
  obtain ⟨_, rest⟩ := List.forall_mem_cons.mp h.sound
  have kind : OpenBranches.Sound { tag, body, inverse := some [], chained } := by
    unfold acceptsElse at accepts
    unfold OpenBranches.Sound
    cases here : tag.kind <;> simp_all
  have none_yet : inverse = none := by
    unfold acceptsElse at accepts
    cases inverse <;> simp_all
  refine ⟨List.forall_mem_cons.mpr ⟨kind, rest⟩, ?_⟩
  rw [same]
  refine h.accounts.congr fun i => ?_
  simp only [Draft.mem_inclusions_cons, none_yet]
  rfl

theorem keeps_beginElse (chained : Bool) (kind : OpenBranches.Sound { tag, chained := true }) :
    Keeps d (beginElse tag chained d) := by
  obtain ⟨root, scopes⟩ := d
  cases scopes with
  | nil => exact fun _ _ h => h
  | cons scope scopes =>
      unfold beginElse
      simp only
      split
      · next accepts =>
        intro s c h
        have begun : Faithful s
            { root, scopes := { scope with inverse := some [] } :: scopes }
            { c with inlines := [] :: c.inlines.tail } :=
          Faithful.beginElse (d := { root, scopes }) accepts h rfl
        cases chained with
        | false => exact begun
        | true => exact keeps_openScope tag true kind s _ begun
      · exact fun _ _ h => h

theorem keeps_beginInline {name : String} (kind : OpenBranches.Sound { tag, chained := false }) :
    Keeps d (beginInline tag name d) := by
  intro s c h
  have declares : ((declareInline name).run c).2.store = c.store := by
    rw [declareInline_run]
    split
    · rfl
    · split <;> rfl
  have opens (fresh : Bool) (c : Compilation) (h : Faithful s d c) :
      let x : Compiling Draft := do
        if !fresh then
          addWarning ("inline partial '" ++ name ++ "' redefined on line " ++
            toString tag.site.line)
        openScope tag false d
      Faithful s (x.run c).1 (x.run c).2 := by
    cases fresh with
    | true => exact keeps_openScope tag false kind s c h
    | false => exact keeps_openScope tag false kind s _ (h.store_eq rfl)
  exact opens _ _ (h.store_eq declares)

/-! ### Plans -/

theorem keeps_addTag (meets : ctx.Meets) (d : Draft) (tag : Tag) : Keeps d (ctx.addTag d tag) := by
  unfold addTag
  cases kind : tag.kind with
  | interpolation raw =>
      intro s c h
      obtain ⟨same, shows⟩ := interpolation_gives ctx tag raw c
      exact h.push? same shows
  | comment => exact fun _ _ h => h
  | opening inverted => exact keeps_openScope tag false (by simp [OpenBranches.Sound, kind])
  | inclusionBlock name => exact keeps_openScope tag false (by simp [OpenBranches.Sound, kind])
  | inlineDef name => exact keeps_beginInline tag (by simp [OpenBranches.Sound, kind])
  | alternative chained => exact keeps_beginElse tag chained (by simp [OpenBranches.Sound, kind])
  | closing => exact keeps_closeScopes meets _ d
  | inclusion name =>
      intro s c h
      obtain ⟨met, accounts, shows⟩ := inclusion_accounts tag meets name none c h.accounts.settled
      simp only [Option.getD_none, Plan.inclusions, List.not_mem_nil, or_false] at shows
      change Faithful s (d.push? ((ctx.inclusion tag name none).run c).1)
        ((ctx.inclusion tag name none).run c).2
      revert shows
      generalize ((ctx.inclusion tag name none).run c).1 = n
      intro shows
      cases n with
      | some n => exact h.push accounts fun i => by simp [shows]
      | none =>
          refine ⟨h.sound, (h.accounts.trans accounts).congr fun i => ?_⟩
          simp [Draft.push?, shows]
  | rawBlock body =>
      intro s c h
      obtain ⟨same, shows⟩ := rawBlock_gives ctx tag body c
      have pushed := h.push? (n := some ((ctx.rawBlock tag body).run c).1) same (by
        rintro _ ⟨rfl⟩
        exact shows)
      exact pushed

theorem keeps_addTokens (meets : ctx.Meets) (d : Draft) (tokens : List Token) :
    Keeps d (ctx.addTokens d tokens) := by
  induction tokens generalizing d with
  | nil => exact fun _ _ h => h
  | cons token tokens ih =>
      cases token with
      | text text =>
          intro s c h
          refine ih _ s c (h.push? (n := some (.literal text)) rfl ?_)
          rintro _ ⟨rfl⟩
          rw [Node.inclusions]
      | tag tag => exact fun s c h => ih _ s _ (keeps_addTag meets d tag s c h)

/-- Building a plan meets exactly the inclusions of the plan. -/
theorem build_accounts (meets : ctx.Meets) (tokens : List Token) (c : Compilation)
    (settled : c.store.Settled) :
    Accounts c.store (· ∈ Plan.inclusions ((ctx.build tokens).run c).1)
      ((ctx.build tokens).run c).2.store := by
  have start : Faithful c.store {} c :=
    ⟨nofun, (Accounts.none settled).congr fun i => by simp [Draft.inclusions, Plan.inclusions]⟩
  have added := keeps_addTokens meets {} tokens c.store c start
  let read := (ctx.addTokens {} tokens).run c
  let closed := (ctx.closeScopes read.1.scopes.length read.1).run read.2
  have accounts : Accounts c.store (· ∈ closed.1.inclusions) closed.2.store :=
    (keeps_closeScopes meets _ _ _ _ added).accounts
  have none_open : closed.1.scopes = [] := by
    rw [← List.length_eq_zero_iff, closeScopes_length, Nat.sub_self]
  refine accounts.congr fun i => ?_
  have plan : ((ctx.build tokens).run c).1 = closed.1.root.reverse := rfl
  rw [plan, Plan.mem_inclusions_reverse, Draft.inclusions, none_open]
  simp

end BuildContext

/-! ### Sources -/

namespace Workshop

/-- Compiling meets exactly the inclusions of the plan. -/
def Accounting (action : Compiling Plan) : Prop :=
  ∀ c, c.store.Settled →
    Accounts c.store (· ∈ Plan.inclusions (action.run c).1) (action.run c).2.store

/-- A way to copy that notes the copy and what is met in its source, and nothing else. -/
def Meets (w : Workshop) (copy : Copying) : Prop :=
  ∀ entered available name c, c.store.Settled →
    (∀ source, Table.get? available name = some source →
      Accounting (w.sourceBy copy (name :: entered) (Table.erase available name) source)) →
    Accounts c.store
      (fun i => ∃ plan,
        ((copy entered name (w.innerBy copy entered available name)).run c).1 = some plan ∧
          (i = (name, .embedded plan) ∨ i ∈ Plan.inclusions plan))
      ((copy entered name (w.innerBy copy entered available name)).run c).2.store

variable {w : Workshop} {copy : Copying}

theorem resolveBy_meets {x : Compiling (Option Plan)} {name : String} (hasBlock : Bool)
    (site : Site) {c : Compilation} (settled : c.store.Settled)
    (h : Accounts c.store
      (fun i => ∃ plan, (x.run c).1 = some plan ∧
        (i = (name, .embedded plan) ∨ i ∈ Plan.inclusions plan)) (x.run c).2.store) :
    Accounts c.store
      (fun i => ∃ t, ((w.resolveBy x name hasBlock site).run c).1 = some t ∧
        (i = (name, t) ∨ i ∈ t.inclusions))
      ((w.resolveBy x name hasBlock site).run c).2.store := by
  have nothing {t : Option Target} (plain : ∀ target, t = some target →
      (∀ s : Store, s.Notes (name, target)) ∧ target.inclusions = []) :
      Accounts c.store (fun i => ∃ target, t = some target ∧
        (i = (name, target) ∨ i ∈ target.inclusions)) c.store := by
    refine ⟨settled, fun _ noted => noted, ?_, fun _ _ member => .inl member, .inl⟩
    rintro i ⟨target, given, rfl | inside⟩
    · exact (plain target given).1 _
    · rw [(plain target given).2] at inside
      cases inside
  have named : ∀ target, some (Target.named name) = some target →
      (∀ s : Store, s.Notes (name, target)) ∧ target.inclusions = [] := by
    rintro _ ⟨rfl⟩
    exact ⟨fun _ => trivial, by rw [Target.inclusions]⟩
  rw [resolveBy_run]
  split
  · refine nothing ?_
    rintro _ ⟨rfl⟩
    exact ⟨fun _ => trivial, by rw [Target.inclusions]⟩
  split
  · exact nothing named
  split
  · split
    · exact nothing named
    · exact nothing nofun
  simp only
  generalize (x.run c).1 = plan at h
  cases plan with
  | some plan => exact h.congr fun i => by simp [Target.inclusions]
  | none =>
      refine ⟨h.settled, h.kept, ?_, fun name plan member => ?_, fun flag => ?_⟩
      · rintro i ⟨target, given, rfl | inside⟩
        · exact (named target given).1 _
        · rw [(named target given).2] at inside
          cases inside
      · rcases h.copies name plan member with before | ⟨_, ⟨⟩, _⟩
        exact .inl before
      · rcases h.computed flag with before | ⟨_, _, _, ⟨⟩, _⟩
        exact .inl before

/-- Every source is accounted for, by induction on the partials that it may enter. -/
theorem sourceBy_accounts (meets : w.Meets copy) (entered : List String)
    (available : Table String) (source : String) :
    Accounting (w.sourceBy copy entered available source) := by
  revert source
  refine source_induction (motive := fun entered available =>
    ∀ source, Accounting (w.sourceBy copy entered available source)) ?_ entered available
  intro entered available ih source c settled
  have resolver : (w.builderBy copy entered available).Meets := by
    refine ⟨fun name hasBlock site c settled => ?_, fun name site c => ?_⟩
    · exact resolveBy_meets hasBlock site settled
        (meets entered available name c settled fun source found => ih name source found source)
    · change ((w.resolveBy (copy entered name (w.innerBy copy entered available name)) name true
        site).run c).1 ≠ none
      rw [resolveBy_run]
      split
      · nofun
      split
      · nofun
      split
      · nofun
      · nofun
  obtain ⟨tokens, errors, reads, -⟩ := IsSteady.reporting
    (Markup.readTemplate_steady w.registry.hasHelper w.settings source)
  obtain ⟨r, run, _⟩ := reads c
  rw [sourceBy_eq, StateT.run_bind, run]
  exact BuildContext.build_accounts resolver tokens { c with report := r } settled

/-! ### Copies -/

theorem renew_meets (w : Workshop) : w.Meets renew := by
  intro entered available name c settled ih
  by_cases member : name ∈ entered
  · rw [renew_run_open entered member]
    exact (Accounts.none settled).congr fun i => by simp
  cases found : Table.get? available name with
  | none =>
      have missing : w.innerBy renew entered available name = none := by
        rw [innerBy, found, Option.map_none]
      have run : (renew entered name none).run c = (none, c) := by
        unfold renew
        rw [if_neg (by simpa using member)]
        rfl
      rw [missing, run]
      exact (Accounts.none settled).congr fun i => by simp
  | some source =>
      have here : w.innerBy renew entered available name =
          some (w.sourceBy renew (name :: entered) (Table.erase available name) source) := by
        rw [innerBy, found, Option.map_some]
      rw [here, renew_run_new entered member]
      have inside := ih source found (enterPartial name c) settled
      let after := (insidePartial name
        (w.sourceBy renew (name :: entered) (Table.erase available name) source)).run c
      have noted : Accounts c.store
          (fun i => i = (name, .embedded after.1) ∨ i ∈ Plan.inclusions after.1)
          (noting name after).store :=
        Accounts.add inside rfl fun e => List.mem_cons.trans or_comm
      exact noted.congr fun i => by simp [after]

theorem embed_meets (embeds : w.settings.runtimePartials = false) : w.Meets embed := by
  intro entered available name c settled ih
  by_cases member : name ∈ entered
  · rw [embed_run_open entered name member]
    exact (Accounts.none settled).congr fun i => by simp
  cases known : Table.get? c.embedded name with
  | some plan =>
      rw [embed_run_known entered name member _ known]
      have noted : (name, plan) ∈ c.embedded := Table.mem_of_get? known
      refine ⟨settled, fun _ noted => noted, ?_, fun _ _ member => .inl member, .inl⟩
      rintro i ⟨_, ⟨rfl⟩, rfl | inside⟩
      · exact noted
      · exact settled name plan noted i inside
  | none =>
      cases found : Table.get? available name with
      | none =>
          have missing : w.innerBy embed entered available name = none := by
            rw [innerBy, found, Option.map_none]
          rw [missing, embed_run_new entered name member _ known]
          exact (Accounts.none settled).congr fun i => by simp
      | some source =>
          have here : w.innerBy embed entered available name =
              some (w.sourceBy embed (name :: entered) (Table.erase available name) source) := by
            rw [innerBy, found, Option.map_some]
          rw [here, embed_run_new entered name member _ known]
          let after := (insidePartial name
            (w.sourceBy embed (name :: entered) (Table.erase available name) source)).run c
          have inside := ih source found (enterPartial name c) settled
          -- The source leaves its own name alone, so the copy comes last.
          have still := embed_source_new entered (Table.erase available name) embeds source known
          have noted : Accounts c.store
              (fun i => i = (name, .embedded after.1) ∨ i ∈ Plan.inclusions after.1)
              (embedding name after).store :=
            Accounts.add inside rfl fun e => Table.mem_insert_of_new still _
          exact noted.congr fun i => by simp [after]

end Workshop

end Stencil
