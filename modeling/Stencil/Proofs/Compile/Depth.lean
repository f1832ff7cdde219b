import Stencil.Proofs.Compile.Headers

/-!
The layers of inline partials.

Every open block and every partial has a layer of its own. Whatever the tags are, the
layers that a source finds are those that it leaves: a block takes its layer with it,
and an else branch has a fresh one in the place of that of the body.
-/

namespace Stencil

open Compiling Markup

namespace Compiling

variable {α β : Type}

/-- The computation leaves as many layers of inline partials as it finds. -/
def KeepsDepth (x : Compiling α) : Prop :=
  ∀ c, (x.run c).2.inlines.length = c.inlines.length

namespace KeepsDepth

theorem pure (a : α) : KeepsDepth (Pure.pure a) :=
  fun _ => rfl

theorem bind {x : Compiling α} {f : α → Compiling β} (h : KeepsDepth x)
    (next : ∀ a, KeepsDepth (f a)) : KeepsDepth (x >>= f) :=
  fun c => (next _ _).trans (h c)

theorem steady {x : Compiling α} (h : IsSteady x) : KeepsDepth x := by
  obtain ⟨a, errors, h, -⟩ := h
  intro c
  obtain ⟨r, run, -⟩ := h c
  rw [run]

theorem insidePartial {action : Compiling α} (h : KeepsDepth action) (name : String) :
    KeepsDepth (insidePartial name action) := by
  intro c
  rw [insidePartial_run]
  change ((action.run (enterPartial name c)).2.inlines.tail).length = _
  rw [List.length_tail, h]
  rfl

end KeepsDepth

theorem declareInline_keepsDepth (name : String) : KeepsDepth (declareInline name) := by
  intro c
  rw [declareInline_run]
  split
  · rfl
  · next layers => split <;> simp [layers]

end Compiling

namespace BuildContext

variable {ctx : BuildContext}

section

variable (resolves : ∀ name hasBlock site, KeepsDepth (ctx.resolve name hasBlock site))

include resolves

theorem inclusion_keepsDepth (tag : Tag) (name : PartialName) (block : Option Plan) :
    KeepsDepth (ctx.inclusion tag name block) := by
  have target : KeepsDepth (ctx.target tag name block.isSome) := by
    cases name with
    | dynamic e => exact fun _ => rfl
    | static name => exact .bind (resolves name _ tag.site) fun _ => .pure _
  have found := KeepsDepth.bind target fun found =>
    .pure (found.map fun e => Node.inclusion (inclusionOf tag e.1) e.2 block)
  rw [inclusion_eq]
  split
  · exact .bind (.steady (.addError rfl)) fun _ => found
  · exact found

theorem scopeNode_keepsDepth (scope : OpenBranches) : KeepsDepth (ctx.scopeNode scope) := by
  unfold scopeNode
  simp only
  split
  · exact .bind (.steady (block_steady ctx _ _ _ _)) fun _ => .pure _
  · exact .bind (.steady (block_steady ctx _ _ _ _)) fun _ => .pure _
  · exact inclusion_keepsDepth resolves _ _ _
  · exact .pure _
  · exact .pure _

/-- Every open block has a layer of its own, above those that were there before. -/
def Layered (base : Nat) (d : Draft) (c : Compilation) : Prop :=
  c.inlines.length = base + d.scopes.length

omit resolves in
theorem Layered.of_headers {base : Nat} {d d' : Draft} {c c' : Compilation}
    (h : Layered base d c) (headers : d'.headers.length = d.headers.length)
    (depth : c'.inlines.length = c.inlines.length) : Layered base d' c' := by
  rw [Draft.length_headers, Draft.length_headers] at headers
  rw [Layered, depth, headers]
  exact h

omit resolves in
theorem Layered.opens {base : Nat} {d d' : Draft} {c c' : Compilation}
    (h : Layered base d c) (headers : d'.headers.length = d.headers.length + 1)
    (depth : c'.inlines.length = c.inlines.length + 1) : Layered base d' c' := by
  rw [Draft.length_headers, Draft.length_headers] at headers
  rw [Layered, depth, headers, h, Nat.add_assoc]

theorem closeScope_layered {base : Nat} {d : Draft} {c : Compilation} (h : Layered base d c) :
    Layered base ((ctx.closeScope d).run c).1 ((ctx.closeScope d).run c).2 := by
  obtain ⟨root, scopes⟩ := d
  cases scopes with
  | nil => exact h
  | cons scope scopes =>
      have length : ((ctx.closeScope { root, scopes := scope :: scopes }).run c).1.scopes.length =
          scopes.length :=
        Comparison.length_push? _ _
      -- The node is built inside the layer of its block, which is dropped behind it.
      have depth : ((ctx.closeScope { root, scopes := scope :: scopes }).run c).2.inlines.length =
          c.inlines.length - 1 := by
        refine (List.length_tail (l := ((ctx.scopeNode scope).run c).2.inlines)).trans ?_
        rw [scopeNode_keepsDepth resolves scope c]
      rw [Layered, depth, length, h]
      simp

theorem closeScopes_layered {base : Nat} (n : Nat) {d : Draft} {c : Compilation}
    (h : Layered base d c) :
    Layered base ((ctx.closeScopes n d).run c).1 ((ctx.closeScopes n d).run c).2 := by
  induction n generalizing d c with
  | zero => exact h
  | succ n ih => exact ih (closeScope_layered resolves h)

omit resolves in
/-- The else branch of a block has a fresh layer in the place of that of its body. -/
theorem beginElse_layered {base : Nat} (tag : Tag) (chained : Bool) {d : Draft} {c : Compilation}
    (h : Layered base d c) :
    Layered base ((beginElse tag chained d).run c).1 ((beginElse tag chained d).run c).2 := by
  obtain ⟨root, scopes⟩ := d
  cases scopes with
  | nil => exact h
  | cons scope scopes =>
      have renewed : (([] : List String) :: c.inlines.tail).length = base + (scopes.length + 1) := by
        rw [List.length_cons, List.length_tail, h, List.length_cons]
        omega
      unfold beginElse
      simp only
      split
      · cases chained with
        | false => exact renewed
        | true => exact congrArg (· + 1) renewed
      · exact h

omit resolves in
theorem beginInline_layered {base : Nat} (tag : Tag) (name : String) {d : Draft} {c : Compilation}
    (h : Layered base d c) :
    Layered base ((beginInline tag name d).run c).1 ((beginInline tag name d).run c).2 := by
  refine h.opens (by rw [beginInline_headers]; rfl) ?_
  -- A redefinition is warned about, which no layer shows.
  have pushes (fresh : Bool) (c : Compilation) :
      let x : Compiling Draft := do
        if !fresh then
          addWarning ("inline partial '" ++ name ++ "' redefined on line " ++
            toString tag.site.line)
        openScope tag false d
      (x.run c).2.inlines.length = c.inlines.length + 1 := by
    cases fresh <;> rfl
  exact (pushes _ _).trans (congrArg (· + 1) (declareInline_keepsDepth name c))

theorem addTag_layered {base : Nat} (tag : Tag) {d : Draft} {c : Compilation}
    (h : Layered base d c) :
    Layered base ((ctx.addTag d tag).run c).1 ((ctx.addTag d tag).run c).2 := by
  unfold addTag
  cases tag.kind with
  | interpolation raw =>
      exact h.of_headers (congrArg List.length (Draft.headers_push? _ _))
        (KeepsDepth.steady (interpolation_steady ctx tag raw) c)
  | comment => exact h
  | opening inverted => exact h.opens rfl rfl
  | inclusionBlock name => exact h.opens rfl rfl
  | inlineDef name => exact beginInline_layered tag name h
  | alternative chained => exact beginElse_layered tag chained h
  | closing => exact closeScopes_layered resolves _ h
  | inclusion name =>
      exact h.of_headers (congrArg List.length (Draft.headers_push? _ _))
        (inclusion_keepsDepth resolves tag name none c)
  | rawBlock body =>
      exact h.of_headers (congrArg List.length (Draft.headers_push _ _))
        (KeepsDepth.steady (rawBlock_steady ctx tag body) c)

theorem addTokens_layered {base : Nat} {d : Draft} (tokens : List Token) {c : Compilation}
    (h : Layered base d c) :
    Layered base ((ctx.addTokens d tokens).run c).1 ((ctx.addTokens d tokens).run c).2 := by
  induction tokens generalizing d c with
  | nil => exact h
  | cons token tokens ih =>
      cases token with
      | text text => exact ih (h.of_headers (congrArg List.length (Draft.headers_push _ _)) rfl)
      | tag tag => exact ih (addTag_layered resolves tag h)

/-- Building a plan leaves as many layers as there were, whatever the tokens are. -/
theorem build_keepsDepth (tokens : List Token) : KeepsDepth (ctx.build tokens) := by
  intro c
  have start : Layered c.inlines.length {} c := rfl
  have added := addTokens_layered resolves tokens start
  have closed := closeScopes_layered resolves
    ((ctx.addTokens {} tokens).run c).1.scopes.length added
  rw [Layered, closeAll_scopes] at closed
  exact closed

end

end BuildContext

namespace Workshop

variable (w : Workshop)

theorem embed_keepsDepth (entered : List String) (name : String) {compile : Option (Compiling Plan)}
    (h : ∀ action, compile = some action → KeepsDepth action) :
    KeepsDepth (embed entered name compile) := by
  intro c
  by_cases member : name ∈ entered
  · rw [embed_run_open entered name member]
  cases found : Table.get? c.embedded name with
  | some plan => rw [embed_run_known entered name member _ found]
  | none =>
      rw [embed_run_new entered name member _ found]
      cases compile with
      | none => rfl
      | some action => exact KeepsDepth.insidePartial (h action rfl) name c

theorem tabulate_keepsDepth (entered : List String) (name : String)
    {compile : Option (Compiling Plan)} (h : ∀ action, compile = some action → KeepsDepth action) :
    KeepsDepth (tabulate entered name compile) := by
  intro c
  by_cases known : name ∈ entered ∨ (Table.get? c.table name).isSome = true
  · rw [tabulate_run_known entered name _ known]
  obtain ⟨member, found⟩ := not_or.mp known
  rw [Option.not_isSome_iff_eq_none] at found
  rw [tabulate_run_new entered name member _ found]
  cases compile with
  | none => rfl
  | some action => exact KeepsDepth.insidePartial (h action rfl) name c

theorem resolve_keepsDepth (entered : List String) (name : String) (hasBlock : Bool) (site : Site)
    {compile : Option (Compiling Plan)} (h : ∀ action, compile = some action → KeepsDepth action) :
    KeepsDepth (w.resolve entered name hasBlock site compile) := by
  intro c
  rw [resolve_run]
  split
  · rfl
  split
  · rfl
  split
  · exact tabulate_keepsDepth entered name h c
  split
  · split <;> rfl
  · exact embed_keepsDepth entered name h c

theorem compileSource_keepsDepth (entered : List String) (available : Table String)
    (source : String) : KeepsDepth (w.compileSource entered available source) := by
  revert source
  refine source_induction (motive := fun entered available =>
    ∀ source, KeepsDepth (w.compileSource entered available source)) ?_ entered available
  intro entered available ih source
  rw [compileSource_eq]
  refine .bind (.steady (.reporting (Markup.readTemplate_steady _ _ _))) fun tokens => ?_
  refine BuildContext.build_keepsDepth (fun name hasBlock site => ?_) tokens
  refine resolve_keepsDepth w entered name hasBlock site ?_
  intro action given
  obtain ⟨source, found, rfl⟩ := Option.map_eq_some_iff.mp given
  exact ih name source found source

theorem builder_keepsDepth (entered : List String) (available : Table String) (name : String)
    (hasBlock : Bool) (site : Site) :
    KeepsDepth ((w.builder entered available).resolve name hasBlock site) := by
  refine resolve_keepsDepth w entered name hasBlock site fun action given => ?_
  obtain ⟨source, found, rfl⟩ := Option.map_eq_some_iff.mp given
  exact compileSource_keepsDepth w _ _ source

end Workshop

end Stencil
