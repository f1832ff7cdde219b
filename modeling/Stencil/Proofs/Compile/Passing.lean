import Stencil.Proofs.Compile.Headers
import Stencil.Proofs.Compile.Inclusions

/-!
What building passes through.

A passage is a relation between the states of a compile call that holds wherever a
step is taken: it allows complaints other than about partials, and layers without
names. A builder whose targets are found along a passage builds along it, and on the way it looks up
the target of every inclusion in its tokens.
-/

namespace Stencil

open Compiling Markup

/-- The partial that a tag includes, with a block or without. -/
def Markup.Tag.included? (tag : Tag) : Option PartialName :=
  match tag.kind with
  | .inclusion name | .inclusionBlock name => some name
  | _ => none

/-- What holds between a state of a compile call and a later one. -/
structure Passage where
  leads : Compilation → Compilation → Prop
  refl : ∀ c, leads c c
  trans : ∀ {c c' c''}, leads c c' → leads c' c'' → leads c c''
  report : ∀ c {r errors}, r.errors = c.report.errors ++ errors → (∀ d ∈ errors, d.IsPlain) →
    leads c { c with report := r }
  push : ∀ c, leads c { c with inlines := [] :: c.inlines }
  pop : ∀ c, leads c { c with inlines := c.inlines.tail }

namespace Compiling

variable {α β : Type} {p : Passage}

/-- The computation stays on a passage. -/
def Passes (p : Passage) (x : Compiling α) : Prop :=
  ∀ c, p.leads c (x.run c).2

namespace Passes

theorem pure (a : α) : Passes p (Pure.pure a) :=
  p.refl

theorem bind {x : Compiling α} {f : α → Compiling β} (h : Passes p x)
    (next : ∀ a, Passes p (f a)) : Passes p (x >>= f) :=
  fun c => p.trans (h c) (next _ _)

theorem steady {x : Compiling α} (h : IsSteady x) : Passes p x := by
  obtain ⟨a, errors, h, plain⟩ := h
  intro c
  obtain ⟨r, run, written, -⟩ := h c
  rw [run]
  exact p.report c written plain

end Passes

end Compiling

/-- The tags of the open blocks, innermost first. -/
def Draft.blockTags (d : Draft) : List Tag :=
  d.headers.map Header.tag

namespace Header

variable {headers : List Header} {tag t : Tag}

theorem tags_behindElse (headers : List Header) (tag : Tag) (chained : Bool) :
    (behindElse headers tag chained).map Header.tag = headers.map Header.tag ∨
      (behindElse headers tag chained).map Header.tag = tag :: headers.map Header.tag := by
  unfold behindElse
  split
  · exact .inl rfl
  · split
    · cases chained with
      | false => exact .inl rfl
      | true => exact .inr rfl
    · exact .inl rfl

/-- Every open block was open before or is opened by the tag. -/
theorem tag_of_mem_behind (member : t ∈ (behind headers tag).map Header.tag) :
    t ∈ tag :: headers.map Header.tag := by
  unfold behind at member
  split at member
  case h_4 chained kind =>
    rcases tags_behindElse headers tag chained with same | pushed
    · exact .tail _ (same ▸ member)
    · exact pushed ▸ member
  case h_5 =>
    rw [List.map_tail] at member
    obtain ⟨header, inside, rfl⟩ := List.mem_map.mp (List.mem_of_mem_tail member)
    exact .tail _ (List.mem_map_of_mem ((List.dropWhile_suffix _).mem inside))
  all_goals first | exact member | exact .tail _ member

/-- Only a closing tag ends the block of an inclusion. -/
theorem mem_behind (closing : tag.kind ≠ .closing) {name : PartialName}
    (block : t.kind = .inclusionBlock name) (member : t ∈ tag :: headers.map Header.tag) :
    t ∈ (behind headers tag).map Header.tag := by
  have outer (other : ∀ name, tag.kind ≠ .inclusionBlock name) : t ∈ headers.map Header.tag := by
    rcases List.mem_cons.mp member with rfl | outer
    · exact absurd block (other name)
    · exact outer
  unfold behind
  split
  case h_4 chained kind =>
    have member := outer (by simp [kind])
    rcases tags_behindElse headers tag chained with same | pushed
    · exact same ▸ member
    · exact pushed ▸ .tail _ member
  case h_5 kind => exact absurd kind closing
  case h_1 | h_2 | h_3 => exact member
  all_goals
    next kind => exact outer (by simp [kind])

end Header

namespace BuildContext

variable {ctx : BuildContext} {p : Passage} {tag : Tag}

theorem beginElse_passes (tag : Tag) (chained : Bool) (d : Draft) :
    Passes p (beginElse tag chained d) := by
  unfold beginElse
  split
  · exact .pure _
  · split
    · refine .bind p.pop fun _ => .bind p.push fun _ => ?_
      simp only
      split
      · exact .bind p.push fun _ => .pure _
      · exact .pure _
    · exact .pure _

/-- Between two states the target of an inclusion is looked up. -/
def Visits (ctx : BuildContext) (p : Passage) (tag : Tag) (name : PartialName)
    (c c' : Compilation) : Prop :=
  ∃ hasBlock c₁, p.leads c c₁ ∧ p.leads ((ctx.target tag name hasBlock).run c₁).2 c'

theorem Visits.before {name : PartialName} {c c' c'' : Compilation} (first : p.leads c c')
    (h : ctx.Visits p tag name c' c'') : ctx.Visits p tag name c c'' := by
  obtain ⟨hasBlock, c₁, before, after⟩ := h
  exact ⟨hasBlock, c₁, p.trans first before, after⟩

theorem Visits.after {name : PartialName} {c c' c'' : Compilation}
    (h : ctx.Visits p tag name c c') (last : p.leads c' c'') : ctx.Visits p tag name c c'' := by
  obtain ⟨hasBlock, c₁, before, after⟩ := h
  exact ⟨hasBlock, c₁, before, p.trans after last⟩

/-- Adds the rest of the tokens to a draft and closes its blocks. -/
def finish (ctx : BuildContext) (d : Draft) (tokens : List Token) : Compiling Draft := do
  let d ← ctx.addTokens d tokens
  ctx.closeScopes d.scopes.length d

section

variable {admits : Tag → Prop}
  (targets : ∀ tag name hasBlock, admits tag → tag.included? = some name →
    Passes p (ctx.target tag name hasBlock))

include targets

theorem inclusion_visits (admitted : admits tag) {name : PartialName}
    (here : tag.included? = some name) (block : Option Plan) (c : Compilation) :
    p.leads c ((ctx.inclusion tag name block).run c).2 ∧
      ctx.Visits p tag name c ((ctx.inclusion tag name block).run c).2 := by
  obtain ⟨r, errors, written, plain, run⟩ := inclusion_run ctx tag name block c
  have first := p.report c written plain
  rw [run]
  exact ⟨p.trans first (targets tag name block.isSome admitted here _),
    block.isSome, _, first, p.refl _⟩

/-- A block that includes a partial looks it up when it is closed. -/
theorem scopeNode_visits {scope : OpenBranches} (admitted : admits scope.tag) (c : Compilation) :
    p.leads c ((ctx.scopeNode scope).run c).2 ∧
      ∀ name, scope.tag.kind = .inclusionBlock name →
        ctx.Visits p scope.tag name c ((ctx.scopeNode scope).run c).2 := by
  have other {kind : TagKind} {x : Compiling (Option Node)} (passes : Passes p x)
      (no_inclusion : ∀ name, kind ≠ .inclusionBlock name) :
      p.leads c (x.run c).2 ∧ ∀ name, kind = .inclusionBlock name →
        ctx.Visits p scope.tag name c (x.run c).2 :=
    ⟨passes c, fun name here => absurd here (no_inclusion name)⟩
  unfold scopeNode
  simp only
  cases kind : scope.tag.kind with
  | opening inverted =>
      exact other (.bind (.steady (block_steady ctx _ _ _ _)) fun _ => .pure _) nofun
  | alternative chained =>
      exact other (.bind (.steady (block_steady ctx _ _ _ _)) fun _ => .pure _) nofun
  | inclusionBlock name =>
      have here : scope.tag.included? = some name := by rw [Tag.included?, kind]
      obtain ⟨leads, visits⟩ :=
        inclusion_visits targets admitted here (some scope.body.reverse) c
      refine ⟨leads, ?_⟩
      rintro _ ⟨rfl⟩
      exact visits
  | _ => exact other (.pure _) nofun

theorem closeScope_visits {d : Draft} (admitted : ∀ tag ∈ d.blockTags, admits tag)
    (c : Compilation) :
    p.leads c ((ctx.closeScope d).run c).2 ∧ ∀ tag ∈ d.blockTags.head?, ∀ name,
      tag.kind = .inclusionBlock name → ctx.Visits p tag name c ((ctx.closeScope d).run c).2 := by
  obtain ⟨root, scopes⟩ := d
  cases scopes with
  | nil => exact ⟨p.refl c, nofun⟩
  | cons scope scopes =>
      obtain ⟨leads, visits⟩ := scopeNode_visits targets (admitted scope.tag (.head _)) c
      have pops := p.pop ((ctx.scopeNode scope).run c).2
      refine ⟨p.trans leads pops, ?_⟩
      rintro _ ⟨rfl⟩ name kind
      exact (visits name kind).after pops

/-- Closing blocks looks up what those that are closed include. -/
theorem closeScopes_visits (n : Nat) {d : Draft} (admitted : ∀ tag ∈ d.blockTags, admits tag)
    (c : Compilation) :
    p.leads c ((ctx.closeScopes n d).run c).2 ∧ ∀ tag ∈ d.blockTags.take n, ∀ name,
      tag.kind = .inclusionBlock name →
        ctx.Visits p tag name c ((ctx.closeScopes n d).run c).2 := by
  induction n generalizing d c with
  | zero => exact ⟨p.refl c, by simp⟩
  | succ n ih =>
      obtain ⟨first, visits⟩ := closeScope_visits targets admitted c
      have closed : ((ctx.closeScope d).run c).1.blockTags = d.blockTags.tail := by
        rw [Draft.blockTags, closeScope_headers, List.map_tail, Draft.blockTags]
      obtain ⟨others, visits'⟩ := ih (d := ((ctx.closeScope d).run c).1)
        (closed ▸ fun tag member => admitted tag (List.mem_of_mem_tail member))
        ((ctx.closeScope d).run c).2
      refine ⟨p.trans first others, fun tag member name kind => ?_⟩
      rw [closed] at visits'
      cases tags : d.blockTags with
      | nil => simp [tags] at member
      | cons innermost rest =>
          rw [tags] at member visits visits'
          rcases List.mem_cons.mp member with rfl | outer
          · exact (visits tag rfl name kind).after others
          · exact (visits' tag outer name kind).before first

theorem addTag_passes (named : ∀ name, tag.kind ≠ .inlineDef name) (admitted : admits tag)
    {d : Draft} (open_admitted : ∀ tag ∈ d.blockTags, admits tag) (c : Compilation) :
    p.leads c ((ctx.addTag d tag).run c).2 ∧
      ∀ name, tag.kind = .inclusion name →
        ctx.Visits p tag name c ((ctx.addTag d tag).run c).2 := by
  have other {kind : TagKind} {x : Compiling Draft} (passes : p.leads c (x.run c).2)
      (no_inclusion : ∀ name, kind ≠ .inclusion name) :
      p.leads c (x.run c).2 ∧ ∀ name, kind = .inclusion name →
        ctx.Visits p tag name c (x.run c).2 :=
    ⟨passes, fun name here => absurd here (no_inclusion name)⟩
  unfold addTag
  cases kind : tag.kind with
  | interpolation raw => exact other (Passes.steady (interpolation_steady ctx tag raw) c) nofun
  | comment => exact other (p.refl c) nofun
  | opening inverted => exact other (p.push c) nofun
  | inclusionBlock name => exact other (p.push c) nofun
  | inlineDef name => exact absurd kind (named name)
  | alternative chained => exact other (beginElse_passes tag chained d c) nofun
  | closing => exact other (closeScopes_visits targets _ open_admitted c).1 nofun
  | inclusion name =>
      have here : tag.included? = some name := by rw [Tag.included?, kind]
      obtain ⟨leads, visits⟩ := inclusion_visits targets admitted here none c
      refine ⟨leads, ?_⟩
      rintro _ ⟨rfl⟩
      exact visits
  | rawBlock body => exact other (Passes.steady (rawBlock_steady ctx tag body) c) nofun

/-- The block of an inclusion stays open, or the partial is looked up where it is closed. -/
theorem addTag_visits {d : Draft} (open_admitted : ∀ tag ∈ d.blockTags, admits tag)
    (c : Compilation) {t : Tag} (member : t ∈ tag :: d.blockTags) {name : PartialName}
    (block : t.kind = .inclusionBlock name) :
    t ∈ ((ctx.addTag d tag).run c).1.blockTags ∨
      ctx.Visits p t name c ((ctx.addTag d tag).run c).2 := by
  -- Only a closing tag takes blocks away, those on top of the others.
  by_cases closing : tag.kind = .closing
  · have closes : ctx.addTag d tag = ctx.closeScopes (closedByTag d) d := by
      unfold addTag
      rw [closing]
    have open_before : t ∈ d.blockTags := by
      rcases List.mem_cons.mp member with rfl | outer
      · rw [closing] at block
        cases block
      · exact outer
    rw [closes, Draft.blockTags, closeScopes_headers, List.map_drop]
    rw [Draft.blockTags, ← List.take_append_drop (closedByTag d) (d.headers.map Header.tag),
      List.mem_append] at open_before
    rcases open_before with closed | still
    · refine .inr ((closeScopes_visits targets (closedByTag d) open_admitted c).2 t ?_ name block)
      rwa [Draft.blockTags]
    · exact .inl still
  · rw [Draft.blockTags, addTag_headers]
    exact .inl (Header.mem_behind closing block member)

omit targets in
theorem blockTags_addTag (d : Draft) (c : Compilation) {t : Tag}
    (member : t ∈ ((ctx.addTag d tag).run c).1.blockTags) : t ∈ tag :: d.blockTags := by
  rw [Draft.blockTags, addTag_headers] at member
  exact Header.tag_of_mem_behind member

/-- Finishing a draft looks up all that is included. -/
theorem finish_visits {tokens : List Token}
    (named : ∀ tag name, .tag tag ∈ tokens → tag.kind ≠ .inlineDef name)
    (admitted : ∀ tag, .tag tag ∈ tokens → admits tag) {d : Draft}
    (open_admitted : ∀ tag ∈ d.blockTags, admits tag) (c : Compilation) :
    let c' := ((ctx.finish d tokens).run c).2
    p.leads c c' ∧
      (∀ tag name, .tag tag ∈ tokens → tag.included? = some name → ctx.Visits p tag name c c') ∧
      ∀ tag ∈ d.blockTags, ∀ name, tag.kind = .inclusionBlock name →
        ctx.Visits p tag name c c' := by
  -- Over the tokens, with the open blocks in the statement: their partials are looked up later.
  induction tokens generalizing d c with
  | nil =>
      obtain ⟨leads, visits⟩ := closeScopes_visits targets d.scopes.length open_admitted c
      refine ⟨leads, nofun, fun tag member => visits tag ?_⟩
      rwa [List.take_of_length_le]
      simp [Draft.blockTags, Draft.length_headers]
  | cons token tokens ih =>
      have named' : ∀ tag name, .tag tag ∈ tokens → tag.kind ≠ .inlineDef name :=
        fun tag name member => named tag name (.tail _ member)
      have admitted' : ∀ tag, .tag tag ∈ tokens → admits tag :=
        fun tag member => admitted tag (.tail _ member)
      cases token with
      | text text =>
          have same : (d.push (.literal text)).blockTags = d.blockTags := by
            rw [Draft.blockTags, Draft.headers_push, Draft.blockTags]
          obtain ⟨leads, visits, blocks⟩ :=
            ih named' admitted' (d := d.push (.literal text)) (same ▸ open_admitted) c
          rw [same] at blocks
          refine ⟨leads, fun tag name member => visits tag name ?_, blocks⟩
          exact (List.mem_cons.mp member).resolve_left nofun
      | tag tag =>
          have here := admitted tag (.head _)
          let d₁ := ((ctx.addTag d tag).run c).1
          let c₁ := ((ctx.addTag d tag).run c).2
          obtain ⟨first, looked⟩ :=
            addTag_passes targets (named tag · (.head _)) here open_admitted c
          have admitted₁ : ∀ t ∈ d₁.blockTags, admits t := by
            intro t member
            rcases List.mem_cons.mp (blockTags_addTag d c member) with rfl | outer
            · exact here
            · exact open_admitted t outer
          obtain ⟨leads, visits, blocks⟩ := ih named' admitted' admitted₁ c₁
          have block {t : Tag} (member : t ∈ tag :: d.blockTags) {name : PartialName}
              (kind : t.kind = .inclusionBlock name) :
              ctx.Visits p t name c ((ctx.finish d₁ tokens).run c₁).2 := by
            rcases addTag_visits targets open_admitted c member kind with still | closed
            · exact (blocks t still name kind).before first
            · exact closed.after leads
          refine ⟨p.trans first leads, fun t name member included => ?_, fun t member name kind =>
            block (.tail _ member) kind⟩
          rcases List.mem_cons.mp member with same | later
          · cases same
            unfold Tag.included? at included
            split at included
            · next kind =>
              cases included
              exact (looked _ kind).after leads
            · next kind =>
              cases included
              exact block (.head _) kind
            · cases included
          · exact (visits t name later included).before first

/-- Building a plan stays on the passage, and looks up every partial that the tokens
include. -/
theorem build_visits {tokens : List Token}
    (named : ∀ tag name, .tag tag ∈ tokens → tag.kind ≠ .inlineDef name)
    (admitted : ∀ tag, .tag tag ∈ tokens → admits tag) (c : Compilation) :
    p.leads c ((ctx.build tokens).run c).2 ∧
      ∀ tag name, .tag tag ∈ tokens → tag.included? = some name →
        ctx.Visits p tag name c ((ctx.build tokens).run c).2 := by
  obtain ⟨leads, visits, -⟩ := finish_visits targets named admitted (d := {}) nofun c
  exact ⟨leads, visits⟩

end

end BuildContext

end Stencil
