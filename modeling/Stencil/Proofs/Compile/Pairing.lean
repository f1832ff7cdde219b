import Stencil.Proofs.Compile.Checking
import Stencil.Proofs.Compile.Depth

/-!
Blocks as they are checked and as they are built.

Checking and building do not treat else tags alike, but of the blocks that have an
opening tag of their own both have the same ones open, behind every token and whatever
is wrong. So a closing tag ends the same block in both.
-/

namespace Stencil

open Compiling Markup

/-! ### Building -/

namespace Header

/-- The tags of the open blocks that have an opening tag of their own. -/
def openTags (headers : List Header) : List Tag :=
  unchained chained tag headers

/-- The open blocks have the opening tags `opened`; the others are chained inside one
of these. -/
structure Opened (opened : List Tag) (headers : List Header) : Prop where
  tags : openTags headers = opened
  rooted : ∀ outermost ∈ headers.getLast?, outermost.chained = false

variable {opened : List Tag} {headers : List Header}

/-- Where no block has an opening tag of its own, no block is open. -/
theorem Opened.eq_nil (h : Opened [] headers) : headers = [] := by
  cases outermost : headers.getLast? with
  | none => exact List.getLast?_eq_none_iff.mp outermost
  | some header =>
      have own := h.rooted header outermost
      have member : header.tag ∈ openTags headers :=
        List.mem_map_of_mem (List.mem_filter.mpr ⟨List.mem_of_getLast? outermost, by simp [own]⟩)
      rw [h.tags] at member
      cases member

theorem Opened.cons (h : Opened opened headers) (tag : Tag) :
    Opened (tag :: opened) ({ tag, chained := false, begun := false } :: headers) := by
  refine ⟨congrArg (tag :: ·) h.tags, ?_⟩
  rw [List.getLast?_cons]
  rintro _ ⟨rfl⟩
  cases outermost : headers.getLast? with
  | none => rfl
  | some header => exact h.rooted header outermost

/-- An else tag opens no block with an opening tag of its own. -/
theorem Opened.behindElse (h : Opened opened headers) (tag : Tag) (chained : Bool) :
    Opened opened (behindElse headers tag chained) := by
  unfold Header.behindElse
  split
  · exact h
  · next header outer =>
    split
    · have begun : Opened opened ({ header with begun := true } :: outer) := by
        refine ⟨?_, ?_⟩
        · rw [← h.tags]
          simp only [openTags, unchained, List.filter_cons]
          split <;> rfl
        · have rooted := h.rooted
          rw [List.getLast?_cons] at rooted ⊢
          rintro _ ⟨rfl⟩
          cases outermost : outer.getLast? with
          | none => exact rooted header (by rw [outermost]; rfl)
          | some last => exact rooted last (by rw [outermost]; rfl)
      cases chained with
      | false => exact begun
      | true =>
          refine ⟨begun.tags, ?_⟩
          change ∀ outermost ∈ (_ :: _ :: outer : List Header).getLast?, outermost.chained = false
          rw [List.getLast?_cons_cons]
          exact begun.rooted
    · exact h

theorem Opened.behind (h : Opened opened headers) (tag : Tag) :
    Opened (openedBehind opened tag) (behind headers tag) := by
  unfold Header.behind openedBehind
  cases tag.kind with
  | opening inverted => exact h.cons tag
  | inclusionBlock name => exact h.cons tag
  | inlineDef name => exact h.cons tag
  | alternative chained => exact h.behindElse tag chained
  | closing =>
      -- What is left open is a suffix of what was, so the outermost block is the same.
      refine ⟨?_, ?_⟩
      · rw [← h.tags]
        exact unchained_tail_dropWhile Header.chained Header.tag headers
      · obtain ⟨closed, whole⟩ : (headers.dropWhile (·.chained)).tail <:+ headers :=
          (List.tail_suffix _).trans (List.dropWhile_suffix _)
        intro outermost last
        refine h.rooted outermost ?_
        rw [← whole, List.getLast?_append, Option.mem_def.mp last]
        rfl
  | _ => exact h

theorem Opened.behindAll (h : Opened opened headers) (tokens : List Token) :
    Opened (openedIn opened tokens) (behindAll headers tokens) := by
  induction tokens generalizing opened headers with
  | nil => exact h
  | cons token tokens ih =>
      cases token with
      | text text => exact ih h
      | tag tag => exact ih (h.behind tag)

/-- Building has the blocks open that have an opening tag of their own. -/
theorem opened_behindAll (tokens : List Token) :
    Opened (openedIn [] tokens) (behindAll [] tokens) :=
  have start : Opened [] [] := ⟨rfl, fun _ h => nomatch h⟩
  start.behindAll tokens

end Header

namespace BuildContext

variable (ctx : BuildContext)

variable {ctx} in
/-- When the tokens leave no block open, none is closed behind them. -/
theorem build_of_scopes_eq_nil {tokens : List Token} {c : Compilation}
    (none_open : (ctx.drafted c tokens).scopes = []) :
    (ctx.build tokens).run c =
      ((ctx.drafted c tokens).root.reverse, ((ctx.addTokens {} tokens).run c).2) := by
  have closes (d : Draft) (c : Compilation) (h : d.scopes = []) :
      (ctx.closeScopes d.scopes.length d).run c = (d, c) := by
    rw [h]
    rfl
  let read := (ctx.addTokens {} tokens).run c
  have plan : (ctx.build tokens).run c =
      (((ctx.closeScopes read.1.scopes.length read.1).run read.2).1.root.reverse,
        ((ctx.closeScopes read.1.scopes.length read.1).run read.2).2) :=
    rfl
  rw [plan, closes read.1 read.2 none_open]
  rfl

end BuildContext

namespace Workshop

variable (w : Workshop)

/-- When checking finds nothing wrong, building pairs every closing tag with the opening
tag that checking pairs it with, and no block is left open. Whatever checking finds, as many
layers of inline partials are left as there were. -/
theorem builder_pairs_as_checked (entered : List String) (available : Table String)
    (tokens : List Token) (c : Compilation) (r : Report) :
    let ctx := w.builder entered available
    (((checkNesting tokens).run r).2.errors = r.errors →
      (∀ before closing after, tokens = before ++ .tag closing :: after → closing.kind = .closing →
        (ctx.drafted c before).scopes ≠ [] ∧
          ∃ outer opening inside, before = outer ++ .tag opening :: inside ∧
            opening.kind.opensBlock = true ∧
            Pairs (fun tokens => openSites (checked r tokens)) opening.site outer opening inside
              closing ∧
            Pairs (fun tokens => Header.openTags (ctx.drafted c tokens).headers) opening outer
              opening inside closing) ∧
      (ctx.drafted c tokens).scopes = [] ∧
      (ctx.build tokens).run c =
        ((ctx.drafted c tokens).root.reverse, ((ctx.addTokens {} tokens).run c).2)) ∧
    ((ctx.build tokens).run c).2.inlines.length = c.inlines.length := by
  intro ctx
  have opened (tokens : List Token) :
      Header.Opened (openedIn [] tokens) (ctx.drafted c tokens).headers := by
    rw [BuildContext.drafted_headers]
    exact Header.opened_behindAll tokens
  refine ⟨fun clean => ?_, BuildContext.build_keepsDepth (w.builder_keepsDepth entered available)
    tokens c⟩
  obtain ⟨clean, none_left⟩ := checkTokens_of_clean clean
  -- Both stacks show the opening tags of `openedIn`, so the pair is found there, once.
  refine ⟨?_, ?_⟩
  · rintro before closing after rfl kind
    have some_open := openedIn_ne_nil_of_clean kind clean
    refine ⟨fun none_open => some_open ?_, ?_⟩
    · rw [← (opened before).tags, Draft.headers_eq_nil.mpr none_open]
      rfl
    obtain ⟨opening, rest, innermost⟩ := List.exists_cons_of_ne_nil some_open
    have suffix : opening :: rest <:+ openedIn [] before := innermost ▸ List.suffix_refl _
    obtain ⟨outer, inside, rfl, opens, below, stays⟩ := exists_opening suffix
    have pairs := pairs_openedIn kind innermost below stays
    refine ⟨outer, opening, inside, rfl, opens, ?_, ?_⟩
    · simpa only [openSites_checked] using pairs.map Tag.site
    · simpa only [(opened _).tags] using pairs
  · have none_open := Draft.headers_eq_nil.mp (none_left ▸ opened tokens).eq_nil
    exact ⟨none_open, BuildContext.build_of_scopes_eq_nil none_open⟩

/-- A block with a chained else: two blocks are open and one tag closes them. -/
def chain : List Token :=
  let tag (kind : TagKind) (head text : String) : Token :=
    .tag { kind, content := { head }, site := { tag := text, line := 1 } }
  [tag (.opening false) "if" "if", tag (.alternative true) "unless" "else", tag .closing "if" "/if"]

theorem chain_pairs : ∃ outer opening inside closing,
    chain = outer ++ .tag opening :: inside ++ [.tag closing] ∧
      Pairs (fun tokens => openSites (checked {} tokens)) opening.site outer opening inside
        closing ∧
      Pairs (fun tokens => Header.openTags ((builder ⟨{}, {}⟩ [] []).drafted {} tokens).headers)
        opening outer opening inside closing := by
  have paired := ((builder_pairs_as_checked ⟨{}, {}⟩ [] [] chain {} {}).1 rfl).1 (chain.take 2) _
    [] rfl rfl
  obtain ⟨-, outer, opening, inside, split, -, checked, built⟩ := paired
  exact ⟨outer, opening, inside, _, by rw [← split]; rfl, checked, built⟩

end Workshop

end Stencil
