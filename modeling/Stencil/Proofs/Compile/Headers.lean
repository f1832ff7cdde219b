import Stencil.Proofs.Compile.Checking
import Stencil.Proofs.Compile.Sources

/-!
The open blocks of a draft.

Which blocks are open while a plan is built, which of them are chained and which have
begun their else branch depends on the tags alone: not on the nodes that are made, and
not on what is found wrong. An else tag is obeyed by a block that has such a branch and
has not begun it; by any other it is passed over.
-/

namespace Stencil

open Compiling Markup

/-- An open block without its nodes. -/
structure Header where
  tag : Tag
  /-- It is opened by a chained else. -/
  chained : Bool
  /-- Its else branch is begun. -/
  begun : Bool

def OpenBranches.header (scope : OpenBranches) : Header :=
  { tag := scope.tag, chained := scope.chained, begun := scope.inverse.isSome }

namespace Header

/-- Whether the block obeys an else tag. -/
def acceptsElse (h : Header) : Bool :=
  !h.begun &&
    match h.tag.kind with
    | .opening _ => true
    | .alternative chained => chained
    | _ => false

/-- The open blocks behind an else tag. -/
def behindElse (headers : List Header) (tag : Tag) (chained : Bool) : List Header :=
  match headers with
  | [] => []
  | h :: outer =>
    if h.acceptsElse then
      let begun := { h with begun := true } :: outer
      if chained then { tag, chained := true, begun := false } :: begun else begun
    else headers

/-- The open blocks behind a tag. -/
def behind (headers : List Header) (tag : Tag) : List Header :=
  match tag.kind with
  | .opening _ | .inclusionBlock _ | .inlineDef _ =>
    { tag, chained := false, begun := false } :: headers
  | .alternative chained => behindElse headers tag chained
  | .closing => (headers.dropWhile (·.chained)).tail
  | .interpolation _ | .comment | .inclusion _ | .rawBlock _ => headers

/-- The blocks that some tokens leave open. -/
def behindAll (headers : List Header) : List Token → List Header
  | [] => headers
  | .text _ :: tokens => behindAll headers tokens
  | .tag tag :: tokens => behindAll (behind headers tag) tokens

end Header

theorem acceptsElse_header (scope : OpenBranches) :
    BuildContext.acceptsElse scope = scope.header.acceptsElse := by
  unfold BuildContext.acceptsElse Header.acceptsElse OpenBranches.header
  cases scope.inverse <;> rfl

namespace Draft

/-- The open blocks, innermost first. -/
def headers (d : Draft) : List Header :=
  d.scopes.map OpenBranches.header

@[simp] theorem headers_push (node : Node) (d : Draft) : (d.push node).headers = d.headers := by
  obtain ⟨root, scopes⟩ := d
  cases scopes with
  | nil => rfl
  | cons scope scopes =>
      unfold push
      simp only
      split
      · rfl
      · next begun => simp [headers, OpenBranches.header, begun]

@[simp] theorem headers_push? (node : Option Node) (d : Draft) :
    (d.push? node).headers = d.headers := by
  cases node with
  | none => rfl
  | some node => exact headers_push node d

theorem headers_eq_nil {d : Draft} : d.headers = [] ↔ d.scopes = [] :=
  List.map_eq_nil_iff

theorem length_headers (d : Draft) : d.headers.length = d.scopes.length :=
  List.length_map _

theorem drop_closedByTag (d : Draft) :
    d.headers.drop (BuildContext.closedByTag d) = (d.headers.dropWhile (·.chained)).tail := by
  have chained : BuildContext.closedByTag d = (d.headers.takeWhile (·.chained)).length + 1 := by
    rw [headers, List.takeWhile_map, List.length_map]
    rfl
  have split : d.headers.drop (d.headers.takeWhile (·.chained)).length =
      d.headers.dropWhile (·.chained) := by
    calc d.headers.drop (d.headers.takeWhile (·.chained)).length
      _ = (d.headers.takeWhile (·.chained) ++ d.headers.dropWhile (·.chained)).drop
            (d.headers.takeWhile (·.chained)).length := by rw [List.takeWhile_append_dropWhile]
      _ = d.headers.dropWhile (·.chained) := List.drop_left
  rw [chained, ← List.drop_drop, List.drop_one, split]

end Draft

namespace BuildContext

variable (ctx : BuildContext)

/-- The draft that is built of some tokens. -/
def drafted (c : Compilation) (tokens : List Token) : Draft :=
  ((ctx.addTokens {} tokens).run c).1

theorem closeScope_headers (d : Draft) (c : Compilation) :
    ((ctx.closeScope d).run c).1.headers = d.headers.tail := by
  obtain ⟨root, scopes⟩ := d
  cases scopes with
  | nil => rfl
  | cons scope scopes => exact Draft.headers_push? _ _

theorem closeScopes_headers (n : Nat) (d : Draft) (c : Compilation) :
    ((ctx.closeScopes n d).run c).1.headers = d.headers.drop n := by
  induction n generalizing d c with
  | zero => rfl
  | succ n ih =>
      refine (ih ((ctx.closeScope d).run c).1 ((ctx.closeScope d).run c).2).trans ?_
      rw [closeScope_headers, List.drop_tail]

theorem beginInline_headers (tag : Tag) (name : String) (d : Draft) (c : Compilation) :
    ((beginInline tag name d).run c).1.headers =
      { tag, chained := false, begun := false } :: d.headers := by
  have opens (fresh : Bool) (c : Compilation) :
      let x : Compiling Draft := do
        if !fresh then
          addWarning ("inline partial '" ++ name ++ "' redefined on line " ++
            toString tag.site.line)
        openScope tag false d
      (x.run c).1.headers = { tag, chained := false, begun := false } :: d.headers := by
    cases fresh <;> rfl
  exact opens _ _

theorem beginElse_headers (tag : Tag) (chained : Bool) (d : Draft) (c : Compilation) :
    ((beginElse tag chained d).run c).1.headers = Header.behindElse d.headers tag chained := by
  obtain ⟨root, scopes⟩ := d
  cases scopes with
  | nil => rfl
  | cons scope scopes =>
      unfold beginElse
      simp only [Draft.headers, List.map_cons, Header.behindElse, acceptsElse_header]
      split
      · cases chained <;> rfl
      · rfl

/-- A tag changes the open blocks in one way, whatever the nodes and the state. -/
theorem addTag_headers (d : Draft) (tag : Tag) (c : Compilation) :
    ((ctx.addTag d tag).run c).1.headers = Header.behind d.headers tag := by
  unfold addTag Header.behind
  cases tag.kind with
  | interpolation raw => exact Draft.headers_push? _ _
  | comment => rfl
  | opening inverted => rfl
  | inclusionBlock name => rfl
  | inlineDef name => exact beginInline_headers tag name d c
  | alternative chained => exact beginElse_headers tag chained d c
  | closing => exact (closeScopes_headers ctx _ d c).trans d.drop_closedByTag
  | inclusion name => exact Draft.headers_push? _ _
  | rawBlock body => exact Draft.headers_push _ _

theorem addTokens_headers (d : Draft) (tokens : List Token) (c : Compilation) :
    ((ctx.addTokens d tokens).run c).1.headers = Header.behindAll d.headers tokens := by
  induction tokens generalizing d c with
  | nil => rfl
  | cons token tokens ih =>
      cases token with
      | text text =>
          refine (ih (d.push (.literal text)) c).trans ?_
          rw [Draft.headers_push]
          rfl
      | tag tag =>
          refine (ih ((ctx.addTag d tag).run c).1 ((ctx.addTag d tag).run c).2).trans ?_
          rw [addTag_headers]
          rfl

theorem addTokens_append (d : Draft) (before after : List Token) (c : Compilation) :
    (ctx.addTokens d (before ++ after)).run c =
      (ctx.addTokens ((ctx.addTokens d before).run c).1 after).run
        ((ctx.addTokens d before).run c).2 := by
  induction before generalizing d c with
  | nil => rfl
  | cons token before ih =>
      cases token with
      | text text => exact ih _ c
      | tag tag => exact ih _ _

theorem drafted_headers (c : Compilation) (tokens : List Token) :
    (ctx.drafted c tokens).headers = Header.behindAll [] tokens :=
  addTokens_headers ctx {} tokens c

theorem closeAll_scopes (d : Draft) (c : Compilation) :
    ((ctx.closeScopes d.scopes.length d).run c).1.scopes = [] := by
  rw [← Draft.headers_eq_nil, closeScopes_headers, ← Draft.length_headers, List.drop_length]

end BuildContext

end Stencil
