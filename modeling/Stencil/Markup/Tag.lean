import Stencil.Expr.Parser
import Stencil.Markup.RawTag

/-!
Tags and what they mean.

The sigil, the braces and the word `else` decide what a tag does, and its
content is read accordingly. A tag whose content cannot be read is still
a tag, so that blocks stay balanced: its first word stands for it.
-/

namespace Stencil.Markup

open Text

inductive TagKind
  /-- Interpolation, without encoding when raw. -/
  | interpolation (raw : Bool)
  /-- The start of a block, inverted or not. -/
  | opening (inverted : Bool)
  /-- The start of the else branch; a chained one opens a block in it. -/
  | alternative (chained : Bool)
  | closing
  | comment
  | inclusion (name : PartialName)
  /-- The start of an inclusion with a block. -/
  | inclusionBlock (name : PartialName)
  /-- The start of the definition of an inline partial. -/
  | inlineDef (name : String)
  | rawBlock (body : String)

/-- A tag with its content read. -/
structure Tag where
  kind : TagKind
  content : Content
  site : Site
  /-- The indentation that was removed before a partial alone on its line. -/
  indent : String := ""

namespace TagKind

/-- Whether the white space around a tag alone on its line is removed. -/
def mayStandAlone : TagKind → Bool
  | interpolation _ => false
  | rawBlock _ => false
  | _ => true

def isInclusion : TagKind → Bool
  | inclusion _ => true
  | _ => false

def usageOfName (name : PartialName) (u : Usage) : Usage :=
  match name with
  | .static _ => { u with partials := u.partials + 1 }
  | .dynamic _ =>
    { u with partials := u.partials + 1, dynamicPartials := u.dynamicPartials + 1 }

/-- Counts a tag. -/
def usage (kind : TagKind) (u : Usage) : Usage :=
  match kind with
  | interpolation _ => { u with interpolations := u.interpolations + 1 }
  | opening _ => { u with sections := u.sections + 1 }
  | alternative false => { u with elseBranches := u.elseBranches + 1 }
  | alternative true =>
    { u with elseBranches := u.elseBranches + 1, sections := u.sections + 1 }
  | closing => u
  | comment => { u with comments := u.comments + 1 }
  | inclusion name => usageOfName name u
  | inclusionBlock name =>
    let u := usageOfName name u
    { u with partialBlocks := u.partialBlocks + 1 }
  | inlineDef _ => { u with inlinePartials := u.inlinePartials + 1 }
  | rawBlock _ => { u with rawBlocks := u.rawBlocks + 1 }

end TagKind

/-- What follows the word `else` at the start of a content. -/
def afterElse? (inner : List Char) : Option (List Char) :=
  match dropFront? "else".toList inner with
  | some [] => some []
  | some (c :: rest) => if isWhite c then some (trimStart (c :: rest)) else none
  | none => none

/-- What stands for a content that cannot be read. -/
def fallback (inner : List Char) : Content :=
  { head := String.ofList (firstWord inner) }

/-- Reads, and reports a failure with `default` in place of the result. -/
def orReport {α : Type} (default : α) (read : Reading α) : StateM Report α := do
  match ← read.run with
  | .ok a => return a
  | .error d =>
    modify (Report.addError d)
    return default

/-- The name that an inline definition gives, if it has the right form. -/
def inlineName? (content : Content) : Option String :=
  if content.head = "inline" then
    match content.params with
    | .literal (.string name) _ :: _ => some name
    | _ => none
  else none

/-- Reads an inline definition. -/
def readInline (isHelper : String → Bool) (site : Site) (inner : List Char) :
    Reading (TagKind × Content) := do
  let content ← Content.read isHelper site inner
  match inlineName? content with
  | some name => return (.inlineDef name, content)
  | none =>
    throw (.arguments "only \x7b\x7b#*inline \"name\"\x7d\x7d decorators are supported" site)

/-- What a tag does and says. -/
def readKind (isHelper : String → Bool) (raw : RawTag) : StateM Report (TagKind × Content) := do
  let inner := raw.inner
  let site := raw.site
  let plain (kind : TagKind) (text : List Char) : StateM Report (TagKind × Content) := do
    return (kind, ← orReport (fallback inner) (Content.read isHelper site text))
  let inclusion (kind : PartialName → TagKind) : StateM Report (TagKind × Content) := do
    let default := (PartialName.static (fallback inner).head, fallback inner)
    let (name, content) ← orReport default (Content.readPartial isHelper site inner)
    return (kind name, content)
  match raw.form with
  | .rawBlock body => return (.rawBlock (String.ofList body), { head := String.ofList inner })
  | .triple => plain (.interpolation true) inner
  | .plain .raw _ => plain (.interpolation true) inner
  | .plain .block _ => plain (.opening false) inner
  | .plain .inverse _ =>
    if inner.isEmpty then return (.alternative false, {}) else plain (.opening true) inner
  | .plain .close _ => return (.closing, { head := String.ofList inner })
  | .plain .comment _ => return (.comment, {})
  | .plain .inclusion _ => inclusion .inclusion
  | .plain .partialBlock _ => inclusion .inclusionBlock
  | .plain .decorator _ =>
    orReport (.inlineDef "", fallback inner) (readInline isHelper site inner)
  | .plain .none _ =>
    match afterElse? inner with
    | some rest => plain (.alternative (!rest.isEmpty)) rest
    | none => plain (.interpolation false) inner

/-- Reads a tag and counts it. -/
def RawTag.read (isHelper : String → Bool) (raw : RawTag) : StateM Report Tag := do
  let (kind, content) ← readKind isHelper raw
  modify (Report.count kind.usage)
  return { kind, content, site := raw.site }

end Stencil.Markup
