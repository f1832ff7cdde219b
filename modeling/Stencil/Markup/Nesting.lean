import Stencil.Markup.Layout
import Stencil.Markup.Scan

/-!
Balance of block tags.

The tokens are walked with the stack of open blocks. A chained else opens
a block that is closed with the block around it; the block `each` may be
closed by any name, with a warning.
-/

namespace Stencil.Markup

/-- A block that is open. -/
structure OpenBlock where
  name : String
  site : Site
  /-- It is opened by a chained else. -/
  chained : Bool
  acceptsElse : Bool

/-- The warning that a block `each` is closed by another name. -/
def closingWarning (site : Site) (opened : OpenBlock) : String :=
  Diagnostic.place site ++ " closes " ++ opened.site.tag ++ " opened on line " ++
    toString opened.site.line

/-- Compares a closing tag with the block that it closes. -/
def checkClosing (tag : Tag) (opened : OpenBlock) : StateM Report Unit :=
  if opened.name = tag.content.head then pure ()
  else if opened.name = "each" then modify (Report.addWarning (closingWarning tag.site opened))
  else modify (Report.addError (.mismatchedBlock opened.site.tag tag.site))

/-- The open blocks behind a tag. The innermost stands first. -/
def checkTag (stack : List OpenBlock) (tag : Tag) : StateM Report (List OpenBlock) :=
  let push (name : String) (chained acceptsElse : Bool) : List OpenBlock :=
    { name, site := tag.site, chained, acceptsElse } :: stack
  match tag.kind with
  | .opening _ => pure (push tag.content.head false true)
  | .inclusionBlock name => pure (push (name.static?.getD tag.content.head) false false)
  | .inlineDef _ => pure (push "inline" false false)
  | .alternative chained =>
    match stack with
    | { acceptsElse := true, .. } :: _ =>
      pure (if chained then push tag.content.head true true else stack)
    | _ => do
      modify (Report.addError (.unexpectedElse tag.site))
      return stack
  | .closing =>
    match stack.dropWhile (·.chained) with
    | [] => do
      modify (Report.addError (.unexpectedClose tag.site))
      return []
    | opened :: stack => do
      checkClosing tag opened
      return stack
  | .interpolation _ | .comment | .inclusion _ | .rawBlock _ => pure stack

def checkTokens (stack : List OpenBlock) : List Token → StateM Report (List OpenBlock)
  | [] => pure stack
  | .text _ :: tokens => checkTokens stack tokens
  | .tag tag :: tokens => do
    let stack ← checkTag stack tag
    checkTokens stack tokens

/-- Reports every block tag that has no partner. -/
def checkNesting (tokens : List Token) : StateM Report Unit := do
  let stack ← checkTokens [] tokens
  let unclosed := stack.reverse.filter fun opened => !opened.chained
  modify fun r => unclosed.foldl (fun r opened => r.addError (.unclosedBlock opened.site)) r

/-! ### Reading a template -/

/-- Reads the tags of a template; faults are reported. -/
def readPieces (isHelper : String → Bool) : List Piece → StateM Report (List Item)
  | [] => pure []
  | .text t :: pieces => do
    let items ← readPieces isHelper pieces
    return .text t :: items
  | .tag raw :: pieces => do
    let tag ← raw.read isHelper
    let items ← readPieces isHelper pieces
    return .tag raw tag :: items
  | .fault cause :: pieces => do
    modify (Report.addError cause)
    readPieces isHelper pieces

/-- Scans a template, reads its tags, settles its white space and checks its
blocks. All that is wrong is reported; reading never stops early. -/
def readTemplate (s : Settings) (isHelper : String → Bool) (source : String) :
    StateM Report (List Token) := do
  let pieces := scan (Marks.ofDelimiters s.delimiters) source.toList
  let items ← readPieces isHelper pieces
  let tokens := layout s items
  checkNesting tokens
  modify (Report.addEvent (.validated tokens.length))
  return tokens

end Stencil.Markup
