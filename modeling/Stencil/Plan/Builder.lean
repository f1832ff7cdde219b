import Stencil.Markup.Nesting
import Stencil.Plan.Builtin
import Stencil.Plan.Compilation

/-!
Building a plan from the tokens of a template.

The builder keeps the blocks that are open. A tag that starts a block
opens one, a text or an interpolation becomes a node of the innermost
branch, and a closing tag makes the innermost block a node of the branch
around it. A chained else opens a block in the else branch, and the tag
that closes the outer block closes it too.
-/

namespace Stencil

open Markup

/-- What the builder asks of its surroundings. -/
structure BuildContext where
  settings : Settings
  /-- How a registered helper is called. -/
  style? : String → Option HelperStyle
  /-- The target of the inclusion of a partial by name; `hasBlock` says whether the
  inclusion has a block. None is given for a partial that is missing, which is
  reported. -/
  resolve : (name : String) → (hasBlock : Bool) → Site → Compiling (Option Target)

/-- A block that is being built. Its branches hold the last node first. -/
structure OpenBranches where
  tag : Tag
  body : Plan := []
  inverse : Option Plan := none
  /-- It is opened by a chained else. -/
  chained : Bool

/-- A plan that is being built. -/
structure Draft where
  /-- The nodes outside of blocks, last node first. -/
  root : Plan := []
  /-- The open blocks, innermost first. -/
  scopes : List OpenBranches := []

namespace Draft

/-- Adds a node to the branch that is being built. -/
def push (node : Node) (d : Draft) : Draft :=
  match d.scopes with
  | [] => { d with root := Plan.push node d.root }
  | scope :: scopes =>
    match scope.inverse with
    | none => { d with scopes := { scope with body := Plan.push node scope.body } :: scopes }
    | some inverse =>
      { d with scopes := { scope with inverse := some (Plan.push node inverse) } :: scopes }

/-- Adds a node, if there is one. -/
def push? (node : Option Node) (d : Draft) : Draft :=
  match node with
  | some node => d.push node
  | none => d

end Draft

namespace BuildContext

def isHelper (ctx : BuildContext) (name : String) : Bool := (ctx.style? name).isSome

/-! ### Heads of tags -/

/-- The head of a tag as an expression. -/
def headExpr (ctx : BuildContext) (tag : Tag) : Compiling Expr :=
  Compiling.readOr Expr.this (Expr.read ctx.isHelper tag.site tag.content.head.toList)

/-- The head of a tag as a path. -/
def headPath (tag : Tag) : Compiling Path :=
  Compiling.readOr Path.this (Path.read tag.content.head.toList tag.site)

/-- What a tag calls; none for a tag that names a value only. -/
def callee? (ctx : BuildContext) (tag : Tag) : Compiling (Option (Callee × HelperStyle)) := do
  match ctx.style? tag.content.head with
  | some style => return some (.helper tag.content.head, style)
  | none =>
    if tag.content.params.isEmpty && tag.content.hash.isEmpty then return none
    if ctx.settings.knownHelpersOnly then
      Compiling.addError (.missingHelper tag.content.head tag.site)
    return some (.path (← headPath tag), .rendering)

/-- The call of a tag. -/
def callOf (callee : Callee) (tag : Tag) : Call :=
  { callee, args := tag.content.params, hash := tag.content.hash }

/-! ### Nodes -/

/-- The node of an interpolation. -/
def interpolation (ctx : BuildContext) (tag : Tag) (raw : Bool) : Compiling (Option Node) := do
  if tag.content.head.isEmpty then
    Compiling.addError (.arguments "empty tag" tag.site)
    return none
  let encoding := if raw then .none else ctx.settings.encoding
  match ← ctx.callee? tag with
  | some (callee, _) =>
    Compiling.count fun u => { u with helpers := u.helpers + 1 }
    return some (.helper (callOf callee tag) encoding)
  | none => return some (.lookup (← ctx.headExpr tag) encoding)

/-- The node of a block. An inverted builtin block has its branches exchanged;
every other block keeps its inversion. -/
def block (ctx : BuildContext) (tag : Tag) (body : Plan) (inverse : Option Plan)
    (inverted : Bool) : Compiling Node := do
  let params := tag.content.blockParams
  match Builtin.open? tag.content with
  | some openBlock =>
    let kind ← Compiling.reporting (openBlock tag.site)
    if inverted then return .block kind (inverse.getD []) (some body) params
    return .block kind body inverse params
  | none =>
    match ← ctx.callee? tag with
    | some (callee, style) =>
      Compiling.count fun u => { u with blockHelpers := u.blockHelpers + 1 }
      return .block (.helper (callOf callee tag) style inverted) body inverse params
    | none => return .block (.value (← ctx.headExpr tag) inverted) body inverse params

/-- The node of a raw block: its body as it is, or a helper that is called with
it. -/
def rawBlock (ctx : BuildContext) (tag : Tag) (body : String) : Compiling Node := do
  match ctx.style? tag.content.head with
  | none => return .literal body
  | some style =>
    Compiling.count fun u => { u with blockHelpers := u.blockHelpers + 1 }
    let call : Call := { callee := .helper tag.content.head, args := [], hash := [] }
    return .block (.helper call style false) [.literal body] none []

/-- The name for messages and the target of an inclusion. -/
def target (ctx : BuildContext) (tag : Tag) (name : PartialName) (hasBlock : Bool) :
    Compiling (Option (String × Target)) := do
  match name with
  | .dynamic name =>
    modify fun c => { c with hasDynamic := true }
    return some (tag.site.tag, .dynamic name)
  | .static name => return (← ctx.resolve name hasBlock tag.site).map fun target => (name, target)

/-- The node of an inclusion. -/
def inclusion (ctx : BuildContext) (tag : Tag) (name : PartialName) (block : Option Plan) :
    Compiling (Option Node) := do
  if tag.content.params.length > 1 then
    Compiling.addError (.arguments "a partial takes at most one context argument" tag.site)
  match ← ctx.target tag name block.isSome with
  | none => return none
  | some (name, target) =>
    let call : Inclusion :=
      { name, context := tag.content.params.head?, hash := tag.content.hash, indent := tag.indent }
    return some (.inclusion call target block)

/-! ### Blocks -/

/-- Opens a block. -/
def openScope (tag : Tag) (chained : Bool) (d : Draft) : Compiling Draft := do
  Compiling.pushLayer
  return { d with scopes := { tag, chained } :: d.scopes }

/-- The node of a block whose branches are complete. -/
def scopeNode (ctx : BuildContext) (scope : OpenBranches) : Compiling (Option Node) := do
  let body := scope.body.reverse
  let inverse := scope.inverse.map List.reverse
  match scope.tag.kind with
  | .opening inverted => return some (← ctx.block scope.tag body inverse inverted)
  | .alternative _ => return some (← ctx.block scope.tag body inverse false)
  | .inclusionBlock name => ctx.inclusion scope.tag name (some body)
  | .inlineDef name => return some (.inlineDef name body)
  | _ => return none

/-- Closes the innermost block. -/
def closeScope (ctx : BuildContext) (d : Draft) : Compiling Draft :=
  match d.scopes with
  | [] => return d
  | scope :: scopes => do
    let node ← ctx.scopeNode scope
    Compiling.popLayer
    return { d with scopes }.push? node

/-- Closes the innermost `n` blocks. -/
def closeScopes (ctx : BuildContext) : Nat → Draft → Compiling Draft
  | 0, d => return d
  | n + 1, d => do
    let d ← ctx.closeScope d
    ctx.closeScopes n d

/-- The number of blocks that a closing tag closes: one that was opened by a tag
of its own, and those chained inside it. -/
def closedByTag (d : Draft) : Nat :=
  (d.scopes.takeWhile (·.chained)).length + 1

/-- Whether a block has an else branch that is not begun. -/
def acceptsElse (scope : OpenBranches) : Bool :=
  scope.inverse.isNone &&
    match scope.tag.kind with
    | .opening _ => true
    | .alternative chained => chained
    | _ => false

/-- Begins the else branch of the innermost block. -/
def beginElse (tag : Tag) (chained : Bool) (d : Draft) : Compiling Draft :=
  match d.scopes with
  | [] => return d
  | scope :: scopes =>
    if acceptsElse scope then do
      Compiling.popLayer
      Compiling.pushLayer
      let d := { d with scopes := { scope with inverse := some [] } :: scopes }
      if chained then openScope tag true d else return d
    else return d

/-- Begins the definition of an inline partial. -/
def beginInline (tag : Tag) (name : String) (d : Draft) : Compiling Draft := do
  if !(← Compiling.declareInline name) then
    Compiling.addWarning ("inline partial '" ++ name ++ "' redefined on line " ++
      toString tag.site.line)
  openScope tag false d

/-! ### Tokens -/

/-- Adds a tag to a draft. -/
def addTag (ctx : BuildContext) (d : Draft) (tag : Tag) : Compiling Draft := do
  match tag.kind with
  | .interpolation raw => return d.push? (← ctx.interpolation tag raw)
  | .comment => return d
  | .opening _ => openScope tag false d
  | .inclusionBlock _ => openScope tag false d
  | .inlineDef name => beginInline tag name d
  | .alternative chained => beginElse tag chained d
  | .closing => ctx.closeScopes (closedByTag d) d
  | .inclusion name => return d.push? (← ctx.inclusion tag name none)
  | .rawBlock body => return d.push (← ctx.rawBlock tag body)

def addTokens (ctx : BuildContext) (d : Draft) : List Token → Compiling Draft
  | [] => return d
  | .text text :: tokens => ctx.addTokens (d.push (.literal text)) tokens
  | .tag tag :: tokens => do
    let d ← ctx.addTag d tag
    ctx.addTokens d tokens

/-- The plan of a list of tokens. Blocks left open end with the tokens. -/
def build (ctx : BuildContext) (tokens : List Token) : Compiling Plan := do
  let d ← ctx.addTokens {} tokens
  let d ← ctx.closeScopes d.scopes.length d
  return d.root.reverse

end BuildContext

end Stencil
