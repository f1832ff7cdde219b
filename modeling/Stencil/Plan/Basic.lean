import Stencil.Encoding
import Stencil.Expr.Basic

/-!
Plans: what a template is compiled to.

A plan is a list of nodes that produce output one after another. Blocks
hold the plans of their branches, and the plan of a partial may be held
where it is included.
-/

namespace Stencil

/-- How a registered helper is called as a block. -/
inductive HelperStyle
  /-- It renders its own branches. -/
  | rendering
  /-- It gives the value that an ordinary section is about. -/
  | positional
  deriving DecidableEq

/-- What decides over the branches of a block. -/
inductive BlockKind
  /-- A condition; zero holds when `includeZero` does. -/
  | condition (subject : Expr) (includeZero : Option Expr) (negate : Bool)
  /-- The body is rendered with the subject as context. -/
  | context (subject : Expr)
  /-- The body is rendered once for each entry of the subject. -/
  | each (subject : Expr)
  /-- The kind of the subject decides. -/
  | value (subject : Expr) (inverted : Bool)
  /-- A helper decides. -/
  | helper (call : Call) (style : HelperStyle) (inverted : Bool)

/-- What an inclusion says besides the partial that it includes. -/
structure Inclusion where
  /-- The name as written, for messages. -/
  name : String
  context : Option Expr
  /-- Named arguments, which become members of the context. -/
  hash : Table Expr
  /-- What is put before every line. -/
  indent : String

mutual

inductive Node
  | literal (text : String)
  /-- The value of an expression, encoded. -/
  | lookup (expr : Expr) (encoding : Encoding)
  /-- What a call gives, encoded. -/
  | helper (call : Call) (encoding : Encoding)
  | block (kind : BlockKind) (body : List Node) (inverse : Option (List Node))
      (params : List String)
  /-- A partial, with the block that the call hands to it. -/
  | inclusion (call : Inclusion) (target : Target) (block : Option (List Node))
  /-- The definition of an inline partial, known while the plan that it stands in
  is rendered. -/
  | inlineDef (name : String) (plan : List Node)

/-- Which plan an inclusion renders. -/
inductive Target
  | embedded (plan : List Node)
  /-- The partial of this name, found when rendering. -/
  | named (name : String)
  /-- The partial whose name is computed when rendering. -/
  | dynamic (name : Expr)
  /-- The block that the inclusion of the surrounding partial handed over. -/
  | partialBlock

end

abbrev Plan := List Node

namespace Plan

/-- The inline partials defined directly in a plan; of two with one name the
last counts. -/
def inlineDefs (plan : Plan) : Table Plan :=
  Table.ofEntries (plan.filterMap fun
    | .inlineDef name body => some (name, body)
    | _ => none)

/-- Adds a node to a plan that is held last node first; neighbouring literals
become one. -/
def push (node : Node) (nodes : Plan) : Plan :=
  match node, nodes with
  | .literal text, .literal last :: rest => .literal (last ++ text) :: rest
  | node, nodes => node :: nodes

end Plan

end Stencil
