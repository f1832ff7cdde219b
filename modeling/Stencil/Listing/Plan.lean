import Stencil.Listing.Form
import Stencil.Template.Basic

/-!
Listings of expressions, plans and templates.
-/

namespace Stencil

open Listing

def Path.listing (p : Path) : String :=
  record "Path"
    [("levels", toString p.levels), ("special", flag p.special),
     ("segments", sequence (p.segments.map Text.quoted)), ("source", Text.quoted p.source)]

def Literal.listing : Literal → String
  | null => "Null"
  | bool b => variant "Bool" (flag b)
  | number n => variant "Number" (variant "Number" n.listing)
  | string s => variant "String" (Text.quoted s)

def Callee.listing : Callee → String
  | helper name => variant "Helper" (Text.quoted name)
  | path p => variant "Path" p.listing

mutual

def Expr.listing : Expr → String
  | .path p => variant "Path" p.listing
  | .literal value source =>
    record "Literal" [("value", value.listing), ("source", Text.quoted source)]
  | .call c => variant "Call" (Call.listing c)

def Call.listing : Call → String
  | ⟨callee, args, hash⟩ =>
    record "Call"
      [("callee", callee.listing), ("args", sequence (Expr.listings args)),
       ("hash", mapping (Expr.entryListings hash))]

def Expr.listings : List Expr → List String
  | [] => []
  | e :: es => Expr.listing e :: Expr.listings es

def Expr.entryListings : List (String × Expr) → List (String × String)
  | [] => []
  | (name, e) :: hash => (name, Expr.listing e) :: Expr.entryListings hash

end

def Encoding.listing : Encoding → String
  | none => "None"
  | html => "Html"
  | htmlStrict => "HtmlStrict"

def HelperStyle.listing : HelperStyle → String
  | rendering => "Handlebars"
  | positional => "Positional"

def BlockKind.listing : BlockKind → String
  | condition subject includeZero negate =>
    record "If"
      [("subject", subject.listing), ("include_zero", optional (includeZero.map Expr.listing)),
       ("negate", flag negate)]
  | context subject => record "With" [("subject", subject.listing)]
  | each subject => record "Each" [("subject", subject.listing)]
  | value subject inverted =>
    record "Value" [("subject", subject.listing), ("inverted", flag inverted)]
  | helper call style inverted =>
    record "Helper"
      [("call", call.listing), ("style", style.listing), ("inverted", flag inverted)]

/-- The listing of a plan whose nodes are listed already. -/
def planRecord (nodes : List String) : String :=
  record "Plan" [("nodes", sequence nodes)]

mutual

def Node.listing : Node → String
  | .literal text => variant "Literal" (Text.quoted text)
  | .lookup e encoding =>
    record "Lookup" [("expr", e.listing), ("escape", encoding.listing)]
  | .helper call encoding =>
    record "Helper" [("call", call.listing), ("escape", encoding.listing)]
  | .block kind body inverse params =>
    variant "Section" (record "Section"
      [("kind", kind.listing), ("body", planRecord (Node.listings body)),
       ("inverse", match inverse with
          | some inverse => optional (some (planRecord (Node.listings inverse)))
          | none => optional none),
       ("block_params", sequence (params.map Text.quoted))])
  | .inclusion call target block =>
    variant "Partial" (record "PartialCall"
      [("name", Text.quoted call.name), ("target", Target.listing target),
       ("context", optional (call.context.map Expr.listing)),
       ("hash", mapping (Expr.entryListings call.hash)),
       ("indent", Text.quoted call.indent),
       ("block", match block with
          | some block => optional (some (planRecord (Node.listings block)))
          | none => optional none)])
  | .inlineDef name plan =>
    record "InlinePartialDef"
      [("name", Text.quoted name), ("plan", planRecord (Node.listings plan))]

def Target.listing : Target → String
  | .embedded plan => variant "Embedded" (planRecord (Node.listings plan))
  | .named name => variant "Named" (Text.quoted name)
  | .dynamic e => variant "Dynamic" e.listing
  | .partialBlock => "PartialBlock"

def Node.listings : List Node → List String
  | [] => []
  | node :: nodes => Node.listing node :: Node.listings nodes

end

def Delimiters.listing (d : Delimiters) : String :=
  record "Delimiters" [("open", Text.quoted d.opening), ("close", Text.quoted d.closing)]

def Settings.listing (s : Settings) : String :=
  record "Options"
    [("escape", s.encoding.listing), ("strict", flag s.strict),
     ("property_access", flag s.propertyAccess), ("prevent_indent", flag s.preventIndent),
     ("explicit_partial_context", flag s.explicitPartialContext),
     ("known_helpers_only", flag s.knownHelpersOnly),
     ("ignore_standalone", flag s.ignoreStandalone),
     ("runtime_partials", flag s.runtimePartials),
     ("max_partial_depth", toString s.maxPartialDepth), ("delimiters", s.delimiters.listing)]

/-- The listing of a template, which leaves out its helpers and its usage. -/
def Template.listing (t : Template) : String :=
  "Template " ++ braces (", ".intercalate
    [field "plan" (planRecord (Node.listings t.plan)),
     field "partials" (sequence ((Table.keys t.partials).map Text.quoted)),
     field "options" t.settings.listing,
     field "warnings" (sequence (t.warnings.map Text.quoted)), ".."])

end Stencil
