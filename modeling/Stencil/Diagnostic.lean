/-!
Compile diagnostics.

A diagnostic is the cause of a compile error with the places that its
message names. The wording is in `Diagnostic.message` alone.
-/

namespace Stencil

/-- The construct that a tag leaves open. -/
inductive Construct
  | quote
  | bracket
  | parenthesis
  | blockParams
  deriving DecidableEq

def Construct.name : Construct → String
  | quote => "string literal"
  | bracket => "bracket segment `[`"
  | parenthesis => "subexpression `(`"
  | blockParams => "block parameters `|`"

/-- The family of a diagnostic. -/
inductive Family
  /-- Delimiters, quotes, brackets and parentheses. -/
  | lexical
  /-- Unbalanced or misplaced block tags. -/
  | structural
  /-- Names, paths and arguments. -/
  | semantic
  deriving DecidableEq

/-- Where a diagnostic was found: the tag as written and its line. -/
structure Site where
  tag : String
  line : Nat
  deriving DecidableEq

/-- One cause of a compile error. -/
inductive Diagnostic
  /-- Braces do not match; `suggestion` shows tags that do. -/
  | badToken (found suggestion : String) (line : Nat)
  /-- A tag is not closed; `near` is the text up to its opening delimiter. -/
  | unclosedTag (near : String) (line : Nat)
  | unterminated (construct : Construct) (site : Site)
  | unclosedBlock (site : Site)
  /-- The closing tag at `site` does not fit the tag `expected`. -/
  | mismatchedBlock (expected : String) (site : Site)
  | unexpectedClose (site : Site)
  | unexpectedElse (site : Site)
  | missingHelper (name : String) (site : Site)
  | illegalPath (path suggestion : String) (site : Site)
  /-- A step to an enclosing context stands inside a path. -/
  | misplacedParent (path : String) (site : Site)
  /-- The chain of partials that include each other. -/
  | recursivePartial (chain : List String)
  | partialNotFound (name : String) (site : Site)
  | namedArgument (name : String) (site : Site)
  /-- The arguments of a tag are wrong, as `problem` says. -/
  | arguments (problem : String) (site : Site)
  /-- The cause was found in the source of a partial. -/
  | inPartial (name : String) (cause : Diagnostic)
  deriving DecidableEq

namespace Diagnostic

def family : Diagnostic → Family
  | badToken .. | unclosedTag .. | unterminated .. => .lexical
  | unclosedBlock .. | mismatchedBlock .. | unexpectedClose .. | unexpectedElse .. => .structural
  | missingHelper .. | illegalPath .. | misplacedParent .. | recursivePartial ..
  | partialNotFound .. | namedArgument .. | arguments .. => .semantic
  | inPartial _ cause => cause.family

/-- A tag and its line as messages name them. -/
def place (site : Site) : String :=
  site.tag ++ " on line " ++ toString site.line

/-- The characters that a path must keep in brackets, as messages list them. -/
def reservedList : String :=
  "! \" # % & ' * + , ; < = > \x7b | \x7d ~"

/-- The wording of a diagnostic. -/
def message : Diagnostic → String
  | badToken found suggestion line =>
    "Bad token " ++ found ++ " on line " ++ toString line ++ "! Do you mean " ++ suggestion ++ "?"
  | unclosedTag near line => "unclosed tag near \"" ++ near ++ "\" on line " ++ toString line
  | unterminated construct site => "unterminated " ++ construct.name ++ " in " ++ place site
  | unclosedBlock site =>
    "unclosed block " ++ site.tag ++ " opened on line " ++ toString site.line
  | mismatchedBlock expected site =>
    "unexpected " ++ place site ++ ": " ++ expected ++ " is not closed"
  | unexpectedClose site => "unexpected " ++ place site ++ ": no block is open"
  | unexpectedElse site =>
    place site ++ " is only valid inside if, unless, each, with or a block helper"
  | missingHelper name site => "missing helper '" ++ name ++ "' in " ++ place site
  | illegalPath path suggestion site =>
    "wrong variable naming as '" ++ path ++ "' in " ++ place site ++ "! You should wrap " ++
      reservedList ++ " into [ ], did you mean '" ++ suggestion ++ "'?"
  | misplacedParent path site =>
    "'" ++ path ++ "' in " ++ place site ++ ": ../ is only allowed at the start of a path"
  | recursivePartial chain =>
    "recursive partial includes as the path: " ++ " -> ".intercalate chain ++
      "! Enable runtime partials to allow it"
  | partialNotFound name site =>
    "the partial '" ++ name ++ "' could not be found (" ++ place site ++ ")"
  | namedArgument name site => "named argument '" ++ name ++ "' is not allowed in " ++ place site
  | arguments problem site => problem ++ " in " ++ place site
  | inPartial name cause => "in partial '" ++ name ++ "': " ++ cause.message

end Diagnostic

end Stencil
