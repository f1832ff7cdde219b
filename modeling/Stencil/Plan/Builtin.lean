import Stencil.Plan.Basic
import Stencil.Report

/-!
The builtin blocks `if`, `unless`, `with` and `each`.

Each checks the arguments of its opening tag and reports what is wrong
with them; a missing subject is null.
-/

namespace Stencil.Builtin

/-- Reports named arguments that are not allowed. -/
def checkNames (allowed : List String) (hash : Table Expr) (site : Site) : StateM Report Unit :=
  let wrong := (Table.keys hash).filter fun name => !allowed.contains name
  modify fun r => wrong.foldl (fun r name => r.addError (.namedArgument name site)) r

/-- The complaint about the number of arguments. -/
def exactly (label : String) (n : Nat) : String :=
  "`" ++ label ++ "` expects exactly " ++ toString n ++ " argument"

def atMost (label : String) (n : Nat) : String :=
  "`" ++ label ++ "` expects at most " ++ toString n ++ " argument"

/-- Reports a wrong number of arguments, from `least` to `most`, and named
arguments that are not allowed. A named argument in place of all others is
reported alone. -/
def check (label : String) (least most : Nat) (allowed : List String) (content : Content)
    (site : Site) : StateM Report Unit := do
  if content.params.isEmpty && least > 0 then
    match content.hash with
    | (name, _) :: _ => modify (Report.addError (.namedArgument name site))
    | [] => modify (Report.addError (.arguments (exactly label least) site))
  else
    if content.params.length < least || content.params.length > most then
      let problem := if least = most then exactly label least else atMost label most
      modify (Report.addError (.arguments problem site))
    checkNames allowed content.hash site

/-- The first argument. -/
def subject (content : Content) : Expr :=
  content.params.headD (.literal .null "null")

def openCondition (label : String) (negate : Bool) (content : Content) (site : Site) :
    StateM Report BlockKind := do
  check label 1 1 ["includeZero"] content site
  return .condition (subject content) (Table.get? content.hash "includeZero") negate

def openContext (content : Content) (site : Site) : StateM Report BlockKind := do
  check "with" 1 1 [] content site
  return .context (subject content)

def openEach (content : Content) (site : Site) : StateM Report BlockKind := do
  check "each" 0 1 [] content site
  return .each (content.params.headD Expr.this)

/-- The builtin block that a tag opens, if its name is the name of one. -/
def open? (content : Content) : Option (Site → StateM Report BlockKind) :=
  if content.head = "if" then some (openCondition "if" false content)
  else if content.head = "unless" then some (openCondition "unless" true content)
  else if content.head = "with" then some (openContext content)
  else if content.head = "each" then some (openEach content)
  else none

end Stencil.Builtin
