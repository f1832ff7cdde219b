import Stencil.Journal

/-!
Helpers and the errors of rendering.

A helper is a function of its call to an action: a sequence of requests to
the renderer, each followed by what the helper does with the answer. The
renderer answers the requests, so a helper reaches the state of rendering
only through them. Block helpers of the other kind are plain functions
that compute the value a section is about.
-/

namespace Stencil

mutual

/-- Why rendering stops. -/
inductive RenderError
  | missingPartial (name : String)
  | missingVariable (path : String)
  | missingHelper (name : String)
  | helper (name : String) (cause : HelperError)
  /-- A partial inside as many others as are allowed. -/
  | partialDepth (name : String) (limit : Nat)

/-- Why a helper fails. -/
inductive HelperError
  | message (text : String)
  /-- What it asked to be rendered failed. -/
  | render (cause : RenderError)

end

deriving instance DecidableEq for RenderError, HelperError

mutual

/-- The wording of an error. -/
def RenderError.message : RenderError → String
  | .missingPartial name => "partial '" ++ name ++ "' could not be found"
  | .missingVariable path => "variable '" ++ path ++ "' does not exist"
  | .missingHelper name => "missing helper '" ++ name ++ "'"
  | .helper name cause => "helper '" ++ name ++ "' failed: " ++ cause.text
  | .partialDepth name limit =>
    "partial '" ++ name ++ "' exceeded the maximum depth of " ++ toString limit

def HelperError.text : HelperError → String
  | .message text => text
  | .render cause => cause.message

end

/-- The branches of a block. -/
inductive Branch
  | body
  | inverse
  deriving DecidableEq

/-- A request to render a branch. -/
structure BranchCall where
  branch : Branch
  /-- The context to render against, the current one if none. -/
  context : Option Value := none
  /-- Special variables that the branch sees first. -/
  data : Option Fields := none
  /-- Values for the block parameters, in order. -/
  params : List Value := []

/-- What a helper does: requests to the renderer up to a result. -/
inductive Action (α : Type)
  | done (result : α)
  | fail (error : HelperError)
  /-- Renders a branch; a branch that is missing gives the empty text. -/
  | render (call : BranchCall) (next : Except RenderError String → Action α)
  | getContext (next : Value → Action α)
  /-- Replaces the current context for what follows in the same body. -/
  | setContext (value : Value) (next : Action α)
  /-- The enclosing contexts, outermost first, and the current one. -/
  | getContexts (next : List Value → Action α)
  | getData (name : String) (next : Option Value → Action α)
  | log (level : Level) (message : String) (next : Action α)

namespace Action

variable {α β : Type}

def bind (action : Action α) (f : α → Action β) : Action β :=
  match action with
  | done result => f result
  | fail error => .fail error
  | render call next => .render call fun answer => (next answer).bind f
  | getContext next => .getContext fun value => (next value).bind f
  | setContext value next => .setContext value (next.bind f)
  | getContexts next => .getContexts fun values => (next values).bind f
  | getData name next => .getData name fun value => (next value).bind f
  | log level message next => .log level message (next.bind f)

instance : Monad Action where
  pure := done
  bind := bind

/-- Renders a branch and hands on a failure as its own. -/
def renderOrFail (call : BranchCall) : Action String :=
  .render call fun
    | .ok text => .done text
    | .error cause => .fail (.render cause)

def context : Action Value := .getContext .done

def contexts : Action (List Value) := .getContexts .done

def data (name : String) : Action (Option Value) := .getData name .done

end Action

/-- What a helper knows of its call. -/
structure Invocation where
  /-- The name by which it was called. -/
  name : String
  args : List Value
  /-- The named arguments, in order. -/
  hash : Fields
  /-- Whether the call has a body. -/
  isBlock : Bool
  /-- The names of the block parameters. -/
  blockParams : List String

/-- A helper that renders its own branches. -/
abbrev Helper := Invocation → Action Value

/-- A helper that computes what a section is about, from the context, the
arguments and the named arguments. -/
abbrev BlockHelper := Value → List Value → Fields → Except HelperError Value

end Stencil
