import Stencil.Render.Resolve
import Stencil.Value.Text

/-!
Evaluating expressions and running helpers.

The renderer answers the requests of a helper one after another. Branches
are handed over as computations, so nothing here depends on how a plan is
rendered.
-/

namespace Stencil

/-- The branches of a block and the names of its parameters, as a helper is given
them. -/
structure Branches where
  body : Option (Eval String) := none
  inverse : Option (Eval String) := none
  params : List String := []

namespace Branches

def branch? (b : Branches) : Branch → Option (Eval String)
  | .body => b.body
  | .inverse => b.inverse

end Branches

/-- Renders against a context, which makes the current one the nearest enclosing
context; an equal context changes nothing. -/
def renderIn (context : Option Value) (body : Eval String) : Eval String := do
  match context with
  | none => body
  | some context =>
    let current := (← get).context
    if context.same current then body
    else Eval.within (Env.pushScope current) Env.popScope (Eval.withContext context body)

/-- The names that a request to render a branch binds. -/
def BranchCall.names (call : BranchCall) (names : List String) : List String :=
  if call.params.isEmpty then [] else names

/-- The environment of a branch that a helper wants rendered. -/
def BranchCall.enter (call : BranchCall) (names : List String) (env : Env) : Env :=
  let env := match call.data with
    | some vars => env.setFrames (vars :: env.frames)
    | none => env
  env.bind (call.names names) call.params

/-- The way back from a branch; `frames` are the special variables before it. -/
def BranchCall.leave (call : BranchCall) (names : List String) (frames : List Fields)
    (env : Env) : Env :=
  let env := env.unbind (call.names names)
  if call.data.isSome then env.setFrames frames else env

/-- Answers the request to render a branch. -/
def Branches.render (b : Branches) (call : BranchCall) : Eval String :=
  match b.branch? call.branch with
  | none => pure ""
  | some body => do
    let frames := (← get).env.frames
    Eval.within (call.enter b.params) (call.leave b.params frames) (renderIn call.context body)

/-- A special variable as helpers see it: the root is always there. -/
def Scene.data? (scene : Scene) (env : Env) (name : String) : Option Value :=
  if name = "root" then some scene.root else env.special? 0 name

/-- Answers the requests of an action up to its result. -/
def Action.run {α : Type} (scene : Scene) (branches : Branches) :
    Action α → Eval (Except HelperError α)
  | done result => pure (.ok result)
  | fail error => pure (.error error)
  | render call next => do
    let answer ← Eval.attempt (branches.render call)
    (next answer).run scene branches
  | getContext next => do
    let m ← get
    (next m.context).run scene branches
  | setContext value next => do
    modify fun m => { m with context := value }
    next.run scene branches
  | getContexts next => do
    let m ← get
    (next (m.env.scopes.reverse ++ [m.context])).run scene branches
  | getData name next => do
    let m ← get
    (next (scene.data? m.env name)).run scene branches
  | log level message next => do
    Eval.addEvent (.log level message)
    next.run scene branches

namespace Scene

variable (scene : Scene)

/-- Calls a helper; `branches` is given when it is called as a block. -/
def invoke (name : String) (helper : Helper) (args : List Value) (hash : Fields)
    (branches : Option Branches) : Eval Value := do
  Eval.addEvent (.calling name args.length branches.isSome)
  let given := branches.getD {}
  let call : Invocation :=
    { name, args, hash, isBlock := given.body.isSome, blockParams := given.params }
  match ← (helper call).run scene given with
  | .ok value => return value
  | .error cause => throw (.helper name cause)

/-- Calls a block helper, which only computes. -/
def invokePositional (name : String) (helper : BlockHelper) (args : List Value) (hash : Fields) :
    Eval Value := do
  match helper (← get).context args hash with
  | .ok value => return value
  | .error cause => throw (.helper name cause)

/-- Calls what a callee names. A path that is no callable is a plain value when it
has no arguments. -/
def applyCallee (callee : Callee) (args : List Value) (hash : Fields)
    (branches : Option Branches) : Eval Value := do
  match callee with
  | .helper name =>
    match Table.get? scene.template.helpers name with
    | some helper => scene.invoke name helper args hash branches
    | none =>
      match Table.get? scene.template.blockHelpers name with
      | some helper => invokePositional name helper args hash
      | none => throw (.missingHelper name)
  | .path p =>
    match scene.resolve? (← get) p with
    | some (.callable id) => scene.invoke p.source (scene.functions id) args hash branches
    | value =>
      if args.isEmpty && hash.isEmpty then return value.getD .null
      throw (.missingHelper p.source)

mutual

/-- The value of an expression. -/
def eval : Expr → Eval Value
  | .path p => return (scene.resolve? (← get) p).getD .null
  | .literal value _ => return value.toValue
  | .call c => evalCall none c

/-- The value of a call; `branches` is given when a block calls. -/
def evalCall (branches : Option Branches) : Call → Eval Value
  | ⟨callee, args, hash⟩ => do
    let args ← evalArgs args
    let hash ← evalHash hash
    scene.applyCallee callee args (Table.ofEntries hash) branches

def evalArgs : List Expr → Eval (List Value)
  | [] => return []
  | e :: es => do
    let v ← eval e
    let vs ← evalArgs es
    return v :: vs

def evalHash : List (String × Expr) → Eval (List (String × Value))
  | [] => return []
  | (name, e) :: hash => do
    let v ← eval e
    let vs ← evalHash hash
    return (name, v) :: vs

end

/-- The value that interpolation writes: in strict mode it must exist, and a
callable is called without arguments. -/
def lookup (e : Expr) : Eval Value := do
  match e with
  | .path p =>
    match scene.resolve? (← get) p with
    | some (.callable id) => scene.invoke p.source (scene.functions id) [] [] none
    | some value => return value
    | none =>
      if scene.template.settings.strict then throw (.missingVariable p.source)
      return .null
  | e => scene.eval e

end Scene

/-- The output of an interpolation: text that is already encoded stays as it is. -/
def Value.output (encoding : Encoding) : Value → String
  | .safe s => s
  | v => encoding.encode v.text

end Stencil
