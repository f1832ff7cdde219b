import Stencil.Template.Basic
import Stencil.Value.Equality

/-!
The state of a render call.

A render walks a plan with a current context and an environment: the
enclosing contexts, the special variables, the block parameters, the
inline partials and the blocks handed to partials. `within` changes the
environment before a computation and takes the change back behind it,
whatever comes of it; what it takes it back from is the environment that
the computation leaves. `withContext` gives a computation a context of
its own.
-/

namespace Stencil

/-- What a render call is given and does not change. -/
structure Scene where
  template : Template
  /-- The value that the template is rendered against. -/
  root : Value
  /-- The functions behind callable values. -/
  functions : Nat → Helper

/-- The environment of a render call. Each list has the innermost entry first. -/
structure Env where
  /-- The enclosing contexts. -/
  scopes : List Value := []
  /-- The special variables, one frame for each iteration or block that sets some;
  the last frame is the caller's. -/
  frames : List Fields
  /-- The values of block parameters. -/
  bindings : List Fields := []
  inlines : List (Table Plan) := []
  /-- The blocks that stand for the partial named `@partial-block`. -/
  blocks : List Plan := []
  /-- How many inclusions with a block are active. -/
  blockCount : Nat := 0
  /-- How many inclusions are active. -/
  depth : Nat := 0

structure Machine where
  env : Env
  /-- The current context. -/
  context : Value
  /-- The journal, newest first. -/
  events : List Event := []

/-- A computation of a render call; the state it leaves behind outlives an
error. -/
abbrev Eval := ExceptT RenderError (StateM Machine)

namespace Eval

variable {α : Type}

def addEvent (e : Event) : Eval Unit :=
  modify fun m => { m with events := e :: m.events }

/-- Runs a computation between a change of the environment and the change that
takes it back, on errors too. -/
def within (enter leave : Env → Env) (action : Eval α) : Eval α :=
  ExceptT.mk fun m =>
    let (result, after) := action.run.run { m with env := enter m.env }
    (result, { after with env := leave after.env })

/-- Runs a computation against another context, and puts the current one back. -/
def withContext (context : Value) (action : Eval α) : Eval α :=
  ExceptT.mk fun m =>
    let (result, after) := action.run.run { m with context }
    (result, { after with context := m.context })

/-- The outcome of a computation as a value. -/
def attempt (action : Eval α) : Eval (Except RenderError α) :=
  ExceptT.mk fun m =>
    let (result, after) := action.run.run m
    (.ok result, after)

end Eval

namespace Env

def pushScope (context : Value) (env : Env) : Env :=
  { env with scopes := context :: env.scopes }

def popScope (env : Env) : Env :=
  { env with scopes := env.scopes.tail }

/-- Makes these the special variables. -/
def setFrames (frames : List Fields) (env : Env) : Env :=
  { env with frames }

/-- Binds names to values in order; without names nothing is bound. -/
def bind (names : List String) (values : List Value) (env : Env) : Env :=
  if names.isEmpty then env
  else { env with bindings := Table.ofEntries (names.zip values) :: env.bindings }

/-- Takes the last binding back, if there were names. -/
def unbind (names : List String) (env : Env) : Env :=
  if names.isEmpty then env else { env with bindings := env.bindings.tail }

def pushInlines (layer : Table Plan) (env : Env) : Env :=
  if layer.isEmpty then env else { env with inlines := layer :: env.inlines }

def popInlines (layer : Table Plan) (env : Env) : Env :=
  if layer.isEmpty then env else { env with inlines := env.inlines.tail }

end Env

end Stencil
