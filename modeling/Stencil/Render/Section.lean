import Stencil.Render.Call

/-!
Blocks.

The kind of a block and the value of its subject decide which branch is
rendered, how often, and against which context. The branches are given
as computations.
-/

namespace Stencil

/-- A branch that may be missing. -/
def renderBranch (branch : Option (Eval String)) : Eval String :=
  branch.getD (pure "")

/-- The special variables of one step of an iteration. -/
def entryVars (sparse : Bool) (count i : Nat) (key : Value) : Fields :=
  [("first", .bool (i == 0)), ("last", .bool (i + 1 == count)),
   ("index", if sparse then key else .ofNat i), ("key", key)]

/-- Renders the body for each entry, a key and a value, from position `i` on. Each
entry has its special variables before `frames`, and they stay behind it. -/
def iterateFrom (names : List String) (body : Eval String) (sparse : Bool)
    (frames : List Fields) (count i : Nat) : List (Value × Value) → Eval String
  | [] => return ""
  | (key, item) :: entries => do
    let vars := entryVars sparse count i key
    let enter (env : Env) := (env.setFrames (vars :: frames)).bind names [item, key]
    let text ← Eval.within enter (Env.unbind names) (Eval.withContext item body)
    let rest ← iterateFrom names body sparse frames count (i + 1) entries
    return text ++ rest

/-- Renders the body for each entry, with the current context as the nearest
enclosing one. -/
def iterate (names : List String) (body : Eval String) (sparse : Bool)
    (entries : List (Value × Value)) : Eval String := do
  let m ← get
  let frames := m.env.frames
  Eval.within (Env.pushScope m.context) (fun env => env.popScope.setFrames frames)
    (iterateFrom names body sparse frames entries.length 0 entries)

/-- The items of a list with their positions as keys, from position `i` on. -/
def keyedFrom (i : Nat) : List Value → List (Value × Value)
  | [] => []
  | v :: vs => (.ofNat i, v) :: keyedFrom (i + 1) vs

/-- Renders the body against a value that the first block parameter names too. -/
def renderBound (names : List String) (value : Value) (body : Eval String) : Eval String :=
  Eval.within (Env.bind names [value]) (Env.unbind names) (renderIn (some value) body)

/-- A section about a value. An empty list or object selects the else branch,
lists and iterables are iterated, and so are objects when `each` is set; other
objects become the context. Of the remaining values `each` takes none, `true`
keeps the context, null and `false` select the else branch, and any other
becomes the context without a new scope. -/
def renderSection (each : Bool) (names : List String) (value : Value) (body : Eval String)
    (inverse : Option (Eval String)) : Eval String :=
  if value.isEmptyCollection then renderBranch inverse
  else
    match value with
    | .array items => iterate names body false (keyedFrom 0 items)
    | .iterable _ items => iterate names body false (keyedFrom 0 items)
    | .object fields =>
      if each then
        iterate names body (Value.isSparse fields)
          (fields.map fun (key, v) => (Value.string key, v))
      else renderBound names value body
    | value =>
      if each then renderBranch inverse
      else
        match value with
        | .bool true => body
        | .bool false => renderBranch inverse
        | .null => renderBranch inverse
        | value => Eval.withContext value body

/-- A section about a value, or its inversion: that shows the body when the value
is absent, and is a section with the else branch otherwise. -/
def renderValue (inverted : Bool) (names : List String) (value : Value) (body : Eval String)
    (inverse : Option (Eval String)) : Eval String :=
  if !inverted then renderSection false names value body inverse
  else if value.isAbsent then body
  else
    match inverse with
    | some inverse => renderSection false names value inverse none
    | none => pure ""

/-- The branches as a helper sees them; an inverted block exchanges them. -/
def Branches.of (inverted : Bool) (params : List String) (body : Eval String)
    (inverse : Option (Eval String)) : Branches :=
  if inverted then { body := inverse, inverse := some body, params }
  else { body := some body, inverse, params }

namespace Scene

variable (scene : Scene)

/-- Whether the condition of a block holds. -/
def holds (subject : Expr) (includeZero : Option Expr) : Eval Bool := do
  let value ← scene.eval subject
  match includeZero with
  | none => return value.isTruthy false
  | some e =>
    let zero ← scene.eval e
    return value.isTruthy (zero.isTruthy false)

/-- Renders a block with these branches. -/
def renderBlock (kind : BlockKind) (params : List String) (body : Eval String)
    (inverse : Option (Eval String)) : Eval String := do
  match kind with
  | .condition subject includeZero negate =>
    if (← scene.holds subject includeZero) != negate then body else renderBranch inverse
  | .context subject =>
    let value ← scene.eval subject
    if value.isAbsent then renderBranch inverse else renderBound params value body
  | .each subject =>
    let value ← scene.eval subject
    renderSection true params value body inverse
  | .value subject inverted =>
    match ← scene.eval subject with
    | .callable id =>
      let name := (subject.asPath?.map (·.source)).getD ""
      let branches := Branches.of inverted params body inverse
      let result ← scene.invoke name (scene.functions id) [] [] (some branches)
      return result.text
    | value => renderValue inverted params value body inverse
  | .helper call .rendering inverted =>
    let result ← scene.evalCall (some (Branches.of inverted params body inverse)) call
    return result.text
  | .helper call .positional inverted =>
    let value ← scene.evalCall none call
    renderValue inverted params value body inverse

end Scene

end Stencil
