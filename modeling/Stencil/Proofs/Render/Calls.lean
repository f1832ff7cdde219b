import Stencil.Render.Plan

/-!
The calls in a template.

A tag may call by itself, and expressions in parentheses call wherever an argument can stand. The
calls of a node are collected from all that it is made of: from the expressions of a lookup, of a
block or of an inclusion, from computed names of partials, and from the plans inside it. What a
call invokes and whether it has arguments decides whether it can miss what it is to invoke.
-/

namespace Stencil

/-- Where a call is written: it is what a tag says, or stands in parentheses inside one. -/
inductive Place
  | tag
  | parentheses
  deriving DecidableEq

/-! ### Expressions -/

mutual

/-- The calls in an expression, each before those in its arguments. -/
def Expr.calls : Expr → List (Place × Call)
  | .path _ | .literal _ _ => []
  | .call c => (.parentheses, c) :: Call.inner c

/-- The calls in the arguments of a call. -/
def Call.inner : Call → List (Place × Call)
  | ⟨_, args, hash⟩ => Expr.callsOfArgs args ++ Expr.callsOfHash hash

def Expr.callsOfArgs : List Expr → List (Place × Call)
  | [] => []
  | e :: es => Expr.calls e ++ Expr.callsOfArgs es

def Expr.callsOfHash : List (String × Expr) → List (Place × Call)
  | [] => []
  | (_, e) :: hash => Expr.calls e ++ Expr.callsOfHash hash

end

variable {i : Place × Call}

theorem Expr.mem_callsOfArgs {es : List Expr} :
    i ∈ Expr.callsOfArgs es ↔ ∃ e ∈ es, i ∈ e.calls := by
  induction es with
  | nil => simp [Expr.callsOfArgs]
  | cons e es ih => simp [Expr.callsOfArgs, ih]

theorem Expr.mem_callsOfHash {hash : List (String × Expr)} :
    i ∈ Expr.callsOfHash hash ↔ ∃ e ∈ hash, i ∈ e.2.calls := by
  induction hash with
  | nil => simp [Expr.callsOfHash]
  | cons e hash ih => simp [Expr.callsOfHash, ih]

/-! ### Plans -/

/-- The calls of a tag that calls. -/
def Call.calls (c : Call) : List (Place × Call) :=
  (.tag, c) :: c.inner

/-- The calls in what decides over a block. -/
def BlockKind.calls : BlockKind → List (Place × Call)
  | .condition subject includeZero _ => subject.calls ++ includeZero.elim [] Expr.calls
  | .context subject => subject.calls
  | .each subject => subject.calls
  | .value subject _ => subject.calls
  | .helper call _ _ => call.calls

/-- The calls in the context and the named arguments of an inclusion. -/
def Inclusion.calls (call : Inclusion) : List (Place × Call) :=
  call.context.elim [] Expr.calls ++ Expr.callsOfHash call.hash

mutual

/-- The calls in a node, at any depth. -/
def Node.calls : Node → List (Place × Call)
  | .literal _ => []
  | .lookup e _ => e.calls
  | .helper call _ => call.calls
  | .block kind body none _ => kind.calls ++ Plan.calls body
  | .block kind body (some inverse) _ => kind.calls ++ (Plan.calls body ++ Plan.calls inverse)
  | .inclusion call target none => call.calls ++ target.calls
  | .inclusion call target (some block) => call.calls ++ (target.calls ++ Plan.calls block)
  | .inlineDef _ plan => Plan.calls plan

def Target.calls : Target → List (Place × Call)
  | .embedded plan => Plan.calls plan
  | .dynamic e => e.calls
  | .named _ | .partialBlock => []

def Plan.calls : List Node → List (Place × Call)
  | [] => []
  | n :: p => n.calls ++ Plan.calls p

end

theorem Plan.mem_calls {p : Plan} : i ∈ Plan.calls p ↔ ∃ n ∈ p, i ∈ n.calls := by
  induction p with
  | nil => simp [Plan.calls]
  | cons n p ih => simp [Plan.calls, ih]

/-- The calls in a template, also in the partials that it finds by name. -/
def Template.calls (t : Template) : List (Place × Call) :=
  Plan.calls t.plan ++ t.partials.flatMap fun e => Plan.calls e.2

/-! ### What a call may miss -/

/-- The call can fail for want of a helper of this name: no helper has it, or it is that of a path
that is called with arguments. -/
def Scene.Misses (scene : Scene) (c : Call) (name : String) : Prop :=
  match c.callee with
  | .helper other =>
    name = other ∧ Table.get? scene.template.helpers other = none ∧
      Table.get? scene.template.blockHelpers other = none
  | .path p => name = p.source ∧ (c.args ≠ [] ∨ c.hash ≠ [])

/-- Whatever these calls miss may be missed. -/
def Scene.Allows (scene : Scene) (ok : RenderError → Prop) (calls : List (Place × Call)) : Prop :=
  ∀ i ∈ calls, ∀ name, scene.Misses i.2 name → ok (.missingHelper name)

namespace Scene.Allows

variable {scene : Scene} {ok : RenderError → Prop} {calls calls' : List (Place × Call)}

theorem append :
    scene.Allows ok (calls ++ calls') ↔ scene.Allows ok calls ∧ scene.Allows ok calls' :=
  List.forall_mem_append

theorem cons : scene.Allows ok (i :: calls) ↔
    (∀ name, scene.Misses i.2 name → ok (.missingHelper name)) ∧ scene.Allows ok calls :=
  List.forall_mem_cons

end Scene.Allows

end Stencil
