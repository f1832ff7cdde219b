import Stencil.Proofs.Value.Likeness
import Stencil.Proofs.Render.Restoration

/-!
Renders that know values which are alike.

Two computations resemble each other when, from machines that know values which are alike, one by
one, they end with results that are alike, report the same, and leave such machines again. Nothing
that the renderer does tells values apart that are alike: every operation resembles itself, as soon
as the helpers do not tell them apart either. The text of a plan is therefore the same.
-/

namespace Stencil

open Eval

/-! ### Machines -/

/-- Environments that know values which are alike, and the same partials. -/
structure Env.Alike (e e' : Env) : Prop where
  scopes : List.Forall₂ Value.Alike e.scopes e'.scopes
  frames : List.Forall₂ Value.AlikeFields e.frames e'.frames
  bindings : List.Forall₂ Value.AlikeFields e.bindings e'.bindings
  surroundings : e.surroundings = e'.surroundings

structure Machine.Alike (m m' : Machine) : Prop where
  env : m.env.Alike m'.env
  context : m.context.Alike m'.context
  events : m.events = m'.events

theorem forall₂_tail {α : Type} {r : α → α → Prop} {as bs : List α} (h : List.Forall₂ r as bs) :
    List.Forall₂ r as.tail bs.tail := by
  cases h with
  | nil => exact .nil
  | cons _ others => exact others

theorem Value.AlikeFields.refl (fields : Fields) : Value.AlikeFields fields fields :=
  List.forall₂_same.mpr fun e _ => ⟨rfl, .refl e.2⟩

namespace Env.Alike

variable {e e' : Env} {v v' : Value}

theorem refl (e : Env) : e.Alike e :=
  ⟨Value.Alike.refls _, List.forall₂_same.mpr fun fields _ => .refl fields,
    List.forall₂_same.mpr fun fields _ => .refl fields, rfl⟩

theorem pushScope (h : e.Alike e') (hv : v.Alike v') : (e.pushScope v).Alike (e'.pushScope v') :=
  ⟨.cons hv h.scopes, h.frames, h.bindings, h.surroundings⟩

theorem popScope (h : e.Alike e') : e.popScope.Alike e'.popScope :=
  ⟨forall₂_tail h.scopes, h.frames, h.bindings, h.surroundings⟩

theorem setFrames (h : e.Alike e') {frames frames' : List Fields}
    (hf : List.Forall₂ Value.AlikeFields frames frames') :
    (e.setFrames frames).Alike (e'.setFrames frames') :=
  ⟨h.scopes, hf, h.bindings, h.surroundings⟩

theorem bind (h : e.Alike e') (names : List String) {vs ws : List Value}
    (hv : List.Forall₂ Value.Alike vs ws) : (e.bind names vs).Alike (e'.bind names ws) := by
  have bound : Value.AlikeFields (Table.ofEntries (names.zip vs)) (Table.ofEntries (names.zip ws))
      := by
    refine Table.Rel.ofEntries ?_
    induction hv generalizing names with
    | nil => cases names <;> exact .nil
    | cons first _ ih =>
        cases names with
        | nil => exact .nil
        | cons name names => exact .cons ⟨rfl, first⟩ (ih names)
  rw [Env.bind, Env.bind]
  split
  · exact h
  · exact ⟨h.scopes, h.frames, .cons bound h.bindings, h.surroundings⟩

theorem unbind (h : e.Alike e') (names : List String) :
    (e.unbind names).Alike (e'.unbind names) := by
  rw [Env.unbind, Env.unbind]
  split
  · exact h
  · exact ⟨h.scopes, h.frames, forall₂_tail h.bindings, h.surroundings⟩

/-- A change that has nothing to do with values. -/
theorem map (h : e.Alike e') {change : Env → Env}
    (keeps : ∀ (env : Env) scopes frames bindings, change { env with scopes, frames, bindings } =
      { change env with scopes, frames, bindings }) : (change e).Alike (change e') := by
  obtain ⟨scopes, frames, bindings, same⟩ := h
  -- Environments that are alike are one environment with other values in it.
  have shape : e' = { e with scopes := e'.scopes, frames := e'.frames, bindings := e'.bindings } :=
    by
      cases e
      cases e'
      cases same
      rfl
  have left := keeps e e.scopes e.frames e.bindings
  have right := (congrArg change shape).trans (keeps e e'.scopes e'.frames e'.bindings)
  rw [left, right]
  exact ⟨scopes, frames, bindings, rfl⟩

theorem pushInlines (h : e.Alike e') (layer : Table Plan) :
    (e.pushInlines layer).Alike (e'.pushInlines layer) := by
  refine h.map fun env scopes frames bindings => ?_
  simp only [Env.pushInlines]
  split <;> rfl

theorem popInlines (h : e.Alike e') (layer : Table Plan) :
    (e.popInlines layer).Alike (e'.popInlines layer) := by
  refine h.map fun env scopes frames bindings => ?_
  simp only [Env.popInlines]
  split <;> rfl

theorem enter (h : e.Alike e') (block : Option Plan) : (e.enter block).Alike (e'.enter block) := by
  refine h.map fun env scopes frames bindings => ?_
  cases block with
  | none => rfl
  | some block =>
      simp only [Env.enter, Env.pushInlines]
      split <;> rfl

theorem leave (h : e.Alike e') (block : Option Plan) : (e.leave block).Alike (e'.leave block) := by
  refine h.map fun env scopes frames bindings => ?_
  cases block with
  | none => rfl
  | some block =>
      simp only [Env.leave, Env.popInlines]
      split <;> rfl

theorem dropBlock (h : e.Alike e') : e.dropBlock.Alike e'.dropBlock :=
  h.map fun _ _ _ _ => rfl

theorem restoreBlock (h : e.Alike e') (block : Plan) :
    (e.restoreBlock block).Alike (e'.restoreBlock block) :=
  h.map fun _ _ _ _ => rfl

theorem special? (h : e.Alike e') (outer : Nat) (name : String) :
    Option.Rel Value.Alike (e.special? outer name) (e'.special? outer name) :=
  Table.Rel.findSome? (List.forall₂_drop outer h.frames) name

theorem binding? (h : e.Alike e') (name : String) :
    Option.Rel Value.Alike (e.binding? name) (e'.binding? name) :=
  Table.Rel.findSome? h.bindings name

theorem scope? (h : e.Alike e') (levels : Nat) :
    Option.Rel Value.Alike (e.scope? levels) (e'.scope? levels) :=
  Value.forall₂_getElem? h.scopes _

end Env.Alike

/-! ### Single steps -/

/-- The same failure, or results that `P` relates. -/
inductive ResultsAlike {ε α : Type} (P : α → α → Prop) : Except ε α → Except ε α → Prop
  | ok {x y : α} (h : P x y) : ResultsAlike P (.ok x) (.ok y)
  | error (e : ε) : ResultsAlike P (.error e) (.error e)

theorem ResultsAlike.eq {ε α : Type} {r r' : Except ε α} (h : ResultsAlike Eq r r') : r = r' := by
  cases h with
  | ok h => rw [h]
  | error e => rfl

/-- The ends of two runs: results that `P` relates, and machines that are alike. -/
structure EndsResembling {α : Type} (P : α → α → Prop) (r r' : Except RenderError α × Machine) :
    Prop where
  result : ResultsAlike P r.1 r'.1
  machine : r.2.Alike r'.2

namespace Eval

variable {α β : Type} {P : α → α → Prop} {Q : β → β → Prop} {a b : Eval α}

/-- From machines that are alike the computations end with results that `P` relates, and leave
machines that are alike. -/
def Resembles (P : α → α → Prop) (a b : Eval α) : Prop :=
  ∀ m m', m.Alike m' → EndsResembling P (a.run.run m) (b.run.run m')

namespace Resembles

theorem pure {x y : α} (h : P x y) : Resembles P (Pure.pure x) (Pure.pure y) :=
  fun _ _ alike => ⟨.ok h, alike⟩

theorem throw (e : RenderError) : Resembles P (throw e : Eval α) (MonadExcept.throw e) :=
  fun _ _ alike => ⟨.error e, alike⟩

theorem bind {f g : α → Eval β} (h : Resembles P a b)
    (next : ∀ x y, P x y → Resembles Q (f x) (g y)) : Resembles Q (a >>= f) (b >>= g) := by
  intro m m' alike
  obtain ⟨result, machine⟩ := h m m' alike
  rw [run_bind, run_bind]
  generalize a.run.run m = r at result machine
  generalize b.run.run m' = r' at result machine
  obtain ⟨result, after⟩ := r
  obtain ⟨result', after'⟩ := r'
  cases result with
  | error e => exact ⟨.error e, machine⟩
  | ok related => exact next _ _ related after after' machine

/-- Computations that look at the machine first. -/
theorem get_bind {f g : Machine → Eval α}
    (h : ∀ m m', m.Alike m' → EndsResembling P ((f m).run.run m) ((g m').run.run m')) :
    Resembles P (get >>= f) (get >>= g) :=
  h

theorem addEvent (e : Event) : Resembles Eq (Eval.addEvent e) (Eval.addEvent e) :=
  fun _ _ alike => ⟨.ok rfl, alike.env, alike.context, congrArg (e :: ·) alike.events⟩

theorem setContext {v v' : Value} (h : v.Alike v') :
    Resembles Eq (modify fun m => { m with context := v })
      (modify fun m => { m with context := v' }) :=
  fun _ _ alike => ⟨.ok rfl, alike.env, h, alike.events⟩

theorem withContext (h : Resembles P a b) {v v' : Value} (hv : v.Alike v') :
    Resembles P (Eval.withContext v a) (Eval.withContext v' b) := by
  intro m m' alike
  have h := h { m with context := v } { m' with context := v' } ⟨alike.env, hv, alike.events⟩
  exact ⟨h.result, h.machine.env, alike.context, h.machine.events⟩

/-- A change of the environment around two computations. -/
theorem within {enter leave enter' leave' : Env → Env} (h : Resembles P a b)
    (enters : ∀ e e' : Env, e.Alike e' → (enter e).Alike (enter' e'))
    (leaves : ∀ e e' : Env, e.Alike e' → (leave e).Alike (leave' e')) :
    Resembles P (Eval.within enter leave a) (Eval.within enter' leave' b) := by
  intro m m' alike
  have h := h { m with env := enter m.env } { m' with env := enter' m'.env }
    ⟨enters _ _ alike.env, alike.context, alike.events⟩
  exact ⟨h.result, leaves _ _ h.machine.env, h.machine.context, h.machine.events⟩

theorem attempt_bind {f g : Except RenderError α → Eval β} (h : Resembles P a b)
    (next : ∀ r r', ResultsAlike P r r' → Resembles Q (f r) (g r')) :
    Resembles Q (attempt a >>= f) (attempt b >>= g) := by
  intro m m' alike
  have h := h m m' alike
  exact next _ _ h.result _ _ h.machine

end Resembles

end Eval

/-! ### Helpers -/

structure BranchCall.Alike (call call' : BranchCall) : Prop where
  branch : call.branch = call'.branch
  context : Option.Rel Value.Alike call.context call'.context
  data : Option.Rel Value.AlikeFields call.data call'.data
  params : List.Forall₂ Value.Alike call.params call'.params

structure Invocation.Alike (call call' : Invocation) : Prop where
  name : call.name = call'.name
  args : List.Forall₂ Value.Alike call.args call'.args
  hash : Value.AlikeFields call.hash call'.hash
  isBlock : call.isBlock = call'.isBlock
  blockParams : call.blockParams = call'.blockParams

/-- Actions that ask for the same and are alike again behind answers that are alike. -/
inductive Action.Alike {α : Type} (P : α → α → Prop) : Action α → Action α → Prop
  | done {x y : α} (h : P x y) : Alike P (done x) (done y)
  | fail (error : HelperError) : Alike P (fail error) (fail error)
  | render {call call' : BranchCall} {next next' : Except RenderError String → Action α}
    (h : call.Alike call') (later : ∀ answer, Alike P (next answer) (next' answer)) :
    Alike P (render call next) (render call' next')
  | getContext {next next' : Value → Action α}
    (later : ∀ v v', v.Alike v' → Alike P (next v) (next' v')) :
    Alike P (getContext next) (getContext next')
  | setContext {v v' : Value} {next next' : Action α} (h : v.Alike v')
    (later : Alike P next next') :
    Alike P (setContext v next) (setContext v' next')
  | getContexts {next next' : List Value → Action α}
    (later : ∀ vs vs', List.Forall₂ Value.Alike vs vs' → Alike P (next vs) (next' vs')) :
    Alike P (getContexts next) (getContexts next')
  | getData (name : String) {next next' : Option Value → Action α}
    (later : ∀ v v', Option.Rel Value.Alike v v' → Alike P (next v) (next' v')) :
    Alike P (getData name next) (getData name next')
  | log (level : Level) (message : String) {next next' : Action α} (later : Alike P next next') :
    Alike P (log level message next) (log level message next')

/-- The helper does not tell values apart that are alike. -/
def Helper.RespectsLikeness (helper : Helper) : Prop :=
  ∀ call call', call.Alike call' → (helper call).Alike Value.Alike (helper call')

/-- No helper of the template, nor a function of the data, tells values apart that are alike. -/
structure Template.RespectsLikeness (template : Template) (functions : Nat → Helper) : Prop where
  helpers : ∀ name helper, Table.get? template.helpers name = some helper →
    helper.RespectsLikeness
  functions : ∀ id, (functions id).RespectsLikeness
  blockHelpers : ∀ name helper, Table.get? template.blockHelpers name = some helper →
    ∀ {v v' args args' hash hash'}, v.Alike v' → List.Forall₂ Value.Alike args args' →
      Value.AlikeFields hash hash' →
        ResultsAlike Value.Alike (helper v args hash) (helper v' args' hash')

theorem Helper.lookup_respectsLikeness : Helper.lookup.RespectsLikeness := by
  intro call call' alike
  have args := alike.args
  unfold Helper.lookup
  revert args
  generalize call.args = args, call'.args = args'
  intro args
  cases args with
  | nil => exact .fail _
  | cons target others =>
      cases others with
      | nil => exact .fail _
      | cons key others =>
          simp only [Value.Alike.text_eq _ key]
          exact .done (Value.Alike.getD (target.get? _))

theorem Helper.log_respectsLikeness : Helper.log.RespectsLikeness := by
  intro call call' alike
  have level := alike.hash.get? "level"
  unfold Helper.log
  rw [Value.Alike.texts_eq _ alike.args]
  revert level
  generalize Table.get? call.hash "level" = level, Table.get? call'.hash "level" = level'
  rintro (level | _)
  · simp only [Value.Alike.text_eq _ level]
    split
    · exact .log _ _ (.done .null)
    · exact .fail _
  · exact .log _ _ (.done .null)

theorem Registry.builtin_respectsLikeness {name : String} {helper : Helper}
    (h : Table.get? Registry.builtin.helpers name = some helper) : helper.RespectsLikeness := by
  have member := Table.mem_of_get? h
  simp only [Registry.builtin, List.mem_cons, Prod.mk.injEq, List.not_mem_nil, or_false] at member
  obtain ⟨-, rfl⟩ | ⟨-, rfl⟩ := member
  · exact Helper.lookup_respectsLikeness
  · exact Helper.log_respectsLikeness

/-- Scenes that differ only in the values that they render against, which are alike. -/
structure Scene.Alike (s s' : Scene) : Prop where
  template : s.template = s'.template
  functions : s.functions = s'.functions
  root : s.root.Alike s'.root
  respects : s.template.RespectsLikeness s.functions

/-! ### Branches -/

section

variable {body body' : Eval String} {inverse inverse' : Option (Eval String)}

/-- Branches that resemble each other, or are missing, one by one. -/
structure Branches.Resemble (b b' : Branches) : Prop where
  body : Option.Rel (Resembles Eq) b.body b'.body
  inverse : Option.Rel (Resembles Eq) b.inverse b'.inverse
  params : b.params = b'.params

theorem Branches.Resemble.empty : Branches.Resemble {} {} :=
  ⟨.none, .none, rfl⟩

theorem renderIn_resembles (h : Resembles Eq body body') {context context' : Option Value}
    (hc : Option.Rel Value.Alike context context') :
    Resembles Eq (renderIn context body) (renderIn context' body') := by
  cases hc with
  | none => exact h
  | some hc =>
      refine .get_bind fun m m' alike => ?_
      simp only [Value.Alike.same_eq hc alike.context]
      split
      · exact h m m' alike
      · refine Resembles.within (h.withContext hc) ?_ ?_ m m' alike
        · exact fun e e' inner => inner.pushScope alike.context
        · exact fun e e' inner => inner.popScope

theorem renderBranch_resembles {b b' : Option (Eval String)}
    (h : Option.Rel (Resembles Eq) b b') : Resembles Eq (renderBranch b) (renderBranch b') := by
  cases h with
  | none => exact .pure rfl
  | some h => exact h

namespace BranchCall.Alike

variable {call call' : BranchCall} {e e' : Env}

theorem names_eq (h : call.Alike call') (names : List String) :
    call.names names = call'.names names := by
  have params := h.params
  unfold BranchCall.names
  revert params
  generalize call.params = vs, call'.params = ws
  intro params
  cases params <;> rfl

theorem enter (h : call.Alike call') (he : e.Alike e') (names : List String) :
    (call.enter names e).Alike (call'.enter names e') := by
  rw [BranchCall.enter, BranchCall.enter, h.names_eq]
  have data := h.data
  revert data
  generalize call.data = data, call'.data = data'
  rintro (vars | _)
  · exact (he.setFrames (.cons vars he.frames)).bind _ h.params
  · exact he.bind _ h.params

theorem leave (h : call.Alike call') (he : e.Alike e') (names : List String)
    {frames frames' : List Fields} (hf : List.Forall₂ Value.AlikeFields frames frames') :
    (call.leave names frames e).Alike (call'.leave names frames' e') := by
  rw [BranchCall.leave, BranchCall.leave, h.names_eq, isSome_eq_of_rel h.data]
  split
  · exact (he.unbind _).setFrames hf
  · exact he.unbind _

end BranchCall.Alike

theorem Branches.render_resembles {b b' : Branches} (h : b.Resemble b') {call call' : BranchCall}
    (hc : call.Alike call') : Resembles Eq (b.render call) (b'.render call') := by
  have chosen : Option.Rel (Resembles Eq) (b.branch? call.branch) (b'.branch? call'.branch) := by
    rw [hc.branch]
    cases call'.branch with
    | body => exact h.body
    | inverse => exact h.inverse
  rw [Branches.render, Branches.render, h.params]
  revert chosen
  generalize b.branch? call.branch = chosen, b'.branch? call'.branch = chosen'
  rintro (body | _)
  · refine .get_bind fun m m' alike => ?_
    refine Resembles.within (renderIn_resembles body hc.context) ?_ ?_ m m' alike
    · exact fun e e' outer => hc.enter outer _
    · exact fun e e' inner => hc.leave inner _ alike.env.frames
  · exact .pure rfl

end

namespace Scene.Alike

variable {s s' : Scene}

theorem data? (h : s.Alike s') {e e' : Env} (he : e.Alike e') (name : String) :
    Option.Rel Value.Alike (s.data? e name) (s'.data? e' name) := by
  rw [Scene.data?, Scene.data?]
  split
  · exact .some h.root
  · exact he.special? 0 name

theorem run_resembles (h : s.Alike s') {b b' : Branches} (hb : b.Resemble b') {α : Type}
    {P : α → α → Prop} {action action' : Action α} (alike : action.Alike P action') :
    Resembles (ResultsAlike P) (action.run s b) (action'.run s' b') := by
  induction alike with
  | done related => exact .pure (.ok related)
  | fail cause => exact .pure (.error cause)
  | render call _ ih =>
      refine .attempt_bind (Branches.render_resembles hb call) fun answer answer' same => ?_
      rw [same.eq]
      exact ih _
  | getContext _ ih => exact .get_bind fun m m' alike => ih _ _ alike.context m m' alike
  | setContext value _ ih => exact .bind (.setContext value) fun _ _ _ => ih
  | getContexts _ ih =>
      refine .get_bind fun m m' alike => ih _ _ ?_ m m' alike
      exact List.rel_append (List.rel_reverse alike.env.scopes) (.cons alike.context .nil)
  | getData name _ ih =>
      exact .get_bind fun m m' alike => ih _ _ (h.data? alike.env name) m m' alike
  | log level message _ ih => exact .bind (.addEvent _) fun _ _ _ => ih

theorem invoke_resembles (h : s.Alike s') {helper : Helper} (respects : helper.RespectsLikeness)
    (name : String) {args args' : List Value} (hargs : List.Forall₂ Value.Alike args args')
    {hash hash' : Fields} (hhash : Value.AlikeFields hash hash') {b b' : Option Branches}
    (hb : Option.Rel Branches.Resemble b b') :
    Resembles Value.Alike (s.invoke name helper args hash b)
      (s'.invoke name helper args' hash' b') := by
  have given : (b.getD {}).Resemble (b'.getD {}) := by
    cases hb with
    | none => exact .empty
    | some hb => exact hb
  have calls : Invocation.Alike
      ⟨name, args, hash, (b.getD {}).body.isSome, (b.getD {}).params⟩
      ⟨name, args', hash', (b'.getD {}).body.isSome, (b'.getD {}).params⟩ :=
    ⟨rfl, hargs, hhash, isSome_eq_of_rel given.body, given.params⟩
  rw [invoke, invoke, hargs.length_eq, isSome_eq_of_rel hb]
  refine .bind (.addEvent _) fun _ _ _ => ?_
  refine .bind (h.run_resembles given (respects _ _ calls)) fun r r' alike => ?_
  cases alike with
  | ok alike => exact .pure alike
  | error cause => exact .throw _

end Scene.Alike

end Stencil
