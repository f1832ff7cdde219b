import Stencil.Proofs.Render.Sections

/-!
Sections about an iterable.

An iterable is walked as the list of its items is, so a section about it renders what the
section about the list does. The empty list is the exception: being empty is a property of
lists and objects, and no predicate looks into an iterable. One without items is walked all
the same, which gives the empty text and never the branch for an empty list.
-/

namespace Stencil

open Eval

/-- The forms of a section that walks a list. -/
inductive SectionForm
  | each
  | plain
  | inverted

namespace SectionForm

/-- The kind of a block of this form. -/
def kind (subject : Expr) : SectionForm → BlockKind
  | each => .each subject
  | plain => .value subject false
  | inverted => .value subject true

/-- The branch that is shown for an empty list. -/
def otherwise {α : Type} (body : α) (inverse : Option α) : SectionForm → Option α
  | each | plain => inverse
  | inverted => some body

/-- What a section of this form makes of a value that is not called. -/
def render (names : List String) (value : Value) (body : Eval String)
    (inverse : Option (Eval String)) : SectionForm → Eval String
  | each => renderSection true names value body inverse
  | plain => renderSection false names value body inverse
  | inverted => renderValue true names value body inverse

end SectionForm

section

variable {names : List String} {body : Eval String} {inverse : Option (Eval String)} {id : Nat}
  {items : List Value} {m : Machine}

/-! ### Walking -/

/-- Nothing to walk leaves everything as it is. -/
theorem iterate_nil (sparse : Bool) : (iterate names body sparse []).run.run m = (.ok "", m) := by
  rw [iterate, run_get_bind, run_within]
  rfl

/-- A list with items is not empty, as an iterable never is, and both are walked alike. -/
theorem renderSection_iterable (id : Nat) (each : Bool) (filled : items ≠ []) :
    renderSection each names (.iterable id items) body inverse =
      renderSection each names (.array items) body inverse := by
  have some_item : (Value.array items).isEmptyCollection = false := by
    simpa [Value.isEmptyCollection] using filled
  have never : (Value.iterable id items).isEmptyCollection = false := rfl
  simp [renderSection, some_item, never]

/-- Without items an iterable is walked like any other, to no effect. -/
theorem renderSection_no_items (id : Nat) (each : Bool) (inverse : Option (Eval String)) :
    (renderSection each names (.iterable id []) body inverse).run.run m = (.ok "", m) := by
  show (iterate names body false []).run.run m = _
  exact iterate_nil false

/-! ### The forms of a section -/

namespace SectionForm

/-- With items, every form of a section renders for an iterable what it renders for the list. -/
theorem render_iterable (form : SectionForm) (id : Nat) (filled : items ≠ []) :
    form.render names (.iterable id items) body inverse =
      form.render names (.array items) body inverse := by
  cases form with
  | each => exact renderSection_iterable id true filled
  | plain => exact renderSection_iterable id false filled
  | inverted =>
      have present : (Value.array items).isAbsent = false := by
        simpa [Value.isAbsent, Value.isEmptyCollection] using filled
      have never : (Value.iterable id items).isAbsent = false := rfl
      cases inverse with
      | none => simp [render, renderValue, present, never]
      | some inverse =>
          have walks : renderSection false names (.iterable id items) inverse none =
              renderSection false names (.array items) inverse none :=
            renderSection_iterable id false filled
          simpa [render, renderValue, present, never] using walks

/-- An iterable without items renders nothing, whatever the form. -/
theorem render_no_items (form : SectionForm) (id : Nat) (inverse : Option (Eval String)) :
    (form.render names (.iterable id []) body inverse).run.run m = (.ok "", m) := by
  cases form with
  | each => exact renderSection_no_items id true inverse
  | plain => exact renderSection_no_items id false inverse
  | inverted =>
      cases inverse with
      | none => rfl
      | some inverse =>
          have walks : (renderSection false names (.iterable id []) inverse none).run.run m =
              (.ok "", m) := renderSection_no_items id false none
          simpa [render, renderValue, Value.isAbsent, Value.isEmptyCollection] using walks

/-- The empty list selects the branch that the form has for it. -/
theorem render_empty_list (form : SectionForm) :
    form.render names (.array []) body inverse = renderBranch (form.otherwise body inverse) := by
  cases form with
  | each => rfl
  | plain => rfl
  | inverted => rfl

end SectionForm

/-- A block of one of the forms evaluates its subject and makes of the value what the form says. -/
theorem Scene.renderBlock_form {scene : Scene} {subject : Expr} {value : Value} {after : Machine}
    (form : SectionForm) (evaluated : (scene.eval subject).run.run m = (.ok value, after))
    (uncalled : ∀ id, value ≠ .callable id) :
    (scene.renderBlock (form.kind subject) names body inverse).run.run m =
      (form.render names value body inverse).run.run after := by
  cases form with
  | each =>
      show (scene.eval subject >>= _).run.run m = _
      rw [run_bind, evaluated]
      rfl
  | plain =>
      show (scene.eval subject >>= _).run.run m = _
      rw [run_bind, evaluated]
      cases value with
      | callable id => exact absurd rfl (uncalled id)
      | _ => rfl
  | inverted =>
      show (scene.eval subject >>= _).run.run m = _
      rw [run_bind, evaluated]
      cases value with
      | callable id => exact absurd rfl (uncalled id)
      | _ => rfl

end

/-- Wherever one subject gives an iterable and another the list of its items, a section about the
one renders, fails and leaves the machine as the section about the other does, if there is an item
or the section has no branch for an empty list. Without items the iterable renders nothing, and the
list renders that branch. -/
theorem Scene.iterable_walks_as_list (scene : Scene) (enter? : Option (Plan → Eval String))
    (form : SectionForm) (names : List String) (body : Plan) (inverse : Option Plan) (x y : Expr)
    (id : Nat) (items : List Value) (m after : Machine)
    (isIterable : (scene.eval x).run.run m = (.ok (.iterable id items), after))
    (isList : (scene.eval y).run.run m = (.ok (.array items), after)) :
    let rendered subject :=
      (scene.renderNode enter? (.block (form.kind subject) body inverse names)).run.run m
    (items ≠ [] ∨ form.otherwise body inverse = none → rendered x = rendered y) ∧
      (items = [] → rendered x = (.ok "", after) ∧
        rendered y = (renderBranch ((form.otherwise body inverse).map fun branch =>
          withInlines branch (scene.renderNodes enter? branch))).run.run after) := by
  intro rendered
  let render (branch : Plan) := withInlines branch (scene.renderNodes enter? branch)
  have node (subject : Expr) (value : Value)
      (evaluated : (scene.eval subject).run.run m = (.ok value, after))
      (uncalled : ∀ id, value ≠ .callable id) :
      rendered subject =
        (form.render names value (render body) (inverse.map render)).run.run after := by
    rw [← renderBlock_form form evaluated uncalled]
    cases inverse with
    | none => simp only [rendered, renderNode]; rfl
    | some inverse => simp only [rendered, renderNode]; rfl
  have iterable := node x _ isIterable nofun
  have list := node y _ isList nofun
  have chosen : form.otherwise (render body) (inverse.map render) =
      (form.otherwise body inverse).map render := by
    cases form <;> rfl
  have nothing : items = [] → rendered x = (.ok "", after) ∧
      rendered y = (renderBranch ((form.otherwise body inverse).map render)).run.run after := by
    rintro rfl
    rw [iterable, list, ← chosen]
    exact ⟨form.render_no_items id _, by rw [form.render_empty_list]⟩
  refine ⟨fun alike => ?_, nothing⟩
  by_cases filled : items = []
  · have branchless : form.otherwise body inverse = none := alike.resolve_left fun some_item =>
      some_item filled
    obtain ⟨left, right⟩ := nothing filled
    rw [left, right, branchless]
    rfl
  · rw [iterable, list, form.render_iterable id filled]

/-! ### Two templates -/

/-- One section about an iterable and one about a list. -/
def letters : String :=
  "\x7b\x7b#each xs\x7d\x7d\x7b\x7bthis\x7d\x7d\x7b\x7b/each\x7d\x7d\x7b\x7b#each ys\x7d\x7d\x7b\x7bthis\x7d\x7d\x7b\x7b/each\x7d\x7d"

/-- With the same items both sections show the same. -/
theorem letters_walk_alike :
    let items : List Value := [.string "p", .string "q"]
    let data : Value := .object [("xs", .iterable 0 items), ("ys", .array items)]
    let subject (name : String) : Expr := .path { levels := 0, segments := [name], source := name }
    let body : Plan := [.lookup (.path .this) .html]
    let outside : Machine := { env := { frames := [[]] }, context := data }
    ∃ t, (Registry.builtin.compile {} letters).result = .ok t ∧
      (t.render { data, functions := fun _ _ => .done .null }).result = .ok "pqpq" ∧
        ∃ scene : Scene, scene.template = t ∧
          let rendered (name : String) :=
            (scene.renderNode none
              (.block (SectionForm.each.kind (subject name)) body none [])).run.run outside
          rendered "xs" = rendered "ys" := by
  intro items data subject body outside
  have run : ((Registry.builtin.compile {} letters).result.toOption.any fun t =>
      (t.render { data, functions := fun _ _ => .done .null }).result.toOption == some "pqpq") =
        true := by
    decide +kernel
  obtain ⟨t, compiled, output⟩ := (Option.any_eq_true _ _).mp run
  let scene : Scene := { template := t, root := data, functions := fun _ _ => .done .null }
  have iterable : (scene.eval (subject "xs")).run.run outside =
      (.ok (.iterable 0 items), outside) := by
    simp only [subject, Scene.eval]
    rfl
  have list : (scene.eval (subject "ys")).run.run outside = (.ok (.array items), outside) := by
    simp only [subject, Scene.eval]
    rfl
  have alike := scene.iterable_walks_as_list none .each [] body none (subject "xs") (subject "ys")
    0 items outside outside iterable list
  exact ⟨t, eq_ok_of_toOption compiled, eq_ok_of_toOption (beq_iff_eq.mp output), scene, rfl,
    alike.1 (.inl (List.cons_ne_nil _ _))⟩

/-- A section with a branch for an empty list. -/
def maybeEmpty : String :=
  "\x7b\x7b#each xs\x7d\x7dA\x7b\x7belse\x7d\x7dE\x7b\x7b/each\x7d\x7d"

/-- The branch is shown for the empty list and not for an iterable that yields nothing. -/
theorem maybeEmpty_misses :
    ∃ t, (Registry.builtin.compile {} maybeEmpty).result = .ok t ∧ t.warnings = [] ∧
      let shown (xs : Value) :=
        (t.render { data := .object [("xs", xs)], functions := fun _ _ => .done .null }).result
      shown (.array []) = .ok "E" ∧ shown (.iterable 0 []) = .ok "" := by
  have run : ((Registry.builtin.compile {} maybeEmpty).result.toOption.any fun t =>
      let shown (xs : Value) :=
        (t.render { data := .object [("xs", xs)], functions := fun _ _ => .done .null }).result
      t.warnings.isEmpty && (shown (.array [])).toOption == some "E" &&
        (shown (.iterable 0 [])).toOption == some "") = true := by
    decide +kernel
  obtain ⟨t, compiled, run⟩ := (Option.any_eq_true _ _).mp run
  simp only [Bool.and_eq_true, beq_iff_eq] at run
  obtain ⟨⟨silent, list⟩, iterable⟩ := run
  exact ⟨t, eq_ok_of_toOption compiled, List.isEmpty_iff.mp silent, eq_ok_of_toOption list,
    eq_ok_of_toOption iterable⟩

end Stencil
