import Stencil.Proofs.Render.Nesting

/-!
Output without markup.

What interpolation writes is encoded, so a character that could begin markup comes from the texts
of a template, or from data that is said to be encoded already. Here the data has no such part, and
no functions either, at any depth. That is an invariant of a render: every value that a render
comes to know is a part of the data or made by the template, and every text that it shows is put
together from encoded ones and from those of the plans.
-/

namespace Stencil

open Eval

/-! ### Characters -/

/-- The characters that encoded text does not contain. An ampersand begins every entity. -/
def Encoding.markup : Encoding → List Char
  | none => []
  | html => ['<', '>', '"', '\'']
  | htmlStrict => ['<', '>', '"', '\'', '\x60', '=']

/-- None of the characters stands in the text. -/
def Avoids (chars : List Char) (text : String) : Prop :=
  ∀ c ∈ text.toList, c ∉ chars

instance (chars : List Char) (text : String) : Decidable (Avoids chars text) :=
  List.decidableBAll (fun c => c ∉ chars) text.toList

variable {chars : List Char}

theorem Avoids.append {s t : String} (h : Avoids chars s) (h' : Avoids chars t) :
    Avoids chars (s ++ t) := by
  intro c member
  rw [String.toList_append, List.mem_append] at member
  exact member.elim (h c) (h' c)

namespace Encoding

variable {e : Encoding} {c : Char}

theorem entity_avoids {entity : String} (h : e.entity? c = some entity) :
    Avoids e.markup entity := by
  cases e with
  | none => cases h
  | html =>
      change htmlEntity? c = some entity at h
      unfold htmlEntity? at h
      repeat' split at h
      all_goals cases h
      all_goals decide
  | htmlStrict =>
      change strictEntity? c = some entity at h
      unfold strictEntity? at h
      repeat' split at h
      all_goals cases h
      all_goals decide

/-- Markup is not written as it is. -/
theorem isSome_entity? (h : c ∈ e.markup) : (e.entity? c).isSome = true := by
  have all : (e.markup.all fun c => (e.entity? c).isSome) = true := by
    cases e <;> decide
  exact List.all_eq_true.mp all c h

theorem encode_avoids (e : Encoding) (s : String) : Avoids e.markup (e.encode s) := by
  intro c member
  rw [encode, String.toList_ofList, encodeChars, List.mem_flatMap] at member
  obtain ⟨source, -, member⟩ := member
  rw [encodeChar] at member
  cases found : e.entity? source with
  | some entity =>
      rw [found] at member
      exact entity_avoids found c member
  | none =>
      rw [found, List.mem_singleton] at member
      subst member
      intro markup
      have := isSome_entity? markup
      rw [found] at this
      cases this

end Encoding

/-- Indentation in front of its lines brings nothing into a text. -/
theorem Avoids.indentLines {indent text : String} (h : Avoids chars indent)
    (h' : Avoids chars text) : Avoids chars (indentLines indent text) := by
  rw [Stencil.indentLines]
  split
  · exact h'
  · intro c member
    rw [String.toList_ofList, List.mem_flatMap] at member
    obtain ⟨line, here, member⟩ := member
    rcases List.mem_append.mp member with front | inside
    · exact h c front
    · refine h' c ?_
      rw [← Text.flatten_lines text.toList]
      exact List.mem_flatten_of_mem here inside

/-! ### Data -/

mutual

/-- No part of the value is text that is already encoded, or a function. -/
def Value.isInert : Value → Bool
  | .safe _ => false
  | .callable _ => false
  | .array items => Value.allInert items
  | .iterable _ items => Value.allInert items
  | .object fields => Value.fieldsInert fields
  | _ => true

def Value.allInert : List Value → Bool
  | [] => true
  | v :: vs => Value.isInert v && Value.allInert vs

def Value.fieldsInert : List (String × Value) → Bool
  | [] => true
  | (_, v) :: fields => Value.isInert v && Value.fieldsInert fields

end

namespace Value

theorem allInert_iff {items : List Value} :
    allInert items = true ↔ ∀ v ∈ items, v.isInert = true := by
  induction items with
  | nil => simp [allInert]
  | cons v items ih => rw [allInert, Bool.and_eq_true, ih, List.forall_mem_cons]

theorem fieldsInert_iff {fields : Fields} :
    fieldsInert fields = true ↔ Table.All (fun v => v.isInert = true) fields := by
  induction fields with
  | nil => simp [fieldsInert, Table.All]
  | cons e fields ih =>
      rw [fieldsInert, Bool.and_eq_true, ih, Table.All, Table.All, List.forall_mem_cons]

end Value

/-- Inert values, and texts without some characters. -/
def Invariant.inert (chars : List Char) : Invariant where
  value v := v.isInert = true
  text := Avoids chars
  null := rfl
  bool _ := rfl
  number _ := rfl
  string _ := rfl
  items _ h := Value.allInert_iff.mp h
  yielded _ _ h := Value.allInert_iff.mp h
  object _ := Value.fieldsInert_iff
  empty := nofun
  append _ _ := .append

/-- Interpolated data has no markup. -/
theorem Value.output_avoids (encoding : Encoding) {v : Value} (h : v.isInert = true) :
    Avoids encoding.markup (v.output encoding) := by
  cases v with
  | safe s => cases h
  | _ => exact encoding.encode_avoids _

/-! ### Helpers -/

/-- The registry has no helpers beyond the builtin ones. -/
structure Registry.OnlyBuiltin (registry : Registry) : Prop where
  helpers : ∀ e ∈ registry.helpers, e ∈ builtin.helpers
  blockHelpers : registry.blockHelpers = []

/-- The builtin helpers give parts of what they are given. -/
theorem Helper.lookup_upholds (I : Invariant) {call : Invocation} (h : ∀ v ∈ call.args, I.value v) :
    (Helper.lookup call).Upholds I I.value := by
  rw [Helper.lookup]
  split
  · next target key rest args =>
    have known : I.value target := h target (by rw [args]; exact .head _)
    cases found : target.get? key.text with
    | none => exact I.null
    | some v => exact I.member known found
  · trivial

theorem Helper.log_upholds (I : Invariant) (call : Invocation) :
    (Helper.log call).Upholds I I.value := by
  unfold Helper.log
  split
  · exact I.null
  · split
    · exact I.null
    · trivial

theorem Registry.lookup_or_log {helpers : Table Helper} (only : ∀ e ∈ helpers, e ∈ builtin.helpers)
    {name : String} {helper : Helper} (found : Table.get? helpers name = some helper) :
    helper = Helper.lookup ∨ helper = Helper.log := by
  have known := only _ (Table.mem_of_get? found)
  rw [builtin, List.mem_pair, Prod.mk.injEq, Prod.mk.injEq] at known
  exact known.imp And.right And.right

/-- With builtin helpers and no functions, all that is asked of a scene is that its root upholds the
invariant. -/
theorem Scene.upholds_of_builtin {I : Invariant} {scene : Scene}
    (helpers : ∀ e ∈ scene.template.helpers, e ∈ Registry.builtin.helpers)
    (blockHelpers : scene.template.blockHelpers = []) (noFunction : ∀ id, ¬I.value (.callable id))
    (root : I.value scene.root) : scene.Upholds I := by
  refine ⟨root, fun name helper found call args _ => ?_,
    fun id known => absurd known (noFunction id), fun name helper found => ?_⟩
  · obtain rfl | rfl := Registry.lookup_or_log helpers found
    · exact Helper.lookup_upholds I args
    · exact Helper.log_upholds I call
  · rw [blockHelpers] at found
    cases found

/-! ### Renders -/

/-- A render of inert data shows none of the characters that no plan of the template brings in. -/
theorem Template.render_avoids {template : Template} {input : Input}
    (helpers : ∀ e ∈ template.helpers, e ∈ Registry.builtin.helpers)
    (blockHelpers : template.blockHelpers = []) (plans : template.Upholds (.inert chars))
    (data : input.data.isInert = true) (seed : Table.All (fun v => v.isInert = true) input.seed)
    {text : String} (rendered : (template.render input).result = .ok text) : Avoids chars text := by
  let scene : Scene := { template, root := input.data, functions := input.functions }
  let machine : Machine := { env := { frames := [input.seed] }, context := input.data }
  have upholds : scene.Upholds (.inert chars) :=
    Scene.upholds_of_builtin helpers blockHelpers nofun data
  have start : machine.Upholds (.inert chars) (Surroundings.At (.inert chars) 0) :=
    ⟨⟨nofun, List.forall_mem_singleton.mpr seed, nofun, nofun, nofun, rfl⟩, data⟩
  have inactive : ([] : List Inclusion).length = 0 := rfl
  have concur := Scene.watchedPlan_concur upholds plans.2 (pure "") 0 (Nat.zero_add _) inactive
    plans.1 machine start
  exact concur.result text rendered

end Stencil
