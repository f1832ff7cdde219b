import Stencil.Proofs.Compile.Injection
import Stencil.Proofs.Compile.Interpolations
import Stencil.Proofs.Text.Lines

/-!
The indentation of partials.

A partial that is alone on its line takes over what stands in front of it there: the layout cuts
that off the text before the tag, the tag hands it to the inclusion, and the inclusion puts it in
front of each line of what the partial renders. Since it is blank and has no line end, the lines
stay the same lines, and one indentation inside another is the two in a row.
-/

namespace Stencil

open Markup Text

/-! ### Indenting a text -/

theorem toList_indentLines (indent text : String) :
    (indentLines indent text).toList =
      (lines text.toList).flatMap fun line => indent.toList ++ line := by
  rw [indentLines]
  split
  · next empty =>
    have none : indent = "" := by simpa using empty
    simp [none, flatten_lines]
  · rw [String.toList_ofList]

theorem indentLines_nothing (indent : String) : indentLines indent "" = "" := by
  rw [← String.toList_inj, toList_indentLines]
  rfl

theorem lines_indentLines {indent : String} (h : '\n' ∉ indent.toList) (text : String) :
    lines (indentLines indent text).toList = (lines text.toList).map (indent.toList ++ ·) := by
  rw [toList_indentLines, lines_flatMap h]

theorem flatMap_drop_indentLines {indent : String} (h : '\n' ∉ indent.toList) (text : String) :
    (lines (indentLines indent text).toList).flatMap (·.drop indent.toList.length) =
      text.toList := by
  rw [lines_indentLines h, List.flatMap_map]
  simp [flatten_lines]

/-- Behind complete lines, a text is indented by itself. -/
theorem indentLines_append (indent : String) {front : String}
    (complete : front = "" ∨ ∃ s, front.toList = s ++ ['\n']) (back : String) :
    indentLines indent (front ++ back) = indentLines indent front ++ indentLines indent back := by
  rcases complete with rfl | ⟨s, ends⟩
  · rw [indentLines_nothing, String.empty_append, String.empty_append]
  · rw [← String.toList_inj]
    simp only [String.toList_append, toList_indentLines, ends, lines_append_lines,
      List.flatMap_append]

theorem indentLines_indentLines (outer : String) {inner : String} (h : '\n' ∉ inner.toList)
    (text : String) :
    indentLines outer (indentLines inner text) = indentLines (outer ++ inner) text := by
  rw [← String.toList_inj, toList_indentLines, lines_indentLines h, toList_indentLines,
    List.flatMap_map, String.toList_append]
  simp only [List.append_assoc]

/-- Indentations that are put in front one by one, the innermost first, are put there in a row. -/
theorem foldr_indentLines {indents : List String} (h : ∀ w ∈ indents, '\n' ∉ w.toList)
    (text : String) : indents.foldr indentLines text = indentLines (String.join indents) text := by
  induction indents with
  | nil => rfl
  | cons w indents ih =>
      obtain ⟨-, others⟩ := List.forall_mem_cons.mp h
      have joined : '\n' ∉ (String.join indents).toList := by
        rw [String.toList_join, List.mem_flatMap]
        rintro ⟨v, member, inside⟩
        exact others v member inside
      rw [List.foldr_cons, ih others, indentLines_indentLines w joined, String.join_cons]

/-! ### Rendering with an indentation -/

/-- The inclusion without its indentation. -/
def Inclusion.flush (call : Inclusion) : Inclusion :=
  { call with indent := "" }

theorem Eval.map_within {α β : Type} (f : α → β) (enter leave : Env → Env) (action : Eval α) :
    f <$> within enter leave action = within enter leave (f <$> action) := by
  funext m
  change ExceptT.map f (within enter leave action) m = within enter leave (ExceptT.map f action) m
  simp only [ExceptT.map, within, ExceptT.mk, ExceptT.run, bind, StateT.bind, StateT.run]
  obtain ⟨result, after⟩ := action { m with env := enter m.env }
  cases result <;> rfl

namespace Scene

variable (scene : Scene) (enter? : Option (Plan → Eval String)) (call : Inclusion)

theorem renderPartial_indents (plan : Plan) (block : Option Plan) :
    scene.renderPartial enter? call plan block =
      indentLines call.indent <$> scene.renderPartial enter? call.flush plan block := by
  cases enter? with
  | none => rfl
  | some enter =>
      simp only [renderPartial, map_bind, map_pure]
      rfl

theorem renderNamed_indents (name : String) (block : Option Plan) :
    scene.renderNamed enter? call name block =
      indentLines call.indent <$> scene.renderNamed enter? call.flush name block := by
  simp only [renderNamed, map_bind]
  refine bind_congr fun m => bind_congr fun _ => ?_
  cases scene.findPartial? m.env name with
  | some plan => exact renderPartial_indents scene enter? call plan block
  | none =>
      cases block with
      | some block => exact renderPartial_indents scene enter? call block none
      | none => rfl

theorem renderPartialBlock_indents :
    scene.renderPartialBlock enter? call =
      indentLines call.indent <$> scene.renderPartialBlock enter? call.flush := by
  simp only [renderPartialBlock, map_bind]
  refine bind_congr fun m => ?_
  cases m.env.blocks with
  | nil =>
      by_cases none : m.env.blockCount = 0
      · simp only [none, if_true, map_pure, indentLines_nothing]
      · simp only [none, if_false]
        rfl
  | cons block blocks =>
      simp only [renderPartial_indents scene enter? call, Eval.map_within]

/-- What is included with an indentation is what is included without it, indented. -/
theorem renderInclusion_indents (target : Target) (block : Option Plan) :
    scene.renderInclusion enter? call target block =
      indentLines call.indent <$> scene.renderInclusion enter? call.flush target block := by
  cases target with
  | embedded plan => exact renderPartial_indents scene enter? call plan block
  | named name => exact renderNamed_indents scene enter? call name block
  | dynamic e =>
      simp only [renderInclusion, map_bind]
      exact bind_congr fun name => renderNamed_indents scene enter? call name.text block
  | partialBlock => exact renderPartialBlock_indents scene enter? call

end Scene

/-! ### Where indentations come from -/

namespace Markup

variable (s : Settings)

/-- What the layout takes from the text in front of a tag. -/
def takenBefore (before : List Item) (raw : RawTag) (tag : Tag) (after : List Item) : List Char :=
  match before with
  | .text t :: more => t.drop (keptStop s more t (.tag raw tag :: after))
  | _ => []

/-- A partial is indented by what is taken from the text in front of it. -/
theorem indentBefore_eq (before : List Item) (raw : RawTag) (tag : Tag) (after : List Item) :
    indentBefore s before tag after =
      if tag.kind.isInclusion then takenBefore s before raw tag after else [] := by
  cases inclusion : tag.kind.isInclusion with
  | false => simp [indentBefore, inclusion]
  | true =>
      rw [if_pos rfl]
      cases before with
      | nil => exact ite_self []
      | cons item more =>
          cases item with
          | tag _ _ => exact ite_self []
          | text t =>
              simp only [takenBefore, keptStop, keepsIndent, inclusion, indentBefore,
                Bool.and_true, Bool.true_and]
              by_cases keeps : s.preventIndent
              · simp [keeps]
              · by_cases alone : standsAlone s (.text t :: more) tag after
                · simp [keeps, alone, drop_lastLine]
                · simp [keeps, alone]

end Markup

namespace Registry

variable (registry : Registry) (settings : Settings)

/-- The texts and tags of a source. -/
def itemsOf (source : String) : List Item :=
  ((readPieces registry.hasHelper
    (scan (Marks.ofDelimiters settings.delimiters) source.toList)).run {}).1

/-- A tag of a source captures an indentation: a partial takes it from the text in front of it, and
what is no partial, but includes one with a block, has none. -/
def Captures (source : String) (indent : String) : Prop :=
  ∃ before raw tag after,
    registry.itemsOf settings source = before.reverse ++ .tag raw tag :: after ∧
      indent.toList = if tag.kind.isInclusion then takenBefore settings before raw tag after else []

variable {registry settings} {source : String} {tag : Tag}

theorem captures_of_mem_tokensOf (here : .tag tag ∈ registry.tokensOf settings source) :
    registry.Captures settings source tag.indent := by
  have listed : .tag tag ∈ layout settings (registry.itemsOf settings source) := here
  obtain ⟨raw, read, before, after, items, rfl⟩ := of_mem_layout listed
  refine ⟨before, raw, read, after, items, ?_⟩
  rw [String.toList_ofList, indentBefore_eq settings before raw read after]

end Registry

/-! ### The inclusions of a template -/

mutual

/-- The inclusions in a node, at any depth. -/
def Node.included : Node → List Inclusion
  | .literal _ => []
  | .lookup _ _ => []
  | .helper _ _ => []
  | .block _ body none _ => Plan.included body
  | .block _ body (some inverse) _ => Plan.included body ++ Plan.included inverse
  | .inclusion call target none => call :: Target.included target
  | .inclusion call target (some block) =>
    call :: (Target.included target ++ Plan.included block)
  | .inlineDef _ plan => Plan.included plan

def Target.included : Target → List Inclusion
  | .embedded plan => Plan.included plan
  | .named _ | .dynamic _ | .partialBlock => []

def Plan.included : List Node → List Inclusion
  | [] => []
  | node :: nodes => Node.included node ++ Plan.included nodes

end

theorem Plan.mem_included {call : Inclusion} {plan : Plan} :
    call ∈ Plan.included plan ↔ ∃ node ∈ plan, call ∈ node.included := by
  induction plan with
  | nil => simp [Plan.included]
  | cons node nodes ih => simp [Plan.included, ih]

/-- The inclusions of a template, also in the partials that it finds by name. -/
def Template.included (t : Template) : List Inclusion :=
  Plan.included t.plan ++ t.partials.flatMap fun e => Plan.included e.2

/-- The inclusions in the node are as `Q` says. -/
abbrev Node.AllIncluded (Q : Inclusion → Prop) (node : Node) : Prop :=
  ∀ call ∈ node.included, Q call

variable {Q : Inclusion → Prop}

theorem Plan.all_included {plan : Plan} :
    Plan.All (Node.AllIncluded Q) plan ↔ ∀ call ∈ Plan.included plan, Q call := by
  constructor
  · intro all call inside
    obtain ⟨node, member, inside⟩ := Plan.mem_included.mp inside
    exact all node member call inside
  · intro all node member call inside
    exact all call (Plan.mem_included.mpr ⟨node, member, inside⟩)

namespace Node

theorem literal_included (text : String) : AllIncluded Q (.literal text) := by
  rw [AllIncluded, included]
  exact nofun

theorem helper_included (call : Call) (encoding : Encoding) :
    AllIncluded Q (.helper call encoding) := by
  rw [AllIncluded, included]
  exact nofun

theorem lookup_included (e : Expr) (encoding : Encoding) :
    AllIncluded Q (.lookup e encoding) := by
  rw [AllIncluded, included]
  exact nofun

theorem block_included {kind : BlockKind} {body : Plan} {inverse : Option Plan}
    {params : List String} (hb : Plan.All (AllIncluded Q) body)
    (hi : ∀ plan ∈ inverse, Plan.All (AllIncluded Q) plan) :
    AllIncluded Q (.block kind body inverse params) := by
  have hb := Plan.all_included.mp hb
  cases inverse with
  | none =>
      rw [AllIncluded, included]
      exact hb
  | some inverse =>
      rw [AllIncluded, included]
      exact List.forall_mem_append.mpr ⟨hb, Plan.all_included.mp (hi inverse rfl)⟩

theorem inclusion_included {call : Inclusion} {target : Target} {block : Option Plan}
    (here : Q call) (ht : ∀ call ∈ target.included, Q call)
    (hb : ∀ plan ∈ block, Plan.All (AllIncluded Q) plan) :
    AllIncluded Q (.inclusion call target block) := by
  cases block with
  | none =>
      rw [AllIncluded, included]
      exact List.forall_mem_cons.mpr ⟨here, ht⟩
  | some block =>
      rw [AllIncluded, included]
      refine List.forall_mem_cons.mpr ⟨here, List.forall_mem_append.mpr ⟨ht, ?_⟩⟩
      exact Plan.all_included.mp (hb block rfl)

end Node

/-! ### Compiled inclusions -/

/-- What the inclusions of a builder are indented by, its tags capture. -/
theorem BuildContext.upkeep_included {tidy : String → Prop} (ctx : BuildContext) {T : Tag → Prop}
    (known : ∀ tag, T tag → ∀ called, Q (inclusionOf tag called)) :
    ctx.Upkeep tidy (Node.AllIncluded Q) T where
  joined _ _ _ _ := Node.literal_included _
  inlineDef name plan all := by
    rw [Node.AllIncluded, Node.included]
    exact Plan.all_included.mp all
  interpolation tag raw _ :=
    (interpolation_closed ctx Node.helper_included Node.lookup_included tag raw).weaken
      fun _ closed _ => closed
  block tag _ body inverse inverted :=
    (block_closed ctx (fun _ _ _ _ => Node.block_included) tag body inverse inverted).weaken
      fun _ closed _ => closed
  rawBlock tag body _ :=
    (rawBlock_closed ctx (fun _ _ _ _ => Node.block_included) Node.literal_included tag
      body).weaken fun _ closed _ => closed
  inclusion tag name kind ht shown target block fits hb := by
    refine Node.inclusion_included (known tag ht shown) ?_ hb
    cases target with
    | embedded plan =>
        rw [Target.included]
        exact Plan.all_included.mp fits
    | _ =>
        rw [Target.included]
        exact nofun

namespace Registry

variable {registry : Registry} {settings : Settings} {source : String} {t : Template}

/-- The indentations of a template are captured in its source, or in that of a partial that is
compiled with it. -/
theorem compile_included (compiled : (registry.compile settings source).result = .ok t)
    {call : Inclusion} (inside : call ∈ t.included) :
    ∃ text, registry.CompiledWith settings source text ∧
      ∃ tag, .tag tag ∈ registry.tokensOf settings text ∧ call.indent = tag.indent := by
  let w : Workshop := { settings, registry }
  have upkeep : w.Upkeep (registry.CompiledWith settings source)
      (Node.AllIncluded fun call => ∃ text, registry.CompiledWith settings source text ∧
        ∃ tag, .tag tag ∈ registry.tokensOf settings text ∧ call.indent = tag.indent)
      (w.Tags (registry.CompiledWith settings source)) := by
    refine w.upkeep_of_tags Node.literal_included fun entered available => ?_
    refine (w.builder entered available).upkeep_included ?_
    rintro tag ⟨text, here, member⟩ called
    exact ⟨text, here, tag, member, rfl⟩
  obtain ⟨root, kept⟩ := compile_keeps upkeep compiled
  rcases List.mem_append.mp inside with inside | inside
  · exact Plan.all_included.mp root call inside
  · obtain ⟨e, member, inside⟩ := List.mem_flatMap.mp inside
    exact Plan.all_included.mp (kept e member) call inside

/-- Partials are indented line by line. Each inclusion of a compiled template has the indentation
that a tag captures, in the source or in a partial that is compiled with it; this is blank and has
no line end; and including is including without it and then indenting. Indenting puts a blank text
in front of every line, once, so that taking it away again gives the text back; nothing stays
nothing; what stands behind complete lines is indented by itself; and indentations that are put in
front one after the other are there in a row, however many. -/
theorem indentation_composes (registry : Registry) (settings : Settings) (source : String) :
    (∀ t, (registry.compile settings source).result = .ok t → ∀ call ∈ t.included,
      (∃ text, registry.CompiledWith settings source text ∧
        registry.Captures settings text call.indent) ∧
      isBlank call.indent.toList = true ∧ '\n' ∉ call.indent.toList ∧
      ∀ (scene : Scene) enter? target block,
        scene.renderInclusion enter? call target block =
          indentLines call.indent <$> scene.renderInclusion enter? call.flush target block) ∧
    (∀ w, isBlank w.toList = true →
      (∀ text, lines (indentLines w text).toList = (lines text.toList).map (w.toList ++ ·)) ∧
      (∀ text, (lines (indentLines w text).toList).flatMap (·.drop w.toList.length) =
        text.toList) ∧
      indentLines w "" = "" ∧
      ∀ front back, (front = "" ∨ ∃ s, front.toList = s ++ ['\n']) →
        indentLines w (front ++ back) = indentLines w front ++ indentLines w back) ∧
    (∀ v w, isBlank v.toList = true → isBlank w.toList = true → ∀ text,
      indentLines w (indentLines v text) = indentLines (w ++ v) text) ∧
    ∀ indents : List String, (∀ w ∈ indents, isBlank w.toList = true) → ∀ text,
      indents.foldr indentLines text = indentLines (String.join indents) text := by
  refine ⟨fun t compiled call inside => ?_, fun w blank => ?_, fun v w inner _ => ?_,
    fun indents blank => ?_⟩
  · obtain ⟨text, compiledWith, tag, member, indent⟩ := compile_included compiled inside
    have blank : isBlank call.indent.toList = true := by
      rw [indent]
      exact List.all_eq_true.mpr fun c => isIndent_of_mem_tokensOf member
    refine ⟨⟨text, compiledWith, ?_⟩, blank, not_mem_of_isBlank blank, ?_⟩
    · rw [indent]
      exact captures_of_mem_tokensOf member
    · exact fun scene enter? target block => scene.renderInclusion_indents enter? call target block
  · have line := not_mem_of_isBlank blank
    exact ⟨lines_indentLines line, flatMap_drop_indentLines line, indentLines_nothing w,
      fun front back complete => indentLines_append w complete back⟩
  · exact indentLines_indentLines w (not_mem_of_isBlank inner)
  · exact foldr_indentLines fun w member => not_mem_of_isBlank (blank w member)

/-- A list that includes its items, each behind a tab. -/
def itemized : Registry :=
  (Registry.builtin.registerPartial "list" "<ul>\n\t\x7b\x7b> item\x7d\x7d\n</ul>\n").registerPartial
    "item" "<li>\n</li>\n"

/-- What stands behind two blanks and a tab in the output stands behind a tab in the list, and
behind two blanks the list stands in the template. -/
theorem itemized_indented :
    let page := "\x20\x20\x7b\x7b> list\x7d\x7d\n"
    let input : Input := { data := .null, functions := fun _ _ => .done .null }
    ∃ t, (itemized.compile {} page).result = .ok t ∧
      (t.render input).result = .ok "  <ul>\n  \t<li>\n  \t</li>\n  </ul>\n" ∧
      t.included.map (·.indent) = ["  ", "\t"] ∧
      (∀ call ∈ t.included, ∃ text, itemized.CompiledWith {} page text ∧
        itemized.Captures {} text call.indent) ∧
      indentLines "  " (indentLines "\t" "<li>\n</li>\n") =
        indentLines "  \t" "<li>\n</li>\n" := by
  intro page input
  have run : ((itemized.compile {} page).result.toOption.any fun t =>
      (t.render input).result.toOption == some "  <ul>\n  \t<li>\n  \t</li>\n  </ul>\n" &&
        t.included.map (·.indent) == ["  ", "\t"]) = true := by
    decide +kernel
  obtain ⟨t, compiled, outcome⟩ := (Option.any_eq_true _ _).mp run
  have compiled := eq_ok_of_toOption compiled
  obtain ⟨rendered, indents⟩ := Bool.and_eq_true_iff.mp outcome
  obtain ⟨captured, -, pairs, -⟩ := indentation_composes itemized {} page
  exact ⟨t, compiled, eq_ok_of_toOption (beq_iff_eq.mp rendered), beq_iff_eq.mp indents,
    fun call inside => (captured t compiled call inside).1,
    pairs "\t" "  " (by decide) (by decide) "<li>\n</li>\n"⟩

end Registry

end Stencil
