import Stencil.Proofs.Compile.Texts
import Stencil.Proofs.Render.Escaping

/-!
No markup from data.

Escaped output contains no character that could begin markup, when the texts of a template and of
its partials contain none, and nothing in them asks for output that is not escaped. Of what a plan
is made of, only the indentation of partials is not among these texts; it is blank.
-/

namespace Stencil

open Markup

/-! ### Indentation -/

namespace Markup

variable {s : Settings} {tag : Tag} {c : Char}

theorem isIndent_of_mem_indentBefore {before after : List Item}
    (h : c ∈ indentBefore s before tag after) : Text.isIndent c = true := by
  unfold indentBefore at h
  split at h
  · next alone =>
    split at h
    · next t more =>
      simp only [Bool.and_eq_true, standsAlone, clearBefore] at alone
      exact List.all_eq_true.mp alone.2.1.2.1 c h
    · cases h
  · cases h

theorem isIndent_of_mem_layout {items : List Item} (here : .tag tag ∈ layout s items)
    (h : c ∈ tag.indent.toList) : Text.isIndent c = true := by
  obtain ⟨raw, read, before, after, -, rfl⟩ := of_mem_layout here
  rw [String.toList_ofList] at h
  exact isIndent_of_mem_indentBefore h

end Markup

theorem Registry.isIndent_of_mem_tokensOf {registry : Registry} {settings : Settings}
    {source : String} {tag : Tag} {c : Char} (here : .tag tag ∈ registry.tokensOf settings source)
    (h : c ∈ tag.indent.toList) : Text.isIndent c = true :=
  isIndent_of_mem_layout here h

/-- Blanks are no markup. -/
theorem Encoding.not_mem_markup_of_isIndent (e : Encoding) {c : Char} (h : Text.isIndent c = true) :
    c ∉ e.markup := by
  have blank : Avoids e.markup " \t\r" := by
    cases e <;> decide
  simp only [Text.isIndent, Bool.or_eq_true, beq_iff_eq] at h
  refine blank c ?_
  simpa [or_assoc] using h

/-! ### Harmless sources -/

/-- A text without some characters, or a tag that does not ask for output that is not escaped. -/
def Markup.Token.isHarmless (chars : List Char) (isHelper : String → Bool) : Token → Bool
  | .text s => decide (Avoids chars s)
  | .tag t =>
    match t.kind with
    | .interpolation raw => !raw
    | .opening _ => !isHelper t.content.head
    | .alternative chained => !chained || !isHelper t.content.head
    | .rawBlock body => decide (Avoids chars body) && !isHelper t.content.head
    | _ => true

/-- The texts of the source contain no markup, no tag is a raw interpolation, and no helper is used
as a block. -/
def Registry.isHarmless (registry : Registry) (settings : Settings) (source : String) : Bool :=
  (registry.tokensOf settings source).all
    (Token.isHarmless settings.encoding.markup registry.hasHelper)

theorem Markup.Token.upholds_of_isHarmless {chars : List Char} {isHelper : String → Bool}
    {tag : Tag} (h : isHarmless chars isHelper (.tag tag) = true)
    (indent : Avoids chars tag.indent) : tag.Upholds (.inert chars) isHelper := by
  unfold isHarmless at h
  refine ⟨?_, ?_, ?_, fun s => indent.indentLines⟩
  · intro kind
    simp [kind] at h
  · intro name called
    unfold Tag.blockHead? at called
    split at called
    all_goals cases called
    all_goals next kind => simp_all
  · intro text kind
    simp only [kind, Bool.and_eq_true, decide_eq_true_eq] at h
    exact h.1

theorem Registry.tidy_of_isHarmless {registry : Registry} {settings : Settings} {source : String}
    (h : registry.isHarmless settings source = true) :
    ({ settings, registry : Workshop }).Tidy (.inert settings.encoding.markup) source := by
  intro token member
  have harmless := List.all_eq_true.mp h token member
  cases token with
  | text s =>
      have avoids : Avoids settings.encoding.markup s := of_decide_eq_true harmless
      exact avoids
  | tag tag =>
      refine Token.upholds_of_isHarmless harmless fun c inside => ?_
      exact Encoding.not_mem_markup_of_isIndent _ (isIndent_of_mem_tokensOf member inside)

/-! ### Whole calls -/

namespace Registry

variable {registry : Registry} {settings : Settings} {source : String} {template : Template}
  {input : Input} {text : String}

/-- A template is compiled from harmless sources, its own and those of the partials that are
compiled with it, with no helpers beyond the builtin ones. If neither the data nor the seed holds
text that is already encoded or a function, at any depth, then no markup shows when it is
rendered: none of `< > " '` for the encoding `html`, and neither these nor the backtick nor `=` for
`htmlStrict`. -/
theorem output_without_markup (builtin : registry.OnlyBuiltin)
    (harmless : registry.isHarmless settings source = true)
    (partials : ∀ name ∈ registry.compiledPartials settings source,
      ∀ text ∈ registry.partial? name, registry.isHarmless settings text = true)
    (compiled : (registry.compile settings source).result = .ok template)
    (data : input.data.isInert = true) (seed : Table.All (fun v => v.isInert = true) input.seed)
    (rendered : (template.render input).result = .ok text) :
    Avoids settings.encoding.markup text := by
  obtain ⟨builtinHelpers, noBlockHelpers⟩ := builtin
  obtain ⟨-, -, -, helpers, blockHelpers, -⟩ := of_compile compiled
  have inert (id : Nat) : ¬(Invariant.inert settings.encoding.markup).value (.callable id) := nofun
  have plans : template.Upholds (.inert settings.encoding.markup) :=
    compile_upholds inert (fun v hv => v.output_avoids _ hv) (tidy_of_isHarmless harmless)
      (fun name member text here => tidy_of_isHarmless (partials name member text here)) template
      compiled
  rw [← helpers] at builtinHelpers
  exact Template.render_avoids builtinHelpers (blockHelpers.trans noBlockHelpers) plans data seed
    rendered

/-- The guests of a page, each with the partial `guest`, which is indented. -/
def guests : Registry :=
  Registry.builtin.registerPartial "guest"
    "\x7b\x7b@key\x7d\x7d: \x7b\x7bthis\x7d\x7d, \x7b\x7blookup ../of @key\x7d\x7d\n"

def guestList : String :=
  "\x7b\x7b#each names\x7d\x7d\n  \x7b\x7b> guest\x7d\x7d\n\x7b\x7b/each\x7d\x7d"

/-- Names in the data are written as entities. -/
theorem guestList_output :
    let data : Value := .object
      [("names", .array [.string "<b>", .string "O'Brien"]),
        ("of", .array [.array [.string "\"", .bool true], .null])]
    let input : Input := { data, functions := fun _ _ => .done .null }
    ∃ template, (guests.compile {} guestList).result = .ok template ∧
      (template.render input).result = .ok
        "  0: &lt;b&gt;, &quot;,true\n  1: O&#039;Brien, \n" ∧
      Avoids ['<', '>', '"', '\''] "  0: &lt;b&gt;, &quot;,true\n  1: O&#039;Brien, \n" := by
  intro data input
  have run : ((guests.compile {} guestList).result.toOption.any fun t =>
      (t.render input).result.toOption ==
        some "  0: &lt;b&gt;, &quot;,true\n  1: O&#039;Brien, \n") = true := by decide +kernel
  obtain ⟨template, compiled, rendered⟩ := (Option.any_eq_true _ _).mp run
  have compiled := eq_ok_of_toOption compiled
  have rendered := eq_ok_of_toOption (beq_iff_eq.mp rendered)
  have only : guests.OnlyBuiltin := ⟨fun _ member => member, rfl⟩
  have seed : Table.All (fun v => v.isInert = true) input.seed := List.forall_mem_nil _
  exact ⟨template, compiled, rendered, output_without_markup only (by decide +kernel)
    (by decide +kernel) compiled (by decide +kernel) seed rendered⟩

end Registry

end Stencil
