import Stencil.Proofs.Expr.RoundTrip
import Stencil.Proofs.Render.Operations
import Stencil.Template.Compile

/-!
Paths that say that they begin at the current context.

A path may begin with `this` or a point and go on through members, and its members may be
written bare or in brackets, with points or slashes between them. The reader drops what the path
begins with. What is left is a path without it, and a block parameter hides the first member of
such a path. So the members are those of the current context unless a block parameter has the name
of the first one, and then the path goes on from its value.
-/

namespace Stencil

open Text Writing

namespace Path

/-! ### How members are written -/

/-- A segment writes a name: as it is when that needs no brackets and nothing in it ends a
segment, or in brackets. -/
inductive Names : List Char → String → Prop
  | bare {name : String} (bare : IsBare name) (point : '.' ∉ name.toList)
      (slash : '/' ∉ name.toList) : Names name.toList name
  | bracket {name : String} (fits : FitsBrackets name) : Names (bracket name) name

/-- A text writes members one after another, with a point or a slash before each but the
first. -/
inductive Chains : List Char → List String → Prop
  | last {segment : List Char} {name : String} (first : Names segment name) :
      Chains segment [name]
  | next {segment rest : List Char} {name : String} {names : List String} {c : Char}
      (first : Names segment name) (separates : c = '.' ∨ c = '/') (later : Chains rest names) :
      Chains (segment ++ c :: rest) (name :: names)

/-- The texts that make a path begin at the current context. -/
def origins : List (List Char) :=
  ["this.".toList, "this/".toList, "./".toList]

/-- A text leads from the current context through members. Where its first word is `this`, that
is no member but the context once more. -/
inductive Leads : List Char → List String → Prop
  | nowhere {text : List Char} (stays : text ∈ [[], "this".toList, ".".toList]) : Leads text []
  | members {text : List Char} {names : List String} (chain : Chains text names)
      (word : text ≠ "this".toList) (start : ∀ origin ∈ origins, ¬ origin <+: text) :
      Leads text names
  | again {origin rest : List Char} {names : List String} (stays : origin ∈ origins)
      (later : Leads rest names) : Leads (origin ++ rest) names

/-! ### Segments -/

namespace Names

variable {segment : List Char} {name : String}

theorem segmentName? (h : Names segment name) : segmentName? segment = some name.toList := by
  cases h with
  | bracket fits => exact segmentName?_bracket name
  | bare bare point slash =>
      have filled : name.toList ≠ [] := fun empty => bare.1 (String.toList_eq_nil_iff.mp empty)
      have legal : name.toList.any isReserved = false := by
        rw [List.any_eq_false]
        intro c member
        simp [bare.not_isReserved member]
      have open? : bracketed? name.toList = none := by
        unfold bracketed?
        split
        · next s start =>
          have bracket := bare.not_isReserved (c := '[') (by rw [start]; exact .head _)
          exact absurd bracket (by decide)
        · rfl
      simp [Path.segmentName?, open?, legal, filled]

/-- A segment begins with a character that no step begins with. -/
theorem start (h : Names segment name) : ∃ c rest, segment = c :: rest ∧ c ≠ '.' ∧ c ≠ '/' := by
  cases h with
  | bracket fits => exact ⟨'[', _, rfl, by decide, by decide⟩
  | bare bare point slash =>
      cases chars : name.toList with
      | nil => exact absurd (String.toList_eq_nil_iff.mp chars) bare.1
      | cons c rest =>
          rw [chars] at point slash
          exact ⟨c, rest, rfl, (List.ne_of_not_mem_cons point).symm,
            (List.ne_of_not_mem_cons slash).symm⟩

end Names

/-- Outside brackets, a text without points and brackets leaves the scanner where it is. -/
theorem hasParentStep_plain {text : List Char} (filled : text ≠ []) (point : '.' ∉ text)
    (bracket : '[' ∉ text) (last : Option Char) (rest : List Char) :
    ∃ c, c ≠ '.' ∧ hasParentStep false last (text ++ rest) = hasParentStep false (some c) rest := by
  induction text generalizing last with
  | nil => exact absurd rfl filled
  | cons c text ih =>
      simp only [List.mem_cons, not_or] at point bracket
      have step : hasParentStep false last (c :: text ++ rest) =
          hasParentStep false (some c) (text ++ rest) := by
        simp [hasParentStep, Ne.symm point.1, Ne.symm bracket.1]
      by_cases more : text = []
      · exact ⟨c, Ne.symm point.1, by rw [step, more, List.nil_append]⟩
      · obtain ⟨d, other, later⟩ := ih more point.2 bracket.2 (some c)
        exact ⟨d, other, step.trans later⟩

theorem splitFrom_plain {text : List Char} (point : '.' ∉ text) (slash : '/' ∉ text)
    (bracket : '[' ∉ text) (before rest : List Char) :
    splitFrom false before (text ++ rest) = splitFrom false (text.reverse ++ before) rest := by
  induction text generalizing before with
  | nil => rfl
  | cons c text ih =>
      simp only [List.mem_cons, not_or] at point slash bracket
      have step := ih point.2 slash.2 bracket.2 (c :: before)
      simp [splitFrom, Ne.symm point.1, Ne.symm slash.1, Ne.symm bracket.1, step]

namespace Names

variable {segment : List Char} {name : String}

theorem hasParentStep (h : Names segment name) (last : Option Char) (rest : List Char) :
    ∃ c, c ≠ '.' ∧
      Path.hasParentStep false last (segment ++ rest) = Path.hasParentStep false (some c) rest := by
  cases h with
  | bracket fits => exact ⟨']', by decide, hasParentStep_bracket fits last rest⟩
  | bare bare point slash =>
      have filled : name.toList ≠ [] := fun empty => bare.1 (String.toList_eq_nil_iff.mp empty)
      have bracket : '[' ∉ name.toList := fun member =>
        absurd (bare.not_isReserved member) (by decide)
      exact hasParentStep_plain filled point bracket last rest

theorem splitFrom (h : Names segment name) (rest : List Char) :
    Path.splitFrom false [] (segment ++ rest) = Path.splitFrom false segment.reverse rest := by
  cases h with
  | bracket fits => exact splitFrom_bracket fits rest
  | bare bare point slash =>
      have bracket : '[' ∉ name.toList := fun member =>
        absurd (bare.not_isReserved member) (by decide)
      simpa using splitFrom_plain point slash bracket [] rest

end Names

/-! ### Members -/

namespace Chains

variable {text : List Char} {names : List String}

theorem start (h : Chains text names) : ∃ c rest, text = c :: rest ∧ c ≠ '.' ∧ c ≠ '/' := by
  cases h with
  | last first => exact first.start
  | next first separates later =>
      obtain ⟨c, rest, start, point, slash⟩ := first.start
      exact ⟨c, _, by rw [start, List.cons_append], point, slash⟩

/-- No two points stand next to each other: a segment stands between them. By induction on the
members. -/
theorem hasParentStep (h : Chains text names) (last : Option Char) :
    Path.hasParentStep false last text = false := by
  induction h generalizing last with
  | @last segment name first =>
      obtain ⟨c, -, passed⟩ := first.hasParentStep last []
      rw [← List.append_nil segment, passed]
      rfl
  | @next segment rest name names c first separates later ih =>
      obtain ⟨d, other, passed⟩ := first.hasParentStep last (c :: rest)
      rw [passed]
      rcases separates with rfl | rfl <;> simp [Path.hasParentStep, other, ih]

/-- The text is cut at the separators, and each piece is the segment of its name. -/
theorem splitFrom (h : Chains text names) :
    (Path.splitFrom false [] text).mapM segmentName? = some (names.map String.toList) := by
  induction h with
  | @last segment name first =>
      have cut : Path.splitFrom false [] segment = [segment] := by
        simpa [Path.splitFrom] using first.splitFrom []
      simp [cut, first.segmentName?]
  | @next segment rest name names c first separates later ih =>
      have filled : segment.reverse.isEmpty = false := by
        obtain ⟨c, rest, start, -⟩ := first.start
        simp [start]
      have cut : Path.splitFrom false [] (segment ++ c :: rest) =
          segment :: Path.splitFrom false [] rest := by
        rw [first.splitFrom]
        rcases separates with rfl | rfl <;> simp [Path.splitFrom]
      simp [cut, first.segmentName?, ih]

end Chains

/-! ### Whole paths -/

theorem steps_origin {origin : List Char} (h : origin ∈ origins) (levels : Nat)
    (rest : List Char) : steps levels (origin ++ rest) = steps levels rest := by
  simp only [origins, List.mem_cons, List.not_mem_nil, or_false] at h
  rcases h with rfl | rfl | rfl <;> rfl

/-- Nothing of a text is dropped that begins with no step. -/
theorem steps_of_no_step {text : List Char} (parent : ¬ ['.', '.'] <+: text)
    (start : ∀ origin ∈ origins, ¬ origin <+: text) (levels : Nat) :
    steps levels text = (levels, text) := by
  simp only [origins, List.forall_mem_cons] at start
  obtain ⟨point, slash, here, -⟩ := start
  unfold steps
  split <;> simp_all

namespace Leads

variable {text : List Char} {names : List String}

/-- What is behind the steps writes the members. -/
theorem members_steps (h : Leads text names) :
    ∃ rest, steps 0 text = (0, rest) ∧ hasParentStep false none (Path.members rest) = false ∧
      (split (Path.members rest)).mapM segmentName? = some (names.map String.toList) := by
  induction h with
  | nowhere stays =>
      simp only [List.mem_cons, List.not_mem_nil, or_false] at stays
      rcases stays with rfl | rfl | rfl
      · exact ⟨[], rfl, rfl, rfl⟩
      · exact ⟨"this".toList, rfl, rfl, rfl⟩
      · exact ⟨['.'], rfl, rfl, rfl⟩
  | @members text names chain word start =>
      obtain ⟨c, rest, begins, point, -⟩ := chain.start
      have parent : ¬ ['.', '.'] <+: text := by
        rw [begins, List.cons_prefix_cons]
        exact fun both => point both.1.symm
      have kept : Path.members text = text := by
        have here : text ≠ ['.'] := by
          rw [begins]
          exact fun same => point (List.cons.inj same).1
        exact if_neg (by simpa using ⟨word, here⟩)
      have filled : text.isEmpty = false := by rw [begins]; rfl
      refine ⟨text, steps_of_no_step parent start 0, ?_, ?_⟩
      · rw [kept, chain.hasParentStep]
      · rw [kept, split, filled, if_neg Bool.false_ne_true, chain.splitFrom]
  | again stays later ih =>
      obtain ⟨rest, stepped, noStep, cut⟩ := ih
      exact ⟨rest, (steps_origin stays 0 _).trans stepped, noStep, cut⟩

/-- What a text says that leads through members. -/
theorem parse (h : Leads text names) {origin : List Char} (stays : origin ∈ origins)
    (site : Site) : Path.parse (origin ++ text) site =
      .ok { segments := names, source := String.ofList (origin ++ text) } := by
  obtain ⟨rest, stepped, noStep, cut⟩ := (h.again stays).members_steps
  have same : (names.map String.toList).map String.ofList = names := by
    simp [Function.comp_def]
  -- the first match asks whether the mark of special variables comes first
  have unmarked (body : List Char) : origin ++ text ≠ '@' :: body := by
    simp only [origins, List.mem_cons, List.not_mem_nil, or_false] at stays
    rcases stays with rfl | rfl | rfl <;> simp
  simp only [Path.parse, stepped, noStep, cut, same, Bool.false_eq_true, if_false]

end Leads

end Path

namespace Expr

/-- A path that says where it begins is neither a literal nor a call. -/
theorem yields_relative {isHelper : String → Bool} {site : Site} {origin rest : List Char}
    {p : Path} (stays : origin ∈ Path.origins) (parsed : Path.parse (origin ++ rest) site = .ok p) :
    (read isHelper site (origin ++ rest)).Yields (.path p) := by
  have noLiteral : literal? (origin ++ rest) = none := by
    simp only [Path.origins, List.mem_cons, List.not_mem_nil, or_false] at stays
    rcases stays with rfl | rfl | rfl
    · simp [literal?, Numeral.read?_eq_none, unquote?, Token.isQuote, Numeral.isDigit]
    · simp [literal?, Numeral.read?_eq_none, unquote?, Token.isQuote, Numeral.isDigit]
    · exact literal?_eq_none (.inr (.inr (.inl rfl))) _
  have noCall : parenthesized? (origin ++ rest) = none := by
    simp only [Path.origins, List.mem_cons, List.not_mem_nil, or_false] at stays
    rcases stays with rfl | rfl | rfl <;> rfl
  exact yields_parsed noLiteral noCall parsed

end Expr

/-! ### Resolving -/

/-- A path that says that it begins at the current context, and goes on through members, is read
and resolves to these members of the current context, unless a block parameter has the name of the
first of them. Then the path resolves to the other members of what the parameter is bound to. -/
theorem Scene.resolve_relative {origin rest : List Char} {names : List String}
    (stays : origin ∈ Path.origins) (leads : Path.Leads rest names) (isHelper : String → Bool)
    (site : Site) :
    ∃ p, Path.parse (origin ++ rest) site = .ok p ∧
      (Expr.read isHelper site (origin ++ rest)).Yields (.path p) ∧
        ∀ (scene : Scene) (m : Machine),
          ((∀ name ∈ names.head?, m.env.binding? name = none) →
              scene.resolve? m p = scene.members? m.context names) ∧
            ∀ name later v, names = name :: later → m.env.binding? name = some v →
              scene.resolve? m p = scene.members? v later := by
  have parsed := leads.parse stays site
  refine ⟨_, parsed, Expr.yields_relative stays parsed, fun scene m => ⟨fun unbound => ?_, ?_⟩⟩
  · cases names with
    | nil => simp [resolve?, start?]
    | cons name later =>
        have free := unbound name rfl
        simp [resolve?, start?, free]
  · rintro name later v rfl bound
    simp [resolve?, start?, bound]

/-- Brackets and a slash, and a block parameter with the name of the second member. -/
theorem author_resolves :
    let author : Value := .object [("full name", .object [("first", .string "Ann")])]
    let inside : Machine :=
      { env := { frames := [[]], bindings := [[("first", .string "Bob")]] }, context := author }
    let rest := bracket "full name" ++ '/' :: "first".toList
    "./".toList ∈ Path.origins ∧ Path.Leads rest ["full name", "first"] ∧
      ∃ p, Path.parse ("./".toList ++ rest) ⟨"author", 1⟩ = .ok p ∧
        ∀ scene : Scene, scene.resolve? inside p = some (.string "Ann") := by
  intro author inside rest
  have stays : "./".toList ∈ Path.origins := by decide
  have chain : Path.Chains rest ["full name", "first"] :=
    .next (.bracket (by decide)) (.inr rfl) (.last (.bare (by decide) (by decide) (by decide)))
  have leads : Path.Leads rest ["full name", "first"] := .members chain (by decide) (by decide)
  obtain ⟨p, parsed, -, resolved⟩ :=
    Scene.resolve_relative stays leads (fun _ => false) ⟨"author", 1⟩
  refine ⟨stays, leads, p, parsed, fun scene => ?_⟩
  rw [(resolved scene inside).1 (by simp [inside, Env.binding?, Table.get?])]
  simp [inside, author, Scene.members?, Scene.member?, Value.get?, Table.get?]

/-- A block parameter with the name of a member of the items. -/
def badges : String :=
  "\x7b\x7b#each xs as |name|\x7d\x7d\x7b\x7bthis.name\x7d\x7d \x7b\x7bthis/name\x7d\x7d \x7b\x7b./name\x7d\x7d\x7b\x7b/each\x7d\x7d"

/-- The name of the item is the member of the current context, and none of the three paths
resolves to it: each resolves to the item, which the block parameter names. -/
theorem badges_miss :
    let item : Value := .object [("name", .string "Ann")]
    let data : Value := .object [("xs", .array [item])]
    let inside : Machine :=
      { env := { frames := [[]], bindings := [[("name", item)]] }, context := item }
    (∀ origin ∈ Path.origins, ∃ p, Path.parse (origin ++ "name".toList) ⟨"name", 1⟩ = .ok p ∧
        ∀ scene : Scene, scene.members? inside.context ["name"] = some (.string "Ann") ∧
          scene.resolve? inside p = some item) ∧
      ∃ t, (Registry.builtin.compile {} badges).result = .ok t ∧ t.warnings = [] ∧
        (t.render { data, functions := fun _ _ => .done .null }).result =
          .ok "[object Object] [object Object] [object Object]" := by
  intro item data inside
  constructor
  · intro origin stays
    refine ⟨{ segments := ["name"], source := String.ofList (origin ++ "name".toList) }, ?_,
      fun scene => ⟨?_, ?_⟩⟩
    · simp only [Path.origins, List.mem_cons, List.not_mem_nil, or_false] at stays
      rcases stays with rfl | rfl | rfl <;> rfl
    · simp [inside, item, Scene.members?, Scene.member?, Value.get?, Table.get?]
    · simp [inside, Scene.resolve?, Scene.start?, Env.binding?, Table.get?, Scene.members?]
  · have run : ((Registry.builtin.compile {} badges).result.toOption.any fun t =>
        t.warnings.isEmpty &&
          (t.render { data, functions := fun _ _ => .done .null }).result.toOption ==
            some "[object Object] [object Object] [object Object]") = true := by
      decide +kernel
    obtain ⟨t, compiled, run⟩ := (Option.any_eq_true _ _).mp run
    simp only [Bool.and_eq_true, beq_iff_eq] at run
    obtain ⟨silent, output⟩ := run
    exact ⟨t, eq_ok_of_toOption compiled, List.isEmpty_iff.mp silent, eq_ok_of_toOption output⟩

end Stencil
