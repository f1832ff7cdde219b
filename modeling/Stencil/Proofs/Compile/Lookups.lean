import Stencil.Proofs.Compile.Literals
import Stencil.Proofs.Compile.Registering
import Stencil.Proofs.Encoding
import Stencil.Proofs.Expr.Extending
import Stencil.Proofs.Render.Positions

/-!
The helper `lookup` and paths.

A member can be asked for in two ways: the helper `lookup` is given a path and the name as a text,
or the name stands in brackets behind the path. Both tags are read as what they say, whatever the
name is, and in every state of a render both find the same member. The path goes one way further:
where members may be lengths it finds the length of a list or a text, and the helper does not.
-/

namespace Stencil

open Text Writing Token

/-! ### Tokens -/

/-- A token by itself that is read as a path with members, as an argument too. -/
structure Path.IsArgument (token : List Char) (p : Path) : Prop where
  complete : IsComplete token
  positional : Expr.named? token = none
  noLiteral : Expr.literal? token = none
  parsed : ∀ site, Path.parse token site = .ok p
  named : p.segments ≠ []

/-- A token by itself that writes a text between quotes. -/
structure Expr.IsQuoted (token : List Char) (text : String) : Prop where
  complete : IsComplete token
  unquoted : Expr.unquote? token = some text.toList

/-- The token that names a member behind a path. -/
def memberToken (token : List Char) (key : String) : List Char :=
  token ++ '.' :: bracket key

theorem Token.IsComplete.append_kept {token more : List Char} (h : IsComplete token)
    (kept : IsKept more) : IsComplete (token ++ more) := by
  obtain ⟨⟨c, rest, rfl, white⟩, s, ran, opened, outside⟩ := h
  obtain ⟨last, ran'⟩ := kept s opened
  refine ⟨⟨c, rest ++ more, rfl, white⟩, _, ?_, opened.after last, outside⟩
  rw [State.run_append, ran, Option.bind_some, ran']

theorem Path.IsArgument.memberToken {token : List Char} {p : Path} {key : String}
    (argument : p.IsArgument token) (fits : FitsBrackets key) :
    IsComplete (memberToken token key) := by
  have point : IsKept ['.'] := .of_isPlain (by decide)
  exact argument.complete.append_kept (point.append (.bracket fits))

/-- A path is not taken for block parameters. -/
theorem Path.IsArgument.isPart {token : List Char} {p : Path} (argument : p.IsArgument token) :
    IsPart token := by
  refine ⟨argument.complete, fun bar => ?_⟩
  obtain ⟨rest, rfl⟩ := List.head?_eq_some_iff.mp bar
  have legal : Path.IsLegal ('|' :: rest) := fun site => ⟨p, argument.parsed site⟩
  exact absurd (legal.start (by decide)) (by decide)

namespace Expr

theorem IsQuoted.start {token : List Char} {text : String} (quoted : IsQuoted token text) :
    ∃ quote rest, token = quote :: rest ∧ (quote = '"' ∨ quote = '\'') := by
  have unquoted := quoted.unquoted
  unfold unquote? at unquoted
  split at unquoted
  · next quote rest =>
    split at unquoted
    · next quotes =>
      have either : quote = '"' ∨ quote = '\'' := by
        simp only [isQuote, Bool.and_eq_true, Bool.or_eq_true, beq_iff_eq] at quotes
        exact quotes.1
      exact ⟨quote, rest, rfl, either⟩
    · cases unquoted
  · cases unquoted

theorem IsQuoted.isPart {token : List Char} {text : String} (quoted : IsQuoted token text) :
    IsPart token := by
  refine ⟨quoted.complete, ?_⟩
  obtain ⟨quote, rest, rfl, rfl | rfl⟩ := quoted.start <;> simp

theorem IsQuoted.named? {token : List Char} {text : String} (quoted : IsQuoted token text) :
    named? token = none := by
  obtain ⟨quote, rest, rfl, rfl | rfl⟩ := quoted.start <;> rfl

theorem IsQuoted.literal? {token : List Char} {text : String} (quoted : IsQuoted token text) :
    literal? token = some (.string text) := by
  have noNumeral : Numeral.read? token = none := by
    obtain ⟨quote, rest, rfl, rfl | rfl⟩ := quoted.start <;>
      exact Numeral.read?_eq_none (by decide) (by decide) rest
  rw [Expr.literal?, noNumeral, quoted.unquoted]
  simp

/-- No literal ends in a bracket. -/
theorem literal?_concat_bracket (text : List Char) : literal? (text ++ [']']) = none := by
  have noNumeral : Numeral.read? (text ++ [']']) = none := by
    by_contra read
    obtain ⟨n, found⟩ := Option.ne_none_iff_exists'.mp read
    have marks := List.all_eq_true.mp (Numeral.of_read? found) ']' (by simp)
    exact absurd marks (by decide)
  have noQuote : unquote? (text ++ [']']) = none := by
    cases text with
    | nil => rfl
    | cons c text =>
        by_cases bracket : c = ']'
        · subst bracket
          rfl
        · simp [unquote?, Ne.symm bracket]
  have noWord {word : List Char} (other : word.getLast? ≠ some ']') : text ++ [']'] ≠ word := by
    rintro rfl
    simp at other
  rw [literal?, noNumeral, noQuote]
  simp [noWord]

end Expr

/-! ### Reading -/

/-- What the tag says that calls `lookup`. -/
def lookupText (token quoted : List Char) : List Char :=
  "lookup".toList ++ spaced [token, quoted]

/-- The node of a tag that calls `lookup`; `source` is the name as it is written. -/
def lookupNode (p : Path) (key source : String) (encoding : Encoding) : Node :=
  .helper { callee := .helper "lookup", args := [.path p, .literal (.string key) source], hash := [] }
    encoding

/-- The node of a tag that names the member. -/
def memberNode (p : Path) (key : String) (encoding : Encoding) : Node :=
  .lookup (.path (p.extend key)) encoding

/-- A tag that says the text is read without a complaint, and becomes the node. -/
def BuildContext.Becomes (ctx : BuildContext) (raw : Bool) (text : List Char) (node : Node) :
    Prop :=
  ∀ site, ∃ said, (Content.read ctx.isHelper site text).Yields said ∧
    ∀ tag : Markup.Tag, tag.site = site → tag.content = said →
      (ctx.interpolation tag raw).Yields (some node)

section

variable {token quoted : List Char} {p : Path} {key : String}

theorem yields_lookupText (argument : p.IsArgument token) (text : Expr.IsQuoted quoted key)
    (isHelper : String → Bool) (site : Site) :
    (Content.read isHelper site (lookupText token quoted)).Yields
      { head := "lookup"
        params := [.path p, .literal (.string key) (String.ofList quoted)] } := by
  have head : IsComplete "lookup".toList :=
    (IsToken.of_isPlain (by decide) (by decide) (by decide)).isComplete
  have parts : ∀ t ∈ [token, quoted], IsPart t :=
    List.forall_mem_cons.mpr ⟨argument.isPart, List.forall_mem_singleton.mpr text.isPart⟩
  have noCall : Expr.parenthesized? token = none :=
    Path.IsLegal.not_parenthesized fun site => ⟨p, argument.parsed site⟩
  have arguments : (Expr.readArguments isHelper site [] [token, quoted]).Yields
      ([.path p, .literal (.string key) (String.ofList quoted)], []) := by
    refine Expr.yields_arguments_cons argument.positional
      (Expr.yields_parsed argument.noLiteral noCall (argument.parsed site)) ?_
    refine Expr.yields_arguments_cons text.named? (Expr.yields_literal text.literal?) ?_
    rw [Expr.readArguments]
    exact .pure _
  rw [Content.read, lookupText, Expr.tokens_parts head parts]
  refine .bind arguments ?_
  simp only [List.isEmpty_nil, Bool.not_true, Bool.false_eq_true, if_false]
  exact .bind (.pure _) (.pure _)

theorem yields_memberToken (argument : p.IsArgument token) (fits : FitsBrackets key)
    (isHelper : String → Bool) (site : Site) :
    (Expr.read isHelper site (memberToken token key)).Yields (.path (p.extend key)) := by
  have parsed (site : Site) : Path.parse (memberToken token key) site = .ok (p.extend key) :=
    Path.parse_extend (argument.parsed site) argument.named fits site
  have ends : memberToken token key = token ++ '.' :: '[' :: key.toList ++ [']'] := by
    simp [memberToken, bracket]
  refine Expr.yields_parsed ?_ ?_ (parsed site)
  · rw [ends]
    exact Expr.literal?_concat_bracket _
  · exact Path.IsLegal.not_parenthesized fun site => ⟨_, parsed site⟩

/-- Both tags become their nodes. -/
theorem becomes_nodes (argument : p.IsArgument token) (text : Expr.IsQuoted quoted key)
    (fits : FitsBrackets key) {ctx : BuildContext} (raw : Bool)
    (known : ctx.isHelper "lookup" = true)
    (unknown : ctx.isHelper (String.ofList (memberToken token key)) = false) :
    let encoding := if raw then .none else ctx.settings.encoding
    ctx.Becomes raw (lookupText token quoted)
        (lookupNode p key (String.ofList quoted) encoding) ∧
      ctx.Becomes raw (memberToken token key) (memberNode p key encoding) := by
  intro encoding
  obtain ⟨style, styled⟩ := Option.isSome_iff_exists.mp known
  have noStyle : ctx.style? (String.ofList (memberToken token key)) = none := by
    simpa [BuildContext.isHelper] using unknown
  constructor
  · refine fun site => ⟨_, yields_lookupText argument text _ site, fun tag _ said => ?_⟩
    have called := @BuildContext.interpolation_helper ctx tag style raw
      (by rw [said]; exact styled) (by rw [said]; exact (by decide : "lookup" ≠ ""))
    rw [BuildContext.callOf, said] at called
    exact called
  · refine fun site => ⟨_, Content.yields_head (argument.memberToken fits) _ site,
      fun tag _ said => ?_⟩
    refine BuildContext.interpolation_lookup raw (by rw [said]; exact noStyle)
      (by rw [said]; exact ⟨rfl, rfl⟩) ?_ ?_
    · rw [said]
      simp [memberToken]
    · rw [said, String.toList_ofList]
      exact yields_memberToken argument fits _ _

end

/-! ### Resolving -/

theorem Value.get?_length {v : Value} {n : Nat} (h : v.length? = some n) :
    v.get? "length" = none := by
  cases v with
  | array items =>
      have noIndex : Numeral.count? "length".toList = none := by decide
      rw [Value.get?, noIndex]
      rfl
  | object fields => cases h
  | _ => rfl

namespace Scene

variable (scene : Scene)

theorem members?_concat (v : Value) (names : List String) (key : String) :
    scene.members? v (names ++ [key]) =
      (scene.members? v names).bind fun v => scene.member? v key := by
  induction names generalizing v with
  | nil => cases h : scene.member? v key <;> simp [members?, h]
  | cons name names ih =>
      rw [List.cons_append, members?, members?, Option.bind_assoc]
      exact Option.bind_congr fun member _ => ih member

theorem start?_extend (m : Machine) {p : Path} (named : p.segments ≠ []) (key : String) :
    scene.start? m (p.extend key) =
      (scene.start? m p).map fun (v, names) => (v, names ++ [key]) := by
  obtain ⟨name, names, segments⟩ := List.exists_cons_of_ne_nil named
  simp only [start?, Path.extend, segments, List.cons_append]
  split
  · split
    · rfl
    · rw [Option.map_map]
      rfl
  · split
    · rw [Option.map_map]
      rfl
    · split <;> rfl

/-- A path with one more member names that member of what the path names. -/
theorem resolve?_extend (m : Machine) {p : Path} (named : p.segments ≠ []) (key : String) :
    scene.resolve? m (p.extend key) =
      (scene.resolve? m p).bind fun v => scene.member? v key := by
  rw [resolve?, resolve?, start?_extend scene m named, Option.bind_map, Option.bind_assoc]
  exact Option.bind_congr fun start _ => members?_concat scene start.1 start.2 key

/-- The length that the path with one more member names: that of a list or a text, if members may
be lengths. -/
def length? (m : Machine) (p : Path) (key : String) : Option Nat :=
  if scene.template.settings.propertyAccess && key == "length" then
    (scene.resolve? m p).bind Value.length?
  else none

variable {scene} {m : Machine} {p : Path} {key : String}

/-- Where the path names a length, the member that a key asks for is not there. -/
theorem member?_of_length? {n : Nat} (h : scene.length? m p key = some n) :
    ∃ v, scene.resolve? m p = some v ∧ v.get? key = none ∧
      scene.member? v key = some (.ofNat n) := by
  rw [length?] at h
  split at h
  · next counts =>
    obtain ⟨v, found, length⟩ := Option.bind_eq_some_iff.mp h
    obtain ⟨-, rfl⟩ : _ ∧ key = "length" := by simpa using counts
    have missing := Value.get?_length length
    refine ⟨v, found, missing, ?_⟩
    simp only [member?, missing]
    rw [if_pos counts, length]
    rfl
  · cases h

/-- Otherwise both ask the value in the same way. -/
theorem member?_of_not_length? (h : scene.length? m p key = none) {v : Value}
    (found : scene.resolve? m p = some v) : scene.member? v key = v.get? key := by
  rw [length?, found] at h
  cases member : v.get? key with
  | some member' => simp only [member?, member]
  | none =>
      simp only [member?, member]
      split
      · next counts =>
        rw [if_pos counts] at h
        exact congrArg (Option.map Value.ofNat) h
      · rfl

/-! ### Rendering -/

/-- What the helper shows: the member of the value that the path names. -/
theorem renderNode_lookupNode (builtin : Table.get? scene.template.helpers "lookup" =
      some Helper.lookup) (enter? : Option (Plan → Eval String)) (source : String)
    (encoding : Encoding) :
    ((scene.renderNode enter? (lookupNode p key source encoding)).run.run m).1 =
      .ok (((((scene.resolve? m p).getD .null).get? key).getD .null).output encoding) := by
  simp only [renderNode, lookupNode, evalCall, evalArgs, evalHash, eval, applyCallee, builtin]
  rfl

/-- What the path shows, unless it names a function. -/
theorem renderNode_memberNode (lax : scene.template.settings.strict = false)
    (passive : ∀ id, scene.resolve? m (p.extend key) ≠ some (.callable id))
    (enter? : Option (Plan → Eval String)) (encoding : Encoding) :
    ((scene.renderNode enter? (memberNode p key encoding)).run.run m).1 =
      .ok (((scene.resolve? m (p.extend key)).getD .null).output encoding) := by
  simp only [renderNode, memberNode, lookup]
  rw [bind_assoc, Eval.run_get_bind]
  cases found : scene.resolve? m (p.extend key) with
  | none =>
      simp only [lax]
      rfl
  | some v =>
      cases v with
      | callable id => exact absurd found (passive id)
      | _ => rfl

theorem output_null (encoding : Encoding) : Value.null.output encoding = "" := by
  cases encoding <;> rfl

/-- A text is not encoded as nothing. -/
theorem encode_ne_nothing (encoding : Encoding) {s : String} (filled : s ≠ "") :
    encoding.encode s ≠ "" := by
  intro nothing
  have same := congrArg encoding.decode nothing
  have empty : encoding.decode "" = "" := encoding.decode_encode ""
  rw [encoding.decode_encode, empty] at same
  exact filled same

theorem output_length (encoding : Encoding) (n : Nat) :
    (Value.ofNat n).output encoding = encoding.encode (toString n) :=
  congrArg encoding.encode (Value.text_ofNat n)

/-- The tag that calls `lookup` with a path and a quoted key, and the tag of the path with the key
in brackets behind it, are read as what they say. Whatever the key is, in every state of a render
that is not strict, and where the path names no function, both show the same text, unless the key
is `length`, members may be lengths, and the path names a list or a text: then the path shows its
length, and the helper nothing. -/
theorem lookup_agrees {token quoted : List Char} {p : Path} {key : String}
    (argument : p.IsArgument token) (text : Expr.IsQuoted quoted key) (fits : FitsBrackets key) :
    let source := String.ofList quoted
    (∀ (ctx : BuildContext) (raw : Bool), ctx.isHelper "lookup" = true →
      ctx.isHelper (String.ofList (memberToken token key)) = false →
        let encoding := if raw then .none else ctx.settings.encoding
        ctx.Becomes raw (lookupText token quoted) (lookupNode p key source encoding) ∧
          ctx.Becomes raw (memberToken token key) (memberNode p key encoding)) ∧
    ∀ (scene : Scene) (m : Machine) (enter? : Option (Plan → Eval String)) (encoding : Encoding),
      scene.template.settings.strict = false →
      Table.get? scene.template.helpers "lookup" = some Helper.lookup →
      (∀ id, scene.resolve? m (p.extend key) ≠ some (.callable id)) →
        let asked := ((scene.renderNode enter? (lookupNode p key source encoding)).run.run m).1
        let named := ((scene.renderNode enter? (memberNode p key encoding)).run.run m).1
        (scene.length? m p key = none → ∃ shown, asked = .ok shown ∧ named = .ok shown) ∧
          ∀ n, scene.length? m p key = some n →
            asked = .ok "" ∧ named = .ok (encoding.encode (toString n)) ∧ asked ≠ named := by
  refine ⟨fun ctx raw => becomes_nodes argument text fits raw, ?_⟩
  intro scene m enter? encoding lax builtin passive asked named
  have asks : asked = _ := renderNode_lookupNode builtin enter? (String.ofList quoted) encoding
  have names : named = _ := renderNode_memberNode lax passive enter? encoding
  rw [resolve?_extend scene m argument.named] at names
  constructor
  · intro other
    refine ⟨_, asks, names.trans ?_⟩
    cases found : scene.resolve? m p with
    | none => rfl
    | some v =>
        rw [Option.bind_some, member?_of_not_length? other found, Option.getD_some]
  · intro n length
    obtain ⟨v, found, missing, member⟩ := member?_of_length? length
    rw [found, Option.getD_some, missing, Option.getD_none, output_null] at asks
    rw [found, Option.bind_some, member, Option.getD_some, output_length] at names
    refine ⟨asks, names, fun same => ?_⟩
    have shown := Except.ok.inj (asks.symm.trans (same.trans names))
    have filled : toString n ≠ "" := by
      rw [← Value.text_ofNat]
      exact fun none => Numeral.text_ne_nil n (congrArg String.toList none)
    exact encode_ne_nothing encoding filled shown.symm

/-- The name of a person with a blank in it, asked of the first of several, and the length of the
list of them, which members may be. -/
theorem people_asked :
    let ann : Value := .object [("full name", .string "Ann")]
    let people : Value := .object [("all", .array [ann, .null])]
    let scene : Scene :=
      { template :=
          { plan := [], partials := [], helpers := Registry.builtin.helpers, blockHelpers := []
            settings := { propertyAccess := true }, usage := {}, warnings := [] }
        root := people, functions := fun _ _ => .done .null }
    let ctx : BuildContext :=
      { settings := scene.template.settings, style? := Registry.builtin.style?
        resolve := fun _ _ _ => pure none }
    let inside : Machine := { env := { frames := [[]], scopes := [people] }, context := ann }
    let shown (node : Node) : Except RenderError String :=
      ((scene.renderNode none node).run.run inside).1
    ∃ first all : Path,
      first.IsArgument "../all/0".toList ∧ Expr.IsQuoted "\"full name\"".toList "full name" ∧
      all.IsArgument "../all".toList ∧ Expr.IsQuoted "'length'".toList "length" ∧
      ctx.Becomes false "lookup ../all 'length'".toList (lookupNode all "length" "'length'" .html) ∧
      ctx.Becomes false "../all.[length]".toList (memberNode all "length" .html) ∧
      shown (lookupNode first "full name" "\"full name\"" .html) =
        shown (memberNode first "full name" .html) ∧
      shown (lookupNode all "length" "'length'" .html) = .ok "" ∧
      shown (memberNode all "length" .html) = .ok "2" := by
  intro ann people scene ctx inside shown
  have complete {token : List Char} (alone : next? token = .ok (some (token, []))) :
      IsComplete token := (isComplete_of_next? alone).1
  let all : Path := { levels := 1, special := false, segments := ["all"], source := "../all" }
  let first : Path :=
    { levels := 1, special := false, segments := ["all", "0"], source := "../all/0" }
  have firstRead : first.IsArgument "../all/0".toList :=
    { complete := complete (by decide +kernel), positional := by decide +kernel
      noLiteral := by decide +kernel, parsed := fun _ => rfl, named := by decide }
  have allRead : all.IsArgument "../all".toList :=
    { complete := complete (by decide +kernel), positional := by decide +kernel
      noLiteral := by decide +kernel, parsed := fun _ => rfl, named := by decide }
  have nameRead : Expr.IsQuoted "\"full name\"".toList "full name" :=
    { complete := complete (by decide +kernel), unquoted := by decide +kernel }
  have lengthRead : Expr.IsQuoted "'length'".toList "length" :=
    { complete := complete (by decide +kernel), unquoted := by decide +kernel }
  have reads := (lookup_agrees allRead lengthRead (by decide)).1 ctx false (by decide +kernel)
    (by decide +kernel)
  refine ⟨first, all, firstRead, nameRead, allRead, lengthRead, reads.1, reads.2, ?_⟩
  have nameFound : scene.resolve? inside (first.extend "full name") = some (.string "Ann") := by
    rfl
  have lengthFound : scene.resolve? inside (all.extend "length") = some (.ofNat 2) := by
    rfl
  obtain ⟨name, -⟩ := (lookup_agrees firstRead nameRead (by decide)).2 scene inside none .html rfl
    rfl (fun id called => by rw [nameFound] at called; cases called)
  obtain ⟨-, length⟩ := (lookup_agrees allRead lengthRead (by decide)).2 scene inside none .html
    rfl rfl (fun id called => by rw [lengthFound] at called; cases called)
  obtain ⟨text, asked, named⟩ := name (by rfl)
  obtain ⟨nothing, two, -⟩ := length 2 (by rfl)
  exact ⟨asked.trans named.symm, nothing, two⟩

end Scene

/-- Members may be lengths. -/
def lengthsNamed : Settings :=
  { propertyAccess := true }

/-- The path finds the length of the list, and the helper finds nothing. -/
theorem length_not_looked_up :
    let people : Input :=
      { data := .object [("all", .array [.string "Ann", .string "Bob"])]
        functions := fun _ _ => .done .null }
    ∃ asked named,
      (Registry.builtin.compile lengthsNamed "\x7b\x7blookup all \"length\"\x7d\x7d").result =
        .ok asked ∧
      (Registry.builtin.compile lengthsNamed "\x7b\x7ball.[length]\x7d\x7d").result = .ok named ∧
      (asked.render people).result = .ok "" ∧ (named.render people).result = .ok "2" := by
  intro people
  have run : ((Registry.builtin.compile lengthsNamed
        "\x7b\x7blookup all \"length\"\x7d\x7d").result.toOption.any fun asked =>
      (asked.render people).result.toOption == some "") = true := by decide +kernel
  have run' : ((Registry.builtin.compile lengthsNamed
        "\x7b\x7ball.[length]\x7d\x7d").result.toOption.any fun named =>
      (named.render people).result.toOption == some "2") = true := by decide +kernel
  obtain ⟨asked, compiled, shown⟩ := (Option.any_eq_true _ _).mp run
  obtain ⟨named, compiled', shown'⟩ := (Option.any_eq_true _ _).mp run'
  exact ⟨asked, named, eq_ok_of_toOption compiled, eq_ok_of_toOption compiled',
    eq_ok_of_toOption (beq_iff_eq.mp shown), eq_ok_of_toOption (beq_iff_eq.mp shown')⟩

end Stencil
