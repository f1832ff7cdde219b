import Stencil.Proofs.Expr.RoundTrip
import Stencil.Proofs.Markup.Verbatim
import Stencil.Proofs.Render.Restoration

/-!
Quoted texts and bracketed names in a tag of three braces.

The scan decides where a tag ends before anything is known of quotes and brackets, by the closing
delimiter alone. So a text or a name survives as long as two closing braces never stand next to
each other in it. Then the tag ends where it is meant to, the tokenizer takes the quoted text or
the bracketed name whole, and the helper is given the text, or the member of that name is looked
up.
-/

namespace Stencil

open Text Writing

/-! ### Closing braces -/

namespace Markup

/-- No two closing braces stand next to each other. -/
def Unclosed (text : List Char) : Prop :=
  ¬ ['}', '}'] <:+: text

/-- Two characters in a row that are not both closing braces. -/
def Apart (c d : Char) : Prop :=
  ¬ (c = '}' ∧ d = '}')

theorem unclosed_iff {text : List Char} : Unclosed text ↔ text.IsChain Apart := by
  induction text with
  | nil => simp [Unclosed]
  | cons c text ih =>
      rw [Unclosed, List.infix_cons_iff, not_or, ← Unclosed, ih, List.isChain_cons]
      refine and_congr_left fun _ => ?_
      cases text with
      | nil => simp [List.prefix_cons_iff]
      | cons d text => simp [Apart, List.cons_prefix_cons, eq_comm]

instance : DecidableRel Apart :=
  fun c d => inferInstanceAs (Decidable (¬ (c = '}' ∧ d = '}')))

instance (text : List Char) : Decidable (Unclosed text) :=
  decidable_of_iff (text.IsChain Apart) unclosed_iff.symm

/-- A backslash in front of a character keeps braces apart. -/
theorem unclosed_escape {text : List Char} (h : Unclosed text) : Unclosed (escape text) := by
  rw [unclosed_iff] at h ⊢
  induction text with
  | nil => simp [escape]
  | cons c text ih =>
      rw [List.isChain_cons] at h
      obtain ⟨first, later⟩ := h
      rw [escape]
      split
      · next special =>
        have other : c ≠ '}' := by
          rintro rfl
          simp at special
        have apart (d : Char) : Apart c d := fun both => other both.1
        refine List.isChain_cons.mpr ⟨fun d _ both => absurd both.1 (by decide), ?_⟩
        exact List.isChain_cons.mpr ⟨fun d _ => apart d, ih later⟩
      · refine List.isChain_cons.mpr ⟨fun d member => ?_, ih later⟩
        cases text with
        | nil => simp [escape] at member
        | cons e text =>
            rw [escape] at member
            split at member
            · simp only [List.head?_cons, Option.mem_some_iff] at member
              rintro ⟨-, rfl⟩
              exact absurd member (by decide)
            · simp only [List.head?_cons, Option.mem_some_iff] at member
              exact member ▸ first e rfl

/-! ### Scanning -/

/-- Where no occurrence of the needle begins in a front, the cut is behind it. -/
theorem cut?_append {needle front tail : List Char}
    (h : ∀ u, u <:+ front → u ≠ [] → dropFront? needle (u ++ tail) = none) :
    cut? needle (front ++ tail) =
      (cut? needle tail).map fun (before, rest) => (front ++ before, rest) := by
  induction front with
  | nil =>
      rw [List.nil_append]
      cases cut? needle tail <;> rfl
  | cons c front ih =>
      have missing := h (c :: front) (List.suffix_refl _) (List.cons_ne_nil _ _)
      have later := ih fun u suffix => h u (suffix.trans (List.suffix_cons c front))
      rw [List.cons_append] at missing ⊢
      rw [cut?, missing]
      simp only [later, Option.map_map]
      rfl

/-- A content that may stand between three braces: braces in it do not close the tag, and neither
end is taken for something else. -/
structure Fits (content : List Char) : Prop where
  unclosed : Unclosed content
  first : ∃ c rest, content = c :: rest ∧ c ≠ '{' ∧ c ≠ '~' ∧ isWhite c = false
  last : ∃ front c, content = front ++ [c] ∧ c ≠ '}' ∧ c ≠ '~' ∧ isWhite c = false

/-- The tag that interpolates a content as it is. -/
def triple (content : List Char) : List Char :=
  ['{', '{', '{'] ++ content ++ ['}', '}', '}']

/-- The tag as it is scanned. -/
def tripleTag (content : List Char) (line : Nat) : RawTag :=
  { form := .triple, opening := ['{', '{', '{'], lead := [], inner := content, trail := [],
    closing := ['}', '}', '}'], stripBefore := false, stripAfter := false,
    source := triple content, line }

namespace Fits

variable {content : List Char} (h : Fits content)

include h

/-- Inside the content nothing begins that looks like the end of the tag. -/
theorem dropFront?_inside {u : List Char} (suffix : u <:+ content) (filled : u ≠ [])
    (more : List Char) :
    dropFront? ('}' :: '}' :: more) (u ++ ['}', '}', '}']) = none ∧
      dropFront? ['}', '~', '}', '}'] (u ++ ['}', '}', '}']) = none := by
  have unclosed : u.IsChain Apart := (unclosed_iff.mp h.unclosed).suffix suffix
  have last (front : List Char) (c : Char) (e : u = front ++ [c]) : c ≠ '}' ∧ c ≠ '~' := by
    obtain ⟨before, d, whole, brace, tilde, -⟩ := h.last
    obtain ⟨start, rfl⟩ := suffix
    rw [e, ← List.append_assoc] at whole
    obtain ⟨-, same⟩ := List.append_inj' whole rfl
    cases same
    exact ⟨brace, tilde⟩
  match u with
  | [] => exact absurd rfl filled
  | [c] => simp [dropFront?, Ne.symm (last [] c rfl).1]
  | [c, d] =>
      have apart : Apart c d := by simpa using unclosed
      have other := (last [c] d rfl).2
      simp only [Apart, not_and] at apart
      simp [dropFront?]
      grind
  | [c, d, e] =>
      have apart : Apart c d := by simp_all
      have other := (last [c, d] e rfl).1
      simp only [Apart, not_and] at apart
      simp [dropFront?]
      grind
  | c :: d :: e :: f :: w =>
      have apart : Apart c d ∧ Apart e f := by simp_all
      simp only [Apart, not_and] at apart
      simp [dropFront?]
      grind

theorem cut?_closing :
    cut? ['}', '}'] (content ++ ['}', '}', '}']) = some (content, ['}']) := by
  rw [cut?_append fun u suffix filled => (h.dropFront?_inside suffix filled []).1]
  simp [cut?, dropFront?]

theorem cutTriple?_closing :
    cutTriple? ['}', '}'] (content ++ ['}', '}', '}']) =
      some (content, ['}', '}', '}'], false, []) := by
  have mark : cut? ['}', '}', '}'] (content ++ ['}', '}', '}']) = some (content, []) := by
    rw [cut?_append fun u suffix filled => (h.dropFront?_inside suffix filled ['}']).1]
    simp [cut?, dropFront?]
  have tilde : cut? ['}', '~', '}', '}'] (content ++ ['}', '}', '}']) = none := by
    rw [cut?_append fun u suffix filled => (h.dropFront?_inside suffix filled []).2]
    simp [cut?, dropFront?]
  simp [cutTriple?, mark, tilde]

/-- The braces in front of the content are the only ones there. -/
theorem readFront : readFront ['{', '{'] ('{' :: content ++ ['}', '}', '}']) =
    { opening := ['{', '{', '{'], strip := false, braces := 1, body := content ++ ['}', '}', '}'] } := by
  obtain ⟨c, rest, rfl, brace, tilde, -⟩ := h.first
  unfold Markup.readFront
  simp only [List.cons_append]
  split <;> simp_all

theorem takeTilde : takeTilde content = (content, false) := by
  obtain ⟨front, c, rfl, -, tilde, -⟩ := h.last
  simp [Markup.takeTilde, tilde]

/-- There is no white space to be cut. -/
theorem mkTag (front : Front) (closing source : List Char) (line : Nat) :
    mkTag .triple front content closing false source line =
      { form := .triple, opening := front.opening, lead := [], inner := content, trail := [], closing,
        stripBefore := front.strip, stripAfter := false, source, line } := by
  have start : trimStart content = content ∧ leadingWhite content = [] := by
    obtain ⟨c, rest, rfl, -, -, white⟩ := h.first
    simp [trimStart, leadingWhite, white]
  have stop : trimEnd content = content ∧ trailingWhite content = [] := by
    obtain ⟨front, c, rfl, -, -, white⟩ := h.last
    simp [trimEnd, trailingWhite, dropEndWhile, takeEndWhile, white]
  simp [Markup.mkTag, start, stop]

theorem scanTag (line : Nat) :
    scanTag (Marks.ofDelimiters {}) line (triple content) ('{' :: content ++ ['}', '}', '}']) =
      (.ok (tripleTag content line), []) := by
  have marks : Marks.ofDelimiters {} = { opening := ['{', '{'], closing := ['}', '}'] } := rfl
  have whole : spanTo (triple content) [] = triple content := by simp [spanTo]
  rw [marks, Markup.scanTag, h.readFront]
  simp only [scanTriple, h.cut?_closing, h.cutTriple?_closing, h.takeTilde, whole, Nat.lt_irrefl,
    if_false, Bool.false_eq_true, List.nil_append, Bool.or_self, h.mkTag]
  rfl

/-- The tag is scanned as one piece. -/
theorem scan : scan (Marks.ofDelimiters {}) (triple content) = [.tag (tripleTag content 1)] := by
  let start := Cursor.start (triple content)
  have next : start.next? (Marks.ofDelimiters {}) =
      some (.tag (tripleTag content 1), start.moveTo []) := by
    have opened : dropFront? (Marks.ofDelimiters {}).opening start.rest =
        some ('{' :: content ++ ['}', '}', '}']) := rfl
    have first : start.line = 1 := rfl
    have filled : start.rest.isEmpty = false := rfl
    have scanned : Markup.scanTag (Marks.ofDelimiters {}) 1 start.rest _ = _ := h.scanTag 1
    simp only [Cursor.next?, opened, first, filled, scanned, Bool.false_eq_true, if_false]
  have ended : (start.moveTo []).pieces (Marks.ofDelimiters {}) = [] := by
    rw [Cursor.pieces]
    rfl
  rw [Markup.scan, Cursor.pieces, next]
  simp only
  rw [if_pos (by simp [Cursor.moveTo, start, Cursor.start, triple]), ended]

end Fits

/-- A tag of three braces is one token, whose content says what is read from it. -/
theorem readTemplate_triple {settings : Settings} (marks : settings.delimiters = {})
    {isHelper : String → Bool} {content : List Char} (h : Fits content) {said : Content}
    (read : (Content.read isHelper (tripleTag content 1).site content).Yields said) (r : Report) :
    ∃ r', (readTemplate settings isHelper (String.ofList (triple content))).run r =
        ([.tag { kind := .interpolation true, content := said, site := (tripleTag content 1).site }],
          r') ∧
      r'.errors = r.errors ∧ r'.warnings = r.warnings := by
  let tag : Tag :=
    { kind := .interpolation true, content := said, site := (tripleTag content 1).site }
  obtain ⟨r', ran, errors, warnings⟩ := read r
  have kind : (readKind isHelper (tripleTag content 1)).run r = ((.interpolation true, said), r') := by
    change (orReport (fallback content) (Content.read isHelper _ content) >>= fun said =>
      pure (TagKind.interpolation true, said) : StateM Report _).run r = _
    rw [StateT.run_bind, orReport, StateT.run_bind, ran]
    rfl
  have items : (readPieces isHelper [.tag (tripleTag content 1)]).run r =
      ([.tag (tripleTag content 1) tag], r'.count (TagKind.interpolation true).usage) := by
    change ((tripleTag content 1).read isHelper >>= fun tag => pure [_] : StateM Report _).run r = _
    rw [StateT.run_bind, RawTag.read, StateT.run_bind, kind]
    rfl
  refine ⟨(r'.count (TagKind.interpolation true).usage).addEvent (.validated 1), ?_, errors, warnings⟩
  rw [readTemplate, marks, String.toList_ofList]
  simp only
  rw [h.scan, StateT.run_bind, items]
  rfl

end Markup

/-! ### Contents -/

/-- A name that a tag of three braces may begin with: one word for the tokenizer, in which nothing
is taken for the end of the tag, and the first character is not taken for a part of its front. -/
structure IsHead (name : String) : Prop where
  word : Token.next? name.toList = .ok (some (name.toList, []))
  unclosed : Markup.Unclosed name.toList
  start : ∀ c ∈ name.toList.head?, c ≠ '{' ∧ c ≠ '~'

namespace IsHead

variable {name : String} (h : IsHead name)

include h

theorem isComplete : Token.IsComplete name.toList :=
  (Token.isComplete_of_next? h.word).1

/-- Behind the name a token may follow. -/
theorem tokens {t : List Char} (token : Token.IsToken t) :
    Expr.tokens [] (name.toList ++ ' ' :: t) = .ok ([name.toList, t], []) := by
  simpa [spaced] using
    Expr.tokens_parts h.isComplete (List.forall_mem_singleton.mpr token.isPart)

end IsHead

/-- The content that calls a helper with a text. -/
def quotedContent (name s : String) : List Char :=
  name.toList ++ ' ' :: quote s

/-- What the content says. -/
def quotedCall (name s : String) : Content :=
  { head := name, params := [.literal (.string s) (String.ofList (quote s))] }

theorem IsHead.yields {name : String} (h : IsHead name) (s : String) (isHelper : String → Bool)
    (site : Site) : (Content.read isHelper site (quotedContent name s)).Yields (quotedCall name s) := by
  have token : Token.IsToken (quote s) := ⟨.quote s, '"', _, rfl, by decide, by decide⟩
  have arguments : (Expr.readArguments isHelper site [] [quote s]).Yields
      ([.literal (.string s) (String.ofList (quote s))], []) := by
    refine Expr.yields_arguments_cons rfl (Expr.yields_literal (Expr.literal?_quote s)) ?_
    rw [Expr.readArguments]
    exact .pure _
  rw [Content.read, quotedContent, h.tokens token]
  refine .bind arguments ?_
  simp only [List.isEmpty_nil, Bool.not_true, Bool.false_eq_true, if_false]
  exact .bind (.pure _) (by rw [String.ofList_toList]; exact .pure _)

theorem IsHead.fits {name : String} (h : IsHead name) {s : String}
    (unclosed : Markup.Unclosed s.toList) : Markup.Fits (quotedContent name s) := by
  obtain ⟨c, rest, start, white⟩ := h.isComplete.start
  have inside := Markup.unclosed_iff.mp (Markup.unclosed_escape unclosed)
  have front := Markup.unclosed_iff.mp h.unclosed
  refine ⟨Markup.unclosed_iff.mpr ?_, ⟨c, rest ++ ' ' :: quote s, ?_, ?_⟩,
    ⟨name.toList ++ ' ' :: '"' :: escape s.toList, '"', ?_, by decide, by decide, by decide⟩⟩
  · have closed : (escape s.toList ++ ['"']).IsChain Markup.Apart := by
      refine List.isChain_append.mpr ⟨inside, List.isChain_singleton _, ?_⟩
      rintro d - e quote ⟨-, rfl⟩
      simp at quote
    have quoted : (' ' :: quote s).IsChain Markup.Apart := by
      refine List.isChain_cons_cons.mpr ⟨by simp [Markup.Apart], ?_⟩
      exact List.isChain_cons.mpr ⟨fun d _ both => absurd both.1 (by decide), closed⟩
    refine List.isChain_append.mpr ⟨front, quoted, ?_⟩
    rintro d - e blank ⟨-, rfl⟩
    simp at blank
  · rw [quotedContent, start, List.cons_append]
  · have first := h.start c (by simp [start])
    exact ⟨first.1, first.2, white⟩
  · simp [quotedContent, quote]

/-! ### Bracketed names -/

/-- A token by itself is the head of what a tag says. -/
theorem Content.yields_head {t : List Char} (complete : Token.IsComplete t)
    (isHelper : String → Bool) (site : Site) :
    (Content.read isHelper site t).Yields { head := String.ofList t } := by
  rw [Content.read, Expr.tokens_singleton complete]
  refine .bind (a := ([], [])) ?_ ?_
  · rw [Expr.readArguments]
    exact .pure _
  · simp only [List.isEmpty_nil, Bool.not_true, Bool.false_eq_true, if_false]
    exact .bind (.pure _) (.pure _)

theorem bracket_yields {n : String} (h : FitsBrackets n) (isHelper : String → Bool) (site : Site) :
    (Content.read isHelper site (bracket n)).Yields { head := String.ofList (bracket n) } := by
  have token : Token.IsToken (bracket n) := by
    simpa [Writing.path, outward, members, joined] using
      Token.IsToken.path (List.forall_mem_singleton.mpr h) false 0
  exact Content.yields_head token.isComplete isHelper site

theorem bracket_fits {n : String} (unclosed : Markup.Unclosed n.toList) :
    Markup.Fits (bracket n) := by
  have inside := Markup.unclosed_iff.mp unclosed
  refine ⟨Markup.unclosed_iff.mpr ?_, ⟨'[', _, rfl, by decide, by decide, by decide⟩,
    ⟨'[' :: n.toList, ']', rfl, by decide, by decide, by decide⟩⟩
  refine List.isChain_append.mpr ⟨?_, List.isChain_singleton _, ?_⟩
  · exact List.isChain_cons.mpr ⟨fun d _ both => absurd both.1 (by decide), inside⟩
  · rintro d - e closer ⟨-, rfl⟩
    simp at closer

/-! ### Compiling a tag -/

namespace Compiling

variable {α β : Type}

/-- The computation gives this result, and all that it changes is the report, without a
complaint. -/
def Yields (x : Compiling α) (a : α) : Prop :=
  ∀ c, ∃ r : Report, x.run c = (a, { c with report := r }) ∧
    r.errors = c.report.errors ∧ r.warnings = c.report.warnings

namespace Yields

theorem pure (a : α) : Yields (Pure.pure a) a :=
  fun c => ⟨c.report, rfl, rfl, rfl⟩

theorem bind {x : Compiling α} {f : α → Compiling β} {a : α} {b : β} (h : Yields x a)
    (next : Yields (f a) b) : Yields (x >>= f) b := by
  intro c
  obtain ⟨r, ran, errors, warnings⟩ := h c
  obtain ⟨r', ran', errors', warnings'⟩ := next { c with report := r }
  refine ⟨r', ?_, errors'.trans errors, warnings'.trans warnings⟩
  rw [StateT.run_bind, ran]
  exact ran'

theorem count (f : Usage → Usage) : Yields (Compiling.count f) () :=
  fun c => ⟨c.report.count f, rfl, rfl, rfl⟩

theorem readOr {read : Reading α} {a : α} (h : read.Yields a) (default : α) :
    Yields (Compiling.readOr default read) a := by
  intro c
  obtain ⟨r, ran, errors, warnings⟩ := h c.report
  refine ⟨r, ?_, errors, warnings⟩
  have reported : (reporting read.run).run c = (.ok a, { c with report := r }) := by
    rw [reporting_run]
    exact congrArg (fun outcome : Except Diagnostic α × Report =>
      (outcome.1, { c with report := outcome.2 })) ran
  rw [Compiling.readOr, StateT.run_bind, reported]
  rfl

end Yields

end Compiling

namespace BuildContext

open Compiling (Yields)

variable {ctx : BuildContext} {tag : Markup.Tag}

/-- The call of a helper becomes a node. -/
theorem interpolation_helper {style : HelperStyle} (raw : Bool)
    (known : ctx.style? tag.content.head = some style) (filled : tag.content.head ≠ "") :
    Yields (ctx.interpolation tag raw)
      (some (.helper (callOf (.helper tag.content.head) tag)
        (if raw then .none else ctx.settings.encoding))) := by
  have called : Yields (ctx.callee? tag) (some (.helper tag.content.head, style)) := by
    rw [callee?, known]
    exact .pure _
  rw [interpolation, if_neg (by simpa using filled)]
  exact .bind called (.bind (.count _) (.pure _))

/-- A word that names no helper, and has nothing behind it, is looked up. -/
theorem interpolation_lookup {e : Expr} (raw : Bool)
    (unknown : ctx.style? tag.content.head = none)
    (alone : tag.content.params = [] ∧ tag.content.hash = []) (filled : tag.content.head ≠ "")
    (read : (Expr.read ctx.isHelper tag.site tag.content.head.toList).Yields e) :
    Yields (ctx.interpolation tag raw)
      (some (.lookup e (if raw then .none else ctx.settings.encoding))) := by
  have called : Yields (ctx.callee? tag) none := by
    rw [callee?, unknown, alone.1, alone.2]
    exact .pure _
  rw [interpolation, if_neg (by simpa using filled)]
  exact .bind called (.bind (.readOr read _) (.pure _))

/-- An interpolation is the whole plan of a template that consists of it. -/
theorem build_interpolation {node : Node} (kind : tag.kind = .interpolation true)
    (built : Yields (ctx.interpolation tag true) (some node)) :
    Yields (ctx.build [.tag tag]) [node] := by
  have added : Yields (ctx.addTag {} tag) (({} : Draft).push node) := by
    rw [addTag.eq_def, kind]
    exact .bind built (.pure _)
  have alone : (({} : Draft).push node).root.reverse = [node] := by cases node <;> rfl
  rw [← alone]
  exact .bind (.bind added (.pure _)) (.bind (.pure _) (.pure _))

end BuildContext

namespace Registry

/-- A template compiles when its tokens are read and built without a complaint. -/
theorem compile_of_yields (registry : Registry) {settings : Settings} {source : String}
    {tokens : List Markup.Token} {plan : Plan}
    (read : (Compiling.reporting (Markup.readTemplate settings registry.hasHelper source)).Yields
      tokens)
    (built : (({ settings, registry : Workshop }.builder [] registry.partials).build tokens).Yields
      plan) :
    ∃ t, (registry.compile settings source).result = .ok t ∧ t.plan = plan ∧ t.warnings = [] := by
  let w : Workshop := { settings, registry }
  have compiled : (w.compileSource [] registry.partials source).Yields plan := by
    rw [Workshop.compileSource_eq]
    exact .bind read built
  obtain ⟨r, ran, errors, warnings⟩ :=
    compiled { report := ({} : Report).addEvent (.compiling source.utf8ByteSize) }
  have whole : (w.compileTemplate source).run {} = (plan, { report := r }) := by
    rw [Workshop.compileTemplate_run]
    simp only
    rw [ran]
    rfl
  have clean : r.errors.isEmpty = true := by rw [errors]; rfl
  unfold compile
  simp only [w] at whole
  simp only [whole, clean, if_true]
  exact ⟨_, rfl, rfl, warnings⟩

/-- A tag of three braces compiles to one node, when its content is read and what it says is a
node. -/
theorem compile_triple (registry : Registry) {settings : Settings}
    (marks : settings.delimiters = {}) {content : List Char} (fits : Markup.Fits content)
    {said : Content} {node : Node}
    (read : ∀ site, (Content.read registry.hasHelper site content).Yields said)
    (built : ∀ tag : Markup.Tag, tag.content = said →
      (({ settings, registry : Workshop }.builder [] registry.partials).interpolation tag
        true).Yields (some node)) :
    ∃ t, (registry.compile settings (String.ofList (Markup.triple content))).result = .ok t ∧
      t.plan = [node] ∧ t.warnings = [] := by
  let tag : Markup.Tag :=
    { kind := .interpolation true, content := said, site := (Markup.tripleTag content 1).site }
  have tokens : (Compiling.reporting (Markup.readTemplate settings registry.hasHelper
      (String.ofList (Markup.triple content)))).Yields [.tag tag] := by
    intro c
    obtain ⟨r, ran, errors, warnings⟩ :=
      Markup.readTemplate_triple marks fits (read (Markup.tripleTag content 1).site) c.report
    exact ⟨r, by rw [reporting_run, ran], errors, warnings⟩
  exact registry.compile_of_yields tokens (BuildContext.build_interpolation rfl (built tag rfl))

end Registry

/-! ### Rendering it -/

@[simp] theorem Value.output_string (s : String) : (Value.string s).output .none = s := by
  have chars : Encoding.none.encodeChars s.toList = s.toList := List.flatMap_singleton' _
  change String.ofList (Encoding.none.encodeChars s.toList) = s
  rw [chars, String.ofList_toList]

/-- What a tag without encoding shows of what a helper does. -/
def shownPlain (name : String) : Except HelperError Value → Except RenderError String
  | .ok v => .ok (v.output .none)
  | .error cause => .error (.helper name cause)

namespace Scene

variable {scene : Scene}

/-- A plan of one node shows what the node does. -/
theorem renderPlan_single {node : Node} (inert : Plan.inlineDefs [node] = []) (levels : Nat)
    (m : Machine) :
    ((scene.renderPlan levels [node]).run.run m).1 =
      ((scene.renderNode (scene.deeper? levels) node).run.run m).1 := by
  have layer : ((withInlines [node] (scene.renderNodes (scene.deeper? levels) [node])).run.run m).1 =
      ((scene.renderNodes (scene.deeper? levels) [node]).run.run m).1 := by
    rw [withInlines, inert, Eval.run_within]
    rfl
  rw [renderPlan_eq, layer, renderNodes, Eval.run_bind]
  obtain ⟨result, after⟩ := (scene.renderNode (scene.deeper? levels) node).run.run m
  cases result with
  | error e => rfl
  | ok text => exact congrArg Except.ok (String.append_empty)

theorem evalCall_literal (callee : Callee) (value : Literal) (source : String)
    (branches : Option Branches) :
    scene.evalCall branches { callee, args := [.literal value source], hash := [] } =
      scene.applyCallee callee [value.toValue] [] branches := by
  simp [evalCall, evalArgs, evalHash, eval, Table.ofEntries]

/-- What a tag shows that calls a helper: the helper is given these arguments, no named ones and
no block. -/
def answer (scene : Scene) (name : String) (helper : Helper) (args : List Value) (m : Machine) :
    Except RenderError String :=
  let given : Invocation := { name, args, hash := [], isBlock := false, blockParams := [] }
  let called : Machine := { m with events := .calling name args.length false :: m.events }
  (((helper given).run scene {}).run.run called).1.bind (shownPlain name)

theorem output_invoke_run (name : String) (helper : Helper) (args : List Value) (m : Machine) :
    ((scene.invoke name helper args [] none >>= fun v => pure (v.output .none)).run.run m).1 =
      scene.answer name helper args m := by
  let given : Invocation := { name, args, hash := [], isBlock := false, blockParams := [] }
  let called : Machine := { m with events := .calling name args.length false :: m.events }
  change ((((helper given).run scene {} >>= fun answer => match answer with
      | .ok value => pure value
      | .error cause => throw (.helper name cause) : Eval Value) >>= fun v =>
        pure (v.output .none)).run.run called).1 = _
  rw [bind_assoc, Eval.run_bind]
  change _ = (((helper given).run scene {}).run.run called).1.bind (shownPlain name)
  obtain ⟨result, after⟩ := ((helper given).run scene {}).run.run called
  match result with
  | .error e => rfl
  | .ok (.error cause) => rfl
  | .ok (.ok value) => rfl

/-- A block helper is given the context too. -/
theorem output_invokePositional_run (name : String) (helper : BlockHelper) (args : List Value)
    (m : Machine) :
    ((invokePositional name helper args [] >>= fun v => pure (v.output .none)).run.run m).1 =
      shownPlain name (helper m.context args []) := by
  rw [Eval.run_bind, invokePositional, Eval.run_get_bind]
  cases helper m.context args [] <;> rfl

/-- What a tag shows that names a member of a value. -/
def memberShown (scene : Scene) (source n : String) (m : Machine) : Except RenderError String :=
  match scene.member? m.context n with
  | some (.callable id) => scene.answer source (scene.functions id) [] m
  | some v => .ok (v.output .none)
  | none =>
    if scene.template.settings.strict then .error (.missingVariable source) else .ok ""

/-- Where no block parameter is bound, a name alone is the name of a member of the context. -/
theorem output_lookup_run (source n : String) {m : Machine} (unbound : m.env.bindings = []) :
    ((scene.lookup (.path { segments := [n], source }) >>= fun v =>
      pure (v.output .none)).run.run m).1 = scene.memberShown source n m := by
  have found : scene.resolve? m { segments := [n], source } = scene.member? m.context n := by
    cases member : scene.member? m.context n <;>
      simp [resolve?, start?, Env.binding?, unbound, members?, member]
  unfold lookup
  simp only
  rw [bind_assoc, Eval.run_get_bind, found, memberShown]
  cases member : scene.member? m.context n with
  | none => cases strict : scene.template.settings.strict <;> rfl
  | some v =>
      cases v with
      | callable id => exact output_invoke_run source (scene.functions id) [] m
      | _ => rfl

end Scene

/-! ### Whole calls -/

/-- What a call of rendering starts from. -/
def Input.start (input : Input) : Machine :=
  { env := { frames := [input.seed] }, context := input.data }

/-- What a call of rendering does not change. -/
def Input.scene (input : Input) (template : Template) : Scene :=
  { template, root := input.data, functions := input.functions }

theorem Template.render_single {t : Template} {node : Node} (plan : t.plan = [node])
    (inert : Plan.inlineDefs [node] = []) (input : Input) :
    ∃ enter?, (t.render input).result =
      (((input.scene t).renderNode enter? node).run.run input.start).1 := by
  have rendered := (input.scene t).renderPlan_single inert t.settings.maxPartialDepth input.start
  rw [← plan] at rendered
  exact ⟨_, rendered⟩

/-- The tag that calls a helper with a text, quoted. -/
def quotedTag (name s : String) : String :=
  String.ofList (Markup.triple (quotedContent name s))

/-- The tag that looks up a name, in brackets. -/
def bracketedTag (n : String) : String :=
  String.ofList (Markup.triple (bracket n))

namespace Registry

variable {registry : Registry} {settings : Settings} (marks : settings.delimiters = {})

include marks

theorem compile_quotedTag {name s : String} (head : IsHead name)
    (known : registry.hasHelper name = true) (unclosed : Markup.Unclosed s.toList) :
    ∃ t, (registry.compile settings (quotedTag name s)).result = .ok t ∧
      t.plan = [.helper { callee := .helper name, hash := [],
                          args := [.literal (.string s) (String.ofList (quote s))] } .none] ∧
        t.warnings = [] := by
  obtain ⟨style, styled⟩ := Option.isSome_iff_exists.mp known
  have filled : name ≠ "" := by
    rintro rfl
    exact head.isComplete.ne_nil rfl
  refine registry.compile_triple marks (head.fits unclosed) (head.yields s _) fun tag said => ?_
  let w : Workshop := { settings, registry }
  have called := @BuildContext.interpolation_helper (w.builder [] registry.partials) tag style true
    (by rw [said]; exact styled) (by rw [said]; exact filled)
  rw [BuildContext.callOf, said] at called
  exact called

theorem compile_bracketedTag {n : String} (fits : FitsBrackets n)
    (unclosed : Markup.Unclosed n.toList)
    (unknown : registry.hasHelper (String.ofList (bracket n)) = false) :
    ∃ t, (registry.compile settings (bracketedTag n)).result = .ok t ∧
      t.plan = [.lookup (.path { segments := [n], source := String.ofList (bracket n) }) .none] ∧
        t.warnings = [] := by
  have noStyle : registry.style? (String.ofList (bracket n)) = none := by
    simpa [hasHelper] using unknown
  have filled : String.ofList (bracket n) ≠ "" := by simp [bracket]
  have path : Writing.path false 0 [n] = bracket n := by simp [Writing.path, outward, members, joined]
  refine registry.compile_triple marks (bracket_fits unclosed) (bracket_yields fits _)
    fun tag said => ?_
  refine BuildContext.interpolation_lookup true (by rw [said]; exact noStyle)
    (by rw [said]; exact ⟨rfl, rfl⟩) (by rw [said]; exact filled) ?_
  rw [said, String.toList_ofList, ← path]
  exact Expr.yields_path (List.forall_mem_singleton.mpr fits) false 0

/-- With the default delimiters, a text that is quoted in a tag of three braces is the one argument
of the helper that the tag names, and a name in brackets there is looked up in the context, whatever
else stands in the text or the name, as long as no two closing braces stand next to each other in
it. The name of the helper must be one word that can stand behind three braces, and the bracketed
name must not be the name of a helper itself. -/
theorem literals_survive :
    (∀ name s : String, IsHead name → registry.hasHelper name = true → Markup.Unclosed s.toList →
      ∃ t, (registry.compile settings (quotedTag name s)).result = .ok t ∧ t.warnings = [] ∧
        ∀ input : Input,
          (∀ helper, Table.get? registry.helpers name = some helper →
              (t.render input).result =
                (input.scene t).answer name helper [.string s] input.start) ∧
            ∀ helper, Table.get? registry.helpers name = none →
              Table.get? registry.blockHelpers name = some helper →
                (t.render input).result = shownPlain name (helper input.data [.string s] [])) ∧
      ∀ n : String, FitsBrackets n → Markup.Unclosed n.toList →
        registry.hasHelper (String.ofList (bracket n)) = false →
          ∃ t, (registry.compile settings (bracketedTag n)).result = .ok t ∧ t.warnings = [] ∧
            ∀ input : Input, (t.render input).result =
              (input.scene t).memberShown (String.ofList (bracket n)) n input.start := by
  constructor
  · intro name s head known unclosed
    obtain ⟨t, compiled, plan, quiet⟩ := compile_quotedTag marks head known unclosed
    obtain ⟨-, -, -, helpers, blockHelpers, -⟩ := of_compile compiled
    refine ⟨t, compiled, quiet, fun input => ?_⟩
    obtain ⟨enter?, rendered⟩ := Template.render_single plan rfl input
    rw [Scene.renderNode, Scene.evalCall_literal] at rendered
    constructor
    · intro helper found
      have listed : Table.get? (input.scene t).template.helpers name = some helper :=
        helpers ▸ found
      rw [rendered, Scene.applyCallee, listed]
      exact Scene.output_invoke_run name helper [.string s] input.start
    · intro helper missing found
      have unlisted : Table.get? (input.scene t).template.helpers name = none :=
        helpers ▸ missing
      have listed : Table.get? (input.scene t).template.blockHelpers name = some helper :=
        blockHelpers ▸ found
      rw [rendered, Scene.applyCallee, unlisted]
      simp only [listed]
      exact Scene.output_invokePositional_run name helper [.string s] input.start
  · intro n fits unclosed unknown
    obtain ⟨t, compiled, plan, quiet⟩ := compile_bracketedTag marks fits unclosed unknown
    refine ⟨t, compiled, quiet, fun input => ?_⟩
    obtain ⟨enter?, rendered⟩ := Template.render_single plan rfl input
    rw [rendered, Scene.renderNode]
    exact Scene.output_lookup_run _ n rfl

omit marks

/-- The registry with a helper that gives back its first argument. -/
def echoing (name : String) : Registry :=
  Registry.builtin.registerHelper name fun call => .done (call.args.headD .null)

/-- Quotes, brackets, bars, backslashes and single braces, in a text and in a name. -/
theorem oddities_survive :
    let s := "\x7d\"~\x7d \x7b\x7b\x7b [b as |c| \\"
    let n := "a\x7d \"(b) ~"
    ({} : Settings).delimiters = {} ∧ IsHead "echo" ∧ (echoing "echo").hasHelper "echo" = true ∧
      Markup.Unclosed s.toList ∧ FitsBrackets n ∧ Markup.Unclosed n.toList ∧
      (echoing "echo").hasHelper (String.ofList (bracket n)) = false ∧
      ∃ t u, ((echoing "echo").compile {} (quotedTag "echo" s)).result = .ok t ∧
        ((echoing "echo").compile {} (bracketedTag n)).result = .ok u ∧
        ∀ functions : Nat → Helper, (t.render { data := .null, functions }).result = .ok s ∧
          (u.render { data := .object [(n, .string "&")], functions }).result = .ok "&" := by
  intro s n
  have head : IsHead "echo" := ⟨by decide +kernel, by decide +kernel, by simp⟩
  have known : (echoing "echo").hasHelper "echo" = true := by decide +kernel
  have unclosed : Markup.Unclosed s.toList ∧ Markup.Unclosed n.toList := by decide +kernel
  have fits : FitsBrackets n := by decide +kernel
  have unknown : (echoing "echo").hasHelper (String.ofList (bracket n)) = false := by
    decide +kernel
  clear_value s n
  obtain ⟨quoted, bracketed⟩ := @literals_survive (echoing "echo") {} rfl
  obtain ⟨t, compiled, -, rendered⟩ := quoted "echo" s head known unclosed.1
  obtain ⟨u, compiled', -, rendered'⟩ := bracketed n fits unclosed.2 unknown
  refine ⟨rfl, head, known, unclosed.1, fits, unclosed.2, unknown, t, u, compiled, compiled',
    fun functions => ⟨?_, ?_⟩⟩
  · have listed : Table.get? (echoing "echo").helpers "echo" =
        some fun call => .done (call.args.headD .null) := rfl
    exact ((rendered { data := .null, functions }).1 _ listed).trans
      (congrArg Except.ok (Value.output_string s))
  · rw [rendered' { data := .object [(n, .string "&")], functions }]
    simp [Scene.memberShown, Scene.member?, Value.get?, Table.get?, Input.start]

/-- Two closing braces in the text or in the name end the tag, and so the template does not
compile. A helper of another name is not called either: with white space in the name, with a brace
or a tilde at its front, or with two closing braces in it. And a bracketed name that a helper has
calls that helper. -/
theorem closers_miss :
    let shows (registry : Registry) (source : String) : Option String :=
      (registry.compile {} source).result.toOption.bind fun t =>
        (t.render { data := .object [("n", .string "&")]
                    functions := fun _ _ => .done .null }).result.toOption
    (echoing "echo").hasHelper "echo" = true ∧
      (∃ errors, ((echoing "echo").compile {} (quotedTag "echo" "\x7d\x7d")).result =
        .error errors) ∧
      (∃ errors, (Registry.builtin.compile {} (bracketedTag "\x7d\x7d")).result = .error errors) ∧
      (∀ name ∈ ["a b", "\x7ba", "~a", "a\x7d\x7d"], (echoing name).hasHelper name = true ∧
        shows (echoing name) (quotedTag name "s") ≠ some "s") ∧
      shows (Registry.builtin.registerHelper "[n]" fun _ => .done (.string "called"))
        (bracketedTag "n") = some "called" := by
  intro shows
  have fails {registry : Registry} {source : String}
      (h : (registry.compile {} source).result.toOption.isNone = true) :
      ∃ errors, (registry.compile {} source).result = .error errors := by
    cases outcome : (registry.compile {} source).result with
    | ok t => simp [outcome, Except.toOption] at h
    | error errors => exact ⟨errors, rfl⟩
  have known : (echoing "echo").hasHelper "echo" = true := by decide +kernel
  have text : ((echoing "echo").compile {} (quotedTag "echo" "\x7d\x7d")).result.toOption.isNone =
      true := by decide +kernel
  have name : (Registry.builtin.compile {} (bracketedTag "\x7d\x7d")).result.toOption.isNone =
      true := by decide +kernel
  refine ⟨known, ?_, ?_, ?_, ?_⟩
  · exact fails text
  · exact fails name
  · decide +kernel
  · decide +kernel

end Registry

end Stencil
