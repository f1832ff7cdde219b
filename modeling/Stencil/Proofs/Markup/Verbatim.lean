import Stencil.Proofs.Compile.Sources
import Stencil.Proofs.Markup.Spans
import Stencil.Proofs.Render.Restoration

/-!
Any text can be written as a template.

In front of every opening delimiter the backslashes are doubled, and one is added: half of them are
written and the last one keeps the delimiter as text. The scan finds the delimiters of the written
form where those of the text are, as long as no backslash stands in the delimiter itself, and so a
template so written is scanned as the one text that it stands for.
-/

namespace Stencil

namespace Markup

open Text

variable {opening s : List Char}

/-! ### Writing a text -/

/-- The template that stands for a text. -/
def verbatim (opening s : List Char) : List Char :=
  if _blank : opening = [] then s
  else
    match _h : cut? opening s with
    | none => s
    | some (front, after) =>
      let slashes := backslashes front
      front.take (front.length - slashes) ++ List.replicate (2 * slashes + 1) '\\' ++ opening ++
        verbatim opening after
termination_by s.length
decreasing_by
  have parts := length_le_of_cut? _h
  have := List.length_pos_iff.mpr _blank
  omega

theorem verbatim_of_cut?_eq_none (h : cut? opening s = none) : verbatim opening s = s := by
  rw [verbatim]
  split
  · rfl
  · split
    · rfl
    · next found =>
      rw [h] at found
      cases found

theorem verbatim_of_cut?_eq_some (opened : opening ≠ []) {front after : List Char}
    (h : cut? opening s = some (front, after)) :
    verbatim opening s =
      dropEndWhile (· == '\\') front ++ List.replicate (2 * backslashes front + 1) '\\' ++
        opening ++ verbatim opening after := by
  rw [verbatim, dif_neg opened]
  split
  · next missing =>
    rw [h] at missing
    cases missing
  · next found =>
    rw [h] at found
    cases found
    simp only [take_sub_backslashes]

/-! ### Reading it back -/

/-- Of backslashes put behind a text that ends in none all are counted. -/
theorem backslashes_dropEndWhile_append (s : List Char) (n : Nat) :
    backslashes (dropEndWhile (· == '\\') s ++ List.replicate n '\\') = n := by
  have stop : (s.reverse.dropWhile (· == '\\')).takeWhile (· == '\\') = [] := by
    cases h : s.reverse.dropWhile (· == '\\') with
    | nil => rfl
    | cons c rest =>
        have begun : s.reverse.dropWhile (· == '\\') ≠ [] := h ▸ List.cons_ne_nil c rest
        have other := List.head_dropWhile_not _ begun
        exact List.takeWhile_cons_of_neg (by simpa [h] using other)
  rw [backslashes, takeEndWhile, dropEndWhile, List.reverse_append, List.reverse_reverse,
    List.reverse_replicate, List.takeWhile_append_of_pos (by simp), stop]
  simp

/-- Where backslashes stand in front of a delimiter that has none, every delimiter is before the
backslashes or behind them. -/
theorem inside_or_behind (clear : '\\' ∉ opening) (opened : opening ≠ []) {n : Nat} (filled : n ≠ 0)
    {u tail a b : List Char}
    (occurs : u ++ List.replicate n '\\' ++ opening ++ tail = a ++ opening ++ b) :
    (∃ e, u = a ++ opening ++ e) ∨ (u ++ List.replicate n '\\').length ≤ a.length := by
  simp only [List.append_assoc] at occurs
  rcases List.append_eq_append_iff.mp occurs with ⟨v, rfl, rest⟩ | ⟨v, rfl, rest⟩
  · refine .inr ?_
    rcases List.append_eq_append_iff.mp rest with ⟨e, rfl, -⟩ | ⟨e, slashes, rest⟩
    · simp
    · cases e with
      | nil =>
          rw [slashes]
          simp
      | cons c e =>
          have slash : c = '\\' := List.eq_of_mem_replicate (by rw [slashes]; simp)
          obtain ⟨d, more, rfl⟩ := List.exists_cons_of_ne_nil opened
          obtain ⟨same, -⟩ := List.cons.inj rest
          exact absurd (by simp [same, slash]) clear
  · rcases List.append_eq_append_iff.mp rest with ⟨e, rfl, -⟩ | ⟨e, rfl, rest⟩
    · exact .inl ⟨e, (List.append_assoc ..).symm⟩
    · cases e with
      | nil => exact .inl ⟨[], by simp⟩
      | cons c e =>
          obtain ⟨m, rfl⟩ := Nat.exists_eq_succ_of_ne_zero filled
          obtain ⟨same, -⟩ := List.cons.inj rest
          exact absurd (by simp [← same]) clear

/-- Backslashes in front of the first delimiter leave it the first one. -/
theorem cut?_slashed (clear : '\\' ∉ opening) (opened : opening ≠ []) {front after : List Char}
    (h : cut? opening s = some (front, after)) {n : Nat} (filled : n ≠ 0) (tail : List Char) :
    let slashed := dropEndWhile (· == '\\') front ++ List.replicate n '\\'
    cut? opening (slashed ++ opening ++ tail) = some (slashed, tail) := by
  refine cut?_eq_some_iff.mpr ⟨rfl, fun a b occurs => ?_⟩
  refine (inside_or_behind clear opened filled occurs).resolve_left fun ⟨e, inside⟩ => ?_
  have parts := dropEndWhile_append_takeEndWhile (· == '\\') front
  rw [inside, List.append_assoc _ e] at parts
  have whole : s = a ++ opening ++ (e ++ takeEndWhile (· == '\\') front ++ opening ++ after) := by
    conv => lhs; rw [eq_append_of_cut? h, ← parts]
    simp only [List.append_assoc]
  have first := length_le_of_occurs h whole
  have length := congrArg List.length parts
  have := List.length_pos_iff.mpr opened
  simp only [List.length_append] at length
  omega

/-- A delimiter behind an odd number of backslashes is text, and of the backslashes half are. -/
theorem scanText_of_odd {u after : List Char} {n : Nat}
    (h : cut? opening s = some (u ++ List.replicate n '\\', after))
    (count : backslashes (u ++ List.replicate n '\\') = n) (odd : n % 2 = 1) :
    scanText opening s =
      (u ++ List.replicate (n / 2) '\\' ++ opening ++ (scanText opening after).1,
        (scanText opening after).2) := by
  rw [scanText]
  split
  · next missing =>
    rw [h] at missing
    cases missing
  · next found =>
    rw [h] at found
    cases found
    simp [count, odd]

theorem scanText_of_cut?_eq_none (h : cut? opening s = none) : scanText opening s = (s, []) := by
  rw [scanText]
  split
  · rfl
  · next found =>
    rw [h] at found
    cases found

variable (clear : '\\' ∉ opening) (opened : opening ≠ [])

include clear opened

/-- What is written for a text is scanned as the text. By induction on the delimiters. -/
theorem scanText_verbatim (s : List Char) : scanText opening (verbatim opening s) = (s, []) := by
  fun_induction verbatim opening s with
  | case1 => contradiction
  | case2 s filled missing => exact scanText_of_cut?_eq_none missing
  | case3 s filled front after cut slashes ih =>
      rw [take_sub_backslashes]
      have found := cut?_slashed clear opened cut (n := 2 * slashes + 1) (Nat.succ_ne_zero _)
        (verbatim opening after)
      have count := backslashes_dropEndWhile_append front (2 * slashes + 1)
      have half : (2 * slashes + 1) / 2 = slashes := by omega
      have whole : dropEndWhile (· == '\\') front ++ List.replicate slashes '\\' = front := by
        rw [← take_sub_backslashes]
        exact take_append_backslashes front
      rw [scanText_of_odd found count (by omega), half, whole, ih, eq_append_of_cut? cut]

/-- What is written for a text begins with no tag. -/
theorem dropFront?_verbatim (s : List Char) : dropFront? opening (verbatim opening s) = none := by
  refine Option.eq_none_iff_forall_ne_some.mpr fun rest tagged => ?_
  have start := dropFront?_eq_some_iff.mp tagged
  cases h : cut? opening s with
  | none =>
      rw [verbatim_of_cut?_eq_none h] at start
      exact cut?_eq_none_iff.mp h [] rest start
  | some parts =>
      obtain ⟨front, after⟩ := parts
      have found := cut?_slashed clear opened h (n := 2 * backslashes front + 1)
        (Nat.succ_ne_zero _) (verbatim opening after)
      have written := verbatim_of_cut?_eq_some opened h
      have first := length_le_of_occurs (a := []) found (written.symm.trans start)
      simp at first

theorem verbatim_eq_nil_iff : verbatim opening s = [] ↔ s = [] := by
  have missing : cut? opening [] = none := by
    rw [cut?, if_neg (by simpa using opened)]
  constructor
  · intro empty
    have read := scanText_verbatim clear opened s
    rw [empty, scanText_of_cut?_eq_none missing] at read
    exact (congrArg Prod.fst read).symm
  · rintro rfl
    exact verbatim_of_cut?_eq_none missing

omit clear opened

/-- A template that begins with no tag and is scanned as a text is one piece. -/
theorem scan_text {m : Marks} {template s : List Char} (filled : template ≠ [])
    (closed : dropFront? m.opening template = none) (h : scanText m.opening template = (s, [])) :
    scan m template = [.text s] := by
  have next : (Cursor.start template).next? m =
      some (.text s, (Cursor.start template).moveTo []) := by
    simp [Cursor.next?, Cursor.start, filled, closed, h]
  have ended : ((Cursor.start template).moveTo []).pieces m = [] := by
    rw [Cursor.pieces]
    rfl
  have shorter : ((Cursor.start template).moveTo []).rest.length <
      (Cursor.start template).rest.length := List.length_pos_iff.mpr filled
  rw [scan, Cursor.pieces, next]
  simp only [if_pos shorter, ended]

/-- What is written for a text is scanned as that text, if there is any. -/
theorem scan_verbatim (m : Marks) (clear : '\\' ∉ m.opening) (opened : m.opening ≠ [])
    (s : List Char) : scan m (verbatim m.opening s) = if s.isEmpty then [] else [.text s] := by
  split
  · next empty =>
    rw [(verbatim_eq_nil_iff clear opened).mpr (List.isEmpty_iff.mp empty), scan, Cursor.pieces]
    rfl
  · next filled =>
    have written := (verbatim_eq_nil_iff clear opened (s := s)).not.mpr (by simpa using filled)
    exact scan_text written (dropFront?_verbatim clear opened s) (scanText_verbatim clear opened s)

end Markup

/-! ### Whole calls -/

/-- The template that stands for a text. -/
def written (opening s : String) : String :=
  String.ofList (Markup.verbatim opening.toList s.toList)

/-- The tokens of a text. -/
def textTokens (s : String) : List Markup.Token :=
  if s.isEmpty then [] else [.text s]

/-- The plan of a text. -/
def textPlan (s : String) : Plan :=
  if s.isEmpty then [] else [.literal s]

theorem layout_text (settings : Settings) {t : List Char} (filled : t ≠ []) :
    Markup.layout settings [.text t] = [.text (String.ofList t)] := by
  simp [Markup.layout, Markup.placeFrom, Markup.place, Markup.Run.between, Markup.Run.ofRange,
    Markup.keptStart, Markup.keptStop, Markup.stripsAfter, Markup.stripsBefore,
    Markup.Placed.token?, filled]

theorem readTemplate_written {settings : Settings} {s : String}
    (opened : settings.delimiters.opening ≠ "")
    (clear : '\\' ∉ settings.delimiters.opening.toList) (isHelper : String → Bool) (r : Report) :
    (Markup.readTemplate settings isHelper (written settings.delimiters.opening s)).run r =
      (textTokens s, r.addEvent (.validated (textTokens s).length)) := by
  have begun : settings.delimiters.opening.toList ≠ [] := by simpa using opened
  have pieces := Markup.scan_verbatim (Markup.Marks.ofDelimiters settings.delimiters) clear begun
    s.toList
  unfold Markup.readTemplate written
  rw [String.toList_ofList]
  simp only [Markup.Marks.ofDelimiters] at pieces ⊢
  rw [pieces]
  by_cases empty : s = ""
  · subst empty
    rfl
  · have filled : s.toList ≠ [] := by simpa using empty
    have items : Markup.readPieces isHelper [.text s.toList] = pure [.text s.toList] := rfl
    rw [if_neg (by simpa using empty), items, pure_bind, layout_text settings filled,
      String.ofList_toList, textTokens, if_neg (by simpa using empty)]
    rfl

/-- The builder makes one literal of a text. -/
theorem build_textTokens (ctx : BuildContext) (s : String) :
    ctx.build (textTokens s) = pure (textPlan s) := by
  unfold textTokens textPlan
  split <;> rfl

theorem reporting_run {α : Type} (action : StateM Report α) (c : Compilation) :
    (Compiling.reporting action).run c =
      ((action.run c.report).1, { c with report := (action.run c.report).2 }) :=
  rfl

theorem compileSource_written (w : Workshop) {s : String}
    (opened : w.settings.delimiters.opening ≠ "")
    (clear : '\\' ∉ w.settings.delimiters.opening.toList) (entered : List String)
    (available : Table String) (c : Compilation) :
    (w.compileSource entered available (written w.settings.delimiters.opening s)).run c =
      (textPlan s,
        { c with report := c.report.addEvent (.validated (textTokens s).length) }) := by
  have read := readTemplate_written (s := s) opened clear w.registry.hasHelper c.report
  have tokens : (Compiling.reporting (Markup.readTemplate w.settings w.registry.hasHelper
      (written w.settings.delimiters.opening s))).run c =
        (textTokens s,
          { c with report := c.report.addEvent (.validated (textTokens s).length) }) := by
    rw [reporting_run, read]
  rw [Workshop.compileSource_eq, StateT.run_bind, tokens]
  exact congrArg (fun plan : Compiling Plan => plan.run _) (build_textTokens _ s)

theorem withInlines_textPlan (scene : Scene) (enter? : Option (Plan → Eval String)) (s : String) :
    withInlines (textPlan s) (scene.renderNodes enter? (textPlan s)) = pure s := by
  unfold textPlan
  split
  · next empty =>
    rw [String.isEmpty_iff.mp empty]
    rfl
  · conv => rhs; rw [← String.append_empty (s := s)]
    rfl

namespace Registry

variable (registry : Registry) {settings : Settings} (s : String)

/-- What is written for a text compiles to the plan of the text. -/
theorem compile_written (opened : settings.delimiters.opening ≠ "")
    (clear : '\\' ∉ settings.delimiters.opening.toList) :
    ∃ template, (registry.compile settings (written settings.delimiters.opening s)).result =
      .ok template ∧ template.plan = textPlan s ∧ template.warnings = [] := by
  unfold Registry.compile
  simp only [Workshop.compileTemplate_run,
    compileSource_written { settings, registry } opened clear]
  exact ⟨_, rfl, rfl, rfl⟩

/-- Every text can be written as a template. Whatever is registered and whatever else is set, as
long as the opening delimiter is not empty and contains no backslash, what is written for a text
compiles without a warning, and its output is the text, whatever it is rendered with. -/
theorem render_written (opened : settings.delimiters.opening ≠ "")
    (clear : '\\' ∉ settings.delimiters.opening.toList) :
    ∃ template, (registry.compile settings (written settings.delimiters.opening s)).result =
      .ok template ∧ template.warnings = [] ∧ ∀ input, (template.render input).result = .ok s := by
  obtain ⟨template, compiled, plan, quiet⟩ := compile_written registry s opened clear
  refine ⟨template, compiled, quiet, fun input => ?_⟩
  simp only [Template.render, plan, Scene.renderPlan_eq, withInlines_textPlan]
  rfl

/-- A text with delimiters side by side, behind a backslash, and in front of one. -/
def tags : String := "\\\x7b\x7b\x7b\x7b\x7b a \x7d\x7d \\\\\x7b\x7b\\"

theorem tags_written :
    let settings : Settings := {}
    settings.delimiters.opening ≠ "" ∧ '\\' ∉ settings.delimiters.opening.toList ∧
      written settings.delimiters.opening tags =
        "\\\\\\\x7b\x7b\\\x7b\x7b\x7b a \x7d\x7d \\\\\\\\\\\x7b\x7b\\" ∧
      ∃ template, (builtin.compile settings (written settings.delimiters.opening tags)).result =
        .ok template ∧ template.warnings = [] ∧
          ∀ input, (template.render input).result = .ok tags := by
  intro settings
  have opened : settings.delimiters.opening ≠ "" := by decide
  have clear : '\\' ∉ settings.delimiters.opening.toList := by decide
  exact ⟨opened, clear, by decide +kernel, render_written builtin tags opened clear⟩

end Registry

end Stencil
