import Stencil.Proofs.Markup.Progress
import Stencil.Proofs.Markup.Verbatim

/-!
Texts and tags are scanned as they were written.

A template is put together from texts and plain tags. The scan finds them again under any
delimiters, as long as a delimiter is first met where it was written, and nothing at the ends of a
tag or a text has a meaning of its own. There is one thing more that the scan looks at: a closing
brace behind a tag is taken for a part of it that does not match, whatever the delimiters are. So a
text that stands behind a tag and begins with such a brace is not read back.
-/

namespace Stencil.Markup

open Text

/-! ### Delimiters at the end -/

/-- The delimiter that is put behind a text is the first one there. -/
def EndsAt (needle s : List Char) : Prop :=
  ∀ a b, s ++ needle = a ++ needle ++ b → b = []

theorem endsAt_iff {needle s : List Char} :
    EndsAt needle s ↔ cut? needle (s ++ needle) = some (s, []) := by
  rw [cut?_eq_some_iff, List.append_nil]
  refine ⟨fun h => ⟨rfl, fun a b occurs => ?_⟩, fun h a b occurs => ?_⟩
  · rw [h a b occurs, List.append_nil] at occurs
    exact (List.append_cancel_right occurs).symm ▸ Nat.le_refl _
  · have first := h.2 a b occurs
    have length := congrArg List.length occurs
    simp only [List.length_append] at length
    exact List.length_eq_zero_iff.mp (by omega)

instance (needle s : List Char) : Decidable (EndsAt needle s) :=
  decidable_of_iff _ endsAt_iff.symm

namespace EndsAt

variable {needle s : List Char}

/-- The cut is behind the text, whatever follows. -/
theorem cut?_eq (h : EndsAt needle s) (rest : List Char) :
    cut? needle (s ++ needle ++ rest) = some (s, rest) := by
  refine cut?_eq_some_iff.mpr ⟨rfl, fun a b occurs => ?_⟩
  by_contra before
  have inside : a ++ needle <+: s ++ needle := by
    refine List.prefix_of_prefix_length_le ⟨b, occurs.symm⟩ (List.prefix_append _ _) ?_
    simp only [List.length_append]
    omega
  obtain ⟨c, whole⟩ := inside
  have nothing := h a c whole.symm
  rw [nothing, List.append_nil] at whole
  exact before (List.append_cancel_right whole ▸ Nat.le_refl _)

theorem cut?_eq_none (h : EndsAt needle s) (filled : needle ≠ []) : cut? needle s = none := by
  refine cut?_eq_none_iff.mpr fun a b occurs => filled ?_
  have nothing := h a (b ++ needle) (by rw [occurs]; simp)
  exact (List.append_eq_nil_iff.mp nothing).2

end EndsAt

/-- No backslash stands at the end of a text that ends in something else. -/
theorem backslashes_eq_zero {s : List Char} (h : s.getLast? ≠ some '\\') : backslashes s = 0 := by
  rw [backslashes, takeEndWhile, List.length_reverse]
  rw [← List.head?_reverse] at h
  cases reversed : s.reverse with
  | nil => rfl
  | cons c rest =>
      have other : c ≠ '\\' := by simpa [reversed] using h
      rw [List.takeWhile_cons_of_neg (by simpa using other)]
      rfl

/-! ### Written templates -/

/-- A stretch of a template as it is written: a text, or a tag without sigil, braces and tildes. -/
inductive Stretch
  | text (s : List Char)
  | tag (content : List Char)

namespace Stretch

variable (m : Marks)

def written : Stretch → List Char
  | text s => s
  | tag content => m.opening ++ content ++ m.closing

def isText : Stretch → Bool
  | text _ => true
  | tag _ => false

/-- What begins with a character that has a meaning at the start of a tag. -/
def startsWithSign : List Char → Bool
  | [] => false
  | c :: _ => signs.contains c

/-- The stretch is not empty, and nothing in it has a meaning for the scan: the delimiter that is
expected behind it does not stand in it, and neither end is a backslash, a sign or a tilde. -/
def Fits : Stretch → Prop
  | text s => s ≠ [] ∧ EndsAt m.opening s ∧ s.getLast? ≠ some '\\'
  | tag content => content ≠ [] ∧ EndsAt m.closing content ∧
      startsWithSign content = false ∧ content.getLast? ≠ some '~'

instance : DecidablePred (Fits m)
  | text s => inferInstanceAs (Decidable (s ≠ [] ∧ EndsAt m.opening s ∧ s.getLast? ≠ some '\\'))
  | tag content => inferInstanceAs (Decidable (content ≠ [] ∧ EndsAt m.closing content ∧
      startsWithSign content = false ∧ content.getLast? ≠ some '~'))

def beginsWithBrace : Stretch → Bool
  | text ('}' :: _) => true
  | _ => false

/-- Two texts do not stand side by side. -/
def Apart (a b : Stretch) : Prop :=
  ¬ (a.isText = true ∧ b.isText = true)

/-- No text that begins with a closing brace stands behind a tag. -/
def Clear (a b : Stretch) : Prop :=
  ¬ (a.isText = false ∧ b.beginsWithBrace = true)

instance : DecidableRel Apart := fun a b =>
  inferInstanceAs (Decidable (¬ (a.isText = true ∧ b.isText = true)))

instance : DecidableRel Clear := fun a b =>
  inferInstanceAs (Decidable (¬ (a.isText = false ∧ b.beginsWithBrace = true)))

/-- The template that is put together from stretches. -/
def template (parts : List Stretch) : List Char :=
  parts.flatMap (written m)

/-- The tag of a content, as it is written. -/
def plainTag (content : List Char) (line : Nat) : RawTag :=
  { form := .plain .none false, opening := m.opening, lead := leadingWhite content,
    inner := trim content, trail := trailingWhite (trimStart content), closing := m.closing,
    stripBefore := false, stripAfter := false, source := m.opening ++ content ++ m.closing, line }

def piece (line : Nat) : Stretch → Piece
  | text s => .text s
  | tag content => .tag (plainTag m content line)

/-- The stretches as pieces, the first of which begins on the line given. -/
def pieces : (line : Nat) → List Stretch → List Piece
  | _, [] => []
  | line, s :: rest => s.piece m line :: pieces (line + (s.written m).count '\n') rest

/-- What is scanned instead of a tag with a closing brace behind it. -/
def braceFault (content : List Char) (line : Nat) : Piece :=
  .fault (.badToken (String.ofList (m.opening ++ content ++ m.closing ++ ['}']))
    (String.ofList (suggest m [] content)) line)

/-- What is scanned of stretches. A text behind a tag loses a closing brace at its start, and the
tag is lost with it. -/
def scanned : (line : Nat) → List Stretch → List Piece
  | _, [] => []
  | line, text s :: rest => .text s :: scanned (line + s.count '\n') rest
  | line, tag content :: text ('}' :: s) :: rest =>
    let next := line + (m.opening ++ content ++ m.closing ++ '}' :: s).count '\n'
    braceFault m content line :: ((if s = [] then [] else [.text s]) ++ scanned next rest)
  | line, tag content :: rest =>
    .tag (plainTag m content line) ::
      scanned (line + (m.opening ++ content ++ m.closing).count '\n') rest

end Stretch

/-! ### Scanning them -/

variable {m : Marks} {c : Cursor}

theorem Cursor.line_moveTo {span rest : List Char} (h : c.rest = span ++ rest) :
    (c.moveTo rest).line = c.line + span.count '\n' := by
  simp only [moveTo, line, spanTo_eq h, List.count_append, List.count_reverse]
  omega

/-- A text is scanned up to the next delimiter. -/
theorem Cursor.next?_text (opened : m.opening ≠ []) {s rest : List Char}
    (fits : (Stretch.text s).Fits m) (ends : rest = [] ∨ m.opening <+: rest)
    (h : c.rest = s ++ rest) : c.next? m = some (.text s, c.moveTo rest) := by
  obtain ⟨filled, ends_at, last⟩ := fits
  have begun : c.rest.isEmpty = false := by simp [h, filled]
  have untagged : dropFront? m.opening c.rest = none := by
    refine Option.eq_none_iff_forall_ne_some.mpr fun tail tagged => filled ?_
    have start := dropFront?_eq_some_iff.mp tagged
    rcases ends with rfl | ⟨more, rfl⟩
    · rw [h, List.append_nil] at start
      exact absurd start (cut?_eq_none_iff.mp (ends_at.cut?_eq_none opened) [] tail)
    · rw [h, ← List.append_assoc] at start
      have first := length_le_of_occurs (a := []) (ends_at.cut?_eq more) start
      exact List.length_eq_zero_iff.mp (Nat.le_zero.mp first)
  have scanned : scanText m.opening c.rest = (s, rest) := by
    rcases ends with rfl | ⟨more, rfl⟩
    · rw [h, List.append_nil]
      exact scanText_of_cut?_eq_none (ends_at.cut?_eq_none opened)
    · have cut := ends_at.cut?_eq more
      rw [List.append_assoc, ← h] at cut
      rw [scanText]
      split
      · next missing =>
        rw [cut] at missing
        cases missing
      · next found =>
        rw [cut] at found
        cases found
        simp [backslashes_eq_zero last]
  simp only [next?, begun, Bool.false_eq_true, if_false, untagged, scanned]

/-- What is scanned of a tag depends on whether a closing brace stands behind it. -/
theorem scanTag_content {content : List Char} (fits : (Stretch.tag content).Fits m) (line : Nat)
    (s rest : List Char) : scanTag m line s (content ++ m.closing ++ rest) =
      match rest with
      | '}' :: rest => (.error (.braces (suggest m [] content)), rest)
      | rest => (.ok { Stretch.plainTag m content line with source := spanTo s rest }, rest) := by
  obtain ⟨filled, ends_at, first, last⟩ := fits
  obtain ⟨d, more, rfl⟩ := List.exists_cons_of_ne_nil filled
  have plain : d ∉ signs := by simpa [Stretch.startsWithSign] using first
  have front : d ≠ '~' ∧ d ≠ '{' := by
    simp only [signs, List.mem_cons, not_or] at plain
    exact ⟨plain.1, plain.2.1⟩
  have cut := ends_at.cut?_eq rest
  have noTilde : takeTilde (d :: more) = (d :: more, false) := by
    rw [takeTilde, if_neg last]
  rw [List.cons_append, List.cons_append] at cut ⊢
  rw [scanTag_plain m line s front.1 front.2]
  simp only [scanPlain, read_of_notMem_signs plain, reduceCtorEq, if_false, cut]
  cases rest with
  | nil => simp [noTilde, mkTag, Stretch.plainTag, trim]
  | cons e rest =>
      by_cases brace : e = '}'
      · subst brace
        rfl
      · simp [brace, noTilde, mkTag, Stretch.plainTag, trim]

/-- A tag is scanned as it was written, when no closing brace stands behind it. -/
theorem Cursor.next?_tag (opened : m.opening ≠ []) {content rest : List Char}
    (fits : (Stretch.tag content).Fits m) (clear : rest.head? ≠ some '}')
    (h : c.rest = m.opening ++ content ++ m.closing ++ rest) :
    c.next? m = some (.tag (Stretch.plainTag m content c.line), c.moveTo rest) := by
  have begun : c.rest.isEmpty = false := by simp [h, opened]
  have tagged : dropFront? m.opening c.rest = some (content ++ m.closing ++ rest) :=
    dropFront?_eq_some_iff.mpr (by simp [h])
  have source : spanTo c.rest rest = m.opening ++ content ++ m.closing := spanTo_eq h
  have scanned : scanTag m c.line c.rest (content ++ m.closing ++ rest) =
      (.ok (Stretch.plainTag m content c.line), rest) := by
    rw [scanTag_content fits]
    split
    · simp at clear
    · rw [source]
      rfl
  simp only [next?, begun, Bool.false_eq_true, if_false, tagged, scanned]

/-- A closing brace behind a tag is taken for a part of it that does not match. -/
theorem Cursor.next?_brace (opened : m.opening ≠ []) {content rest : List Char}
    (fits : (Stretch.tag content).Fits m)
    (h : c.rest = m.opening ++ content ++ m.closing ++ '}' :: rest) :
    c.next? m = some (Stretch.braceFault m content c.line, c.moveTo rest) := by
  have begun : c.rest.isEmpty = false := by simp [h, opened]
  have tagged : dropFront? m.opening c.rest = some (content ++ m.closing ++ '}' :: rest) :=
    dropFront?_eq_some_iff.mpr (by simp [h])
  have found : spanTo c.rest rest = m.opening ++ content ++ m.closing ++ ['}'] :=
    spanTo_eq (by simp [h])
  simp only [next?, begun, Bool.false_eq_true, if_false, tagged, scanTag_content fits,
    Fault.diagnostic, found, Stretch.braceFault]

/-! ### Whole templates -/

namespace Stretch

/-- Behind a text a tag begins, or nothing stands there. -/
theorem template_behind_text {s : List Char} {rest : List Stretch}
    (apart : (text s :: rest).IsChain Apart) :
    template m rest = [] ∨ m.opening <+: template m rest := by
  cases rest with
  | nil => exact .inl rfl
  | cons next rest =>
      cases next with
      | text t => exact absurd ⟨rfl, rfl⟩ (List.isChain_cons_cons.mp apart).1
      | tag content =>
          refine .inr ⟨content ++ m.closing ++ template m rest, ?_⟩
          simp [template, written]

/-- Unless a text that begins with a closing brace is next, no such brace stands next. -/
theorem head?_template (noBrace : '}' ∉ m.opening) {rest : List Stretch}
    (fits : ∀ s ∈ rest, s.Fits m) (opened : m.opening ≠ [])
    (clear : ∀ s more, rest ≠ text ('}' :: s) :: more) : (template m rest).head? ≠ some '}' := by
  cases rest with
  | nil => simp [template]
  | cons next rest =>
      cases next with
      | text t =>
          obtain ⟨d, more, rfl⟩ := List.exists_cons_of_ne_nil (fits _ (.head _)).1
          simp only [template, List.flatMap_cons, written, List.cons_append, List.head?_cons]
          rintro ⟨rfl⟩
          exact clear more rest rfl
      | tag content =>
          obtain ⟨d, more, start⟩ := List.exists_cons_of_ne_nil opened
          simp only [template, List.flatMap_cons, written, start, List.cons_append, List.head?_cons]
          rintro ⟨rfl⟩
          exact noBrace (by rw [start]; exact .head _)

/-- A text behind a closing brace fits where the whole does. -/
theorem Fits.behind_brace {s : List Char} (fits : (text ('}' :: s)).Fits m) (filled : s ≠ []) :
    (text s).Fits m := by
  obtain ⟨-, ends_at, last⟩ := fits
  refine ⟨filled, fun a b occurs => ?_, ?_⟩
  · exact ends_at ('}' :: a) b (by rw [List.cons_append, occurs]; rfl)
  · rwa [List.getLast?_cons_of_ne_nil filled] at last

/-- By induction on the stretches. -/
theorem pieces_written (opened : m.opening ≠ []) (noBrace : '}' ∉ m.opening)
    {parts : List Stretch} (fits : ∀ s ∈ parts, s.Fits m) (apart : parts.IsChain Apart)
    (line : Nat) (c : Cursor) (at_line : c.line = line) (h : c.rest = template m parts) :
    c.pieces m = scanned m line parts := by
  fun_induction scanned m line parts generalizing c with
  | case1 line => exact Cursor.pieces_of_rest_eq_nil h
  | case2 line s rest ih =>
      obtain ⟨first, later⟩ := List.forall_mem_cons.mp fits
      have next := Cursor.next?_text opened first (template_behind_text apart) h
      have moved : (c.moveTo (template m rest)).line = line + s.count '\n' :=
        at_line ▸ Cursor.line_moveTo h
      rw [Cursor.pieces_of_next? (.inl opened) next,
        ih later (List.isChain_cons.mp apart).2 _ moved rfl]
  | case3 line content s rest next ih =>
      obtain ⟨first, second, later⟩ : (tag content).Fits m ∧ (text ('}' :: s)).Fits m ∧
          ∀ s ∈ rest, s.Fits m := by
        simpa only [List.forall_mem_cons] using fits
      have behind := (List.isChain_cons.mp apart).2
      have whole : c.rest = m.opening ++ content ++ m.closing ++ '}' :: (s ++ template m rest) := by
        simp [h, template, written]
      have fault := Cursor.next?_brace opened first whole
      let d := c.moveTo (s ++ template m rest)
      have fault_line : d.line = line + (m.opening ++ content ++ m.closing ++ ['}']).count '\n' :=
        at_line ▸ Cursor.line_moveTo (whole.trans (List.append_cons ..))
      have later_line : (d.moveTo (template m rest)).line =
          line + (m.opening ++ content ++ m.closing ++ '}' :: s).count '\n' := by
        rw [Cursor.line_moveTo (c := d) rfl, fault_line]
        simp only [List.count_append, List.count_cons, List.count_nil]
        omega
      have others := ih later (List.isChain_cons.mp behind).2 _ later_line rfl
      rw [Cursor.pieces_of_next? (.inl opened) fault, at_line]
      refine congrArg (_ :: ·) ?_
      -- behind the brace the text goes on, or the next tag stands there
      split
      · next empty =>
        subst empty
        rw [← others]
        exact congrArg (Cursor.pieces m) d.moveTo_rest.symm
      · next filled =>
        have text := Cursor.next?_text opened (second.behind_brace filled)
          (template_behind_text behind) (c := d) rfl
        rw [Cursor.pieces_of_next? (.inl opened) text, others]
        rfl
  | case4 line content rest clear ih =>
      obtain ⟨first, later⟩ := List.forall_mem_cons.mp fits
      have next := Cursor.next?_tag opened first (head?_template noBrace later opened clear) h
      have moved : (c.moveTo (template m rest)).line =
          line + (m.opening ++ content ++ m.closing).count '\n' := at_line ▸ Cursor.line_moveTo h
      rw [Cursor.pieces_of_next? (.inl opened) next,
        ih later (List.isChain_cons.mp apart).2 _ moved rfl, at_line]

theorem clear_text_iff (s : List Char) (rest : List Stretch) :
    (text s :: rest).IsChain Clear ↔ rest.IsChain Clear := by
  rw [List.isChain_cons]
  exact and_iff_right fun _ _ behind => nomatch behind.1

theorem clear_tag_iff {content : List Char} {rest : List Stretch}
    (clear : ∀ s more, rest ≠ text ('}' :: s) :: more) :
    (tag content :: rest).IsChain Clear ↔ rest.IsChain Clear := by
  rw [List.isChain_cons]
  refine and_iff_right fun next first behind => ?_
  obtain ⟨more, rfl⟩ := List.head?_eq_some_iff.mp first
  have brace := behind.2
  unfold beginsWithBrace at brace
  split at brace
  · exact clear _ _ rfl
  · cases brace

/-- As long as no text behind a tag begins with a closing brace, what is scanned is what was
written, and otherwise it is not. -/
theorem scanned_eq_pieces_iff (line : Nat) (parts : List Stretch) :
    scanned m line parts = pieces m line parts ↔ parts.IsChain Clear := by
  fun_induction scanned m line parts with
  | case1 line => exact ⟨fun _ => .nil, fun _ => rfl⟩
  | case2 line s rest ih =>
      rw [clear_text_iff, ← ih]
      exact List.cons_inj_right _
  | case3 line content s rest next ih =>
      refine ⟨fun same => ?_, fun clear => absurd ⟨rfl, rfl⟩ (List.isChain_cons_cons.mp clear).1⟩
      rw [pieces] at same
      cases (List.cons_eq_cons.mp same).1
  | case4 line content rest clear ih =>
      rw [clear_tag_iff clear, ← ih]
      exact List.cons_inj_right _

end Stretch

/-- Take any delimiters of which the opening one is not empty and has no closing brace, and any
texts and plain tags in any order, except two texts side by side. As long as no text behind a tag
begins with a closing brace, the scan finds just these texts and tags; otherwise every such tag is
lost, and the rest is found all the same. -/
theorem scan_written (m : Marks) (opened : m.opening ≠ []) (noBrace : '}' ∉ m.opening)
    {parts : List Stretch} (fits : ∀ s ∈ parts, s.Fits m) (apart : parts.IsChain Stretch.Apart) :
    scan m (Stretch.template m parts) = Stretch.scanned m 1 parts ∧
      (scan m (Stretch.template m parts) = Stretch.pieces m 1 parts ↔
        parts.IsChain Stretch.Clear) := by
  have found : scan m (Stretch.template m parts) = Stretch.scanned m 1 parts :=
    Stretch.pieces_written opened noBrace fits apart 1 (Cursor.start _) rfl rfl
  exact ⟨found, by rw [found]; exact Stretch.scanned_eq_pieces_iff 1 parts⟩

def percent : Marks :=
  { opening := ['<', '%'], closing := ['%', '>'] }

/-- Texts and tags that almost end too early, with braces inside. -/
def crowded : List Stretch :=
  [.tag " a\n> %".toList, .tag "\x7db\x7d".toList, .text "% \x7d\n\x7b\x7b<<".toList,
    .tag "c".toList]

theorem crowded_written :
    percent.opening ≠ [] ∧ '}' ∉ percent.opening ∧ (∀ s ∈ crowded, s.Fits percent) ∧
      crowded.IsChain Stretch.Apart ∧ crowded.IsChain Stretch.Clear ∧
      Stretch.template percent crowded =
        "<% a\n> %%><%\x7db\x7d%>% \x7d\n\x7b\x7b<<<%c%>".toList ∧
      scan percent (Stretch.template percent crowded) =
        [.tag (Stretch.plainTag percent " a\n> %".toList 1),
          .tag (Stretch.plainTag percent "\x7db\x7d".toList 2),
          .text "% \x7d\n\x7b\x7b<<".toList, .tag (Stretch.plainTag percent "c".toList 3)] := by
  have fits : ∀ s ∈ crowded, s.Fits percent := by decide +kernel
  have apart : crowded.IsChain Stretch.Apart := by decide
  have clear : crowded.IsChain Stretch.Clear := by decide
  have written := scan_written percent (by decide) (by decide) fits apart
  refine ⟨by decide, by decide, fits, apart, clear, by decide +kernel, ?_⟩
  exact written.2.mpr clear

/-- A text that begins with a closing brace takes away the tag that it stands behind. -/
theorem braceBehind_misses :
    let parts : List Stretch := [.tag ['x'], .text ['}']]
    (∀ s ∈ parts, s.Fits percent) ∧ parts.IsChain Stretch.Apart ∧
      scan percent (Stretch.template percent parts) =
        [.fault (.badToken "<%x%>\x7d" "<%x%> or <%\x7bx\x7d%>" 1)] ∧
      scan percent (Stretch.template percent parts) ≠
        [.tag (Stretch.plainTag percent ['x'] 1), .text ['}']] := by
  intro parts
  have fits : ∀ s ∈ parts, s.Fits percent := by decide +kernel
  have apart : parts.IsChain Stretch.Apart := by decide
  have found : scan percent (Stretch.template percent parts) =
      [.fault (.badToken "<%x%>\x7d" "<%x%> or <%\x7bx\x7d%>" 1)] :=
    Stretch.pieces_written (by decide) (by decide) fits apart 1 (Cursor.start _) rfl rfl
  refine ⟨fits, apart, found, ?_⟩
  rw [found]
  simp

end Stencil.Markup
