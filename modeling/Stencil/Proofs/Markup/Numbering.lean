import Stencil.Proofs.Markup.Delimiters

/-!
The lines of tags and faults.

A scan that goes over a template once does not count the lines from the start for every tag. It
keeps the line of the last tag and the offset of its first byte, and counts on from there. Such a
count cannot go back: it can only be asked for an offset that is not before the last one and at
which a character begins. The scan below numbers its tags in this way, and asks a second time for
a tag that is not closed. It never asks for what the count cannot tell, and finds the same pieces
as the scan that numbers every place by itself; and the number of a tag or a fault is the line on
which its opening delimiter begins.
-/

namespace Stencil

/-- The line that a message states. -/
def Diagnostic.line? : Diagnostic → Option Nat
  | badToken _ _ line => some line
  | unclosedTag _ line => some line
  | unterminated _ site => some site.line
  | unclosedBlock site => some site.line
  | mismatchedBlock _ site => some site.line
  | unexpectedClose site => some site.line
  | unexpectedElse site => some site.line
  | missingHelper _ site => some site.line
  | illegalPath _ _ site => some site.line
  | misplacedParent _ site => some site.line
  | recursivePartial _ => none
  | partialNotFound _ site => some site.line
  | namedArgument _ site => some site.line
  | arguments _ site => some site.line
  | inPartial _ cause => cause.line?

namespace Markup

open Text

/-- The line that a piece carries. A text has none. -/
def Piece.line? : Piece → Option Nat
  | .text _ => none
  | .tag raw => some raw.line
  | .fault cause => cause.line?

/-! ### Counting on -/

/-- A text cut behind its first `n` bytes; none if it is shorter or a character is cut. -/
def cutBytes? : (n : Nat) → List Char → Option (List Char × List Char)
  | 0, s => some ([], s)
  | _ + 1, [] => none
  | n + 1, c :: s =>
    if c.utf8Size ≤ n + 1 then
      (cutBytes? (n + 1 - c.utf8Size) s).map fun (front, rest) => (c :: front, rest)
    else none

/-- The characters from one byte of a text up to another, which must not stand before it. -/
def slice? (start stop : Nat) (s : List Char) : Option (List Char) :=
  if start ≤ stop then do
    let (_, rest) ← cutBytes? start s
    let (span, _) ← cutBytes? (stop - start) rest
    return span
  else none

/-- The line of the last place that was asked for, and the offset of that place in bytes. -/
structure LineCount where
  line : Nat := 1
  offset : Nat := 0

/-- Counts on to an offset. -/
def LineCount.goOn? (template : List Char) (offset : Nat) (count : LineCount) :
    Option LineCount :=
  (slice? count.offset offset template).map fun passed =>
    { line := count.line + passed.count '\n', offset }

/-! ### The counting scan -/

/-- The diagnostic of a fault with its line. -/
def Fault.diagnosticOn (m : Marks) (c : Cursor) (rest : List Char) (line : Nat) :
    Fault → Diagnostic
  | .unclosed => .unclosedTag (tailText (m.opening.reverse ++ c.before)) line
  | .braces suggestion =>
    .badToken (String.ofList (spanTo c.rest rest)) (String.ofList suggestion) line

/-- A tag that is not closed asks for its line again. -/
def Fault.recount? (template : List Char) (c : Cursor) (count : LineCount) :
    Fault → Option LineCount
  | .unclosed => count.goOn? template c.offset
  | .braces _ => some count

/-- What a call for the next piece gives: the end, or a piece, the place behind it and the count. -/
inductive Counted
  | ended
  | next (piece : Piece) (after : Cursor) (count : LineCount)

/-- The next piece with its line counted on; none when the count is asked for what it cannot
tell. -/
def Cursor.counted? (m : Marks) (template : List Char) (c : Cursor) (count : LineCount) :
    Option Counted :=
  if c.rest.isEmpty then some .ended
  else
    match dropFront? m.opening c.rest with
    | none =>
      let (text, rest) := scanText m.opening c.rest
      some (.next (.text text) (c.moveTo rest) count)
    | some after => do
      let count ← count.goOn? template c.offset
      let (outcome, rest) := scanTag m count.line c.rest after
      match outcome with
      | .ok raw => return .next (.tag raw) (c.moveTo rest) count
      | .error fault =>
        let count ← fault.recount? template c count
        return .next (.fault (fault.diagnosticOn m c rest count.line)) (c.moveTo rest) count

/-- The pieces from a place on, counted on from `count`. -/
def Cursor.countedPieces? (m : Marks) (template : List Char) (c : Cursor) (count : LineCount) :
    Option (List Piece) :=
  match c.counted? m template count with
  | none => none
  | some .ended => some []
  | some (.next piece after count) =>
    if after.rest.length < c.rest.length then
      (after.countedPieces? m template count).map (piece :: ·)
    else some [piece]
termination_by c.rest.length

/-- The pieces of a template, with the lines counted on from the first one. -/
def countedScan? (m : Marks) (template : List Char) : Option (List Piece) :=
  (Cursor.start template).countedPieces? m template {}

/-! ### What the count knows -/

theorem cutBytes?_append (front rest : List Char) :
    cutBytes? (String.utf8Len front) (front ++ rest) = some (front, rest) := by
  induction front with
  | nil => simp [cutBytes?]
  | cons c front ih =>
      have size := c.utf8Size_pos
      obtain ⟨n, bytes⟩ : ∃ n, String.utf8Len front + c.utf8Size = n + 1 :=
        ⟨String.utf8Len front + c.utf8Size - 1, by omega⟩
      have fits : c.utf8Size ≤ n + 1 := by omega
      have left : n + 1 - c.utf8Size = String.utf8Len front := by omega
      rw [String.utf8Len_cons, bytes, List.cons_append, cutBytes?, if_pos fits, left, ih]
      rfl

theorem slice?_append (front span rest : List Char) :
    slice? (String.utf8Len front) (String.utf8Len (front ++ span)) (front ++ (span ++ rest)) =
      some span := by
  rw [String.utf8Len_append, slice?, if_pos (Nat.le_add_right _ _), cutBytes?_append,
    Nat.add_sub_cancel_left]
  simp [cutBytes?_append]

/-- The count was last asked for a place that is not behind `c`, and knows its line. -/
def LineCount.Behind (count : LineCount) (c : Cursor) : Prop :=
  ∃ front span, c.before.reverse = front ++ span ∧
    count = { line := front.count '\n' + 1, offset := String.utf8Len front }

variable {m : Marks} {c after : Cursor} {piece : Piece} {count : LineCount}

/-- The count at a place. -/
def LineCount.here (c : Cursor) : LineCount where
  line := c.line
  offset := c.offset

theorem LineCount.behind_here (c : Cursor) : (here c).Behind c := by
  refine ⟨c.before.reverse, [], (List.append_nil _).symm, ?_⟩
  rw [List.count_reverse, String.utf8Len_reverse]
  rfl

theorem LineCount.behind_start (template : List Char) :
    LineCount.Behind {} (Cursor.start template) :=
  behind_here _

/-- A count stays behind when the place moves on. -/
theorem LineCount.Behind.moveTo (h : count.Behind c) (rest : List Char) :
    count.Behind (c.moveTo rest) := by
  obtain ⟨front, span, before, known⟩ := h
  refine ⟨front, span ++ spanTo c.rest rest, ?_, known⟩
  rw [Cursor.moveTo, List.reverse_append, List.reverse_reverse, before, List.append_assoc]

/-- From behind a place the count goes on to it. -/
theorem LineCount.Behind.goOn?_eq (h : count.Behind c) :
    count.goOn? c.text c.offset = some (here c) := by
  obtain ⟨front, span, before, rfl⟩ := h
  have offset : c.offset = String.utf8Len (front ++ span) := by
    rw [← before, String.utf8Len_reverse]
    rfl
  have line : c.line = front.count '\n' + 1 + span.count '\n' := by
    have parts := congrArg (List.count '\n') before
    rw [List.count_reverse, List.count_append] at parts
    rw [Cursor.line]
    omega
  rw [goOn?, Cursor.text, before, List.append_assoc, offset, slice?_append, here, line, offset]
  rfl

/-! ### Both scans agree -/

theorem Fault.diagnosticOn_line (fault : Fault) (rest : List Char) :
    fault.diagnosticOn m c rest c.line = fault.diagnostic m c rest := by
  cases fault <;> rfl

theorem Fault.recount?_here (fault : Fault) :
    fault.recount? c.text c (.here c) = some (.here c) := by
  cases fault with
  | unclosed => exact (LineCount.behind_here c).goOn?_eq
  | braces suggestion => rfl

/-- With the count behind the place a call is answered, with the piece of the other scan, and the
count stays behind. -/
theorem Cursor.counted?_of_next? (behind : count.Behind c)
    (h : c.next? m = some (piece, after)) :
    ∃ count', c.counted? m c.text count = some (.next piece after count') ∧
      count'.Behind after := by
  unfold next? at h
  rw [counted?]
  split at h
  · cases h
  · next filled =>
    rw [if_neg filled]
    cases tagged : dropFront? m.opening c.rest with
    | none =>
        rw [tagged] at h
        cases h
        exact ⟨count, rfl, behind.moveTo _⟩
    | some tail =>
        rw [tagged] at h
        have here : (LineCount.here c).Behind after := by
          cases h
          exact (LineCount.behind_here c).moveTo _
        refine ⟨.here c, ?_, here⟩
        simp only [behind.goOn?_eq, Option.bind_eq_bind, Option.bind_some, LineCount.here] at h ⊢
        generalize scanTag m c.line c.rest tail = scanned at h
        obtain ⟨outcome, rest⟩ := scanned
        cases outcome with
        | ok raw =>
            cases h
            rfl
        | error fault =>
            cases h
            have again := fault.recount?_here (c := c)
            rw [LineCount.here] at again
            simp only [again, Option.bind_some, fault.diagnosticOn_line]
            rfl

theorem Cursor.counted?_of_next?_eq_none (h : c.next? m = none) (template : List Char) :
    c.counted? m template count = some .ended := by
  unfold next? at h
  rw [counted?]
  split at h
  · next empty => rw [if_pos empty]
  · split at h <;> cases h

/-- By induction on the pieces: the count is behind every place that the scan comes to. -/
theorem Cursor.countedPieces?_eq (behind : count.Behind c) :
    c.countedPieces? m c.text count = some (c.pieces m) := by
  fun_induction Cursor.pieces m c generalizing count with
  | case1 c ended =>
      rw [countedPieces?, counted?_of_next?_eq_none ended]
  | case2 c piece after next shorter ih =>
      obtain ⟨count', counted, behind⟩ := counted?_of_next? behind next
      have same : after.text = c.text := (advance next).1
      have rest := ih behind
      rw [same] at rest
      rw [countedPieces?, counted]
      simp only [if_pos shorter, rest, Option.map_some]
  | case3 c piece after next idle =>
      obtain ⟨count', counted, -⟩ := counted?_of_next? behind next
      rw [countedPieces?, counted]
      simp only [if_neg idle]

/-! ### The line of a piece -/

/-- A tag that is scanned carries the given line. -/
def Scanned.OnLine (line : Nat) (scanned : Scanned) : Prop :=
  ∀ raw, scanned.1 = .ok raw → raw.line = line

section

variable (m : Marks) (line : Nat) (front : Front) (s : List Char)

theorem scanPlain_onLine : (scanPlain m line front s).OnLine line := by
  unfold scanPlain
  cases Sigil.read front.body with
  | mk sigil body =>
    simp only
    split
    · split
      · rintro _ ⟨⟩
      · rintro _ ⟨rfl⟩
        rfl
    · split
      · rintro _ ⟨⟩
      · rintro _ ⟨⟩
      · rintro _ ⟨rfl⟩
        rfl

theorem scanTriple_onLine : (scanTriple m line front s).OnLine line := by
  unfold scanTriple
  split
  · rintro _ ⟨⟩
  · simp only
    split
    · rintro _ ⟨⟩
    · split
      · rintro _ ⟨⟩
      · rintro _ ⟨rfl⟩
        rfl

theorem scanRawBlock_onLine : (scanRawBlock m line front s).OnLine line := by
  unfold scanRawBlock
  simp only
  split
  · rintro _ ⟨⟩
  · split
    · rintro _ ⟨⟩
    · rintro _ ⟨rfl⟩
      rfl

theorem scanTag_onLine (tail : List Char) : (scanTag m line s tail).OnLine line := by
  unfold scanTag
  simp only
  split
  · exact scanPlain_onLine m line _ s
  · exact scanTriple_onLine m line _ s
  · exact scanRawBlock_onLine m line _ s

end

/-- A tag or a fault carries the line of the place at which it is scanned. -/
theorem Cursor.line?_of_next? (h : c.next? m = some (piece, after))
    (tagged : piece.isText = false) : piece.line? = some c.line := by
  unfold next? at h
  split at h
  · cases h
  · split at h
    · cases h
      cases tagged
    · next tail _ =>
      have line := scanTag_onLine m c.line c.rest tail
      generalize scanTag m c.line c.rest tail = scanned at h line
      obtain ⟨outcome, rest⟩ := scanned
      cases h
      cases outcome with
      | ok raw => exact congrArg some (line raw rfl)
      | error fault => cases fault <;> rfl

/-- A tag or a fault begins with the opening delimiter. -/
theorem Cursor.opening_prefix_of_next? (h : c.next? m = some (piece, after))
    (tagged : piece.isText = false) : m.opening <+: spanTo c.rest after.rest := by
  unfold next? at h
  split at h
  · cases h
  · split at h
    · cases h
      cases tagged
    · next tail begun =>
      have start := dropFront?_eq_some_iff.mp begun
      have faithful := scanTag_faithful m c.line tail
      rw [← start] at faithful
      obtain ⟨span, body⟩ := faithful.rest
      have parted := readFront_append m.opening tail
      rw [← start, ← body, ← List.append_assoc] at parted
      have text := spanTo_eq parted.symm
      cases h
      change m.opening <+: spanTo c.rest (scanTag m c.line c.rest tail).2
      rw [text]
      exact (opening_prefix_readFront m.opening tail).trans (List.prefix_append _ _)

/-- The next piece with the characters that it takes. -/
theorem Cursor.span_of_next? (h : c.next? m = some (piece, after)) :
    spanTo c.rest after.rest <+: c.rest ∧
      (piece.isText = false → m.opening <+: spanTo c.rest after.rest ∧
        piece.line? = some c.line) :=
  ⟨List.take_prefix _ _, fun tagged => ⟨opening_prefix_of_next? h tagged, line?_of_next? h tagged⟩⟩

/-- Where the spans from a place on lie, and on which line each begins. By induction on the
spans. -/
theorem Cursor.spans_lines (m : Marks) (c : Cursor) :
    ∀ front span back, c.spans m = front ++ span :: back →
      (front.map Span.text).flatten ++ span.text <+: c.rest ∧
        (span.piece.isText = false → m.opening <+: span.text ∧
          span.piece.line? = some (c.line + (front.map Span.text).flatten.count '\n')) := by
  fun_induction Cursor.spans m c with
  | case1 c ended => simp
  | case2 c piece after next first shorter ih =>
      intro front span back split
      cases front with
      | nil =>
          obtain ⟨here, -⟩ := List.cons.inj split
          rw [← here]
          exact span_of_next? next
      | cons before front =>
          obtain ⟨here, rest⟩ := List.cons.inj split
          obtain ⟨text, taken, moved⟩ := rest_of_next? next
          have line : after.line = c.line + text.count '\n' := by rw [moved, line_moveTo taken]
          have spanned : before.text = text := by rw [← here]; exact spanTo_eq taken
          obtain ⟨inside, lines⟩ := ih front span back rest
          rw [List.map_cons, List.flatten_cons, spanned, List.append_assoc, taken]
          refine ⟨(List.prefix_append_right_inj text).mpr inside, fun tagged => ?_⟩
          rw [List.count_append, ← Nat.add_assoc, ← line]
          exact lines tagged
  | case3 c piece after next first idle =>
      intro front span back split
      obtain ⟨rfl, here⟩ := (List.singleton_eq_append_iff.mp split).resolve_right (by simp)
      rw [(List.cons.inj here).1]
      exact span_of_next? next

/-- For every template and all delimiters, a scan that counts its lines on from tag to tag never
asks for an offset before the last one, and has the pieces of the scan that numbers each place by
itself. These pieces are scanned from spans that follow each other from the start of the template
on. The span of a tag or a fault begins with the opening delimiter of its tag, and the line that it
carries is one more than the number of line ends before that delimiter. -/
theorem scan_numbers_lines (m : Marks) (template : List Char) :
    countedScan? m template = some (scan m template) ∧
      (spans m template).map Span.piece = scan m template ∧
      ∀ front span back, spans m template = front ++ span :: back →
        let before := (front.map Span.text).flatten
        before ++ span.text <+: template ∧
          (span.piece.isText = false →
            m.opening <+: span.text ∧ span.piece.line? = some (1 + before.count '\n')) :=
  ⟨Cursor.countedPieces?_eq (LineCount.behind_start template), Cursor.spans_piece m _,
    fun _ _ _ split => Cursor.spans_lines m _ _ _ _ split⟩

/-- A comment and a raw block that go over a line, a fault, and a tag that is not closed. -/
example :
    let raw := "\x7b\x7b\x7b\x7br\x7d\x7d\x7d\x7d\n\x7b\x7b\x7b\x7b/r\x7d\x7d\x7d\x7d"
    let template := "é\n\x7b\x7b!-- \n --\x7d\x7d\x7b\x7b\x7bx\x7d\x7d\n" ++ raw ++ "\x7b\x7by"
    (countedScan? (Marks.ofDelimiters {}) template.toList).map (·.map Piece.line?) =
      some [none, some 2, some 3, none, some 4, some 5] := by
  decide +kernel

end Markup

end Stencil
