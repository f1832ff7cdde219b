import Stencil.Proofs.Markup.Standalone

/-!
Trimming loses white space only.

Both ends of a run of text are cut, each twice at most: by a tag alone on its line and by a tilde.
The cuts move inwards over white space and do not pass each other, so of every run a contiguous
piece is kept, and the visible characters of a template are those of its tokens.
-/

namespace Stencil

open Text Markup

/-! ### White space -/

namespace Text

/-- The characters that are not white space. -/
def visible (s : List Char) : List Char :=
  s.filter fun c => !isWhite c

@[simp] theorem visible_append (a b : List Char) : visible (a ++ b) = visible a ++ visible b :=
  List.filter_append a b

theorem visible_eq_nil {s : List Char} (h : s.all isWhite = true) : visible s = [] := by
  rw [visible, List.filter_eq_nil_iff]
  intro c member
  simpa using List.all_eq_true.mp h c member

theorem isWhite_of_isIndent {c : Char} (h : isIndent c = true) : isWhite c = true := by
  simp only [isIndent, Bool.or_eq_true, beq_iff_eq] at h
  rcases h with (rfl | rfl) | rfl
  · rfl
  · rfl
  · rfl

theorem all_isWhite_of_isBlank {s : List Char} (h : isBlank s = true) : s.all isWhite = true := by
  rw [List.all_eq_true]
  intro c member
  exact isWhite_of_isIndent (List.all_eq_true.mp h c member)

/-- A blank line is white space to its end. -/
theorem all_isWhite_throughLine {s : List Char} (h : isBlank (firstLine s) = true) :
    (throughLine s).all isWhite = true := by
  rw [throughLine, List.all_append, all_isWhite_of_isBlank h, Bool.true_and]
  split
  · rfl
  · rfl

theorem all_isWhite_leadingWhite (s : List Char) : (leadingWhite s).all isWhite = true :=
  List.all_takeWhile

theorem all_isWhite_trailingWhite (s : List Char) : (trailingWhite s).all isWhite = true := by
  rw [trailingWhite, takeEndWhile, List.all_reverse]
  exact List.all_takeWhile

/-- The text does not begin with white space. -/
def StartsVisible (s : List Char) : Prop :=
  ∀ c ∈ s.head?, isWhite c = false

/-- The text does not end with white space. -/
def EndsVisible (s : List Char) : Prop :=
  ∀ c ∈ s.getLast?, isWhite c = false

theorem startsVisible_trimStart (s : List Char) : StartsVisible (Text.trimStart s) := by
  intro c first
  have stops := List.head?_dropWhile_not isWhite s
  rw [show (s.dropWhile isWhite).head? = some c from first] at stops
  exact stops

theorem endsVisible_trimEnd (s : List Char) : EndsVisible (Text.trimEnd s) := by
  intro c last
  apply startsVisible_trimStart s.reverse c
  rw [Text.trimEnd, dropEndWhile, List.getLast?_reverse] at last
  exact last

/-- What is left of a text that does not begin with white space does not either. -/
theorem StartsVisible.front {a s : List Char} (h : StartsVisible s) (front : a <+: s) :
    StartsVisible a := by
  obtain ⟨rest, rfl⟩ := front
  cases a with
  | nil => exact nofun
  | cons c a => exact h

end Text

/-! ### Cuts -/

namespace Markup

namespace Run

/-- A piece of a text with white space on either side. -/
structure Cuts (r : Run) (t : List Char) : Prop where
  whole : r.before ++ r.kept ++ r.after = t
  before : r.before.all isWhite = true
  after : r.after.all isWhite = true

variable {r : Run} {t : List Char}

theorem Cuts.ofRange {start stop : Nat} (order : start ≤ stop)
    (before : (t.take start).all isWhite = true) (after : (t.drop stop).all isWhite = true) :
    (Run.ofRange t start stop).Cuts t := by
  refine ⟨?_, before, after⟩
  show t.take start ++ (t.take stop).drop start ++ t.drop stop = t
  have front : t.take start = (t.take stop).take start := by
    rw [List.take_take, Nat.min_eq_left order]
  rw [front, List.take_append_drop, List.take_append_drop]

theorem Cuts.trimStart (h : r.Cuts t) : r.trimStart.Cuts t := by
  refine ⟨?_, ?_, h.after⟩
  · show r.before ++ leadingWhite r.kept ++ Text.trimStart r.kept ++ r.after = t
    rw [List.append_assoc r.before, leadingWhite_append_trimStart]
    exact h.whole
  · show (r.before ++ leadingWhite r.kept).all isWhite = true
    rw [List.all_append, h.before, all_isWhite_leadingWhite]
    rfl

theorem Cuts.trimEnd (h : r.Cuts t) : r.trimEnd.Cuts t := by
  refine ⟨?_, h.before, ?_⟩
  · show r.before ++ Text.trimEnd r.kept ++ (trailingWhite r.kept ++ r.after) = t
    rw [← List.append_assoc, List.append_assoc r.before, trimEnd_append_trailingWhite]
    exact h.whole
  · show (trailingWhite r.kept ++ r.after).all isWhite = true
    rw [List.all_append, h.after, all_isWhite_trailingWhite]
    rfl

/-- A piece is given by where it starts and where it stops. -/
theorem Cuts.eq_ofRange (h : r.Cuts t) :
    ∃ start stop, start ≤ stop ∧ stop ≤ t.length ∧ r = Run.ofRange t start stop := by
  refine ⟨r.before.length, (r.before ++ r.kept).length, by simp, by simp [← h.whole], ?_⟩
  obtain ⟨before, kept, after⟩ := r
  obtain rfl : before ++ kept ++ after = t := h.whole
  have front : (before ++ kept ++ after).take before.length = before := by simp
  have through : (before ++ kept ++ after).take (before ++ kept).length = before ++ kept :=
    List.take_left
  simp only [Run.ofRange, front, through, List.drop_left]

theorem Cuts.visible_kept (h : r.Cuts t) : visible r.kept = visible t := by
  rw [← h.whole, visible_append, visible_append, visible_eq_nil h.before, visible_eq_nil h.after]
  simp

theorem Cuts.tildes (h : r.Cuts t) (before after : List Item) : (r.tildes before after).Cuts t := by
  unfold Run.tildes
  simp only
  split
  · split
    · exact h.trimStart.trimEnd
    · exact h.trimEnd
  · split
    · exact h.trimStart
    · exact h

end Run

/-! ### Runs between their neighbours -/

section

variable (s : Settings) (before : List Item) (t : List Char) (after : List Item)

/-- What a tag alone on its line takes off the run behind it. -/
theorem all_isWhite_take_keptStart : (t.take (keptStart s before t after)).all isWhite = true := by
  unfold keptStart
  split
  · split
    · next alone =>
      have clear := (Bool.and_eq_true_iff.mp alone).2
      rw [take_throughLine]
      exact all_isWhite_throughLine (clearAfter_text.mp clear).1
    · rfl
  · rfl

/-- What a tag alone on its line takes off the run before it. -/
theorem all_isWhite_drop_keptStop : (t.drop (keptStop s before t after)).all isWhite = true := by
  unfold keptStop
  split
  · split
    · next alone =>
      have clear := (Bool.and_eq_true_iff.mp
        (Bool.and_eq_true_iff.mp (Bool.and_eq_true_iff.mp alone).1).1).2
      have blank : isBlank (lastLine t) = true := by
        rw [lastLine_eq_reverse, isBlank_reverse]
        exact (clearBefore_text.mp clear).1
      rw [drop_lastLine]
      exact all_isWhite_of_isBlank blank
    · rw [List.drop_length]
      rfl
  · rw [List.drop_length]
    rfl

/-- The line behind one tag and the line before the next do not meet, so the range is one. -/
theorem ofRange_cuts :
    (Run.ofRange t (keptStart s before t after) (keptStop s before t after)).Cuts t :=
  .ofRange keptStart_le_keptStop (all_isWhite_take_keptStart s before t after)
    (all_isWhite_drop_keptStop s before t after)

theorem between_cuts : (Run.between s before t after).Cuts t :=
  (ofRange_cuts s before t after).tildes before after

/-- When lines are left alone, no tag stands alone on one. -/
theorem kept_of_ignoreStandalone (h : s.ignoreStandalone = true) :
    keptStart s before t after = 0 ∧ keptStop s before t after = t.length := by
  have never (before : List Item) (tag : Tag) (after : List Item) :
      standsAlone s before tag after = false := by
    simp [standsAlone, h]
  constructor
  · unfold keptStart
    split
    · rw [never, if_neg Bool.false_ne_true]
    · rfl
  · unfold keptStop
    split
    · rw [never, Bool.false_and, if_neg Bool.false_ne_true]
    · rfl

/-- What is kept of a run of text between the items before it and behind it. -/
structure Run.Keeps (s : Settings) (before : List Item) (t : List Char) (after : List Item)
    (r : Run) : Prop where
  /-- One piece is kept, from a place on up to another. -/
  range : ∃ start stop, start ≤ stop ∧ stop ≤ t.length ∧ r = Run.ofRange t start stop
  /-- What is removed at either end is white space. -/
  front : r.before.all isWhite = true
  back : r.after.all isWhite = true
  /-- Behind a tilde the piece does not begin with white space. -/
  starts : stripsAfter before = true → StartsVisible r.kept
  /-- Before a tilde it does not end with white space. -/
  ends : stripsBefore after = true → EndsVisible r.kept
  /-- Without tildes, and when the lines of tags are left alone, everything is kept. -/
  untouched : s.ignoreStandalone = true → stripsAfter before = false → stripsBefore after = false →
    r = Run.ofRange t 0 t.length

theorem between_keeps : (Run.between s before t after).Keeps s before t after := by
  have cuts := between_cuts s before t after
  refine ⟨cuts.eq_ofRange, cuts.before, cuts.after, ?starts, ?ends, ?untouched⟩
  case starts =>
    intro tilde
    simp only [Run.between, tilde, if_true]
    split
    · apply (startsVisible_trimStart
        (Run.ofRange t (keptStart s before t after) (keptStop s before t after)).kept).front
      exact ⟨_, trimEnd_append_trailingWhite _⟩
    · exact startsVisible_trimStart _
  case ends =>
    intro tilde
    simp only [Run.between, tilde, if_true]
    exact endsVisible_trimEnd _
  case untouched =>
    intro ignored noTilde noTilde'
    obtain ⟨start, stop⟩ := kept_of_ignoreStandalone s before t after ignored
    simp [Run.between, noTilde, noTilde', start, stop]

end

/-! ### Templates -/

/-- The text that a piece of a template stands for as it is. -/
def Piece.literal : Piece → List Char
  | .text t => t
  | .tag _ | .fault _ => []

def Item.literal : Item → List Char
  | .text t => t
  | .tag .. => []

def Token.literal : Token → List Char
  | .text t => t.toList
  | .tag _ => []

/-- Reading the tags keeps the texts between them. -/
theorem readPieces_literal (isHelper : String → Bool) (pieces : List Piece) (r : Report) :
    ((readPieces isHelper pieces).run r).1.flatMap Item.literal = pieces.flatMap Piece.literal := by
  induction pieces generalizing r with
  | nil => rfl
  | cons piece pieces ih =>
      cases piece with
      | text t => exact congrArg (t ++ ·) (ih r)
      | tag raw => exact ih _
      | fault cause => exact ih _

/-- The visible characters of a run are in its token, or there are none. -/
theorem visible_token? (s : Settings) (before : List Item) (t : List Char) (after : List Item) :
    visible ((Placed.text (Run.between s before t after)).token?.toList.flatMap Token.literal) =
      visible t := by
  have cuts := between_cuts s before t after
  rw [← cuts.visible_kept]
  unfold Placed.token?
  simp only
  split
  · next empty =>
    rw [List.isEmpty_iff.mp empty]
    rfl
  · simp [Token.literal]

/-- By induction on the items: each gives the token of its run, or none. -/
theorem placeFrom_visible (s : Settings) (before items : List Item) :
    visible (((placeFrom s before items).filterMap Placed.token?).flatMap Token.literal) =
      visible (items.flatMap Item.literal) := by
  induction items generalizing before with
  | nil => rfl
  | cons item items ih =>
      rw [placeFrom, List.flatMap_cons, visible_append, ← ih (item :: before)]
      have split (p : Placed) (ps : List Placed) :
          (p :: ps).filterMap Placed.token? =
            p.token?.toList ++ ps.filterMap Placed.token? := by
        rw [List.filterMap_cons]
        cases p.token? <;> rfl
      rw [split, List.flatMap_append, visible_append]
      cases item with
      | text t =>
          rw [place, visible_token?]
          rfl
      | tag raw tag => rfl

/-- For every template and all settings, trimming keeps a piece of every run of text and removes
white space around it only. So the tokens have the visible characters of the texts that were
scanned, in their order. -/
theorem readTemplate_loses_nothing (s : Settings) (isHelper : String → Bool) (source : String)
    (r : Report) :
    let pieces := scan (Marks.ofDelimiters s.delimiters) source.toList
    let items : List Item := ((readPieces isHelper pieces).run r).1
    let tokens : List Token := ((readTemplate s isHelper source).run r).1
    (∀ (i : Nat) (t : List Char), items[i]? = some (.text t) → ∃ run : Run,
      (placeFrom s [] items)[i]? = some (.text run) ∧
        run.Keeps s (items.take i).reverse t (items.drop (i + 1))) ∧
      tokens = (placeFrom s [] items).filterMap Placed.token? ∧
        items.flatMap Item.literal = pieces.flatMap Piece.literal ∧
          (tokens.flatMap Token.literal).filter (fun c => !isWhite c) =
            (pieces.flatMap Piece.literal).filter fun c => !isWhite c := by
  intro pieces items tokens
  have literal : items.flatMap Item.literal = pieces.flatMap Piece.literal :=
    readPieces_literal isHelper pieces r
  refine ⟨?_, rfl, literal, ?_⟩
  · intro i t here
    refine ⟨_, ?_, between_keeps s (items.take i).reverse t (items.drop (i + 1))⟩
    rw [placeFrom_getElem?, here, List.append_nil]
    rfl
  · rw [← literal]
    exact placeFrom_visible s [] items

end Markup

end Stencil
