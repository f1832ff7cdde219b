import Stencil.Text.Blank

/-!
The lines of a text.

What is put in front of every line becomes a part of the line, and changes nothing else.

The first line of two texts laid end to end is that of the first text unless this has no line end,
and the last line is the mirror image. Two texts start alike when they have a line end or have none
both, and when their first lines are the same as soon as one of them is blank: who asks whether a
text starts with a blank line cannot tell them apart.
-/

namespace Stencil.Text

variable {a b c d s w : List Char}

/-! ### All lines -/

theorem linesFrom_append (h : '\n' ∉ w) (line s : List Char) :
    linesFrom line (w ++ s) = linesFrom (w.reverse ++ line) s := by
  induction w generalizing line with
  | nil => rfl
  | cons c w ih =>
      simp only [List.mem_cons, not_or] at h
      rw [List.cons_append, linesFrom, if_neg (Ne.symm h.1), ih h.2]
      simp

theorem linesFrom_nil_of_ne_nil {line : List Char} (h : line ≠ []) :
    linesFrom line [] = [line.reverse] := by
  simp [linesFrom, h]

theorem linesFrom_append_lines (line a b : List Char) :
    linesFrom line (a ++ '\n' :: b) = linesFrom line (a ++ ['\n']) ++ lines b := by
  induction a generalizing line with
  | nil => rfl
  | cons c a ih =>
      rw [List.cons_append, List.cons_append, linesFrom, linesFrom]
      split
      · rw [ih, List.cons_append]
      · exact ih _

/-- Behind complete lines, a text has its own lines. -/
theorem lines_append_lines (a b : List Char) :
    lines (a ++ ['\n'] ++ b) = lines (a ++ ['\n']) ++ lines b := by
  rw [List.append_assoc]
  exact linesFrom_append_lines [] a b

theorem lines_flatMap_linesFrom (h : '\n' ∉ w) {line : List Char} (inside : '\n' ∉ line)
    (s : List Char) :
    lines ((linesFrom line s).flatMap (w ++ ·)) = (linesFrom line s).map (w ++ ·) := by
  induction s generalizing line with
  | nil =>
      by_cases none : line = []
      · subst none
        rfl
      · rw [linesFrom_nil_of_ne_nil none, List.flatMap_singleton, List.map_singleton, lines,
          ← List.append_nil (w ++ line.reverse), linesFrom_append (by simp [h, inside]),
          linesFrom_nil_of_ne_nil (by simp [none])]
        simp
  | cons c s ih =>
      rw [linesFrom]
      split
      · next ended =>
        subst ended
        -- the line is over, and the next one begins with nothing read of it
        have fresh : '\n' ∉ ([] : List Char) := List.not_mem_nil
        have rest := ih fresh
        rw [lines] at rest ⊢
        rw [List.flatMap_cons, List.map_cons, List.reverse_cons, List.append_assoc,
          List.append_assoc, linesFrom_append h, linesFrom_append (by simpa using inside),
          List.singleton_append, linesFrom, if_pos rfl, rest]
        simp
      · next other => exact ih (by simp [inside, Ne.symm other])

/-- With something within one line in front of each line, a text has the same lines, each with that
in front of it. -/
theorem lines_flatMap (h : '\n' ∉ w) (s : List Char) :
    lines ((lines s).flatMap (w ++ ·)) = (lines s).map (w ++ ·) :=
  lines_flatMap_linesFrom h List.not_mem_nil s

/-! ### The first and the last line -/

@[simp] theorem firstLine_nil : firstLine [] = [] :=
  rfl

theorem firstLine_cons {c : Char} (h : c ≠ '\n') (s : List Char) :
    firstLine (c :: s) = c :: firstLine s :=
  List.takeWhile_cons_of_pos (bne_iff_ne.mpr h)

theorem firstLine_eq_self (h : '\n' ∉ s) : firstLine s = s := by
  induction s with
  | nil => rfl
  | cons c s ih =>
      simp only [List.mem_cons, not_or] at h
      rw [firstLine_cons (Ne.symm h.1), ih h.2]

/-- A line end stops the first line. -/
theorem eq_firstLine_append (h : '\n' ∈ s) : ∃ rest, s = firstLine s ++ '\n' :: rest := by
  induction s with
  | nil => cases h
  | cons c s ih =>
      by_cases ended : c = '\n'
      · subst ended
        exact ⟨s, rfl⟩
      · obtain ⟨rest, parts⟩ := ih ((List.mem_cons.mp h).resolve_left (Ne.symm ended))
        refine ⟨rest, ?_⟩
        rw [firstLine_cons ended, List.cons_append, ← parts]

theorem firstLine_prefix (s : List Char) : firstLine s <+: s :=
  List.takeWhile_prefix _

theorem firstLine_append (a b : List Char) :
    firstLine (a ++ b) = if '\n' ∈ a then firstLine a else a ++ firstLine b := by
  induction a with
  | nil => simp
  | cons c a ih =>
      by_cases ended : c = '\n'
      · simp [firstLine, ended]
      · rw [List.cons_append, firstLine_cons ended, firstLine_cons ended, ih]
        simp only [List.mem_cons, Ne.symm ended, false_or]
        split <;> rfl

theorem lastLine_eq_reverse (s : List Char) : lastLine s = (firstLine s.reverse).reverse :=
  rfl

theorem lastLine_suffix (s : List Char) : lastLine s <:+ s := by
  have front := firstLine_prefix s.reverse
  rw [← List.reverse_suffix, List.reverse_reverse] at front
  exact front

/-- The first and the last line of a text with a line end do not overlap. -/
theorem firstLine_add_lastLine (h : '\n' ∈ s) :
    (firstLine s).length + 1 + (lastLine s).length ≤ s.length := by
  obtain ⟨rest, parts⟩ := eq_firstLine_append h
  have behind : lastLine s <:+ rest := by
    rw [parts, lastLine_eq_reverse, List.reverse_append, List.reverse_cons, List.append_assoc,
      firstLine_append]
    split
    · exact lastLine_suffix rest
    · simp [firstLine]
  have length := congrArg List.length parts
  have := behind.length_le
  simp only [List.length_append, List.length_cons] at length
  omega

/-- The first line with its line end. -/
def throughLine (s : List Char) : List Char :=
  firstLine s ++ if '\n' ∈ s then ['\n'] else []

theorem take_throughLine (s : List Char) :
    s.take (min s.length ((firstLine s).length + 1)) = throughLine s := by
  rw [throughLine]
  split
  · next line =>
    obtain ⟨rest, parts⟩ := eq_firstLine_append line
    have short := firstLine_add_lastLine line
    rw [Nat.min_eq_right (by omega)]
    calc s.take ((firstLine s).length + 1)
        = ((firstLine s ++ ['\n']) ++ rest).take ((firstLine s).length + 1) := by
          rw [List.append_assoc]
          exact congrArg _ parts
      _ = firstLine s ++ ['\n'] := List.take_left' (by simp)
  · next none =>
    rw [firstLine_eq_self none, Nat.min_eq_left (Nat.le_succ _), List.take_length, List.append_nil]

theorem drop_lastLine (s : List Char) : s.drop (s.length - (lastLine s).length) = lastLine s := by
  obtain ⟨front, parts⟩ := lastLine_suffix s
  have length := congrArg List.length parts
  rw [List.length_append] at length
  calc s.drop (s.length - (lastLine s).length)
      = (front ++ lastLine s).drop front.length := by
        rw [parts]
        exact congrArg s.drop (by omega)
    _ = lastLine s := List.drop_left

/-! ### Blank lines -/

@[simp] theorem isBlank_append (a b : List Char) : isBlank (a ++ b) = (isBlank a && isBlank b) :=
  List.all_append

@[simp] theorem isBlank_reverse (s : List Char) : isBlank s.reverse = isBlank s :=
  List.all_reverse

theorem not_mem_of_isBlank (blank : isBlank w = true) : '\n' ∉ w := by
  intro inside
  have indent := List.all_eq_true.mp blank _ inside
  exact absurd indent (by decide)

/-- A text within one line that is not blank. -/
structure IsInk (w : List Char) : Prop where
  oneLine : '\n' ∉ w
  filled : isBlank w = false

theorem IsInk.ne_nil_of_prefix (ink : IsInk w) (h : w <+: s) : s ≠ [] := by
  rintro rfl
  exact Bool.noConfusion (List.prefix_nil.mp h ▸ ink.filled)

theorem IsInk.reverse (ink : IsInk w) : IsInk w.reverse :=
  ⟨fun line => ink.oneLine (List.mem_reverse.mp line), (isBlank_reverse w).trans ink.filled⟩

theorem IsInk.append_left (ink : IsInk w) (line : '\n' ∉ a) : IsInk (a ++ w) :=
  ⟨by simp [line, ink.oneLine], by simp [ink.filled]⟩

/-- A line that starts with what is not blank is not blank. -/
theorem IsInk.firstLine_append (ink : IsInk w) (s : List Char) :
    isBlank (firstLine (w ++ s)) = false := by
  simp [Text.firstLine_append, ink.oneLine, ink.filled]

theorem IsInk.firstLine_of_prefix (ink : IsInk w) (h : w <+: s) :
    isBlank (firstLine s) = false := by
  obtain ⟨rest, rfl⟩ := h
  exact ink.firstLine_append rest

theorem IsInk.lastLine_of_suffix (ink : IsInk w) (h : w <:+ s) : isBlank (lastLine s) = false := by
  rw [lastLine_eq_reverse, isBlank_reverse]
  exact ink.reverse.firstLine_of_prefix (List.reverse_prefix.mpr h)

/-! ### Texts that start alike -/

/-- Both have a line end or none has, and the first lines are the same if one is blank. -/
structure StartsAlike (a b : List Char) : Prop where
  line : '\n' ∈ a ↔ '\n' ∈ b
  blank : isBlank (firstLine a) = true ∨ isBlank (firstLine b) = true → firstLine a = firstLine b

namespace StartsAlike

theorem refl (a : List Char) : StartsAlike a a :=
  ⟨Iff.rfl, fun _ => rfl⟩

theorem ink (ha : IsInk a) (hb : IsInk b) : StartsAlike a b := by
  refine ⟨by simp [ha.oneLine, hb.oneLine], fun blank => ?_⟩
  rw [firstLine_eq_self ha.oneLine, firstLine_eq_self hb.oneLine, ha.filled, hb.filled] at blank
  simp at blank

theorem append (front : StartsAlike a b) (back : StartsAlike c d) :
    StartsAlike (a ++ c) (b ++ d) := by
  refine ⟨by simp [front.line, back.line], fun blank => ?_⟩
  rw [firstLine_append, firstLine_append] at blank ⊢
  by_cases line : '\n' ∈ a
  · simp only [line, front.line.mp line, if_true] at blank ⊢
    exact front.blank blank
  · have none : '\n' ∉ b := fun h => line (front.line.mpr h)
    have fronts := front.blank
    rw [firstLine_eq_self line, firstLine_eq_self none] at fronts
    simp only [line, none, if_false, isBlank_append, Bool.and_eq_true] at blank ⊢
    rw [fronts (blank.imp And.left And.left), back.blank (blank.imp And.right And.right)]

/-- Before the end, or before ink, a text starts with a blank line if what it stands for does, and
has a line end unless it is at the end. -/
theorem isBlank_iff (alike : StartsAlike a b) (ink : IsInk w) (ends : s = [] ∨ w <+: s) :
    isBlank (firstLine (b ++ s)) = true ↔
      isBlank (firstLine a) = true ∧ ('\n' ∈ a ∨ s = []) := by
  have same : isBlank (firstLine b) = true ↔ isBlank (firstLine a) = true := by
    constructor
    · exact fun blank => by rwa [alike.blank (.inr blank)]
    · exact fun blank => by rwa [← alike.blank (.inl blank)]
  rw [firstLine_append]
  by_cases line : '\n' ∈ b
  · simp [line, alike.line.mpr line, same]
  · have none : '\n' ∉ a := fun h => line (alike.line.mp h)
    rw [firstLine_eq_self line] at same
    rcases ends with rfl | begins
    · simp [line, same]
    · have inked := ink.firstLine_of_prefix begins
      simp [line, none, inked, ink.ne_nil_of_prefix begins]

/-- Before the end, a blank line that two texts start with is the same. -/
theorem firstLine_eq (alike : StartsAlike a b) (blank : isBlank (firstLine a) = true)
    (ends : '\n' ∈ a ∨ s = []) : firstLine (b ++ s) = firstLine a := by
  rw [alike.blank (.inl blank), firstLine_append]
  rcases ends with line | rfl
  · rw [if_pos (alike.line.mp line)]
  · split
    · rfl
    · next line => rw [firstLine_nil, List.append_nil, firstLine_eq_self line]

/-- So is its line end. -/
theorem throughLine_eq (alike : StartsAlike a b) (blank : isBlank (firstLine a) = true)
    (ends : '\n' ∈ a ∨ s = []) : throughLine (b ++ s) = throughLine a := by
  have line : '\n' ∈ b ++ s ↔ '\n' ∈ a := by
    rcases ends with line | rfl
    · simp [line, alike.line.mp line]
    · rw [List.append_nil, alike.line]
  simp only [throughLine, alike.firstLine_eq blank ends, line]

end StartsAlike

end Stencil.Text
