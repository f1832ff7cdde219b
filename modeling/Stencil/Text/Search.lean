import Stencil.Text.Blank

/-!
First occurrences.

`cut? needle s` splits `s` around the first occurrence of `needle`: the
parts and the needle make up `s`, and nothing before the cut is an
occurrence.
-/

namespace Stencil.Text

/-- What follows `front` when `s` begins with it. -/
def dropFront? : List Char → List Char → Option (List Char)
  | [], s => some s
  | _ :: _, [] => none
  | a :: front, c :: s => if a = c then dropFront? front s else none

theorem dropFront?_eq_some_iff {front s rest : List Char} :
    dropFront? front s = some rest ↔ s = front ++ rest := by
  induction front generalizing s with
  | nil => simp [dropFront?, eq_comm]
  | cons a front ih =>
    cases s with
    | nil => simp [dropFront?]
    | cons c s =>
      rw [dropFront?]
      split
      · next h => simp [ih, h]
      · next h => simp [Ne.symm h]

/-- Whether `s` begins with `front`. -/
def startsWith (front s : List Char) : Bool :=
  (dropFront? front s).isSome

/-- The parts of `s` before and after the first occurrence of `needle`. -/
def cut? (needle : List Char) : List Char → Option (List Char × List Char)
  | [] => if needle.isEmpty then some ([], []) else none
  | c :: s =>
    match dropFront? needle (c :: s) with
    | some rest => some ([], rest)
    | none => (cut? needle s).map fun (front, rest) => (c :: front, rest)

theorem eq_append_of_cut? {needle s front rest : List Char}
    (h : cut? needle s = some (front, rest)) : s = front ++ needle ++ rest := by
  induction s generalizing front with
  | nil =>
    rw [cut?] at h
    split at h
    · next e => simp_all
    · simp at h
  | cons c s ih =>
    rw [cut?] at h
    split at h
    · next found =>
      simp only [Option.some.injEq, Prod.mk.injEq] at h
      obtain ⟨rfl, rfl⟩ := h
      simpa using dropFront?_eq_some_iff.1 found
    · simp only [Option.map_eq_some_iff, Prod.mk.injEq, Prod.exists] at h
      obtain ⟨front', rest', found, rfl, rfl⟩ := h
      simp [ih found]

/-- There is no cut where the needle does not occur. -/
theorem cut?_eq_none_iff {needle s : List Char} :
    cut? needle s = none ↔ ∀ a b, s ≠ a ++ needle ++ b := by
  induction s with
  | nil =>
    rw [cut?]
    split
    · next e => simp [List.isEmpty_iff.mp e]
    · next e => simp_all
  | cons c s ih =>
    rw [cut?]
    split
    · next rest found =>
      have start := dropFront?_eq_some_iff.mp found
      simp only [reduceCtorEq, false_iff]
      exact fun h => h [] rest start
    · next missing =>
      rw [Option.map_eq_none_iff, ih]
      constructor
      · rintro h (_ | ⟨d, a⟩) b e
        · have found : dropFront? needle (c :: s) = some b := dropFront?_eq_some_iff.mpr e
          rw [missing] at found
          cases found
        · cases e
          exact h a b rfl
      · rintro h a b rfl
        exact h (c :: a) b rfl

/-- Nothing before a cut is an occurrence of the needle. -/
theorem length_le_of_occurs {needle s front rest a b : List Char}
    (h : cut? needle s = some (front, rest)) (occurs : s = a ++ needle ++ b) :
    front.length ≤ a.length := by
  induction s generalizing front a with
  | nil =>
    have parts := congrArg List.length (eq_append_of_cut? h)
    simp only [List.length_nil, List.length_append] at parts
    omega
  | cons c s ih =>
    rw [cut?] at h
    split at h
    · cases h
      exact Nat.zero_le _
    · next missing =>
      obtain ⟨⟨front', rest'⟩, found, e⟩ := Option.map_eq_some_iff.mp h
      cases e
      cases a with
      | nil =>
        have begins : dropFront? needle (c :: s) = some b := dropFront?_eq_some_iff.mpr occurs
        rw [missing] at begins
        cases begins
      | cons d a =>
        cases occurs
        exact Nat.succ_le_succ (ih found rfl)

/-- A text is cut at the first occurrence of the needle. -/
theorem cut?_eq_some_iff {needle s front rest : List Char} :
    cut? needle s = some (front, rest) ↔
      s = front ++ needle ++ rest ∧ ∀ a b, s = a ++ needle ++ b → front.length ≤ a.length := by
  constructor
  · exact fun h => ⟨eq_append_of_cut? h, fun a b occurs => length_le_of_occurs h occurs⟩
  · rintro ⟨occurs, first⟩
    cases h : cut? needle s with
    | none => exact absurd occurs (cut?_eq_none_iff.mp h front rest)
    | some parts =>
      have parted : s = parts.1 ++ needle ++ parts.2 := eq_append_of_cut? h
      have same : parts.1.length = front.length :=
        Nat.le_antisymm (length_le_of_occurs h occurs) (first _ _ parted)
      obtain ⟨fronts, rests⟩ := List.append_inj ((List.append_assoc ..).symm.trans
        (parted.symm.trans occurs) |>.trans (List.append_assoc ..)) same
      rw [← fronts, ← List.append_cancel_left rests]

/-- The text after a cut is no longer than the text that was cut. -/
theorem length_le_of_cut? {needle s front rest : List Char}
    (h : cut? needle s = some (front, rest)) :
    front.length + needle.length + rest.length = s.length := by
  simp [eq_append_of_cut? h, Nat.add_assoc]

/-- `c` repeated `n` times. -/
abbrev repeated (c : Char) (n : Nat) : List Char :=
  List.replicate n c

end Stencil.Text
