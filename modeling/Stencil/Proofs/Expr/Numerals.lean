import Mathlib.Data.List.TakeWhile
import Stencil.Number.Numeral

/-!
An integer reads back from its text.

The text of an integer is a run of digits behind a minus sign at most, so
the reader of numerals takes it whole, finds neither fraction nor power of
ten, and gives the integer back when it fits a signed word of 64 bits. A text
with a character that no numeral has is none.
-/

namespace Stencil.Numeral

/-- A text is no numeral unless it begins with a digit or a minus sign. -/
theorem read?_eq_none {c : Char} (digit : isDigit c = false) (minus : c ≠ '-') (s : List Char) :
    read? (c :: s) = none := by
  simp [read?, parts?, digits?, digit, minus]

/-! ### What a numeral is made of -/

/-- A character that occurs in numerals. -/
def isMark (c : Char) : Bool :=
  isDigit c || "+-.eE".toList.contains c

theorem of_digits? {s ds rest : List Char} (h : digits? s = some (ds, rest)) :
    s = ds ++ rest ∧ ds.all isMark = true := by
  simp only [digits?] at h
  split at h
  · cases h
  · cases h
    refine ⟨List.takeWhile_append_dropWhile.symm, List.all_eq_true.mpr fun c member => ?_⟩
    rw [isMark, List.mem_takeWhile_imp member, Bool.true_or]

theorem of_fraction? {s ds rest : List Char} (h : fraction? s = some (ds, rest)) :
    ∃ front, s = front ++ rest ∧ front.all isMark = true := by
  unfold fraction? at h
  split at h
  · next s =>
    obtain ⟨rfl, marks⟩ := of_digits? h
    exact ⟨'.' :: ds, rfl, by simpa [isMark] using marks⟩
  · cases h
    exact ⟨[], rfl, rfl⟩

theorem of_power? {s : List Char} {power : Option Int} (h : power? s = some power) :
    s.all isMark = true := by
  unfold power? at h
  split at h
  · rfl
  · next e s =>
    split at h
    · next letter =>
      have begins : isMark e = true := by
        rcases (by simpa using letter : e = 'e' ∨ e = 'E') with rfl | rfl <;> decide
      rw [List.all_cons, begins, Bool.true_and]
      split at h
      next negative digits signed =>
      split at h
      · next ds read =>
        obtain ⟨whole, marks⟩ := of_digits? read
        rw [List.append_nil] at whole
        subst whole
        split at signed <;> cases signed <;> simpa [isMark] using marks
      · cases h
    · cases h

/-- A numeral has nothing in it but digits, signs, a point and the letter of a power of ten. -/
theorem of_read? {s : List Char} {n : Number} (h : read? s = some n) : s.all isMark = true := by
  obtain ⟨p, parts, -⟩ := Option.bind_eq_some_iff.mp h
  unfold parts? at parts
  split at parts
  next negative unsigned signed =>
  obtain ⟨⟨whole, s'⟩, digits, parts⟩ := Option.bind_eq_some_iff.mp parts
  obtain ⟨⟨fraction, s''⟩, point, parts⟩ := Option.bind_eq_some_iff.mp parts
  obtain ⟨power, letter, -⟩ := Option.bind_eq_some_iff.mp parts
  obtain ⟨rfl, first⟩ := of_digits? digits
  obtain ⟨front, rfl, second⟩ := of_fraction? point
  have all : (whole ++ (front ++ s'')).all isMark = true := by
    simp [first, second, of_power? letter]
  split at signed
  · cases signed
    simpa [isMark] using all
  · cases signed
    exact all
/-! ### Integers -/

theorem isDigit_of_mem_toDigits {c : Char} {n : Nat} (h : c ∈ Nat.toDigits 10 n) :
    isDigit c = true :=
  Nat.isDigit_of_mem_toDigits (by decide) (by decide) h

theorem value_toDigits (n : Nat) : value (Nat.toDigits 10 n) = n :=
  calc
    value (Nat.toDigits 10 n) = Nat.ofDigitChars 10 (Nat.toDigits 10 n) 0 :=
      Nat.ofDigitChars_eq_foldl.symm
    _ = n := Nat.ofDigitChars_ten_toDigits

/-- Digits are a numeral without fraction and power, and the sign in front of them is
read as such. -/
theorem parts?_toDigits (n : Nat) :
    parts? (Nat.toDigits 10 n) = some ⟨false, Nat.toDigits 10 n, [], none⟩ ∧
      parts? ('-' :: Nat.toDigits 10 n) = some ⟨true, Nat.toDigits 10 n, [], none⟩ := by
  have all : ∀ c ∈ Nat.toDigits 10 n, isDigit c = true := fun _ => isDigit_of_mem_toDigits
  have digits : digits? (Nat.toDigits 10 n) = some (Nat.toDigits 10 n, []) := by
    simp [digits?, List.takeWhile_eq_self_iff.mpr all, List.dropWhile_eq_nil_iff.mpr all,
      Nat.toDigits_ne_nil]
  refine ⟨?_, by simp [parts?, digits, fraction?, power?]⟩
  obtain ⟨c, rest, written⟩ := List.exists_cons_of_ne_nil (Nat.toDigits_ne_nil (n := n) (b := 10))
  have minus : c ≠ '-' := by
    rintro rfl
    exact absurd (all '-' (by simp [written])) (by decide)
  rw [written] at digits ⊢
  simp [parts?, minus, digits, fraction?, power?]

/-- The digits of an integer with its sign. -/
theorem toList_toString (n : Int) :
    (toString n).toList =
      if n < 0 then '-' :: Nat.toDigits 10 n.natAbs else Nat.toDigits 10 n.natAbs := by
  cases n with
  | ofNat m => simp [toString, Int.repr]
  | negSucc m => simp [toString, Int.repr]

theorem digits_of_mem_text {c : Char} {n : Int} (h : c ∈ (Number.integer n).text.toList) :
    c = '-' ∨ isDigit c = true := by
  rw [Number.text, toList_toString] at h
  split at h
  · exact (List.mem_cons.mp h).imp id isDigit_of_mem_toDigits
  · exact .inr (isDigit_of_mem_toDigits h)

theorem text_ne_nil (n : Int) : (Number.integer n).text.toList ≠ [] := by
  rw [Number.text, toList_toString]
  split
  · exact List.cons_ne_nil _ _
  · exact Nat.toDigits_ne_nil

/-- A signed word of 64 bits reads back from its text. -/
theorem read?_text (n : Int64) :
    read? (Number.integer n.toInt).text.toList = some (.integer n.toInt) := by
  have range := And.intro n.minValue_le_toInt n.toInt_le
  have fits {p : Parts} (h : p.fraction = [] ∧ p.power = none)
      (v : (if p.negative then -(value p.whole : Int) else value p.whole) = n.toInt) :
      p.toInt? = some n.toInt := by
    simp only [Parts.toInt?, h, v, range, List.isEmpty_nil, Option.isNone_none, Bool.and_self,
      decide_true, ↓reduceIte]
  have reads {s : List Char} {p : Parts} (h : parts? s = some p) (v : p.toInt? = some n.toInt) :
      read? s = some (.integer n.toInt) := by
    simp only [read?, h, v, Option.bind_eq_bind, Option.bind_some]
  rw [Number.text, toList_toString]
  split
  · next negative =>
    refine reads (parts?_toDigits _).2 (fits ⟨rfl, rfl⟩ ?_)
    rw [if_pos rfl, value_toDigits]
    omega
  · next negative =>
    refine reads (parts?_toDigits _).1 (fits ⟨rfl, rfl⟩ ?_)
    rw [if_neg Bool.false_ne_true, value_toDigits]
    omega

end Stencil.Numeral
