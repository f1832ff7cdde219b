import Mathlib.Data.String.Basic
import Stencil.Proofs.Markup.Standalone

/-!
Every piece takes something.

A call for the next piece moves the place on by a byte at least and never past the end, so the
calls end after at most as many pieces as the template has bytes. What a piece takes differs: a text
has a character, a tag has its delimiters, braces, tilde or sigil, and a tag that is not closed
takes all that is left. The one exception needs two empty delimiters. With these a tag stands
everywhere, and in front of a character that has no meaning at the start of a tag it takes nothing:
the place stays, and the calls never end.
-/

namespace Stencil.Markup

open Text

variable {m : Marks}

/-- The characters that have a meaning at the start of a tag. -/
def signs : List Char :=
  ['~', '{', '#', '^', '/', '!', '>', '&']

/-! ### Places -/

theorem length_le_utf8Len (s : List Char) : s.length ≤ String.utf8Len s := by
  induction s with
  | nil => exact Nat.le_refl _
  | cons c s ih =>
      have := c.utf8Size_pos
      rw [String.utf8Len_cons, List.length_cons]
      omega

namespace Cursor

/-- Where a place is in its template, in bytes. -/
def offset (c : Cursor) : Nat :=
  String.utf8Len c.before

/-- The template that a place is in. -/
def text (c : Cursor) : List Char :=
  c.before.reverse ++ c.rest

/-- The place behind `n` pieces; none if there are fewer. -/
def after? (m : Marks) : (n : Nat) → Cursor → Option Cursor
  | 0, c => some c
  | n + 1, c => (c.next? m).bind fun (_, after) => after.after? m n

/-- A place at which a tag takes nothing: there are no delimiters to be taken, and the character
that follows is neither a sign nor the brace that must not stand behind a tag. -/
structure IsIdle (m : Marks) (c : Cursor) : Prop where
  opening : m.opening = []
  closing : m.closing = []
  plain : ∃ d rest, c.rest = d :: rest ∧ d ∉ signs ∧ d ≠ '}'

variable {c after : Cursor} {piece : Piece}

theorem offset_le (c : Cursor) : c.offset ≤ String.utf8Len c.text := by
  rw [text, String.utf8Len_append, String.utf8Len_reverse]
  exact Nat.le_add_right _ _

/-- What is taken goes from what follows to what stands before. -/
theorem moveTo_append {span rest : List Char} (h : c.rest = span ++ rest) :
    (c.moveTo rest).text = c.text ∧ (c.moveTo rest).offset = c.offset + String.utf8Len span := by
  have taken : spanTo c.rest rest = span := spanTo_eq h
  simp only [moveTo, text, offset, taken]
  refine ⟨?_, ?_⟩
  · simp [h]
  · rw [String.utf8Len_append, String.utf8Len_reverse, Nat.add_comm]

theorem moveTo_rest (c : Cursor) : c.moveTo c.rest = c := by
  simp [moveTo, spanTo]

/-- The next piece takes a span off what follows. -/
theorem rest_of_next? (h : c.next? m = some (piece, after)) :
    ∃ span, c.rest = span ++ after.rest ∧ after = c.moveTo after.rest := by
  unfold next? at h
  split at h
  · cases h
  · split at h
    · cases h
      obtain ⟨span, taken, -⟩ := scanText_rest m.opening c.rest
      exact ⟨span, taken, rfl⟩
    · next tail tagged =>
      have start := dropFront?_eq_some_iff.mp tagged
      have faithful := scanTag_faithful m c.line tail
      rw [← start] at faithful
      obtain ⟨span, body⟩ := faithful.rest
      have parted := readFront_append m.opening tail
      cases h
      exact ⟨(readFront m.opening tail).opening ++ span,
        by rw [List.append_assoc]; exact (start.trans parted.symm).trans (by rw [← body]; rfl), rfl⟩

end Cursor

/-! ### What a tag takes -/

section tags

variable (m : Marks) (line : Nat) (front : Front) (s : List Char)

/-- What is no tilde and no brace ends the front of a tag. -/
theorem readFront_plain {opening : List Char} {d : Char} {s : List Char} (tilde : d ≠ '~')
    (brace : d ≠ '{') : readFront opening (d :: s) =
      { opening, strip := false, braces := 0, body := d :: s } := by
  unfold readFront
  grind

theorem scanTag_plain (m : Marks) (line : Nat) (text : List Char) {d : Char} {s : List Char}
    (tilde : d ≠ '~') (brace : d ≠ '{') :
    scanTag m line text (d :: s) =
      scanPlain m line { opening := m.opening, strip := false, braces := 0, body := d :: s }
        text := by
  rw [scanTag, readFront_plain tilde brace]
  rfl

theorem read_of_notMem_signs {d : Char} (h : d ∉ signs) (s : List Char) :
    Sigil.read (d :: s) = (.none, d :: s) := by
  simp only [signs, List.mem_cons, List.not_mem_nil, or_false, not_or] at h
  unfold Sigil.read
  grind

/-- The sigil of a tag is taken. -/
theorem scanPlain_suffix : (scanPlain m line front s).2 <:+ (Sigil.read front.body).2 := by
  unfold scanPlain
  cases Sigil.read front.body with
  | mk sigil body =>
    simp only
    split
    · next inside long =>
      have dashes : inside <:+ body := by
        split at long
        · exact ⟨_, (dropFront?_eq_some_iff.mp long).symm⟩
        · cases long
      split
      · exact List.nil_suffix
      · next cut =>
        rw [cutLong?_eq cut] at dashes
        exact (List.suffix_append _ _).trans dashes
    · split
      · exact List.nil_suffix
      · next content rest cut =>
        rw [eq_append_of_cut? cut]
        exact (List.suffix_cons _ _).trans (List.suffix_append _ _)
      · next cut =>
        rw [eq_append_of_cut? cut]
        exact List.suffix_append _ _

/-- A tag whose braces do not match takes a closing delimiter, and one that is not closed takes
all that is left. -/
def Scanned.Faulted (scanned : Scanned) : Prop :=
  ∀ fault, scanned.1 = .error fault →
    scanned.2 = [] ∨ m.closing.length + scanned.2.length ≤ front.body.length

theorem scanPlain_faulted : (scanPlain m line front s).Faulted m front := by
  unfold scanPlain
  cases read : Sigil.read front.body with
  | mk sigil body =>
    have inside := congrArg List.length (Sigil.chars_append_of_read read)
    simp only
    split
    · split
      · exact fun _ _ => .inl rfl
      · exact nofun
    · split
      · exact fun _ _ => .inl rfl
      · next cut =>
        have parts := length_le_of_cut? cut
        simp only [List.length_append, List.length_cons] at inside parts
        exact fun _ _ => .inr (by simp only; omega)
      · exact nofun

theorem scanTriple_faulted : (scanTriple m line front s).Faulted m front := by
  unfold scanTriple
  split
  · exact fun _ _ => .inl rfl
  · next content rest plain =>
    have parts := length_le_of_cut? plain
    have behind : m.closing.length + rest.length ≤ front.body.length := by omega
    simp only
    split
    · exact fun _ _ => .inr behind
    · split
      · exact fun _ _ => .inr behind
      · intro fault never
        cases never

theorem scanRawBlock_faulted : (scanRawBlock m line front s).Faulted m front := by
  unfold scanRawBlock
  simp only
  split
  · exact fun _ _ => .inl rfl
  · split
    · exact fun _ _ => .inl rfl
    · intro fault never
      cases never

/-- Every tag takes a closing delimiter, or all that is left. -/
theorem scanTag_takes (after : List Char) :
    let rest := (scanTag m line s after).2
    rest = [] ∨ m.closing.length + rest.length ≤ (readFront m.opening after).body.length := by
  have faulted : (scanTag m line s after).Faulted m (readFront m.opening after) := by
    unfold scanTag
    simp only
    split
    · exact scanPlain_faulted m line _ s
    · exact scanTriple_faulted m line _ s
    · exact scanRawBlock_faulted m line _ s
  have closed := scanTag_closed m line s after
  cases outcome : (scanTag m line s after).1 with
  | error fault => exact faulted fault outcome
  | ok raw =>
      have length := (closed raw outcome).length_le
      rw [List.length_append] at length
      exact .inr length

end tags

/-- Without delimiters a tag takes a sign at its start, and with a brace there the brace. -/
theorem scanTag_sign (empty : m.opening = [] ∧ m.closing = []) {d : Char}
    (sign : d ∈ signs ∨ d = '}') (s : List Char) (line : Nat) :
    (scanTag m line (d :: s) (d :: s)).2.length < (d :: s).length := by
  -- a tilde or a brace belongs to the front of the tag, everything else to what the tag is made of
  by_cases front : d = '~' ∨ d = '{'
  · have taken := scanTag_faithful m line (d :: s)
    rw [empty.1, List.nil_append] at taken
    have parted := congrArg List.length (readFront_append [] (d :: s))
    have begun : (readFront [] (d :: s)).opening ≠ [] := by
      unfold readFront
      grind
    have := List.length_pos_iff.mpr begun
    have := taken.rest.length_le
    simp only [List.length_append, List.length_nil, Nat.zero_add] at parted
    omega
  · obtain ⟨tilde, brace⟩ := not_or.mp front
    rw [scanTag_plain m line _ tilde brace]
    rcases sign with sign | rfl
    · have sigil : (Sigil.read (d :: s)).2.length < (d :: s).length := by
        simp only [signs, List.mem_cons, List.not_mem_nil, or_false] at sign
        unfold Sigil.read
        grind
      exact Nat.lt_of_le_of_lt (scanPlain_suffix m line _ _).length_le sigil
    · simp [scanPlain, Sigil.read, empty.2, cut?, dropFront?]

namespace Cursor

variable {c after : Cursor} {piece : Piece}

/-- As long as one delimiter has a character, every piece takes one. -/
theorem shorter_of_marks (marked : m.opening ≠ [] ∨ m.closing ≠ [])
    (h : c.next? m = some (piece, after)) : after.rest.length < c.rest.length := by
  by_cases opened : m.opening = []
  -- no text is ever scanned: a tag stands everywhere, and it takes its closing delimiter
  · have closed := List.length_pos_iff.mpr (marked.resolve_left (not_not.mpr opened))
    unfold next? at h
    split at h
    · cases h
    · next filled =>
      have some_left : 0 < c.rest.length := List.length_pos_iff.mpr (by simpa using filled)
      split at h
      · next missing =>
        rw [opened] at missing
        cases missing
      · next tail tagged =>
        have start := dropFront?_eq_some_iff.mp tagged
        have parted := congrArg List.length (readFront_append m.opening tail)
        rw [← start, List.length_append] at parted
        have takes := scanTag_takes m c.line c.rest tail
        cases h
        change (scanTag m c.line c.rest tail).2.length < c.rest.length
        rcases takes with ended | behind
        · simpa [ended] using some_left
        · omega
  · exact (takes_next? opened h).shorter

/-- Where a tag takes nothing, the next piece is a tag and the place stays. -/
theorem IsIdle.stays (idle : c.IsIdle m) : ∃ piece, c.next? m = some (piece, c) := by
  obtain ⟨opened, closed, d, rest, start, plain, closer⟩ := idle
  have front : d ≠ '~' ∧ d ≠ '{' := by
    simp only [signs, List.mem_cons, not_or] at plain
    exact ⟨plain.1, plain.2.1⟩
  have taken : (scanTag m c.line c.rest c.rest).2 = c.rest := by
    rw [start, scanTag_plain m _ _ front.1 front.2]
    simp only [scanPlain, read_of_notMem_signs plain, reduceCtorEq, if_false, closed, cut?,
      dropFront?]
    split <;> simp_all
  unfold next?
  rw [opened, start]
  simp only [List.isEmpty_cons, Bool.false_eq_true, if_false, dropFront?]
  rw [← start]
  generalize scanTag m c.line c.rest c.rest = scanned at taken
  obtain ⟨outcome, after⟩ := scanned
  cases taken
  exact ⟨_, congrArg (fun c => some (_, c)) c.moveTo_rest⟩

/-- The place moves on unless a tag takes nothing there. -/
theorem shorter_iff (h : c.next? m = some (piece, after)) :
    after.rest.length < c.rest.length ↔ ¬ c.IsIdle m := by
  constructor
  · intro shorter idle
    obtain ⟨piece', stays⟩ := idle.stays
    rw [h] at stays
    cases stays
    exact Nat.lt_irrefl _ shorter
  · intro busy
    by_cases empty : m.opening = [] ∧ m.closing = []
    · unfold next? at h
      split at h
      · cases h
      · next filled =>
        obtain ⟨d, rest, start⟩ := List.exists_cons_of_ne_nil (by simpa using filled)
        have sign : d ∈ signs ∨ d = '}' := by
          by_contra plain
          exact busy ⟨empty.1, empty.2, d, rest, start, not_or.mp plain⟩
        have tagged : dropFront? m.opening c.rest = some c.rest := by
          rw [empty.1]
          rfl
        rw [tagged] at h
        cases h
        rw [start]
        exact scanTag_sign empty sign rest c.line
    · exact shorter_of_marks (not_and_or.mp empty) h

/-- The next piece is from the same template and moves the place on, unless it is idle. -/
theorem advance (h : c.next? m = some (piece, after)) : after.text = c.text ∧
    c.offset ≤ after.offset ∧ (c.offset < after.offset ↔ ¬ c.IsIdle m) := by
  obtain ⟨span, taken, moved⟩ := rest_of_next? h
  obtain ⟨same, further⟩ := moveTo_append taken
  rw [← moved] at same further
  have size : 0 < String.utf8Len span ↔ 0 < span.length := by
    simp only [Nat.pos_iff_ne_zero, ne_eq, String.utf8Len_eq_zero, List.length_eq_zero_iff]
  have length := congrArg List.length taken
  rw [List.length_append] at length
  have shorter := shorter_iff h
  refine ⟨same, by omega, ?_⟩
  rw [← shorter]
  omega

/-- As long as one delimiter has a character, the next piece is the first of the pieces. -/
theorem pieces_of_next? (marked : m.opening ≠ [] ∨ m.closing ≠ [])
    (h : c.next? m = some (piece, after)) : c.pieces m = piece :: after.pieces m := by
  rw [pieces, h]
  exact if_pos (shorter_of_marks marked h)

theorem pieces_of_rest_eq_nil (h : c.rest = []) : c.pieces m = [] := by
  rw [pieces, next?, h]
  rfl

/-! ### Many calls -/

theorem after?_add (n k : Nat) (c : Cursor) :
    c.after? m (n + k) = (c.after? m n).bind fun d => d.after? m k := by
  induction n generalizing c with
  | zero => rw [Nat.zero_add]; rfl
  | succ n ih =>
      rw [Nat.add_right_comm, after?, after?]
      cases c.next? m with
      | none => rfl
      | some next => exact ih next.2

/-- All places are in the same template. -/
theorem text_of_after? {n : Nat} {d : Cursor} (h : c.after? m n = some d) : d.text = c.text := by
  induction n generalizing c with
  | zero => cases h; rfl
  | succ n ih =>
      obtain ⟨⟨piece, after⟩, next, later⟩ := Option.bind_eq_some_iff.mp h
      exact (ih later).trans (advance next).1

theorem IsIdle.after? (idle : c.IsIdle m) (n : Nat) : c.after? m n = some c := by
  obtain ⟨piece, stays⟩ := idle.stays
  induction n with
  | zero => rfl
  | succ n ih => rw [Cursor.after?, stays]; exact ih

/-- From an idle place on the calls do not end. -/
theorem isSome_next?_of_idle {n : Nat} {d : Cursor} (reached : c.after? m n = some d)
    (idle : d.IsIdle m) {k : Nat} {e : Cursor} (h : c.after? m k = some e) :
    (e.next? m).isSome = true := by
  have later : c.after? m (k + (n + 1)) = some d := by
    rw [Nat.add_left_comm, after?_add, reached]
    exact idle.after? (k + 1)
  rw [after?_add, h, Option.bind_some] at later
  obtain ⟨next, found, -⟩ := Option.bind_eq_some_iff.mp later
  rw [found]
  rfl

/-- Where no place is idle, the calls end, and the scan has one piece for each. By induction on
the pieces. -/
theorem pieces_end (c : Cursor) (busy : ∀ n d, c.after? m n = some d → ¬ d.IsIdle m) :
    (c.pieces m).length ≤ c.rest.length ∧
      ∃ d, c.after? m (c.pieces m).length = some d ∧ d.next? m = none := by
  fun_induction Cursor.pieces m c with
  | case1 c ended => exact ⟨Nat.zero_le _, c, rfl, ended⟩
  | case2 c piece after next shorter ih =>
      have later (n : Nat) : c.after? m (n + 1) = after.after? m n := by
        rw [after?, next]
        rfl
      obtain ⟨length, d, reached, ended⟩ := ih fun n d h => busy (n + 1) d ((later n).trans h)
      have fewer := Nat.succ_le_of_lt (Nat.lt_of_le_of_lt length shorter)
      exact ⟨fewer, d, (later _).trans reached, ended⟩
  | case3 c piece after next idle => exact absurd ((shorter_iff next).mpr (busy 0 c rfl)) idle

/-- By induction on the pieces. -/
theorem ends_iff (c : Cursor) :
    c.ends m = true ↔ ∀ n d, c.after? m n = some d → ¬ d.IsIdle m := by
  fun_induction Cursor.ends m c with
  | case1 c ended =>
      refine iff_of_true rfl fun n d reached idle => ?_
      cases n with
      | zero =>
          cases reached
          obtain ⟨piece, stays⟩ := idle.stays
          rw [ended] at stays
          cases stays
      | succ n =>
          rw [after?, ended] at reached
          cases reached
  | case2 c piece after next shorter ih =>
      rw [ih]
      refine ⟨fun busy n d reached => ?_, fun busy n d reached => busy (n + 1) d ?_⟩
      · cases n with
        | zero =>
            cases reached
            exact (shorter_iff next).mp shorter
        | succ n =>
            rw [after?, next] at reached
            exact busy n d reached
      · rw [after?, next]
        exact reached
  | case3 c piece after next stays =>
      refine iff_of_false Bool.false_ne_true fun busy => stays ?_
      exact (shorter_iff next).mpr (busy 0 c rfl)

end Cursor

/-- For every template and all delimiters, the call for the next piece moves the place on and never
past the end of the template, and the calls end after at most as many pieces as the template has
bytes. The one exception is a place at which a tag takes nothing, which only two empty delimiters
make possible: there the place stays, and once one is reached, the calls do not end. -/
theorem scan_advances (m : Marks) (template : String) :
    let start := Cursor.start template.toList
    (∀ n c piece after, start.after? m n = some c → c.next? m = some (piece, after) →
        c.offset ≤ after.offset ∧ after.offset ≤ template.utf8ByteSize ∧
          (c.offset < after.offset ↔ ¬ c.IsIdle m)) ∧
      ((∃ n ≤ template.utf8ByteSize, ∃ c, start.after? m n = some c ∧ c.next? m = none ∧
          (scan m template.toList).length = n) ↔
        ∀ n c, start.after? m n = some c → ¬ c.IsIdle m) := by
  intro start
  have whole : start.text = template.toList := rfl
  refine ⟨fun n c piece after reached next => ?_, ?_, fun busy => ?_⟩
  · obtain ⟨same, further, strictly⟩ := Cursor.advance next
    refine ⟨further, ?_, strictly⟩
    rw [← String.utf8Len_toList, ← whole, ← Cursor.text_of_after? reached, ← same]
    exact after.offset_le
  · rintro ⟨n, -, c, reached, ended, -⟩ k d reached' idle
    have next := Cursor.isSome_next?_of_idle reached' idle reached
    rw [ended] at next
    cases next
  · obtain ⟨length, d, reached, ended⟩ := Cursor.pieces_end start busy
    refine ⟨_, length.trans ?_, d, reached, ended, rfl⟩
    rw [← String.utf8Len_toList]
    exact length_le_utf8Len _

/-- Without an opening delimiter there is no text: the end of the template is a tag that is not
closed. -/
theorem closerOnly_advances :
    let m : Marks := { opening := [], closing := ['»'] }
    let start := Cursor.start "a»bc".toList
    (∀ n c, start.after? m n = some c → ¬ c.IsIdle m) ∧ (scan m "a»bc".toList).length = 2 ∧
      ∃ n ≤ 5, ∃ c, start.after? m n = some c ∧ c.next? m = none ∧
        (scan m "a»bc".toList).length = n := by
  intro m start
  have busy (n : Nat) (c : Cursor) (_ : start.after? m n = some c) : ¬ c.IsIdle m :=
    fun idle => absurd idle.closing (by decide)
  exact ⟨busy, by decide +kernel, (scan_advances m "a»bc").2.mpr busy⟩

/-- With two empty delimiters the calls stay at the start of a template that begins with a letter,
and do not end. -/
theorem emptyMarks_miss :
    let m : Marks := { opening := [], closing := [] }
    let start := Cursor.start ['x']
    ¬ (∀ piece after, start.next? m = some (piece, after) → start.offset < after.offset) ∧
      ∀ n, ∃ c, start.after? m n = some c ∧ (c.next? m).isSome = true := by
  intro m start
  have idle : start.IsIdle m := ⟨rfl, rfl, 'x', [], rfl, by decide, by decide⟩
  obtain ⟨piece, stays⟩ := idle.stays
  refine ⟨fun further => Nat.lt_irrefl _ (further piece start stays), fun n => ?_⟩
  exact ⟨start, idle.after? n, by rw [stays]; rfl⟩

end Stencil.Markup
