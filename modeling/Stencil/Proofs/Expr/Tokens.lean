import Stencil.Proofs.Expr.Numerals
import Stencil.Proofs.Expr.Writing

/-!
Texts that the tokenizer takes whole.

Between two tokens and inside parentheses the automaton is open: it looks
at each character for itself. A text that closes whatever it opens takes an
open automaton back to where it was, so such texts can be put behind each
other and inside parentheses, and one that stands between blanks is one
token.
-/

namespace Stencil.Token

open Text Writing

namespace State

/-- Outside quotes and brackets. -/
structure IsOpen (s : State) : Prop where
  escaped : s.escaped = false
  expected : s.expected = [] ∨ ∃ outer, s.expected = .parenthesis :: outer

theorem isOpen_start : IsOpen {} := ⟨rfl, .inl rfl⟩

theorem IsOpen.after {s : State} (h : s.IsOpen) (last : Option Char) :
    IsOpen { s with last := last } :=
  ⟨h.escaped, h.expected⟩

theorem IsOpen.inside {s : State} (h : s.IsOpen) (last : Option Char) :
    IsOpen { s with expected := .parenthesis :: s.expected, last := last } :=
  ⟨h.escaped, .inr ⟨_, rfl⟩⟩

theorem step_of_isOpen {s : State} (h : s.IsOpen) (c : Char) :
    s.step c = (s.stepOpen c).map fun s => { s with last := some c } := by
  obtain nothing | ⟨outer, inside⟩ := h.expected
  · simp [step, h.escaped, nothing]
  · simp [step, h.escaped, inside]

/-- Reads a text inside a token; none when the token ends in it. -/
def run (s : State) (text : List Char) : Option State :=
  text.foldlM step s

@[simp] theorem run_nil (s : State) : s.run [] = some s := rfl

@[simp] theorem run_cons (s : State) (c : Char) (text : List Char) :
    s.run (c :: text) = (s.step c).bind fun s => s.run text := rfl

theorem run_append (s : State) (front text : List Char) :
    s.run (front ++ text) = (s.run front).bind fun s => s.run text :=
  List.foldlM_append

end State

/-! ### Texts that open nothing -/

/-- Outside quotes and brackets the character stands for itself. -/
def isPlain (c : Char) : Bool :=
  !(isWhite c || isQuote c || c == '[' || c == '(' || c == ')')

theorem isPlain_of_not_isReserved {c : Char} (h : Path.isReserved c = false) :
    isPlain c = true := by
  simp only [Path.isReserved, Bool.or_eq_false_iff] at h
  obtain ⟨white, reserved⟩ := h
  simp only [String.reduceToList, List.contains_cons, Bool.or_eq_false_iff,
    beq_eq_false_iff_ne] at reserved
  simp [isPlain, isQuote, white, reserved]

theorem isPlain_of_isDigit {c : Char} (h : Numeral.isDigit c = true) : isPlain c = true := by
  simp only [Numeral.isDigit, Bool.and_eq_true, decide_eq_true_eq] at h
  have low : 48 ≤ c.toNat := h.1
  have high : c.toNat ≤ 57 := h.2
  have white : isWhite c = false := by
    simp [isWhite]
    omega
  have other {d : Char} (h : d.toNat < 48 ∨ 57 < d.toNat) : c ≠ d := by
    rintro rfl
    omega
  simp [isPlain, isQuote, white, other (d := '"') (by decide), other (d := '\'') (by decide),
    other (d := '[') (by decide), other (d := '(') (by decide), other (d := ')') (by decide)]

theorem State.step_of_isPlain {s : State} (h : s.IsOpen) {c : Char} (plain : isPlain c = true) :
    s.step c = some { s with last := some c } := by
  simp only [isPlain, Bool.not_eq_eq_eq_not, Bool.not_true, Bool.or_eq_false_iff,
    beq_eq_false_iff_ne] at plain
  simp [step_of_isOpen h, stepOpen, plain]

/-- The text takes an open automaton back to where it was. -/
def IsKept (text : List Char) : Prop :=
  ∀ s : State, s.IsOpen → ∃ last, s.run text = some { s with last := last }

namespace IsKept

theorem nil : IsKept [] :=
  fun s _ => ⟨s.last, rfl⟩

theorem append {front text : List Char} (first : IsKept front) (second : IsKept text) :
    IsKept (front ++ text) := by
  intro s h
  obtain ⟨last, ran⟩ := first s h
  obtain ⟨last', ran'⟩ := second _ (h.after last)
  exact ⟨last', by rw [State.run_append, ran, Option.bind_some, ran']⟩

theorem of_isPlain {text : List Char} (plain : text.all isPlain = true) : IsKept text := by
  induction text with
  | nil => exact nil
  | cons c text ih =>
      rw [List.all_cons, Bool.and_eq_true] at plain
      intro s h
      obtain ⟨last, ran⟩ := ih plain.2 _ (h.after (some c))
      refine ⟨last, ?_⟩
      rw [State.run_cons, State.step_of_isPlain h plain.1, Option.bind_some, ran]

end IsKept

/-! ### Brackets and quotes -/

/-- Inside brackets everything is passed over but what closes them. -/
theorem State.run_inside_brackets {s : State} (escaped : s.escaped = false) {outer : List Closer}
    (expected : s.expected = .bracket :: outer) {name : List Char} (h : ']' ∉ name) :
    ∃ last, s.run name = some { s with last := last } := by
  induction name generalizing s with
  | nil => exact ⟨s.last, rfl⟩
  | cons c name ih =>
      have other : c ≠ ']' := fun e => h (e ▸ .head _)
      have step : s.step c = some { s with last := some c } := by
        simp [State.step, escaped, expected, other]
      obtain ⟨last, ran⟩ :=
        ih (s := { s with last := some c }) escaped expected (fun inside => h (.tail _ inside))
      exact ⟨last, by rw [State.run_cons, step, Option.bind_some, ran]⟩

theorem IsKept.bracket {name : String} (h : FitsBrackets name) : IsKept (bracket name) := by
  intro s opened
  have opens :
      s.step '[' = some { s with expected := .bracket :: s.expected, last := some '[' } := by
    simp [State.step_of_isOpen opened, State.stepOpen, State.push, isQuote]
  obtain ⟨last, ran⟩ := State.run_inside_brackets
    (s := { s with expected := .bracket :: s.expected, last := some '[' }) opened.escaped rfl h
  refine ⟨some ']', ?_⟩
  rw [Writing.bracket, List.cons_append, State.run_cons, opens, Option.bind_some,
    State.run_append, ran]
  simp [State.step, State.pop, opened.escaped]

/-- Inside double quotes a backslash takes the next character with it, so nothing that is
escaped closes them. -/
theorem State.run_inside_quotes {s : State} (escaped : s.escaped = false) {outer : List Closer}
    (expected : s.expected = .quote '"' :: outer) (text : List Char) :
    ∃ last, s.run (escape text) = some { s with last := last } := by
  induction text generalizing s with
  | nil => exact ⟨s.last, rfl⟩
  | cons c text ih =>
      rw [escape]
      split
      · -- the automaton does not look at a character behind a backslash
        have steps : s.run ['\\', c] = some { s with last := some '\\' } := by
          simp [State.step, State.stepQuoted, escaped, expected]
        obtain ⟨last, ran⟩ := ih (s := { s with last := some '\\' }) escaped expected
        refine ⟨last, ?_⟩
        change s.run (['\\', c] ++ escape text) = _
        rw [run_append, steps, Option.bind_some, ran]
      · next special =>
        have step : s.step c = some { s with last := some c } := by
          simp [State.step, State.stepQuoted, escaped, expected, not_or.mp special]
        obtain ⟨last, ran⟩ := ih (s := { s with last := some c }) escaped expected
        exact ⟨last, by rw [run_cons, step, Option.bind_some, ran]⟩

/-- As `IsKept`, where a quote may open. -/
def IsWhole (text : List Char) : Prop :=
  ∀ s : State, s.IsOpen → opensQuote s.last = true →
    ∃ last, s.run text = some { s with last := last }

theorem IsKept.isWhole {text : List Char} (h : IsKept text) : IsWhole text :=
  fun s opened _ => h s opened

theorem IsWhole.quote (s : String) : IsWhole (quote s) := by
  intro st opened opens
  have first : st.step '"' =
      some { st with expected := .quote '"' :: st.expected, last := some '"' } := by
    simp [State.step_of_isOpen opened, State.stepOpen, State.push, isQuote, opens]
  obtain ⟨last, ran⟩ := State.run_inside_quotes
    (s := { st with expected := .quote '"' :: st.expected, last := some '"' })
    opened.escaped rfl s.toList
  refine ⟨some '"', ?_⟩
  rw [Writing.quote, List.cons_append, State.run_cons, first, Option.bind_some,
    State.run_append, ran]
  simp [State.step, State.stepQuoted, State.pop, opened.escaped]

theorem IsWhole.named {name : String} (fits : FitsBrackets name) {value : List Char}
    (h : IsWhole value) : IsWhole (named name value) := by
  intro s opened _
  obtain ⟨last, ran⟩ := IsKept.bracket fits s opened
  have equals : State.step { s with last := last } '=' = some { s with last := some '=' } :=
    State.step_of_isPlain (opened.after last) (by decide)
  obtain ⟨last', ran'⟩ := h _ (opened.after (some '=')) rfl
  exact ⟨last', by rw [Writing.named, State.run_append, ran, Option.bind_some, State.run_cons,
    equals, Option.bind_some, ran']⟩

/-! ### Parentheses -/

/-- Inside parentheses blanks may stand between texts. -/
theorem State.run_spaced {s : State} (opened : s.IsOpen) {outer : List Closer}
    (expected : s.expected = .parenthesis :: outer) {ts : List (List Char)}
    (h : ∀ t ∈ ts, IsWhole t) : ∃ last, s.run (spaced ts) = some { s with last := last } := by
  induction ts generalizing s with
  | nil => exact ⟨s.last, rfl⟩
  | cons t ts ih =>
      have blank : s.step ' ' = some { s with last := some ' ' } := by
        simp [step_of_isOpen opened, stepOpen, expected, isQuote]
      obtain ⟨last, ran⟩ := h t (.head _) _ (opened.after (some ' ')) rfl
      obtain ⟨last', ran'⟩ := ih (opened.after last) expected fun u hu => h u (.tail _ hu)
      refine ⟨last', ?_⟩
      rw [spaced, List.flatMap_cons, ← spaced, List.cons_append, run_cons, blank,
        Option.bind_some, run_append, ran, Option.bind_some, ran']

/-- A call is closed by its last parenthesis. -/
theorem IsWhole.call {head : List Char} (plain : head.all isPlain = true)
    {ts : List (List Char)} (h : ∀ t ∈ ts, IsWhole t) :
    IsWhole ('(' :: head ++ spaced ts ++ [')']) := by
  intro s opened _
  have opens : s.step '(' =
      some { s with expected := .parenthesis :: s.expected, last := some '(' } := by
    simp [State.step_of_isOpen opened, State.stepOpen, State.push, isQuote]
  -- from here on the parenthesis is the innermost closer, so blanks do not end the token
  have within := opened.inside (some '(')
  obtain ⟨last, ran⟩ := IsKept.of_isPlain plain _ within
  obtain ⟨last', ran'⟩ := State.run_spaced (within.after last) rfl h
  refine ⟨some ')', ?_⟩
  rw [List.append_assoc, List.cons_append, State.run_cons, opens, Option.bind_some,
    State.run_append, ran, Option.bind_some, State.run_append, ran']
  simp [State.step_of_isOpen (within.after last'), State.stepOpen, State.pop, isQuote]

/-! ### Tokens between blanks -/

/-- A text that is a token where it stands between blanks; it does not look like block
parameters. -/
structure IsToken (t : List Char) : Prop where
  whole : IsWhole t
  start : ∃ c rest, t = c :: rest ∧ isWhite c = false ∧ c ≠ '|'

theorem IsToken.of_isPlain {t : List Char} (filled : t ≠ []) (plain : t.all isPlain = true)
    (bar : t.head? ≠ some '|') : IsToken t := by
  refine ⟨(IsKept.of_isPlain plain).isWhole, ?_⟩
  obtain ⟨c, rest, rfl⟩ := List.exists_cons_of_ne_nil filled
  rw [List.all_cons, Bool.and_eq_true] at plain
  have white : isWhite c = false := by simp_all [isPlain]
  exact ⟨c, rest, rfl, white, by simpa using bar⟩

theorem isPlain_of_isBare {name : String} (h : IsBare name) : name.toList.all isPlain = true :=
  List.all_eq_true.mpr fun _ member => isPlain_of_not_isReserved (h.not_isReserved member)

/-- A bare name is a token. -/
theorem IsToken.bare {name : String} (h : IsBare name) : IsToken name.toList := by
  refine .of_isPlain (by simpa using h.1) (isPlain_of_isBare h) fun bar => ?_
  have := h.not_isReserved (List.mem_of_head? bar)
  exact absurd this (by decide)

/-! ### Paths and terms -/

theorem IsKept.joined {names : List String} (h : ∀ name ∈ names, FitsBrackets name) :
    IsKept (joined names) := by
  induction names with
  | nil => exact nil
  | cons name names ih =>
      have first := IsKept.bracket (h name (.head _))
      cases names with
      | nil => simpa [Writing.joined] using first
      | cons next names =>
          rw [joined_cons_cons]
          have point : IsKept ['.'] := of_isPlain (by decide)
          exact first.append (point.append (ih fun n hn => h n (.tail _ hn)))

theorem IsKept.path {names : List String} (h : ∀ name ∈ names, FitsBrackets name)
    (special : Bool) (levels : Nat) : IsKept (path special levels names) := by
  have named : IsKept (members names) := by
    cases names with
    | nil => exact of_isPlain (by decide)
    | cons name names => exact joined h
  have stepped : IsKept (outward levels (members names)) := by
    induction levels with
    | zero => exact named
    | succ levels ih =>
        have step : IsKept ['.', '.', '/'] := of_isPlain (by decide)
        exact step.append ih
  cases special with
  | true =>
      have mark : IsKept ['@'] := of_isPlain (by decide)
      exact mark.append stepped
  | false => exact stepped

theorem IsToken.path {names : List String} (h : ∀ name ∈ names, FitsBrackets name)
    (special : Bool) (levels : Nat) : IsToken (path special levels names) := by
  refine ⟨(IsKept.path h special levels).isWhole, ?_⟩
  obtain this | ⟨c, rest, start, first⟩ := path_start special levels names
  · exact ⟨'t', _, this, by decide, by decide⟩
  · refine ⟨c, rest, start, ?_⟩
    rcases first with rfl | rfl | rfl <;> decide

theorem IsToken.named {name : String} (fits : FitsBrackets name) {value : List Char}
    (h : IsToken value) : IsToken (named name value) :=
  ⟨h.whole.named fits, '[', _, rfl, by decide, by decide⟩

theorem isPlain_integer (n : Int) : (Number.integer n).text.toList.all isPlain = true := by
  refine List.all_eq_true.mpr fun c member => ?_
  obtain rfl | digit := Numeral.digits_of_mem_text member
  · decide
  · exact isPlain_of_isDigit digit

/-- Every legible term is written as one token. -/
theorem IsToken.text {isHelper : String → Bool} {t : Term} (h : t.IsLegible isHelper) :
    IsToken t.text := by
  induction h with
  | path names_fit => exact path names_fit _ _
  | integer n =>
      refine of_isPlain (Numeral.text_ne_nil _) (isPlain_integer _) fun bar => ?_
      exact absurd (Numeral.digits_of_mem_text (List.mem_of_head? bar)) (by decide)
  | string s => exact ⟨.quote s, '"', _, rfl, by decide, by decide⟩
  | bool b => cases b <;> exact of_isPlain (by decide) (by decide) (by decide)
  | null => exact of_isPlain (by decide) (by decide) (by decide)
  | @call helper args hash bare known args_legible names_fit distinct hash_legible ihArgs ihHash =>
      refine ⟨.call (isPlain_of_isBare bare) fun u hu => ?_, '(', _, rfl, by decide, by decide⟩
      obtain arg | entry := List.mem_append.mp hu
      · obtain ⟨t, member, rfl⟩ := Term.mem_texts arg
        exact (ihArgs t member).whole
      · obtain ⟨e, member, rfl⟩ := Term.mem_namedTexts entry
        exact (ihHash e member).whole.named (names_fit e member)

theorem State.step_of_isWhite {s : State} (opened : s.IsOpen) (outside : s.expected = [])
    {c : Char} (white : isWhite c = true) : s.step c = none := by
  have other {d : Char} (h : isWhite d = false) : c ≠ d := by
    rintro rfl
    simp [white] at h
  simp [step_of_isOpen opened, stepOpen, outside, white, isQuote, other (d := '"') rfl,
    other (d := '\'') rfl, other (d := '[') rfl, other (d := '(') rfl]

/-- The scan stops behind a text that leaves nothing open when white space follows, or
nothing. -/
theorem scan_append {s s' : State} {text rest : List Char} (ran : s.run text = some s')
    (opened : s'.IsOpen) (outside : s'.expected = []) (white : rest.head?.all isWhite = true) :
    scan s (text ++ rest) = .ok (text, rest) := by
  induction text generalizing s with
  | nil =>
      obtain rfl : s = s' := Option.some.inj ran
      cases rest with
      | nil => simp [scan, outside]
      | cons c rest => simp [scan, State.step_of_isWhite opened outside white]
  | cons c text ih =>
      obtain ⟨next, stepped, ran⟩ := Option.bind_eq_some_iff.mp ran
      simp [scan, stepped, ih ran, Except.map]

theorem trimStart_cons {c : Char} (h : isWhite c = false) (rest : List Char) :
    trimStart (c :: rest) = c :: rest := by
  simp [trimStart, h]

/-- What is scanned leaves nothing open. A backslash is open only inside quotes. -/
theorem run_of_scan {s : State} {text token rest : List Char}
    (escaped : s.escaped = true → s.expected ≠ []) (h : scan s text = .ok (token, rest)) :
    ∃ s', s.run token = some s' ∧ s'.IsOpen ∧ s'.expected = [] := by
  induction text generalizing s token with
  | nil =>
      rw [scan] at h
      split at h
      · next closed =>
        cases h
        have plain : s.escaped = false := by
          by_contra other
          exact escaped (by simpa using other) closed
        exact ⟨s, rfl, ⟨plain, .inl closed⟩, closed⟩
      · cases h
  | cons c text ih =>
      rw [scan] at h
      split at h
      · next ended =>
        cases h
        have outside : s.escaped = false ∧ s.expected = [] := by
          simp only [State.step, State.stepOpen] at ended
          grind
        exact ⟨s, rfl, ⟨outside.1, .inl outside.2⟩, outside.2⟩
      · next s' stepped =>
        cases found : scan s' text with
        | error k => simp [found, Except.map] at h
        | ok parts =>
            simp only [found, Except.map, Except.ok.injEq, Prod.mk.injEq] at h
            obtain ⟨rfl, rfl⟩ := h
            have inside : s'.escaped = true → s'.expected ≠ [] := by
              simp only [State.step] at stepped
              grind [State.stepQuoted, State.stepOpen, State.push, State.pop]
            obtain ⟨after, ran, ended⟩ := ih inside found
            exact ⟨after, by rw [State.run_cons, stepped, Option.bind_some, ran], ended⟩

/-- One token by itself: it begins without white space, and behind it nothing is open. -/
structure IsComplete (t : List Char) : Prop where
  start : ∃ c rest, t = c :: rest ∧ isWhite c = false
  closed : ∃ s, State.run {} t = some s ∧ s.IsOpen ∧ s.expected = []

theorem IsComplete.ne_nil {t : List Char} (h : IsComplete t) : t ≠ [] := by
  obtain ⟨c, rest, rfl, -⟩ := h.start
  exact List.cons_ne_nil c rest

theorem IsComplete.next? {t rest : List Char} (h : IsComplete t)
    (white : rest.head?.all isWhite = true) :
    next? (t ++ rest) = .ok (some (t, trimStart rest)) := by
  obtain ⟨s, ran, opened, outside⟩ := h.closed
  have scanned := scan_append ran opened outside white
  obtain ⟨c, tail, rfl, start⟩ := h.start
  rw [Token.next?, List.cons_append, trimStart_cons start]
  simp only [← List.cons_append, scanned, Except.map]

/-- What is found behind the white space at the front is one token by itself, and white space
follows it, or nothing. -/
theorem isComplete_of_next? {text t tail : List Char}
    (h : next? text = .ok (some (t, tail))) :
    IsComplete t ∧ ∃ rest, trimStart text = t ++ rest ∧ rest.head?.all isWhite = true ∧
      tail = trimStart rest := by
  rw [next?.eq_def] at h
  split at h
  · simp at h
  · next c text' trimmed =>
    cases scanned : scan {} (c :: text') with
    | error k => simp [scanned, Except.map] at h
    | ok parts =>
        obtain ⟨token, rest⟩ := parts
        simp only [scanned, Except.map, Except.ok.injEq, Option.some.injEq, Prod.mk.injEq] at h
        obtain ⟨rfl, rfl⟩ := h
        have parted := append_of_scan scanned
        have follows : rest.head?.all isWhite = true := by
          cases rest with
          | nil => rfl
          | cons d rest => exact isWhite_of_scan scanned
        have white : isWhite c = false := by
          have first := List.head?_dropWhile_not (p := isWhite) (l := text)
          rw [trimStart] at trimmed
          simpa [trimmed] using first
        have begins : ∃ d more, token = d :: more ∧ isWhite d = false := by
          cases token with
          | nil => simp_all
          | cons d more =>
              rw [List.cons_append, List.cons.injEq] at parted
              exact ⟨d, more, rfl, parted.1 ▸ white⟩
        refine ⟨⟨begins, run_of_scan (by simp) scanned⟩, rest, ?_, follows, rfl⟩
        rw [trimmed, parted]

theorem IsToken.isComplete {t : List Char} (token : IsToken t) : IsComplete t := by
  obtain ⟨last, ran⟩ := token.whole {} State.isOpen_start rfl
  obtain ⟨c, rest, filled, white, -⟩ := token.start
  exact ⟨⟨c, rest, filled, white⟩, _, ran, State.isOpen_start.after last, rfl⟩

/-- One token by itself that is not taken for block parameters behind another one. -/
def IsPart (t : List Char) : Prop :=
  IsComplete t ∧ t.head? ≠ some '|'

theorem IsToken.isPart {t : List Char} (token : IsToken t) : IsPart t := by
  refine ⟨token.isComplete, ?_⟩
  obtain ⟨c, rest, rfl, -, noBar⟩ := token.start
  simpa using noBar

end Stencil.Token

namespace Stencil.Expr

open Text Token Writing

/-- What may stand behind a token: white space first, if anything, and then no bar, which
behind the word `as` would open block parameters. -/
structure Separates (rest : List Char) : Prop where
  white : rest.head?.all isWhite = true
  bar : ∀ tail, trimStart rest ≠ '|' :: tail

theorem Separates.nil : Separates [] :=
  ⟨rfl, by simp [trimStart]⟩

theorem trimStart_blank {t : List Char} (complete : IsComplete t) (rest : List Char) :
    trimStart (' ' :: (t ++ rest)) = t ++ rest := by
  obtain ⟨c, tail, rfl, start⟩ := complete.start
  exact trimStart_cons start _

theorem Separates.blank {t : List Char} (part : IsPart t) (rest : List Char) :
    Separates (' ' :: (t ++ rest)) := by
  refine ⟨rfl, fun tail found => ?_⟩
  rw [trimStart_blank part.1] at found
  obtain ⟨c, front, rfl, -⟩ := part.1.start
  exact part.2 (congrArg some (List.cons.inj found).1)

/-- A token that no block parameters follow. -/
theorem tokens_of_none {params : List String} {text token rest : List Char}
    (found : next? text = .ok (some (token, rest))) (after : paramsAfter? token rest = .ok none) :
    tokens params text =
      (tokens params rest).map fun (ts, params) => (token :: ts, params) := by
  -- both matches of `tokens` keep their equations, which decide them
  rw [tokens]
  split <;> simp_all
  split <;> simp_all

/-- The word `as` with block parameters. -/
theorem tokens_of_params {params names : List String} {text token rest tail : List Char}
    (found : next? text = .ok (some (token, rest)))
    (after : paramsAfter? token rest = .ok (some (names, tail))) :
    tokens params text = tokens names tail := by
  rw [tokens]
  split <;> simp_all
  split <;> simp_all

theorem tokens_append {t rest : List Char} (complete : IsComplete t) (apart : Separates rest)
    (params : List String) :
    tokens params (t ++ rest) =
      (tokens params (trimStart rest)).map fun (ts, params) => (t :: ts, params) := by
  refine tokens_of_none (complete.next? apart.white) ?_
  rw [paramsAfter?]
  split
  · rw [blockParams?.eq_def]
    split
    · next bar => exact absurd bar (apart.bar _)
    · rfl
  · rfl

/-- A text of tokens with a blank before each but the first is read as these tokens. -/
theorem tokens_spaced {t : List Char} {ts : List (List Char)} {tail : List Char}
    (complete : IsComplete t) (rest : ∀ u ∈ ts, IsPart u) (apart : Separates tail)
    (params : List String) :
    tokens params (t ++ spaced ts ++ tail) =
      (tokens params (trimStart tail)).map fun (us, params) => (t :: ts ++ us, params) := by
  -- over the tokens behind the first, each of which takes its turn as the first one
  induction ts generalizing t with
  | nil => simp [spaced, tokens_append complete apart]
  | cons u ts ih =>
      have next : IsPart u := rest u (.head _)
      have text : t ++ spaced (u :: ts) ++ tail = t ++ ' ' :: (u ++ (spaced ts ++ tail)) := by
        simp [spaced]
      rw [text, tokens_append complete (.blank next _), trimStart_blank next.1,
        ← List.append_assoc, ih next.1 fun v hv => rest v (.tail _ hv)]
      cases tokens params (trimStart tail) <;> rfl

/-- Where nothing else follows, these are all. -/
theorem tokens_parts {t : List Char} {ts : List (List Char)} (complete : IsComplete t)
    (rest : ∀ u ∈ ts, IsPart u) : tokens [] (t ++ spaced ts) = .ok (t :: ts, []) := by
  have read := tokens_spaced complete rest .nil []
  simpa [trimStart, tokens_nil, Except.map] using read

theorem tokens_singleton {t : List Char} (complete : IsComplete t) :
    tokens [] t = .ok ([t], []) := by
  simpa [spaced] using @tokens_parts t [] complete nofun

/-! ### Block parameters -/

theorem cut?_of_notMem {c : Char} {front : List Char} (h : c ∉ front) (rest : List Char) :
    cut? [c] (front ++ c :: rest) = some (front, rest) := by
  induction front with
  | nil => simp [cut?, dropFront?]
  | cons d front ih =>
      simp only [List.mem_cons, not_or] at h
      simp [cut?, dropFront?, h.1, ih h.2]

theorem wordsFrom_append {front : List Char} (h : ∀ c ∈ front, isWhite c = false)
    (word rest : List Char) :
    wordsFrom word (front ++ rest) = wordsFrom (front.reverse ++ word) rest := by
  induction front generalizing word with
  | nil => rfl
  | cons c front ih =>
      rw [List.cons_append, wordsFrom, h c (.head _), if_neg (by simp),
        ih fun d hd => h d (.tail _ hd)]
      simp

/-- Words with one blank between them are found again. -/
theorem words_intercalate {ts : List (List Char)}
    (h : ∀ t ∈ ts, t ≠ [] ∧ ∀ c ∈ t, isWhite c = false) : words ([' '].intercalate ts) = ts := by
  induction ts with
  | nil => rfl
  | cons t ts ih =>
      obtain ⟨filled, solid⟩ := h t (.head _)
      cases ts with
      | nil =>
          have := wordsFrom_append solid [] []
          simp_all [words, wordsFrom]
      | cons u ts =>
          have white : isWhite ' ' = true := rfl
          have later : wordsFrom [] ([' '].intercalate (u :: ts)) = u :: ts :=
            ih fun v hv => h v (.tail _ hv)
          rw [List.intercalate_cons_cons, List.append_assoc, words, wordsFrom_append solid]
          simp [wordsFrom, white, filled, later]

theorem blockParams?_bars {names : List String} (h : ∀ name ∈ names, IsWord name) :
    blockParams? ('|' :: ([' '].intercalate (names.map String.toList) ++ ['|'])) =
      .ok (some (names, [])) := by
  have noBar : '|' ∉ [' '].intercalate (names.map String.toList) := by
    intro inside
    obtain blank | ⟨t, listed, inside⟩ := mem_of_mem_intercalate inside
    · simp at blank
    · obtain ⟨name, member, rfl⟩ := List.mem_map.mp listed
      exact (h name member).no_bar inside
  have found : words ([' '].intercalate (names.map String.toList)) = names.map String.toList := by
    refine words_intercalate fun t ht => ?_
    obtain ⟨name, member, rfl⟩ := List.mem_map.mp ht
    exact ⟨by simpa using (h name member).1, fun c => (h name member).not_isWhite⟩
  have back : (names.map String.toList).map String.ofList = names := by
    simp [Function.comp_def]
  simp only [blockParams?, cut?_of_notMem noBar, found, back]
  rfl

theorem tokens_bars {names : List String} (h : ∀ name ∈ names, IsWord name)
    (params : List String) : tokens params (bars names) = .ok ([], names) := by
  have token : IsToken ['a', 's'] := .of_isPlain (by decide) (by decide) (by decide)
  have found (rest : List Char) :
      next? ('a' :: 's' :: ' ' :: '|' :: rest) = .ok (some (['a', 's'], '|' :: rest)) :=
    token.isComplete.next? rfl
  rw [bars, tokens_of_params (found _) (blockParams?_bars h), tokens_nil]

end Stencil.Expr
