import Stencil.Diagnostic
import Stencil.Text.Blank

/-!
The tokens of a tag's content.

White space separates tokens, except inside quotes, brackets and
parentheses. An automaton reads the characters one at a time and keeps the
stack of closers that it still expects; a token ends before the first
white space at which that stack is empty.
-/

namespace Stencil.Token

open Text

/-- What ends a construct that was opened inside a token. -/
inductive Closer
  | quote (c : Char)
  | bracket
  | parenthesis
  deriving DecidableEq

def Closer.construct : Closer → Construct
  | quote _ => .quote
  | bracket => .bracket
  | parenthesis => .parenthesis

/-- The automaton inside a token. -/
structure State where
  /-- The closers expected, innermost first. -/
  expected : List Closer := []
  /-- The last character that was looked at. -/
  last : Option Char := none
  /-- The next character follows a backslash inside quotes. -/
  escaped : Bool := false
  deriving DecidableEq

def isQuote (c : Char) : Bool := c == '"' || c == '\''

/-- A quote opens a text only at the start of a token or argument. -/
def opensQuote : Option Char → Bool
  | none => true
  | some c => c == '=' || c == '(' || isWhite c

namespace State

def push (s : State) (closer : Closer) : State :=
  { s with expected := closer :: s.expected }

def pop (s : State) : State :=
  { s with expected := s.expected.tail }

/-- Reads a character inside quotes that `q` closes. -/
def stepQuoted (s : State) (q c : Char) : State :=
  if c = '\\' then { s with escaped := true } else if c = q then s.pop else s

/-- Reads a character outside quotes and brackets; none at the end of the
token. -/
def stepOpen (s : State) (c : Char) : Option State :=
  if isQuote c && opensQuote s.last then some (s.push (.quote c))
  else if c = '[' then some (s.push .bracket)
  else if c = '(' then some (s.push .parenthesis)
  else if c = ')' && !s.expected.isEmpty then some s.pop
  else if isWhite c && s.expected.isEmpty then none
  else some s

/-- Reads a character; none when the token ends before it. -/
def step (s : State) (c : Char) : Option State :=
  if s.escaped then some { s with escaped := false }
  else
    let next :=
      match s.expected with
      | .quote q :: _ => some (s.stepQuoted q c)
      | .bracket :: _ => some (if c = ']' then s.pop else s)
      | _ => s.stepOpen c
    next.map fun s => { s with last := some c }

end State

/-- The token at the front of a text, and the rest. -/
def scan (s : State) : List Char → Except Construct (List Char × List Char)
  | [] =>
    match s.expected with
    | [] => .ok ([], [])
    | closer :: _ => .error closer.construct
  | c :: rest =>
    match s.step c with
    | none => .ok ([], c :: rest)
    | some s => (scan s rest).map fun (token, rest) => (c :: token, rest)

theorem append_of_scan {s : State} {text token rest : List Char}
    (h : scan s text = .ok (token, rest)) : token ++ rest = text := by
  induction text generalizing s token with
  | nil =>
    rw [scan] at h
    split at h <;> simp_all
  | cons c text ih =>
    rw [scan] at h
    split at h
    · simp_all
    · next s' _ =>
      cases found : scan s' text with
      | error k => simp [found, Except.map] at h
      | ok parts =>
        obtain ⟨token', rest'⟩ := parts
        simp only [found, Except.map, Except.ok.injEq, Prod.mk.injEq] at h
        obtain ⟨rfl, rfl⟩ := h
        simp [ih found]

/-- Outside every construct only white space ends a token. -/
theorem isWhite_of_step {s : State} {c : Char} (h : s.step c = none) : isWhite c = true := by
  simp only [State.step, State.stepOpen] at h
  grind

/-- What follows a token begins with white space. -/
theorem isWhite_of_scan {s : State} {text token rest : List Char} {c : Char}
    (h : scan s text = .ok (token, c :: rest)) : isWhite c = true := by
  induction text generalizing s token with
  | nil =>
    rw [scan] at h
    split at h <;> simp_all
  | cons d text ih =>
    rw [scan] at h
    split at h
    · next stop =>
      simp only [Except.ok.injEq, Prod.mk.injEq, List.cons.injEq] at h
      exact h.2.1 ▸ isWhite_of_step stop
    · next s' _ =>
      cases found : scan s' text with
      | error k => simp [found, Except.map] at h
      | ok parts =>
        obtain ⟨token', rest'⟩ := parts
        simp only [found, Except.map, Except.ok.injEq, Prod.mk.injEq] at h
        obtain ⟨rfl, rfl⟩ := h
        exact ih found

/-- At its first character a token does not end, unless it is white space. -/
theorem isSome_step_start {c : Char} (h : isWhite c = false) : (State.step {} c).isSome := by
  simp only [State.step, State.stepOpen, h, Bool.false_eq_true, ↓reduceIte, Bool.false_and,
    Option.isSome_map]
  split
  · rfl
  · split
    · rfl
    · split
      · rfl
      · simp

/-- The first token of a text, and the text from the next token on. -/
def next? (text : List Char) : Except Construct (Option (List Char × List Char)) :=
  match trimStart text with
  | [] => .ok none
  | c :: rest => (scan {} (c :: rest)).map fun (token, rest) => some (token, trimStart rest)

theorem length_trimStart_le (text : List Char) : (trimStart text).length ≤ text.length :=
  (List.dropWhile_suffix isWhite).length_le

theorem length_trimStart_lt {c : Char} (text : List Char) (h : isWhite c = true) :
    (trimStart (c :: text)).length < (c :: text).length := by
  have := length_trimStart_le text
  rw [trimStart, List.dropWhile_cons_of_pos h, ← trimStart, List.length_cons]
  omega

/-- A token is not empty, it and the rest are parts of the text, and something
separates them when the rest is not empty. -/
theorem length_of_next? {text token rest : List Char}
    (h : next? text = .ok (some (token, rest))) :
    token ≠ [] ∧ token.length + rest.length ≤ text.length ∧
      (rest ≠ [] → token.length + rest.length < text.length) := by
  rw [next?] at h
  split at h
  · simp at h
  · next c tail trimmed =>
    have hc : isWhite c = false := by
      have := List.head?_dropWhile_not (p := isWhite) (l := text)
      rw [trimStart] at trimmed
      simp [trimmed] at this
      simpa using this
    cases found : scan {} (c :: tail) with
    | error k => simp [found, Except.map] at h
    | ok parts =>
      obtain ⟨token', rest'⟩ := parts
      simp only [found, Except.map, Except.ok.injEq, Option.some.injEq, Prod.mk.injEq] at h
      obtain ⟨rfl, rfl⟩ := h
      have whole := append_of_scan found
      have le := length_trimStart_le text
      rw [trimmed, ← whole, List.length_append] at le
      have rest_le := length_trimStart_le rest'
      refine ⟨?_, by omega, fun more => ?_⟩
      rotate_left
      · cases rest' with
        | nil => simp [trimStart] at more
        | cons w rest' =>
          have := length_trimStart_lt rest' (isWhite_of_scan found)
          omega
      rintro rfl
      rw [scan] at found
      have some_step := isSome_step_start hc
      split at found
      · simp_all
      · next s' _ =>
        cases inner : scan s' tail <;> simp [inner, Except.map] at found

end Stencil.Token
