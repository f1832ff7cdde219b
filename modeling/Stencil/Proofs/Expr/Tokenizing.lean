import Stencil.Proofs.Expr.Tokens

/-!
Cutting a text into tokens.

The calls for the next token end for every text. Where they end well, the tokens are the text
without the white space around them. What is one token by itself does not depend on what stands
around it, so the same tokens are found again wherever white space separates them.
-/

namespace Stencil.Token

open Text

/-- The calls for the tokens of a text, each behind the one before: the tokens that they give, and
what stops them, which is the end of the text or a construct that is left open. -/
inductive Calls : List Char → List (List Char) → Option Construct → Prop
  | ended {text : List Char} (h : next? text = .ok none) : Calls text [] none
  | failed {text : List Char} {k : Construct} (h : next? text = .error k) : Calls text [] (some k)
  | token {text t rest : List Char} {ts : List (List Char)} {stop : Option Construct}
      (h : next? text = .ok (some (t, rest))) (later : Calls rest ts stop) :
      Calls text (t :: ts) stop

/-- A text that is these tokens in order, with white space in front of the first, between two
and behind the last. Only in front and at the end there may be none. -/
inductive Spaced : List (List Char) → List Char → Prop
  | nil {gap : List Char} (white : gap.all isWhite = true) : Spaced [] gap
  | cons {gap t rest : List Char} {ts : List (List Char)} (white : gap.all isWhite = true)
      (apart : ts ≠ [] → rest.head?.any isWhite = true) (more : Spaced ts rest) :
      Spaced (t :: ts) (gap ++ t ++ rest)

/-! ### White space -/

theorem trimStart_append_of_white {gap : List Char} (white : gap.all isWhite = true)
    (text : List Char) : trimStart (gap ++ text) = trimStart text :=
  List.dropWhile_append_of_pos fun _ member => List.all_eq_true.mp white _ member

theorem trimStart_eq_nil_iff {text : List Char} : trimStart text = [] ↔ text.all isWhite = true := by
  rw [trimStart, List.dropWhile_eq_nil_iff, List.all_eq_true]

/-- What stands in front of a token does not matter if it is white space. -/
theorem next?_append_of_white {gap : List Char} (white : gap.all isWhite = true)
    (text : List Char) : next? (gap ++ text) = next? text := by
  rw [next?, next?, trimStart_append_of_white white]

theorem leadingWhite_all (text : List Char) : (leadingWhite text).all isWhite = true :=
  List.all_takeWhile

theorem next?_trimStart (text : List Char) : next? (trimStart text) = next? text := by
  have same := next?_append_of_white (leadingWhite_all text) (trimStart text)
  rw [leadingWhite_append_trimStart] at same
  exact same.symm

theorem next?_eq_none_iff {text : List Char} :
    next? text = .ok none ↔ text.all isWhite = true := by
  rw [← trimStart_eq_nil_iff, next?]
  split
  · next nothing => simp [nothing]
  · next c rest some =>
    refine iff_of_false ?_ (by simp [some])
    cases scan {} (c :: rest) <;> simp [Except.map]

theorem Spaced.white_append {gap text : List Char} {ts : List (List Char)}
    (white : gap.all isWhite = true) (h : Spaced ts text) : Spaced ts (gap ++ text) := by
  cases h with
  | nil whites => exact .nil (by rw [List.all_append, white, whites]; rfl)
  | cons whites apart more =>
      rw [← List.append_assoc, ← List.append_assoc]
      exact .cons (by rw [List.all_append, white, whites]; rfl) apart more

/-- One blank separates two tokens. -/
theorem spaced_intercalate (ts : List (List Char)) : Spaced ts ([' '].intercalate ts) := by
  have noGap : List.all [] isWhite = true := rfl
  induction ts with
  | nil => exact .nil rfl
  | cons t ts ih =>
      cases ts with
      | nil =>
          have alone : Spaced [t] ([] ++ t ++ []) := .cons noGap nofun (.nil noGap)
          simpa using alone
      | cons u ts =>
          rw [List.intercalate_cons_cons, List.append_assoc]
          exact .cons noGap (fun _ => rfl) (ih.white_append rfl)

/-! ### The calls -/

/-- The calls end. Each takes a token from the text, so there are no more than characters. -/
theorem exists_calls (text : List Char) : ∃ ts stop, Calls text ts stop ∧ ts.length ≤ text.length := by
  induction size : text.length using Nat.strong_induction_on generalizing text with
  | _ n ih =>
      cases called : next? text with
      | error k => exact ⟨[], some k, .failed called, Nat.zero_le _⟩
      | ok found =>
          match found with
          | none => exact ⟨[], none, .ended called, Nat.zero_le _⟩
          | some (t, rest) =>
              obtain ⟨filled, fits, -⟩ := length_of_next? called
              have taken : 0 < t.length := List.length_pos_iff.mpr filled
              obtain ⟨ts, stop, later, fewer⟩ := ih rest.length (by omega) rest rfl
              refine ⟨t :: ts, stop, .token called later, ?_⟩
              rw [List.length_cons]
              omega

/-- The calls see no more of a text than the first of them. -/
theorem Calls.of_next?_eq {text text' : List Char} {ts : List (List Char)}
    {stop : Option Construct} (h : Calls text ts stop) (same : next? text' = next? text) :
    Calls text' ts stop := by
  cases h with
  | ended h => exact .ended (same.trans h)
  | failed h => exact .failed (same.trans h)
  | token h later => exact .token (same.trans h) later

/-- The tokens that are found make up the text, with the white space around them. -/
theorem Calls.spaced {text : List Char} {ts : List (List Char)} (h : Calls text ts none) :
    Spaced ts text ∧ ∀ t ∈ ts, IsComplete t := by
  generalize ended : (none : Option Construct) = stop at h
  induction h with
  | ended h => exact ⟨.nil (next?_eq_none_iff.mp h), nofun⟩
  | failed => cases ended
  | @token text t rest ts _ h later ih =>
      obtain ⟨first, behind, trimmed, white, rfl⟩ := isComplete_of_next? h
      obtain ⟨more, complete⟩ := ih ended
      have whole : leadingWhite text ++ t ++ behind = text := by
        rw [List.append_assoc, ← trimmed, leadingWhite_append_trimStart]
      have spaced : Spaced ts behind := by
        rw [← leadingWhite_append_trimStart behind]
        exact more.white_append (leadingWhite_all behind)
      refine ⟨whole ▸ .cons (leadingWhite_all text) (fun others => ?_) spaced,
        List.forall_mem_cons.mpr ⟨first, complete⟩⟩
      cases behind with
      | nil =>
          -- nothing stands behind the token, so no other was found
          cases later with
          | ended => exact absurd rfl others
          | failed => cases ended
          | token none => simp [next?, trimStart] at none
      | cons c behind => exact white

/-- What is one token by itself is found wherever white space separates it from the others. -/
theorem Spaced.calls {text : List Char} {ts : List (List Char)} (h : Spaced ts text)
    (complete : ∀ t ∈ ts, IsComplete t) : Calls text ts none := by
  induction h with
  | nil white => exact .ended (next?_eq_none_iff.mpr white)
  | @cons gap t rest ts white apart more ih =>
      obtain ⟨first, others⟩ := List.forall_mem_cons.mp complete
      have follows : rest.head?.all isWhite = true := by
        cases rest with
        | nil => rfl
        | cons c rest =>
            cases ts with
            | nil =>
                cases more with
                | nil whites => exact List.all_eq_true.mp whites c (.head _)
            | cons => exact apart (List.cons_ne_nil _ _)
      have found : next? (gap ++ t ++ rest) = .ok (some (t, trimStart rest)) := by
        rw [List.append_assoc, next?_append_of_white white, first.next? follows]
      exact .token found ((ih others).of_next?_eq (next?_trimStart rest))

theorem isComplete_iff_calls {t : List Char} : IsComplete t ↔ t ≠ [] ∧ Calls t [t] none := by
  refine ⟨fun complete => ⟨complete.ne_nil, ?_⟩, fun h => h.2.spaced.2 t (.head _)⟩
  have alone : Spaced [t] t := by simpa using spaced_intercalate [t]
  exact alone.calls (List.forall_mem_singleton.mpr complete)

/-- The text alone decides what the calls give. -/
theorem Calls.unique {text : List Char} {ts us : List (List Char)} {stop stop' : Option Construct}
    (h : Calls text ts stop) (other : Calls text us stop') : us = ts ∧ stop' = stop := by
  induction h generalizing us with
  | ended h => cases other <;> simp_all
  | failed h => cases other <;> simp_all
  | token h later ih =>
      cases other with
      | ended none => simp_all
      | failed none => simp_all
      | token found later' =>
          obtain ⟨rfl, rfl⟩ : _ = _ ∧ _ = _ := by simpa [h] using found
          obtain ⟨rfl, rfl⟩ := ih later'
          exact ⟨rfl, rfl⟩

/-- The calls for the tokens end for every text, in one way and after at most as many tokens as it
has characters. They end well with certain tokens exactly if the text is these tokens in order,
with white space around them and nothing else, and each of them is not empty and by itself the only
token found in it. Then the same tokens are found when one blank separates them. -/
theorem tokenizing_lossless (text : List Char) :
    (∃ ts stop, Calls text ts stop ∧ ts.length ≤ text.length ∧
        ∀ us stop', Calls text us stop' → us = ts ∧ stop' = stop) ∧
      ∀ ts, (Calls text ts none ↔ Spaced ts text ∧ ∀ t ∈ ts, t ≠ [] ∧ Calls t [t] none) ∧
        (Calls text ts none → Calls ([' '].intercalate ts) ts none) := by
  obtain ⟨ts, stop, calls, fewer⟩ := exists_calls text
  refine ⟨⟨ts, stop, calls, fewer, fun us stop' => calls.unique⟩, fun ts => ⟨?_, fun h => ?_⟩⟩
  · simp only [← isComplete_iff_calls]
    exact ⟨Calls.spaced, fun h => h.1.calls h.2⟩
  · exact (spaced_intercalate ts).calls h.spaced.2

/-- Quotes, brackets and parentheses keep the white space in them, which need not be blanks
between the tokens. -/
theorem nested_lossless :
    let text := "\t[c d].e  (sub \"a)\" (x 'y'))\nkey=\"q \\\" r\" it's ".toList
    let ts := ["[c d].e", "(sub \"a)\" (x 'y'))", "key=\"q \\\" r\"", "it's"].map String.toList
    Calls text ts none ∧ Spaced ts text ∧ (∀ t ∈ ts, t ≠ [] ∧ Calls t [t] none) ∧
      Calls ([' '].intercalate ts) ts none := by
  intro text ts
  have calls : Calls text ts none :=
    .token rfl (.token rfl (.token rfl (.token rfl (.ended rfl))))
  obtain ⟨lossless, stable⟩ := (tokenizing_lossless text).2 ts
  exact ⟨calls, (lossless.mp calls).1, (lossless.mp calls).2, stable calls⟩

end Stencil.Token
