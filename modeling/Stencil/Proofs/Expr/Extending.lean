import Stencil.Proofs.Expr.Suggestions

/-!
A path with one more member.

A name in brackets can be put behind any path that has members, with a point between them. The
segments of the path are complete, so the reader is outside brackets behind them and finds the new
one by itself. No step comes out of it: a path of which the members were read does not end in what
begins a step.
-/

namespace Stencil.Path

open Writing

/-- The path to a member of what the path names. -/
def extend (p : Path) (key : String) : Path :=
  { p with
    segments := p.segments ++ [key]
    source := String.ofList (p.source.toList ++ '.' :: bracket key) }

/-! ### Complete segments -/

theorem within_of_not_mem {text : List Char} (h : ']' ∉ text) : Within true text := by
  induction text with
  | nil => exact .nil
  | cons c text ih =>
      simp only [List.mem_cons, not_or] at h
      exact .inner (Ne.symm h.1) (ih h.2)

theorem complete_bracket {key : String} (fits : FitsBrackets key) : Complete (bracket key) :=
  complete_bracketed (within_of_not_mem fits)

theorem wrapped_of_segmentName? {segment name : List Char}
    (legal : segmentName? segment = some name) : wrapped segment = segment := by
  rw [segmentName?] at legal
  rw [wrapped]
  split at legal
  · next found => simp [found]
  · split at legal
    · cases legal
    · next plain => simp_all

theorem complete_of_segmentName? {segment name : List Char} (piece : Piece segment)
    (legal : segmentName? segment = some name) : Complete segment := by
  have filled : segment ≠ [] := by
    rintro rfl
    cases legal
  rw [← wrapped_of_segmentName? legal]
  exact complete_wrapped piece filled

theorem segmentName?_of_mapM {segments names : List (List Char)}
    (named : segments.mapM segmentName? = some names) :
    ∀ segment ∈ segments, ∃ name, segmentName? segment = some name := by
  have writes := forall₂_of_mapM named
  clear named
  induction writes with
  | nil => exact List.forall_mem_nil _
  | cons first _ ih =>
      exact List.forall_mem_cons.mpr ⟨⟨_, segmentName?_eq_some_iff.mpr first⟩, ih⟩

theorem mapM_concat {segments names : List (List Char)}
    (named : segments.mapM segmentName? = some names) (key : String) :
    (segments ++ [bracket key]).mapM segmentName? = some (names ++ [key.toList]) := by
  rw [List.mapM_append, named]
  simp [segmentName?_bracket]

/-! ### Members -/

theorem joins_split {rest : List Char} (more : rest ≠ []) : Joins (split rest) rest := by
  rw [split, if_neg (by simpa using more)]
  exact joins_splitFrom false [] rest

section

variable {rest : List Char} {names : List (List Char)}
  (legal : (split rest).mapM segmentName? = some names) {key : String} (fits : FitsBrackets key)

include legal fits

theorem complete_concat : ∀ segment ∈ split rest ++ [bracket key], Complete segment := by
  refine List.forall_mem_append.mpr ⟨fun segment member => ?_, ?_⟩
  · obtain ⟨name, found⟩ := segmentName?_of_mapM legal segment member
    exact complete_of_segmentName? (pieces_of_split rest segment member) found
  · exact List.forall_mem_singleton.mpr (complete_bracket fits)

/-- The new member is a segment by itself, and the others stay as they are. -/
theorem splitFrom_concat (more : rest ≠ []) :
    splitFrom false [] (rest ++ '.' :: bracket key) = split rest ++ [bracket key] :=
  ((joins_split more).concat (bracket key)).splitFrom (complete_concat legal fits)

theorem hasParentStep_concat (more : rest ≠ []) :
    hasParentStep false none (rest ++ '.' :: bracket key) = false := by
  have filled : ∀ segment ∈ splitFrom false [] (rest ++ '.' :: bracket key), segment ≠ [] := by
    rw [splitFrom_concat legal fits more]
    exact fun segment member => (complete_concat legal fits segment member).1
  exact hasParentStep_of_filled filled (by simp) (by simp)

end

/-! ### Reading -/

/-- A path with members is written as steps and the members. -/
theorem begins_of_parse {token : List Char} {site : Site} {p : Path}
    (parsed : parse token site = .ok p) (named : p.segments ≠ []) :
    ∃ steps rest names, Begins token p.special p.levels steps rest ∧ members rest = rest ∧
      rest ≠ [] ∧ (split rest).mapM segmentName? = some names ∧
        p.segments = names.map String.ofList := by
  obtain ⟨special, body, levels, rest, written, marked, stepped, read⟩ := parse_eq token site
  rw [read] at parsed
  split at parsed
  · cases parsed
  next inward =>
  split at parsed
  · next names legal =>
    cases parsed
    have more : members rest ≠ [] := by
      intro none
      rw [none] at legal
      cases legal
      exact named rfl
    have kept := members_of_ne_nil more
    rw [kept] at legal inward more
    obtain ⟨steps, begins⟩ := exists_begins written marked stepped more (by simpa using inward)
    exact ⟨steps, rest, names, begins, kept, more, legal, rfl⟩
  · cases parsed

namespace Begins

variable {token steps rest : List Char} {special : Bool} {levels : Nat}
  (begins : Begins token special levels steps rest)

include begins

/-- The members of a path do not begin with the word `this`. -/
theorem word {first : List Char} {segments : List (List Char)} (kept : members rest = rest)
    (more : rest ≠ []) (joined : Joins (first :: segments) rest) : first ≠ "this".toList := by
  rintro rfl
  cases joined with
  | last => exact more kept.symm
  | @next _ rest _ c separates later =>
      have none := (List.forall_mem_cons.mp begins.last).2
      rcases separates with rfl | rfl
      · exact none "this.".toList (by decide) ⟨rest, by simp⟩
      · exact none "this/".toList (by decide) ⟨rest, by simp⟩

/-- What is put behind a path does not make it look marked. -/
theorem unmarked (more : rest ≠ []) (plain : special = false) (behind tail : List Char) :
    steps ++ (rest ++ behind) ≠ '@' :: tail := by
  intro same
  have whole : token = steps ++ rest := by simpa [mark, plain] using begins.written
  have start : token.head? = some '@' := by
    rw [← List.append_assoc, ← whole] at same
    have first := congrArg List.head? same
    rwa [List.head?_append_of_ne_nil token (by simp [whole, more])] at first
  simp [begins.marked.mpr start] at plain

end Begins

/-- A path with members, and a name in brackets behind it, is read as the path to that member. -/
theorem parse_extend {token : List Char} {site : Site} {p : Path} {key : String}
    (parsed : parse token site = .ok p) (named : p.segments ≠ []) (fits : FitsBrackets key)
    (site' : Site) : parse (token ++ '.' :: bracket key) site' = .ok (p.extend key) := by
  obtain ⟨steps, rest, names, begins, kept, more, legal, same⟩ := begins_of_parse parsed named
  have cut := splitFrom_concat legal fits more
  have whole : mark p.special ++ (steps ++ (rest ++ '.' :: bracket key)) =
      token ++ '.' :: bracket key := by
    rw [begins.written]
    simp only [List.append_assoc]
  cases parts : split rest with
  | nil =>
      have joined := joins_split more
      rw [parts] at joined
      cases joined
  | cons first others =>
      have joined := joins_split more
      have filled := (complete_concat legal fits first (by simp [parts])).1
      rw [parts] at joined cut
      obtain ⟨stepped, kept'⟩ :=
        steps_of_cut cut filled (begins.word kept more joined) p.levels
      have behind : Path.steps 0 (steps ++ (rest ++ '.' :: bracket key)) =
          (p.levels, rest ++ '.' :: bracket key) := by
        rw [begins.counted.steps, Nat.zero_add, stepped]
      have inward : hasParentStep false none (members (rest ++ '.' :: bracket key)) = false := by
        rw [kept']
        exact hasParentStep_concat legal fits more
      have names' : (split (members (rest ++ '.' :: bracket key))).mapM segmentName? =
          some (names ++ [key.toList]) := by
        rw [kept', split, if_neg (by simp), cut, ← parts]
        exact mapM_concat legal key
      obtain ⟨source, parsed'⟩ := parse_of_steps site'
        (fun plain tail => begins.unmarked more plain _ tail) behind inward names'
      rw [whole] at parsed'
      have written : source = String.ofList (token ++ '.' :: bracket key) :=
        (spells_of_parse parsed').source
      rw [parsed', extend, same, (spells_of_parse parsed).source, written]
      simp

end Stencil.Path
