import Stencil.Proofs.Expr.Grammar
import Stencil.Proofs.Render.Relative

/-!
What is suggested for an illegal path is a legal one.

The suggestion is made of the segments of the refused path. It leaves the empty ones out, puts
brackets around those that need them, and has a point between any two. When it is read it is cut
into segments once more, by a scanner that follows brackets from the start of a segment only, while
the scanner that looks for a step outwards follows them from anywhere.

A segment ends at a separator outside its brackets. So behind its first closing bracket there is no
separator in it, and with brackets around it the new closing bracket is met outside of others or
closes the new one. Either way what follows is read as the start of a segment. And where no segment
is empty no two points stand next to each other outside brackets, so there is no step outwards.
-/

namespace Stencil.Path

open Text

/-! ### Two scanners -/

/-- Where no segment is empty there is no step outwards among the members. By induction on the
text: the scanner that looks for steps is inside brackets wherever the one that cuts is, and behind
a point a segment begins. -/
theorem hasParentStep_of_filled {inside within : Bool} {name text : List Char} {last : Option Char}
    (filled : ∀ segment ∈ splitFrom inside name text, segment ≠ [])
    (covers : inside = true → within = true)
    (begun : last = some '.' → within = false → name = []) :
    hasParentStep within last text = false := by
  induction text generalizing inside within name last with
  | nil => rfl
  | cons c text ih =>
      rw [splitFrom] at filled
      split at filled
      · next opens =>
        obtain ⟨rfl, -⟩ : c = '[' ∧ name.isEmpty = true := by simpa using opens
        have goesOn : hasParentStep true (some '[') text = false := ih filled (by simp) (by simp)
        cases within <;> simpa [hasParentStep] using goesOn
      split at filled
      · next closes =>
        obtain ⟨rfl, rfl⟩ : c = ']' ∧ inside = true := by simpa using closes
        have within' := covers rfl
        subst within'
        have goesOn : hasParentStep false (some ']') text = false := ih filled (by simp) (by simp)
        simpa [hasParentStep] using goesOn
      split at filled
      · next separates =>
        obtain ⟨either, rfl⟩ : (c = '.' ∨ c = '/') ∧ inside = false := by simpa using separates
        obtain ⟨first, later⟩ := List.forall_mem_cons.mp filled
        have goesOn : hasParentStep within (some c) text = false := ih later (by simp) (by simp)
        cases within with
        | true => rcases either with rfl | rfl <;> simpa [hasParentStep] using goesOn
        | false =>
            have apart : last ≠ some '.' := fun point => by simp [begun point rfl] at first
            rcases either with rfl | rfl <;> simpa [hasParentStep, apart] using goesOn
      · next opens closes separates =>
        have goesOn (within' : Bool) (covers' : inside = true → within' = true)
            (last' : c ≠ '.' ∨ within' = true) : hasParentStep within' (some c) text = false :=
          ih filled covers' fun point outside => by simp_all
        have outside : within = false → c ≠ '.' := by
          rintro rfl rfl
          simp_all
        rw [hasParentStep]
        split
        · exact goesOn true (fun _ => rfl) (.inr rfl)
        split
        · next ends =>
          obtain ⟨rfl, rfl⟩ : c = ']' ∧ within = true := by simpa using ends
          exact goesOn false (by simpa using closes) (.inl (by decide))
        split
        · next step =>
          obtain ⟨⟨point, free⟩, -⟩ : (c = '.' ∧ within = false) ∧ last = some '.' := by
            simpa using step
          exact absurd point (outside free)
        · cases within with
          | true => exact goesOn true (fun _ => rfl) (.inr rfl)
          | false => exact goesOn false covers (.inl (outside rfl))

/-! ### Segments -/

/-- What may follow in a segment from inside or outside brackets on: no separator outside. -/
inductive Within : Bool → List Char → Prop
  | nil {inside : Bool} : Within inside []
  | close {rest : List Char} : Within false rest → Within true (']' :: rest)
  | inner {c : Char} {rest : List Char} : c ≠ ']' → Within true rest → Within true (c :: rest)
  | outer {c : Char} {rest : List Char} : c ≠ '.' → c ≠ '/' → Within false rest →
      Within false (c :: rest)

/-- A piece of a text that is cut into segments. -/
def Piece (segment : List Char) : Prop :=
  Within false segment ∨ ∃ rest, segment = '[' :: rest ∧ Within true rest

/-- Behind a segment that is complete, what follows it is read as outside of brackets. -/
def Complete (segment : List Char) : Prop :=
  segment ≠ [] ∧ ∀ rest, splitFrom false [] (segment ++ rest) = splitFrom false segment.reverse rest

namespace Within

variable {inside : Bool} {text : List Char}

/-- What may stand outside brackets may stand inside. -/
theorem bracketed (h : Within false text) : Within true text := by
  induction text with
  | nil => exact .nil
  | cons c text ih =>
      cases h with
      | outer point slash later =>
          by_cases closes : c = ']'
          · subst closes
            exact .close later
          · exact .inner closes (ih later)

theorem of_append {more : List Char} (h : Within inside (text ++ more)) : Within inside text := by
  induction text generalizing inside with
  | nil => exact .nil
  | cons c text ih =>
      cases h with
      | close later => exact .close (ih later)
      | inner other later => exact .inner other (ih later)
      | outer point slash later => exact .outer point slash (ih later)

theorem not_mem (h : Within false text) : '.' ∉ text ∧ '/' ∉ text := by
  induction text with
  | nil => simp
  | cons c text ih =>
      cases h with
      | outer point slash later =>
          simp only [List.mem_cons, not_or]
          exact ⟨⟨Ne.symm point, (ih later).1⟩, Ne.symm slash, (ih later).2⟩

/-- A closing bracket behind a part of a segment leads outside of brackets, wherever it is met. -/
theorem splitFrom (h : Within inside text) {before : List Char} (begun : before ≠ [])
    (rest : List Char) :
    Path.splitFrom inside before (text ++ ']' :: rest) =
      Path.splitFrom false (']' :: text.reverse ++ before) rest := by
  induction h generalizing before with
  | @nil inside => cases inside <;> simp [Path.splitFrom]
  | close later ih =>
      simp [Path.splitFrom, ih]
  | inner other later ih =>
      simp [Path.splitFrom, begun, other, ih]
  | outer point slash later ih =>
      simp [Path.splitFrom, begun, point, slash, ih]

end Within

/-- A text is cut into pieces, and the first one goes on with what is read of it. -/
theorem pieces_of_splitFrom {inside : Bool} {name : List Char} (text : List Char)
    (start : name = [] → inside = false) :
    ∃ tail others, splitFrom inside name text = (name.reverse ++ tail) :: others ∧
      (name = [] → Piece tail) ∧ (name ≠ [] → Within inside tail) ∧
        ∀ segment ∈ others, Piece segment := by
  induction text generalizing inside name with
  | nil => exact ⟨[], [], by simp [splitFrom], fun _ => .inl .nil, fun _ => .nil, by simp⟩
  | cons c text ih =>
      have longer (inside' : Bool) : ∃ tail others,
          splitFrom inside' (c :: name) text = (name.reverse ++ c :: tail) :: others ∧
            Within inside' tail ∧ ∀ segment ∈ others, Piece segment := by
        obtain ⟨tail, others, parts, -, within, pieces⟩ :=
          @ih inside' (c :: name) (by simp)
        exact ⟨tail, others, by simpa using parts, within (by simp), pieces⟩
      rw [splitFrom]
      split
      · next opens =>
        obtain ⟨rfl, rfl⟩ : c = '[' ∧ name = [] := by simpa using opens
        obtain ⟨tail, others, parts, within, pieces⟩ := longer true
        exact ⟨_, others, parts, fun _ => .inr ⟨tail, rfl, within⟩, by simp, pieces⟩
      split
      · next closes =>
        obtain ⟨rfl, rfl⟩ : c = ']' ∧ inside = true := by simpa using closes
        obtain ⟨tail, others, parts, within, pieces⟩ := longer false
        exact ⟨_, others, parts, fun none => by simp [start none] at *, fun _ => .close within,
          pieces⟩
      split
      · obtain ⟨tail, others, parts, piece, -, pieces⟩ :=
          @ih false [] fun _ => rfl
        rw [parts, List.reverse_nil, List.nil_append]
        exact ⟨[], _, by rw [List.append_nil], fun _ => .inl .nil, fun _ => .nil,
          List.forall_mem_cons.mpr ⟨piece rfl, pieces⟩⟩
      · next opens closes separates =>
        obtain ⟨tail, others, parts, within, pieces⟩ := longer inside
        have goesOn : Within inside (c :: tail) := by
          cases inside with
          | true => exact .inner (by simpa using closes) within
          | false =>
              have between : c ≠ '.' ∧ c ≠ '/' := by simpa using separates
              exact .outer between.1 between.2 within
        refine ⟨_, others, parts, fun none => ?_, fun _ => goesOn, pieces⟩
        rw [start none] at goesOn
        exact .inl goesOn

theorem pieces_of_split (text : List Char) : ∀ segment ∈ split text, Piece segment := by
  unfold split
  split
  · exact List.forall_mem_nil _
  · obtain ⟨tail, others, parts, piece, -, pieces⟩ :=
      @pieces_of_splitFrom false [] text fun _ => rfl
    rw [parts]
    exact List.forall_mem_cons.mpr ⟨piece rfl, pieces⟩

/-- The name that a segment has, or gets when brackets are put around it. -/
def nameOf (segment : List Char) : List Char :=
  (bracketed? segment).getD segment

theorem segmentName?_wrapped {segment : List Char} (filled : segment ≠ []) :
    segmentName? (wrapped segment) = some (nameOf segment) := by
  unfold wrapped nameOf
  cases open? : bracketed? segment with
  | some name => simp [segmentName?, open?]
  | none =>
      split
      · next reserved => simp [segmentName?, bracketed?]
      · next plain => simp_all [segmentName?]

theorem Piece.within {segment : List Char} (h : Piece segment) : Within true segment := by
  obtain outside | ⟨rest, rfl, within⟩ := h
  · exact outside.bracketed
  · exact .inner (by decide) within

theorem eq_of_bracketed? {segment name : List Char} (h : bracketed? segment = some name) :
    segment = '[' :: (name ++ [']']) := by
  unfold bracketed? at h
  split at h
  · next s =>
    split at h
    · next last =>
      obtain ⟨front, rfl⟩ := List.getLast?_eq_some_iff.mp last
      cases h
      rw [List.dropLast_concat]
    · cases h
  · cases h

theorem complete_bracketed {text : List Char} (h : Within true text) :
    Complete ('[' :: (text ++ [']'])) := by
  refine ⟨List.cons_ne_nil _ _, fun rest => ?_⟩
  have begun : ['['] ≠ [] := List.cons_ne_nil _ _
  have closed := h.splitFrom begun rest
  simpa [splitFrom] using closed

/-- With brackets where they are missing, a piece is complete. -/
theorem complete_wrapped {segment : List Char} (piece : Piece segment) (filled : segment ≠ []) :
    Complete (wrapped segment) := by
  unfold wrapped
  split
  · exact complete_bracketed piece.within
  · next kept =>
    cases open? : bracketed? segment with
    | some name =>
        have surrounded := eq_of_bracketed? open?
        subst surrounded
        cases piece.within with
        | inner _ within => exact complete_bracketed within.of_append
    | none =>
        have plain : segment.any isReserved = false := by simpa [open?] using kept
        have bracket : '[' ∉ segment :=
          fun member => List.any_eq_false.mp plain _ member (by decide)
        obtain outside | ⟨rest, rfl, -⟩ := piece
        · obtain ⟨point, slash⟩ := outside.not_mem
          refine ⟨filled, fun rest => ?_⟩
          rw [splitFrom_plain point slash bracket, List.append_nil]
        · exact absurd List.mem_cons_self bracket

/-! ### Joined again -/

/-- A text is segments one after another, with a point or a slash before each but the first. -/
inductive Joins : List (List Char) → List Char → Prop
  | last {segment : List Char} : Joins [segment] segment
  | next {segment rest : List Char} {segments : List (List Char)} {c : Char} :
      c = '.' ∨ c = '/' → Joins segments rest → Joins (segment :: segments) (segment ++ c :: rest)

/-- What is cut apart was joined. -/
theorem joins_splitFrom (inside : Bool) (name text : List Char) :
    Joins (splitFrom inside name text) (name.reverse ++ text) := by
  induction text generalizing inside name with
  | nil =>
      rw [List.append_nil]
      exact .last
  | cons c text ih =>
      have longer (inside : Bool) :
          Joins (splitFrom inside (c :: name) text) (name.reverse ++ c :: text) := by
        simpa using ih inside (c :: name)
      rw [splitFrom]
      split
      · exact longer true
      split
      · exact longer false
      split
      · next separates =>
        obtain ⟨either, -⟩ : (c = '.' ∨ c = '/') ∧ inside = false := by simpa using separates
        exact .next either (ih false [])
      · exact longer inside

theorem joins_intercalate (first : List Char) (segments : List (List Char)) :
    Joins (first :: segments) (['.'].intercalate (first :: segments)) := by
  induction segments generalizing first with
  | nil =>
      rw [List.intercalate_singleton]
      exact .last
  | cons next segments ih =>
      rw [List.intercalate_cons_cons, List.append_assoc]
      exact .next (.inl rfl) (ih next)

theorem Joins.concat {segments : List (List Char)} {text : List Char} (h : Joins segments text)
    (segment : List Char) : Joins (segments ++ [segment]) (text ++ '.' :: segment) := by
  induction h with
  | last => exact .next (.inl rfl) .last
  | next separates later ih =>
      rw [List.append_assoc, List.cons_append]
      exact .next separates ih

/-- Complete segments that are joined are cut apart again. -/
theorem Joins.splitFrom {segments : List (List Char)} {text : List Char} (h : Joins segments text)
    (complete : ∀ segment ∈ segments, Complete segment) :
    Path.splitFrom false [] text = segments := by
  induction h with
  | @last segment =>
      have alone := (complete segment (.head _)).2 []
      simpa [Path.splitFrom] using alone
  | @next segment rest segments c separates later ih =>
      obtain ⟨filled, goesOn⟩ := complete segment (.head _)
      have others := ih fun segment member => complete segment (.tail _ member)
      rw [goesOn]
      rcases separates with rfl | rfl <;> simp [Path.splitFrom, others]

theorem splitFrom_intercalate {segments : List (List Char)} {first : List Char}
    (complete : ∀ segment ∈ first :: segments, Complete segment) :
    splitFrom false [] (['.'].intercalate (first :: segments)) = first :: segments :=
  (joins_intercalate first segments).splitFrom complete

/-- Joined segments are cut apart at the points between them, and hold no step outwards. -/
theorem split_intercalate {segments : List (List Char)}
    (complete : ∀ segment ∈ segments, Complete segment) :
    split (['.'].intercalate segments) = segments ∧
      hasParentStep false none (['.'].intercalate segments) = false := by
  cases segments with
  | nil => exact ⟨rfl, rfl⟩
  | cons first segments =>
      have cut := splitFrom_intercalate complete
      have filled : ∀ segment ∈ splitFrom false [] (['.'].intercalate (first :: segments)),
          segment ≠ [] := by
        rw [cut]
        exact fun segment member => (complete segment member).1
      refine ⟨?_, hasParentStep_of_filled filled (by simp) (by simp)⟩
      · cases chars : ['.'].intercalate (first :: segments) with
        | nil =>
            rw [chars] at cut
            exact absurd (List.cons.inj cut).1.symm (complete first (.head _)).1
        | cons c rest =>
            rw [chars] at cut
            rw [split, List.isEmpty_cons, if_neg Bool.false_ne_true, cut]

/-- No step begins what is cut into segments of which the first is not empty and not `this`. -/
theorem no_step_begins {text first : List Char} {segments : List (List Char)}
    (cut : splitFrom false [] text = first :: segments) (filled : first ≠ [])
    (word : first ≠ "this".toList) :
    ¬ ['.'] <+: text ∧ ¬ "this.".toList <+: text ∧ ¬ "this/".toList <+: text ∧
      text ≠ "this".toList := by
  refine ⟨?_, ?_, ?_, ?_⟩
  · rintro ⟨rest, rfl⟩
    exact filled (List.cons.inj cut).1.symm
  · rintro ⟨rest, rfl⟩
    exact word (List.cons.inj cut).1.symm
  · rintro ⟨rest, rfl⟩
    exact word (List.cons.inj cut).1.symm
  · rintro rfl
    exact word (List.cons.inj cut).1.symm

/-- So the reader finds no step there, and the members are the whole. -/
theorem steps_of_cut {text first : List Char} {segments : List (List Char)}
    (cut : splitFrom false [] text = first :: segments) (filled : first ≠ [])
    (word : first ≠ "this".toList) (levels : Nat) :
    steps levels text = (levels, text) ∧ members text = text := by
  obtain ⟨point, here, below, alone⟩ := no_step_begins cut filled word
  constructor
  · refine steps_of_no_step ?_ ?_ levels
    · exact fun parent => point (.trans (by simp) parent)
    · simp only [origins, List.forall_mem_cons]
      exact ⟨here, below, fun stays => point (.trans (by simp) stays), List.forall_mem_nil _⟩
  · refine if_neg ?_
    have dot : text ≠ ['.'] := by
      rintro rfl
      exact point List.prefix_rfl
    simpa using ⟨alone, dot⟩

/-- The reader drops the segments in front that are `this`, and no others. -/
theorem steps_intercalate {segments : List (List Char)}
    (complete : ∀ segment ∈ segments, Complete segment) (levels : Nat) :
    ∃ rest, steps levels (['.'].intercalate segments) = (levels, rest) ∧
      members rest = ['.'].intercalate (segments.dropWhile (· == "this".toList)) := by
  induction segments with
  | nil => exact ⟨[], rfl, rfl⟩
  | cons first segments ih =>
      by_cases word : first = "this".toList
      · subst word
        rw [List.dropWhile_cons_of_pos (by simp)]
        cases segments with
        | nil => exact ⟨"this".toList, rfl, rfl⟩
        | cons next segments =>
            obtain ⟨rest, stepped, kept⟩ :=
              ih fun segment member => complete segment (.tail _ member)
            refine ⟨rest, ?_, kept⟩
            rw [List.intercalate_cons_cons, ← stepped]
            have origin : "this.".toList ∈ origins := by decide
            exact steps_origin origin levels _
      · rw [List.dropWhile_cons_of_neg (by simpa using word)]
        obtain ⟨stepped, kept⟩ := steps_of_cut (splitFrom_intercalate complete)
          (complete first (.head _)).1 word levels
        exact ⟨_, stepped, kept⟩

/-! ### What a path begins with -/

/-- The steps that a path begins with, counting those that go outwards. -/
inductive Steps : Nat → List Char → Prop
  | nil : Steps 0 []
  | outward {n : Nat} {front : List Char} : Steps n front → Steps (n + 1) ("../".toList ++ front)
  | stays {n : Nat} {origin front : List Char} : origin ∈ origins → Steps n front →
      Steps n (origin ++ front)

theorem Steps.steps {k : Nat} {front : List Char} (h : Steps k front) (levels : Nat)
    (text : List Char) : Path.steps levels (front ++ text) = Path.steps (levels + k) text := by
  induction h generalizing levels with
  | nil => rfl
  | outward later ih =>
      have goesOn := ih (levels + 1)
      rwa [Nat.add_assoc, Nat.add_comm 1] at goesOn
  | stays origin later ih => rw [List.append_assoc, steps_origin origin, ih]

/-- Where more than steps is read, the text begins with all the steps that the reader drops. -/
theorem exists_steps {levels n : Nat} {body rest : List Char}
    (h : Path.steps levels body = (n, rest)) (more : rest ≠ []) :
    ∃ k front, body = front ++ rest ∧ n = levels + k ∧ Steps k front ∧
      ∀ step ∈ "../".toList :: origins, ¬ step <+: rest := by
  fun_induction Path.steps levels body with
  | case1 levels text ih =>
      obtain ⟨k, front, rfl, rfl, steps, none⟩ := ih h
      exact ⟨k + 1, _, rfl, by omega, .outward steps, none⟩
  | case2 levels =>
      cases h
      exact absurd rfl more
  | case3 levels text ih =>
      obtain ⟨k, front, rfl, rfl, steps, none⟩ := ih h
      exact ⟨k, _, rfl, rfl, .stays (by decide : "./".toList ∈ origins) steps, none⟩
  | case4 levels text ih =>
      obtain ⟨k, front, rfl, rfl, steps, none⟩ := ih h
      exact ⟨k, _, rfl, rfl, .stays (by decide : "this.".toList ∈ origins) steps, none⟩
  | case5 levels text ih =>
      obtain ⟨k, front, rfl, rfl, steps, none⟩ := ih h
      exact ⟨k, _, rfl, rfl, .stays (by decide : "this/".toList ∈ origins) steps, none⟩
  | case6 levels text outward parent point word path =>
      cases h
      refine ⟨0, [], rfl, rfl, .nil, ?_⟩
      simp only [origins, List.forall_mem_cons]
      refine ⟨?_, ?_, ?_, ?_, List.forall_mem_nil _⟩
      · rintro ⟨tail, rfl⟩
        exact outward tail rfl
      · rintro ⟨tail, rfl⟩
        exact word tail rfl
      · rintro ⟨tail, rfl⟩
        exact path tail rfl
      · rintro ⟨tail, rfl⟩
        exact point tail rfl

/-- The mark of a special variable. -/
def mark (special : Bool) : List Char :=
  if special then ['@'] else []

/-- A token begins with the mark of special variables or without it, then with steps, and goes on
with what no step begins. -/
structure Begins (token : List Char) (special : Bool) (levels : Nat) (steps rest : List Char) :
    Prop where
  written : token = mark special ++ (steps ++ rest)
  marked : special = true ↔ token.head? = some '@'
  counted : Steps levels steps
  last : ∀ step ∈ "..".toList :: origins, ¬ step <+: rest

/-! ### What is suggested -/

theorem wrapped_beq_this (segment : List Char) :
    (wrapped segment == "this".toList) = (segment == "this".toList) := by
  unfold wrapped
  split
  · next needs =>
    have other : segment ≠ "this".toList := by
      rintro rfl
      revert needs
      decide
    rw [beq_eq_false_iff_ne.mpr other]
    rfl
  · rfl

theorem wrapped_ne_marked (segment rest : List Char) : wrapped segment ≠ '@' :: rest := by
  unfold wrapped
  split
  · simp
  · next kept =>
    rintro rfl
    simp [bracketed?, isReserved] at kept

theorem segmentNames_wrapped {segments : List (List Char)} (filled : ∀ s ∈ segments, s ≠ []) :
    (segments.map wrapped).mapM segmentName? = some (segments.map nameOf) := by
  induction segments with
  | nil => rfl
  | cons segment segments ih =>
      have later := ih fun s member => filled s (.tail _ member)
      simp [segmentName?_wrapped (filled segment (.head _)), later]

/-- How a token is read: its mark is taken off, then its steps are, and the members behind them
decide. -/
theorem parse_eq (token : List Char) (site : Site) :
    ∃ special body levels rest, token = mark special ++ body ∧
      (special = true ↔ token.head? = some '@') ∧ Path.steps 0 body = (levels, rest) ∧
      parse token site =
        if hasParentStep false none (members rest) then
          .error (.misplacedParent (String.ofList token) site)
        else
          match (split (members rest)).mapM segmentName? with
          | some names =>
            .ok { levels, special, segments := names.map String.ofList
                  source := String.ofList token }
          | none =>
            .error (.illegalPath (String.ofList token)
              (String.ofList (token.take (token.length - (members rest).length) ++
                suggestion (split (members rest)))) site) := by
  unfold parse
  split
  next special body read =>
  obtain ⟨written, marked⟩ : token = mark special ++ body ∧
      (special = true ↔ token.head? = some '@') := by
    split at read
    · cases read
      exact ⟨rfl, by simp⟩
    · next other =>
      cases read
      refine ⟨rfl, iff_of_false Bool.false_ne_true fun first => ?_⟩
      obtain ⟨tail, start⟩ := List.head?_eq_some_iff.mp first
      exact other tail start
  exact ⟨special, body, _, _, written, marked, rfl, rfl⟩

/-- Where more than steps is read, and no step outwards among it, the token is written as steps and
members. -/
theorem exists_begins {token body rest : List Char} {special : Bool} {levels : Nat}
    (written : token = mark special ++ body) (marked : special = true ↔ token.head? = some '@')
    (stepped : Path.steps 0 body = (levels, rest)) (more : rest ≠ [])
    (inward : hasParentStep false none rest = false) :
    ∃ steps, Begins token special levels steps rest := by
  obtain ⟨levels, steps, rfl, rfl, counted, last⟩ := exists_steps stepped more
  rw [Nat.zero_add] at *
  have parent : ¬ "..".toList <+: rest := by
    rintro ⟨tail, rfl⟩
    cases inward
  refine ⟨steps, written, marked, counted, ?_⟩
  exact List.forall_mem_cons.mpr ⟨parent, (List.forall_mem_cons.mp last).2⟩

theorem members_of_ne_nil {rest : List Char} (more : members rest ≠ []) : members rest = rest := by
  rw [members] at more ⊢
  split
  · next nowhere =>
    rw [if_pos nowhere] at more
    exact absurd rfl more
  · rfl

/-- A refused token is written as steps and members, and the suggestion has other members behind
the same steps. -/
theorem begins_of_illegal {token : List Char} {shown suggested : String} {site place : Site}
    (h : parse token site = .error (.illegalPath shown suggested place)) :
    ∃ special levels steps rest, Begins token special levels steps rest ∧
      suggested.toList = mark special ++ (steps ++ suggestion (split rest)) := by
  obtain ⟨special, body, levels, rest, written, marked, stepped, read⟩ := parse_eq token site
  rw [read] at h
  split at h
  · cases h
  next inward =>
  split at h
  · cases h
  next refused =>
  have more : members rest ≠ [] := by
    intro none
    rw [none] at refused
    cases refused
  have kept := members_of_ne_nil more
  rw [kept] at h inward more
  obtain ⟨steps, begins⟩ := exists_begins written marked stepped more (by simpa using inward)
  refine ⟨special, levels, steps, rest, begins, ?_⟩
  have front : token.take (token.length - rest.length) = mark special ++ steps := by
    rw [begins.written, ← List.append_assoc]
    refine List.take_left' ?_
    simp only [List.length_append]
    omega
  rw [front] at h
  cases h
  rw [String.toList_ofList, List.append_assoc]

/-- A marked or unmarked text is read as steps and members. -/
theorem parse_of_steps {special : Bool} {levels : Nat} {body rest : List Char}
    {names : List (List Char)} (site : Site)
    (unmarked : special = false → ∀ more, body ≠ '@' :: more)
    (stepped : Path.steps 0 body = (levels, rest))
    (inward : hasParentStep false none (members rest) = false)
    (named : (split (members rest)).mapM segmentName? = some names) :
    ∃ source, parse (mark special ++ body) site =
      .ok { levels, special, segments := names.map String.ofList, source } := by
  cases special with
  | true =>
      refine ⟨String.ofList ('@' :: body), ?_⟩
      simp only [mark, if_true, List.singleton_append, parse, stepped, inward, named,
        Bool.false_eq_true, if_false]
  | false =>
      have plain := unmarked rfl
      refine ⟨String.ofList body, ?_⟩
      simp only [mark, Bool.false_eq_true, if_false, List.nil_append, parse, stepped, inward, named]

/-- A path that is not marked does not look as if it were. -/
theorem unmarked_suggestion {segments : List (List Char)} {levels : Nat} {steps : List Char}
    (counted : Steps levels steps) (complete : ∀ segment ∈ segments, Complete (wrapped segment))
    (rest : List Char) : steps ++ ['.'].intercalate (segments.map wrapped) ≠ '@' :: rest := by
  cases counted with
  | outward later => simp
  | stays origin later =>
      simp only [origins, List.mem_cons, List.not_mem_nil, or_false] at origin
      rcases origin with rfl | rfl | rfl <;> simp
  | nil =>
      cases segments with
      | nil => simp
      | cons first segments =>
          intro same
          have whole : ∀ segment ∈ wrapped first :: segments.map wrapped, Complete segment := by
            simpa using complete
          have cut := splitFrom_intercalate whole
          obtain ⟨tail, others, start⟩ := splitFrom_start false ['@'] rest
          have next : splitFrom false [] ('@' :: rest) = splitFrom false ['@'] rest := rfl
          rw [List.nil_append, List.map_cons] at same
          rw [same, next, start] at cut
          exact wrapped_ne_marked first tail (List.cons.inj cut).1.symm

/-- For every illegal path the suggestion is a legal one. It has the mark of the refused token and
as many levels as the steps of the token count, and names what the segments of the token were meant
to name, from the first one on that is not `this`. -/
theorem parse_suggestion {token : List Char} {shown suggested : String} {site place : Site}
    (h : parse token site = .error (.illegalPath shown suggested place)) (site' : Site) :
    ∃ p steps rest, parse suggested.toList site' = .ok p ∧
      Begins token p.special p.levels steps rest ∧
      p.segments = (((split rest).filter fun segment => !segment.isEmpty).dropWhile
        (· == "this".toList)).map (String.ofList ∘ nameOf) := by
  obtain ⟨special, levels, steps, rest, begins, suggests⟩ := begins_of_illegal h
  let filled := (split rest).filter fun segment => !segment.isEmpty
  have complete : ∀ segment ∈ filled, segment ≠ [] ∧ Complete (wrapped segment) := by
    intro segment member
    obtain ⟨piece, nonempty⟩ := List.mem_filter.mp member
    have some : segment ≠ [] := by simpa using nonempty
    exact ⟨some, complete_wrapped (pieces_of_split rest segment piece) some⟩
  let named := filled.dropWhile (· == "this".toList)
  have kept : ∀ segment ∈ named, segment ∈ filled :=
    fun segment member => (List.dropWhile_sublist _).subset member
  have dropped : (filled.map wrapped).dropWhile (· == "this".toList) = named.map wrapped := by
    rw [List.dropWhile_map]
    exact congrArg (List.map wrapped) (congrArg (filled.dropWhile ·) (funext wrapped_beq_this))
  have all : ∀ segment ∈ filled.map wrapped, Complete segment :=
    List.forall_mem_map.mpr fun segment member => (complete segment member).2
  have some : ∀ segment ∈ named.map wrapped, Complete segment :=
    List.forall_mem_map.mpr fun segment member => (complete segment (kept segment member)).2
  obtain ⟨behind, stepped, members⟩ := steps_intercalate all levels
  rw [dropped] at members
  obtain ⟨cut, inward⟩ := split_intercalate some
  have names := segmentNames_wrapped fun segment member =>
    (complete segment (kept segment member)).1
  have text : Path.steps 0 (steps ++ suggestion (split rest)) = (levels, behind) := by
    rw [begins.counted.steps, Nat.zero_add]
    exact stepped
  have unmarked (more : List Char) : steps ++ suggestion (split rest) ≠ '@' :: more :=
    unmarked_suggestion begins.counted (fun segment member => (complete segment member).2) more
  rw [← members] at inward cut
  rw [← cut] at names
  obtain ⟨source, parsed⟩ := parse_of_steps site' (fun _ => unmarked) text inward names
  rw [suggests]
  exact ⟨_, steps, rest, parsed, begins, List.map_map⟩

/-- A bracket that is closed too early, an empty segment and a bracket that is not closed. -/
theorem parse_suggestion_brackets :
    parse "@../[a]b//[c.d".toList ⟨"tag", 1⟩ =
        .error (.illegalPath "@../[a]b//[c.d" "@../[[a]b].[[c.d]" ⟨"tag", 1⟩) ∧
      ∃ p steps rest, parse "@../[[a]b].[[c.d]".toList ⟨"tag", 1⟩ = .ok p ∧
        Begins "@../[a]b//[c.d".toList p.special p.levels steps rest ∧
        p.segments = ["[a]b", "[c.d"] := by
  have refused : parse "@../[a]b//[c.d".toList ⟨"tag", 1⟩ =
      .error (.illegalPath "@../[a]b//[c.d" "@../[[a]b].[[c.d]" ⟨"tag", 1⟩) := by decide +kernel
  obtain ⟨p, steps, rest, parsed, begins, -⟩ := parse_suggestion refused ⟨"tag", 1⟩
  have segments : ∀ q ∈ (parse "@../[[a]b].[[c.d]".toList ⟨"tag", 1⟩).toOption,
      q.segments = ["[a]b", "[c.d"] := by decide +kernel
  exact ⟨refused, p, steps, rest, parsed, begins, segments p (by rw [parsed]; rfl)⟩

end Stencil.Path
