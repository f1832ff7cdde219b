import Mathlib.Data.List.Induction
import Stencil.Proofs.Compile.Reading

/-!
Blocks as they are checked.

The blocks of a template are walked twice, once to report the tags that have no
partner and once to build the plan. The two walks keep stacks of different content,
and both hold chained blocks that no closing tag names. Of a walk it only matters here
which blocks have an opening tag of their own: a closing tag ends the innermost of
these. Checking has them open that the tags say, whatever is wrong.
-/

namespace Stencil

/-! ### Blocks with an opening tag of their own -/

namespace Markup

/-- Whether a tag opens a block that waits for a closing tag. -/
def TagKind.opensBlock : TagKind → Bool
  | .opening _ | .inclusionBlock _ | .inlineDef _ => true
  | _ => false

/-- The opening tags of the open blocks behind a tag, innermost first. -/
def openedBehind (opened : List Tag) (tag : Tag) : List Tag :=
  match tag.kind with
  | .opening _ | .inclusionBlock _ | .inlineDef _ => tag :: opened
  | .closing => opened.tail
  | .interpolation _ | .comment | .alternative _ | .inclusion _ | .rawBlock _ => opened

/-- The opening tags of the blocks that some tokens leave open, innermost first. -/
def openedIn (opened : List Tag) : List Token → List Tag
  | [] => opened
  | .text _ :: tokens => openedIn opened tokens
  | .tag tag :: tokens => openedIn (openedBehind opened tag) tokens

theorem openedIn_append (opened : List Tag) (before after : List Token) :
    openedIn opened (before ++ after) = openedIn (openedIn opened before) after := by
  induction before generalizing opened with
  | nil => rfl
  | cons token before ih =>
      cases token with
      | text text => exact ih opened
      | tag tag => exact ih (openedBehind opened tag)

/-- A tag either opens a block or leaves only blocks open that were open. -/
theorem openedBehind_cases (opened : List Tag) (tag : Tag) :
    tag.kind.opensBlock = true ∧ openedBehind opened tag = tag :: opened ∨
      openedBehind opened tag <:+ opened := by
  unfold openedBehind TagKind.opensBlock
  cases tag.kind with
  | opening => exact .inl ⟨rfl, rfl⟩
  | inclusionBlock => exact .inl ⟨rfl, rfl⟩
  | inlineDef => exact .inl ⟨rfl, rfl⟩
  | closing => exact .inr (List.tail_suffix opened)
  | _ => exact .inr (List.suffix_refl opened)

/-- A closing tag and the opening tag that it belongs to, in a walk that has the blocks
`opened` open behind some tokens; `block` stands for the opening tag there. -/
structure Pairs {β : Type} (opened : List Token → List β) (block : β) (outer : List Token)
    (opening : Tag) (inside : List Token) (closing : Tag) : Prop where
  /-- The block stays open up to the closing tag. -/
  stays : ∀ part, part <+: inside → block :: opened outer <:+ opened (outer ++ .tag opening :: part)
  /-- Before the closing tag it is the innermost one. -/
  innermost : opened (outer ++ .tag opening :: inside) = block :: opened outer
  /-- The closing tag ends this block and no other. -/
  closes : opened (outer ++ .tag opening :: inside ++ [.tag closing]) = opened outer

/-- A walk pairs a closing tag with one opening tag at most. -/
theorem Pairs.unique {β : Type} {opened : List Token → List β} {block block' : β}
    {outer outer' inside inside' : List Token} {opening opening' closing : Tag}
    (h : Pairs opened block outer opening inside closing)
    (h' : Pairs opened block' outer' opening' inside' closing)
    (same : outer ++ .tag opening :: inside = outer' ++ .tag opening' :: inside') :
    outer = outer' := by
  -- An opening tag further in would leave the outer block open behind the closing tag.
  have no_later {block block' : β} {outer outer' inside inside' : List Token}
      {opening opening' : Tag} (h : Pairs opened block outer opening inside closing)
      (h' : Pairs opened block' outer' opening' inside' closing)
      (same : outer ++ .tag opening :: inside = outer' ++ .tag opening' :: inside') :
      outer'.length ≤ outer.length := by
    by_contra longer
    obtain ⟨gap, rfl⟩ : outer <+: outer' :=
      List.prefix_of_prefix_length_le (List.prefix_append outer _)
        (same ▸ List.prefix_append outer' _) (by omega)
    rw [List.append_assoc, List.append_cancel_left_eq] at same
    cases gap with
    | nil => simp at longer
    | cons token part =>
        rw [List.cons_append] at same
        obtain ⟨rfl, rest⟩ := List.cons_eq_cons.mp same
        have still := (h.stays part ⟨_, rest.symm⟩).length_le
        have left : opened outer = opened (outer ++ .tag opening :: part) := by
          rw [← h.closes, ← h'.closes, rest]
          simp
        rw [← left, List.length_cons] at still
        omega
  have le := no_later h h' same
  have ge := no_later h' h same.symm
  exact (List.append_inj same (by omega)).1

/-- The walk pairs what its blocks are labelled with. -/
theorem Pairs.map {β β' : Type} {opened : List Token → List β} {block : β}
    {outer inside : List Token} {opening closing : Tag}
    (h : Pairs opened block outer opening inside closing) (f : β → β') :
    Pairs (fun tokens => (opened tokens).map f) (f block) outer opening inside closing where
  stays part given := (h.stays part given).map f
  innermost := congrArg (List.map f) h.innermost
  closes := congrArg (List.map f) h.closes

/-- A block that is open was opened by a tag, and has been open since. -/
theorem exists_opening {opening : Tag} {rest : List Tag} {before : List Token}
    (h : opening :: rest <:+ openedIn [] before) :
    ∃ outer inside, before = outer ++ .tag opening :: inside ∧ opening.kind.opensBlock = true ∧
      openedIn [] outer = rest ∧
        ∀ part, part <+: inside → opening :: rest <:+ openedIn [] (outer ++ .tag opening :: part) := by
  induction before using List.reverseRecOn with
  | nil => simp [openedIn] at h
  | append_singleton before token ih =>
      -- A block that was open before the last token was opened earlier.
      have earlier (open_before : opening :: rest <:+ openedIn [] before) :
          ∃ outer inside, before ++ [token] = outer ++ .tag opening :: inside ∧
            opening.kind.opensBlock = true ∧ openedIn [] outer = rest ∧
              ∀ part, part <+: inside →
                opening :: rest <:+ openedIn [] (outer ++ .tag opening :: part) := by
        obtain ⟨outer, inside, rfl, opens, below, stays⟩ := ih open_before
        refine ⟨outer, inside ++ [token], by simp, opens, below, fun part given => ?_⟩
        rcases List.prefix_concat_iff.mp given with rfl | inner
        · simpa using h
        · exact stays part inner
      rw [openedIn_append] at h
      cases token with
      | text text => exact earlier h
      | tag tag =>
          rcases openedBehind_cases (openedIn [] before) tag with ⟨opens, pushed⟩ | fewer
          · change _ <:+ openedBehind (openedIn [] before) tag at h
            rw [pushed, List.suffix_cons_iff] at h
            rcases h with here | below
            · obtain ⟨rfl, rfl⟩ := List.cons_eq_cons.mp here
              refine ⟨before, [], rfl, opens, rfl, fun part given => ?_⟩
              rw [List.prefix_nil.mp given, openedIn_append]
              exact pushed ▸ List.suffix_refl _
            · exact earlier below
          · exact earlier (h.trans fewer)

/-- A closing tag is paired with the tag that opened the innermost block. -/
theorem pairs_openedIn {outer inside : List Token} {opening closing : Tag} {rest : List Tag}
    (kind : closing.kind = .closing)
    (innermost : openedIn [] (outer ++ .tag opening :: inside) = opening :: rest)
    (below : openedIn [] outer = rest)
    (stays : ∀ part, part <+: inside →
      opening :: rest <:+ openedIn [] (outer ++ .tag opening :: part)) :
    Pairs (openedIn []) opening outer opening inside closing := by
  subst below
  refine ⟨stays, innermost, ?_⟩
  rw [openedIn_append, innermost, openedIn, openedIn, openedBehind, kind]
  rfl

/-! ### Chained blocks -/

section

variable {γ β : Type} (chained : γ → Bool) (label : γ → β)

/-- The labels of the blocks on a stack that are not chained. -/
def unchained (stack : List γ) : List β :=
  (stack.filter (!chained ·)).map label

/-- What a closing tag finds behind the chained blocks on top of a stack. -/
theorem dropWhile_chained (stack : List γ) :
    stack.dropWhile chained = [] ∧ unchained chained label stack = [] ∨
      ∃ opened rest, stack.dropWhile chained = opened :: rest ∧
        unchained chained label stack = label opened :: unchained chained label rest := by
  induction stack with
  | nil => exact .inl ⟨rfl, rfl⟩
  | cons opened stack ih =>
      cases here : chained opened with
      | true => simpa [unchained, here] using ih
      | false => exact .inr ⟨opened, stack, by simp [here], by simp [unchained, here]⟩

theorem unchained_tail_dropWhile (stack : List γ) :
    unchained chained label (stack.dropWhile chained).tail = (unchained chained label stack).tail := by
  rcases dropWhile_chained chained label stack with ⟨drop, none_open⟩ | ⟨opened, rest, drop, some_open⟩
  · rw [drop, none_open]
    rfl
  · rw [drop, some_open]
    rfl

end

/-! ### Checking -/

/-- The open blocks when some tokens are checked. -/
def checked (r : Report) (tokens : List Token) : List OpenBlock :=
  ((checkTokens [] tokens).run r).1

/-- The sites of the open blocks that have an opening tag of their own. -/
def openSites (stack : List OpenBlock) : List Site :=
  unchained OpenBlock.chained OpenBlock.site stack

theorem checkTag_openSites {stack : List OpenBlock} {opened : List Tag}
    (h : openSites stack = opened.map (·.site)) (tag : Tag) (r : Report) :
    openSites ((checkTag stack tag).run r).1 = (openedBehind opened tag).map (·.site) := by
  have push (name : String) (chained acceptsElse : Bool) :
      openSites ({ name, site := tag.site, chained, acceptsElse } :: stack) =
        if chained then opened.map (·.site) else tag.site :: opened.map (·.site) := by
    rw [← h]
    cases chained <;> rfl
  unfold checkTag openedBehind
  cases tag.kind with
  | opening inverted => exact push tag.content.head false true
  | inclusionBlock name => exact push (name.static?.getD tag.content.head) false false
  | inlineDef name => exact push "inline" false false
  | alternative chained =>
      simp only
      split
      · cases chained with
        | true => exact push tag.content.head true true
        | false => exact h
      · exact h
  | closing =>
      have closed : openSites (stack.dropWhile OpenBlock.chained).tail = opened.tail.map (·.site) := by
        rw [openSites, unchained_tail_dropWhile, List.map_tail, ← h, openSites]
      simp only
      split
      · next none_left => rwa [none_left] at closed
      · next some_left => rwa [some_left] at closed
  | _ => exact h

theorem checkTokens_openSites {stack : List OpenBlock} {opened : List Tag}
    (h : openSites stack = opened.map (·.site)) (tokens : List Token) (r : Report) :
    openSites ((checkTokens stack tokens).run r).1 = (openedIn opened tokens).map (·.site) := by
  induction tokens generalizing stack opened r with
  | nil => exact h
  | cons token tokens ih =>
      cases token with
      | text text => exact ih h r
      | tag tag => exact ih (checkTag_openSites h tag r) _

/-- Checking has the blocks open that have an opening tag of their own. -/
theorem openSites_checked (r : Report) (tokens : List Token) :
    openSites (checked r tokens) = (openedIn [] tokens).map (·.site) :=
  have start : openSites [] = ([] : List Tag).map (·.site) := rfl
  checkTokens_openSites start tokens r

theorem checkTokens_append (stack : List OpenBlock) (before after : List Token) (r : Report) :
    (checkTokens stack (before ++ after)).run r =
      (checkTokens ((checkTokens stack before).run r).1 after).run
        ((checkTokens stack before).run r).2 := by
  induction before generalizing stack r with
  | nil => rfl
  | cons token before ih =>
      cases token with
      | text text => exact ih stack r
      | tag tag => exact ih _ _

/-- A closing tag that finds no open block is reported. -/
theorem checkTag_closing {stack : List OpenBlock} (none_open : openSites stack = []) {tag : Tag}
    (kind : tag.kind = .closing) (r : Report) :
    ((checkTag stack tag).run r).2.errors = r.errors ++ [.unexpectedClose tag.site] := by
  unfold checkTag
  rw [kind]
  rcases dropWhile_chained OpenBlock.chained OpenBlock.site stack with ⟨drop, -⟩ | ⟨_, _, -, some_open⟩
  · simp only
    rw [drop]
    rfl
  · rw [← openSites, none_open] at some_open
    cases some_open

/-- Where nothing is wrong, a closing tag has a block to close. -/
theorem openedIn_ne_nil_of_clean {before after : List Token} {closing : Tag}
    (kind : closing.kind = .closing) {r : Report}
    (clean : ((checkTokens [] (before ++ .tag closing :: after)).run r).2.errors = r.errors) :
    openedIn [] before ≠ [] := by
  intro none_open
  have sites : openSites (checked r before) = [] := by
    rw [openSites_checked, none_open, List.map_nil]
  -- Errors are only added, so one that is found between the two ends is still there.
  let start := ((checkTokens [] before).run r).2
  let closed := (checkTag (checked r before) closing).run start
  have first : r.errors <+: start.errors := (checkTokens_steady [] before).errors_extend r
  have found : closed.2.errors = start.errors ++ [.unexpectedClose closing.site] :=
    checkTag_closing sites kind start
  have last : closed.2.errors <+: r.errors := by
    rw [← clean, checkTokens_append]
    exact (checkTokens_steady closed.1 after).errors_extend closed.2
  have longer := (found ▸ last).length_le
  rw [List.length_append, List.length_singleton] at longer
  have shorter := first.length_le
  omega

theorem foldl_unclosedBlock (unclosed : List OpenBlock) (r : Report) :
    (unclosed.foldl (fun r opened => r.addError (.unclosedBlock opened.site)) r).errors =
      r.errors ++ unclosed.map fun opened => .unclosedBlock opened.site := by
  induction unclosed generalizing r with
  | nil => exact (List.append_nil r.errors).symm
  | cons opened unclosed ih =>
      rw [List.foldl_cons, ih, List.map_cons, Report.addError, List.append_assoc]
      rfl

/-- A block that is left open is reported. -/
theorem checkNesting_errors (tokens : List Token) (r : Report) :
    ((checkNesting tokens).run r).2.errors =
      ((checkTokens [] tokens).run r).2.errors ++
        (openSites (checked r tokens)).reverse.map .unclosedBlock := by
  rw [openSites, unchained, ← List.map_reverse, ← List.filter_reverse, List.map_map]
  exact foldl_unclosedBlock _ _

/-- Where nothing is wrong, the tokens themselves are, and no block stays open. -/
theorem checkTokens_of_clean {tokens : List Token} {r : Report}
    (clean : ((checkNesting tokens).run r).2.errors = r.errors) :
    ((checkTokens [] tokens).run r).2.errors = r.errors ∧ openedIn [] tokens = [] := by
  have first := (checkTokens_steady [] tokens).errors_extend r
  rw [checkNesting_errors] at clean
  -- Nothing was added in all, so neither walk nor end added anything.
  have none_unclosed : (openSites (checked r tokens)).reverse.map Diagnostic.unclosedBlock = [] := by
    have lengths := congrArg List.length clean
    rw [List.length_append] at lengths
    have le := first.length_le
    exact List.length_eq_zero_iff.mp (by omega)
  refine ⟨by rwa [none_unclosed, List.append_nil] at clean, ?_⟩
  simpa [openSites_checked] using none_unclosed

end Markup

end Stencil
