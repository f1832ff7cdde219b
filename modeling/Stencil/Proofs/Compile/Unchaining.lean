import Stencil.Proofs.Compile.Alternatives
import Stencil.Proofs.Compile.Pairing
import Stencil.Proofs.Compile.Sites

/-!
Chained else tags written out.

A chained else begins the else branch of a block and opens another block in it. The same can be
written as a plain else, an opening tag and one closing tag more before the closing tag of the
block, and building makes the same plan of both. The blocks that are opened are the same, with the
same nodes in their branches; they differ in the tags that opened them and in how many a closing
tag ends. For each block with an opening tag of its own it is counted how many are chained inside
it, and so how many closing tags are still to come.
-/

namespace Stencil

open Compiling Markup

/-! ### Writing out -/

namespace Markup

/-- Whether a tag is the same when chained else tags are written out, and leaves the open blocks
as they are. -/
def TagKind.stays : TagKind → Bool
  | .interpolation _ | .comment | .inclusion _ | .rawBlock _ | .alternative false => true
  | _ => false

/-- The second list is the first with its chained else tags written out. For each open block with
an opening tag of its own, innermost first, `pending` says how many blocks chained inside it are
open. The tags that are written for a chained else or before a closing tag may stand anywhere. -/
inductive Unchained : List Nat → List Token → List Token → Prop
  | nil (pending : List Nat) : Unchained pending [] []
  | text {pending : List Nat} {tokens tokens' : List Token} (text : String)
      (h : Unchained pending tokens tokens') :
      Unchained pending (.text text :: tokens) (.text text :: tokens')
  | stays {pending : List Nat} {tokens tokens' : List Token} {tag : Tag}
      (stays : tag.kind.stays = true) (h : Unchained pending tokens tokens') :
      Unchained pending (.tag tag :: tokens) (.tag tag :: tokens')
  | opens {pending : List Nat} {tokens tokens' : List Token} {tag : Tag}
      (opens : tag.kind.opensBlock = true) (h : Unchained (0 :: pending) tokens tokens') :
      Unchained pending (.tag tag :: tokens) (.tag tag :: tokens')
  | chained {n : Nat} {pending : List Nat} {tokens tokens' : List Token} {tag plain opening : Tag}
      (chained : tag.kind = .alternative true) (alternative : plain.kind = .alternative false)
      (opens : opening.kind = .opening false) (same : tag.content = opening.content)
      (h : Unchained ((n + 1) :: pending) tokens tokens') :
      Unchained (n :: pending) (.tag tag :: tokens) (.tag plain :: .tag opening :: tokens')
  | closes {pending : List Nat} {tokens tokens' : List Token} {tag : Tag} (more : List Tag)
      (closing : tag.kind = .closing) (closings : ∀ other ∈ more, other.kind = .closing)
      (h : Unchained pending tokens tokens') :
      Unchained (more.length :: pending) (.tag tag :: tokens)
        (more.map .tag ++ .tag tag :: tokens')

/-- The token is not a chained else. -/
def Token.IsPlain (token : Token) : Prop :=
  ∀ tag, token = .tag tag → tag.kind ≠ .alternative true

theorem Token.IsPlain.of_kind {tag : Tag} {kind : TagKind} (h : tag.kind = kind)
    (plain : kind ≠ .alternative true) : IsPlain (.tag tag) := by
  rintro _ ⟨rfl⟩
  rwa [h]

namespace Unchained

/-- Something can be written for every tag, as long as a block is open where one is needed. -/
theorem exists_written {pending : List Nat} (tag : Tag)
    (some_open : tag.kind = .closing ∨ tag.kind = .alternative true → pending ≠ []) :
    ∃ after written,
      (∀ opened : List Tag, opened.length = pending.length →
        (openedBehind opened tag).length = after.length) ∧
        ∀ tokens tokens', Unchained after tokens tokens' →
          Unchained pending (.tag tag :: tokens) (written ++ tokens') := by
  cases kind : tag.kind with
  | closing =>
      obtain ⟨n, outer, rfl⟩ := List.exists_cons_of_ne_nil (some_open (.inl kind))
      have closings : ∀ other ∈ List.replicate n tag, other.kind = .closing := by
        intro other member
        rw [List.eq_of_mem_replicate member, kind]
      refine ⟨outer, (List.replicate n tag).map .tag ++ [.tag tag], ?_, ?_⟩
      · intro opened counted
        simp [openedBehind, kind, counted]
      · intro tokens tokens' h
        have closed := h.closes _ kind closings
        simpa using closed
  | alternative chained =>
      cases chained with
      | false =>
          refine ⟨pending, [.tag tag], fun opened counted => ?_, fun _ _ h => ?_⟩
          · simp [openedBehind, kind, counted]
          · exact h.stays (by rw [kind]; rfl)
      | true =>
          obtain ⟨n, outer, rfl⟩ := List.exists_cons_of_ne_nil (some_open (.inr kind))
          let plain : Tag := { tag with kind := .alternative false }
          let opening : Tag := { tag with kind := .opening false }
          have same : tag.content = opening.content := rfl
          refine ⟨(n + 1) :: outer, [.tag plain, .tag opening], fun opened counted => ?_,
            fun _ _ h => ?_⟩
          · simpa [openedBehind, kind] using counted
          · exact h.chained kind rfl rfl same
  | opening | inclusionBlock | inlineDef =>
      refine ⟨0 :: pending, [.tag tag], fun opened counted => ?_, fun _ _ h => ?_⟩
      · simp [openedBehind, kind, counted]
      · exact h.opens (by rw [kind]; rfl)
  | interpolation | comment | inclusion | rawBlock =>
      refine ⟨pending, [.tag tag], fun opened counted => ?_, fun _ _ h => ?_⟩
      · simp [openedBehind, kind, counted]
      · exact h.stays (by rw [kind]; rfl)

/-- No chained else is left. -/
theorem isPlain {pending : List Nat} {tokens tokens' : List Token}
    (h : Unchained pending tokens tokens') : ∀ token ∈ tokens', token.IsPlain := by
  induction h with
  | nil => nofun
  | text text h ih => exact List.forall_mem_cons.mpr ⟨nofun, ih⟩
  | stays stays h ih =>
      refine List.forall_mem_cons.mpr ⟨?_, ih⟩
      rintro _ ⟨rfl⟩ kind
      rw [kind] at stays
      cases stays
  | opens opens h ih =>
      refine List.forall_mem_cons.mpr ⟨?_, ih⟩
      rintro _ ⟨rfl⟩ kind
      rw [kind] at opens
      cases opens
  | chained chained alternative opens same h ih =>
      have first := Token.IsPlain.of_kind alternative (by simp)
      have second := Token.IsPlain.of_kind opens nofun
      exact List.forall_mem_cons.mpr ⟨first, List.forall_mem_cons.mpr ⟨second, ih⟩⟩
  | closes more closing closings h ih =>
      refine List.forall_mem_append.mpr ⟨List.forall_mem_map.mpr fun other member => ?_,
        List.forall_mem_cons.mpr ⟨.of_kind closing nofun, ih⟩⟩
      exact .of_kind (closings other member) nofun

end Unchained

end Markup

namespace Header

/-- Every closing tag finds an open block and every else tag one that obeys it, and no block is
left open. -/
def orderly (headers : List Header) : List Token → Bool
  | [] => headers.isEmpty
  | .text _ :: tokens => orderly headers tokens
  | .tag tag :: tokens =>
    (match tag.kind with
      | .closing => !headers.isEmpty
      | .alternative _ => headers.head?.any acceptsElse
      | _ => true) && orderly (behind headers tag) tokens

variable {opened : List Tag} {headers : List Header} {tokens : List Token}

/-- The chained else tags of orderly tokens can be written out. -/
theorem exists_unchained {pending : List Nat} (h : Opened opened headers)
    (counted : opened.length = pending.length) (orderly : orderly headers tokens = true) :
    ∃ tokens', Unchained pending tokens tokens' := by
  induction tokens generalizing opened headers pending with
  | nil => exact ⟨[], .nil pending⟩
  | cons token tokens ih =>
      cases token with
      | text text =>
          obtain ⟨tokens', unchained⟩ := ih h counted orderly
          exact ⟨_, unchained.text text⟩
      | tag tag =>
          rw [Header.orderly, Bool.and_eq_true] at orderly
          have some_open (kind : tag.kind = .closing ∨ tag.kind = .alternative true) :
              pending ≠ [] := by
            rintro rfl
            obtain rfl := List.eq_nil_of_length_eq_zero counted
            obtain rfl := h.eq_nil
            rcases kind with kind | kind <;> simp [kind] at orderly
          obtain ⟨after, written, counts, writes⟩ := Unchained.exists_written tag some_open
          obtain ⟨tokens', unchained⟩ := ih (h.behind tag) (counts opened counted) orderly.2
          exact ⟨_, writes _ _ unchained⟩

theorem behindAll_append (headers : List Header) (before after : List Token) :
    behindAll headers (before ++ after) = behindAll (behindAll headers before) after := by
  induction before generalizing headers with
  | nil => rfl
  | cons token before ih =>
      cases token with
      | text text => exact ih headers
      | tag tag => exact ih (behind headers tag)

/-- Tokens are orderly in which checking finds nothing wrong, when no else tag follows a plain one
of the same block. -/
theorem orderly_of_clean {r : Report}
    (clean : ((checkNesting tokens).run r).2.errors = r.errors)
    (obeyed : obeyed [] tokens = tokens) : orderly [] tokens = true := by
  obtain ⟨clean, none_left⟩ := checkTokens_of_clean clean
  have tail (after before : List Token) (split : tokens = before ++ after) :
      orderly (behindAll [] before) after = true := by
    induction after generalizing before with
    | nil =>
        rw [List.append_nil] at split
        subst split
        have opened := opened_behindAll tokens
        rw [none_left] at opened
        exact List.isEmpty_iff.mpr opened.eq_nil
    | cons token after ih =>
        have rest := ih (before ++ [token]) (by simp [split])
        rw [behindAll_append] at rest
        cases token with
        | text text => exact rest
        | tag tag =>
            refine Bool.and_eq_true_iff.mpr ⟨?_, rest⟩
            have passes : passesOver (behindAll [] before) tag = false :=
              obeyed_not_passesOver (obeyed.trans split)
            cases kind : tag.kind with
            | closing =>
                have some_open : openedIn [] before ≠ [] := openedIn_ne_nil_of_clean kind (split ▸ clean)
                rw [← (opened_behindAll before).tags] at some_open
                cases headers : behindAll [] before with
                | nil => exact absurd (by rw [headers]; rfl) some_open
                | cons h outer => rfl
            | alternative chained => simpa [passesOver, kind] using passes
            | _ => rfl
  exact tail tokens [] rfl

end Header

/-! ### Open blocks -/

/-- One block that is opened by a chained else and by the opening tag that is written for it. -/
structure OpenBranches.Unchains (s s' : OpenBranches) : Prop where
  alternative : s.tag.kind = .alternative true
  opening : s'.tag.kind = .opening false
  content : s.tag.content = s'.tag.content
  body : s.body = s'.body
  inverse : s.inverse = s'.inverse
  chained : s.chained = true
  own : s'.chained = false

/-- The same open blocks when chained else tags are written out; `pending` counts as for tokens. -/
inductive Grouped : List Nat → List OpenBranches → List OpenBranches → Prop
  | nil : Grouped [] [] []
  | own {pending : List Nat} {s : OpenBranches} {scopes scopes' : List OpenBranches}
      (own : s.chained = false) (h : Grouped pending scopes scopes') :
      Grouped (0 :: pending) (s :: scopes) (s :: scopes')
  | chained {n : Nat} {pending : List Nat} {s s' : OpenBranches} {scopes scopes' : List OpenBranches}
      (both : s.Unchains s') (h : Grouped (n :: pending) scopes scopes') :
      Grouped ((n + 1) :: pending) (s :: scopes) (s' :: scopes')

/-- One draft when chained else tags are written out. -/
structure Draft.Unchains (pending : List Nat) (d d' : Draft) : Prop where
  root : d.root = d'.root
  scopes : Grouped pending d.scopes d'.scopes

namespace Draft.Unchains

variable {pending : List Nat} {d d' : Draft} {n : Nat}

theorem push (h : Unchains pending d d') (node : Node) :
    Unchains pending (d.push node) (d'.push node) := by
  obtain ⟨root, scopes⟩ := d
  obtain ⟨root', scopes'⟩ := d'
  obtain ⟨rfl, grouped⟩ := h
  cases grouped with
  | nil => exact ⟨rfl, .nil⟩
  | @own _ s _ _ own outer =>
      unfold Draft.push
      simp only
      split
      · exact ⟨rfl, .own own outer⟩
      · exact ⟨rfl, .own own outer⟩
  | @chained _ _ s s' _ _ both outer =>
      unfold Draft.push
      simp only [← both.inverse, ← both.body]
      split
      · exact ⟨rfl, .chained { both with body := rfl, inverse := rfl } outer⟩
      · exact ⟨rfl, .chained { both with body := rfl, inverse := rfl } outer⟩

theorem push? (h : Unchains pending d d') (node : Option Node) :
    Unchains pending (d.push? node) (d'.push? node) := by
  cases node with
  | none => exact h
  | some node => exact h.push node

/-- A new block, with an opening tag of its own in both drafts. -/
theorem open_ (h : Unchains pending d d') (tag : Tag) :
    Unchains (0 :: pending) { d with scopes := { tag, chained := false } :: d.scopes }
      { d' with scopes := { tag, chained := false } :: d'.scopes } :=
  ⟨h.root, .own rfl h.scopes⟩

/-- A closing tag ends a block with those chained inside it, and one block when these are written
out. -/
theorem closedByTag (h : Unchains (n :: pending) d d') :
    BuildContext.closedByTag d = n + 1 ∧ BuildContext.closedByTag d' = 1 := by
  obtain ⟨root, scopes⟩ := d
  obtain ⟨root', scopes'⟩ := d'
  have grouped : Grouped (n :: pending) scopes scopes' := h.scopes
  clear h
  unfold BuildContext.closedByTag
  simp only
  generalize counts : n :: pending = all at grouped
  induction grouped generalizing n pending with
  | nil => cases counts
  | own own outer =>
      cases counts
      simp [own]
  | chained both outer ih =>
      cases counts
      obtain ⟨left, right⟩ := ih rfl
      simp [both.chained, both.own, left]

end Draft.Unchains

/-! ### Steps -/

namespace BuildContext

variable {ctx : BuildContext} {pending : List Nat} {d d' : Draft} {n : Nat} {tag : Tag}

section

variable (blind : ∀ name hasBlock site, Discipline.blind.Keeps (ctx.resolve name hasBlock site))

include blind

/-- A block with an opening tag of its own becomes one node. -/
theorem closeScope_own (h : Draft.Unchains (0 :: pending) d d') :
    Coincide (Draft.Unchains pending) (ctx.closeScope d) (ctx.closeScope d') := by
  obtain ⟨root, scopes⟩ := d
  obtain ⟨_, scopes'⟩ := d'
  obtain ⟨rfl, grouped⟩ := h
  cases grouped with
  | @own _ s outer outer' own grouped =>
      have node : Coincide Eq (ctx.scopeNode s) (ctx.scopeNode s) :=
        scopeNode_keeps (d := .blind) blind s
      have left : Draft.Unchains pending { root, scopes := outer } { root, scopes := outer' } :=
        ⟨rfl, grouped⟩
      exact node.bind_eq fun node => Coupled.bind_eq Discipline.blind.popLayer fun _ =>
        .pure (left.push? node)

omit blind in
/-- So does a chained block, whose tag says what the opening tag says that is written for it. -/
theorem closeScope_chained (h : Draft.Unchains ((n + 1) :: pending) d d') :
    Coincide (Draft.Unchains (n :: pending)) (ctx.closeScope d) (ctx.closeScope d') := by
  obtain ⟨root, scopes⟩ := d
  obtain ⟨_, scopes'⟩ := d'
  obtain ⟨rfl, grouped⟩ := h
  cases grouped with
  | @chained _ _ s s' outer outer' both grouped =>
      have node : Coincide Eq (ctx.scopeNode s) (ctx.scopeNode s') := by
        unfold scopeNode
        simp only [both.alternative, both.opening, both.body, both.inverse]
        exact (ctx.block_coincide both.content _ _ false).bind_eq fun node => .pure rfl
      have left : Draft.Unchains (n :: pending) { root, scopes := outer } { root, scopes := outer' } :=
        ⟨rfl, grouped⟩
      exact node.bind_eq fun node => Coupled.bind_eq Discipline.blind.popLayer fun _ =>
        .pure (left.push? node)

omit blind in
/-- Where chained blocks are written out, a closing tag ends one block. -/
theorem addTag_closing (h : Draft.Unchains (n :: pending) d d') (closing : tag.kind = .closing) :
    ctx.addTag d' tag = ctx.closeScope d' := by
  unfold addTag
  simp only [closing, h.closedByTag.2]
  exact bind_pure _

/-- The closing tags that are written end the chained blocks one by one. By induction on how many
there are. -/
theorem closeScopes_unchains (h : Draft.Unchains (n :: pending) d d') {more : List Tag}
    (counted : more.length = n) (closings : ∀ other ∈ more, other.kind = .closing)
    (closing : tag.kind = .closing) :
    Coincide (Draft.Unchains pending) (ctx.closeScopes (n + 1) d)
      (ctx.addTokens d' (more.map .tag ++ [.tag tag])) := by
  induction more generalizing n d d' with
  | nil =>
      obtain rfl : n = 0 := counted.symm
      show Coincide _ (ctx.closeScope d >>= pure) (ctx.addTag d' tag >>= pure)
      rw [addTag_closing h closing]
      exact (closeScope_own blind h).bind fun _ _ unchains => .pure unchains
  | cons other more ih =>
      obtain ⟨n, rfl⟩ : ∃ m, n = m + 1 := ⟨more.length, counted.symm⟩
      obtain ⟨first, others⟩ := List.forall_mem_cons.mp closings
      show Coincide _ (ctx.closeScope d >>= ctx.closeScopes (n + 1))
        (ctx.addTag d' other >>= fun d' => ctx.addTokens d' (more.map .tag ++ [.tag tag]))
      rw [addTag_closing h first]
      refine (closeScope_chained h).bind fun e e' unchains => ?_
      exact ih unchains (Nat.succ.inj counted) others

end

/-- The innermost block obeys an else tag in both drafts or in neither. -/
theorem accepts_unchains (h : Draft.Unchains pending d d')
    (accepts : d.headers.head?.any Header.acceptsElse = true) :
    ∃ s s' outer outer', d.scopes = s :: outer ∧ d'.scopes = s' :: outer' ∧
      acceptsElse s = true ∧ acceptsElse s' = true ∧
        Grouped pending ({ s with inverse := some [] } :: outer)
          ({ s' with inverse := some [] } :: outer') := by
  obtain ⟨root, scopes⟩ := d
  obtain ⟨root', scopes'⟩ := d'
  have grouped : Grouped pending scopes scopes' := h.scopes
  cases grouped with
  | nil => cases accepts
  | @own _ s outer outer' own grouped =>
      have here : acceptsElse s = true := by
        rw [acceptsElse_header]
        exact accepts
      exact ⟨s, s, outer, outer', rfl, rfl, here, here, .own own grouped⟩
  | @chained _ _ s s' outer outer' both grouped =>
      have here : acceptsElse s = true := by
        rw [acceptsElse_header]
        exact accepts
      have there : acceptsElse s' = true := by
        simpa [acceptsElse, both.alternative, both.opening, both.inverse] using here
      exact ⟨s, s', outer, outer', rfl, rfl, here, there,
        .chained { both with inverse := rfl } grouped⟩

/-- A plain else begins the else branch in both drafts. -/
theorem addTag_plain (h : Draft.Unchains pending d d')
    (accepts : d.headers.head?.any Header.acceptsElse = true)
    (alternative : tag.kind = .alternative false) :
    Coincide (Draft.Unchains pending) (ctx.addTag d tag) (ctx.addTag d' tag) := by
  obtain ⟨s, s', outer, outer', scopes, scopes', here, there, grouped⟩ := accepts_unchains h accepts
  unfold addTag beginElse
  simp only [alternative, scopes, scopes', here, there, if_true]
  refine Coupled.bind_eq Discipline.blind.popLayer fun _ => ?_
  refine Coupled.bind_eq Discipline.blind.pushLayer fun _ => ?_
  exact .pure ⟨h.root, grouped⟩

/-- A chained else does what a plain one and an opening tag do. -/
theorem addTag_chained (h : Draft.Unchains (n :: pending) d d') {plain opening : Tag}
    (accepts : d.headers.head?.any Header.acceptsElse = true)
    (chained : tag.kind = .alternative true) (alternative : plain.kind = .alternative false)
    (opens : opening.kind = .opening false) (same : tag.content = opening.content) :
    Coincide (Draft.Unchains ((n + 1) :: pending)) (ctx.addTag d tag)
      (ctx.addTokens d' [.tag plain, .tag opening]) := by
  obtain ⟨s, s', outer, outer', scopes, scopes', here, there, grouped⟩ := accepts_unchains h accepts
  simp only [addTokens, bind_pure]
  unfold addTag beginElse
  simp only [chained, alternative, opens, scopes, scopes', here, there, if_true, bind_assoc]
  refine Coupled.bind_eq Discipline.blind.popLayer fun _ => ?_
  refine Coupled.bind_eq Discipline.blind.pushLayer fun _ => ?_
  simp only [Bool.false_eq_true, if_false, pure_bind]
  refine Coupled.bind_eq Discipline.blind.pushLayer fun _ => Coupled.pure ⟨h.root, ?_⟩
  exact .chained ⟨chained, opens, same, rfl, rfl, rfl, rfl⟩ grouped

/-- A tag that opens a block opens the same block in both drafts. -/
theorem addTag_opens (h : Draft.Unchains pending d d') (opens : tag.kind.opensBlock = true) :
    Coincide (Draft.Unchains (0 :: pending)) (ctx.addTag d tag) (ctx.addTag d' tag) := by
  have opened : Coincide (Draft.Unchains (0 :: pending)) (openScope tag false d)
      (openScope tag false d') :=
    Coupled.bind_eq Discipline.blind.pushLayer fun _ => .pure (h.open_ tag)
  unfold addTag
  cases kind : tag.kind with
  | opening inverted => exact opened
  | inclusionBlock name => exact opened
  | inlineDef name =>
      refine Coupled.bind_eq (Discipline.blind.declareInline name) fun fresh => ?_
      simp only
      split
      · exact Coupled.bind_eq (Discipline.blind.steady (.addWarning _)) fun _ => opened
      · exact opened
  | interpolation | alternative | closing | comment | inclusion | rawBlock =>
      rw [kind] at opens
      cases opens

/-- What a tag does, the tokens that are written for it do, and so on behind them. -/
theorem addTokens_step {after : List Nat} {Q : Draft → Draft → Prop}
    {written tokens tokens' : List Token}
    (step : Coincide (Draft.Unchains after) (ctx.addTag d tag) (ctx.addTokens d' written))
    (next : ∀ e e', Draft.Unchains after e e' → e.headers = Header.behind d.headers tag →
      Coincide Q (ctx.addTokens e tokens) (ctx.addTokens e' tokens')) :
    Coincide Q (ctx.addTokens d (.tag tag :: tokens)) (ctx.addTokens d' (written ++ tokens')) := by
  intro c c' same
  obtain ⟨unchains, same⟩ := step c c' same
  rw [addTokens_append]
  exact next _ _ unchains (ctx.addTag_headers d tag c) _ _ same

/-- A tag that is written for itself. -/
theorem addTokens_singleton (d : Draft) (tag : Tag) : ctx.addTokens d [.tag tag] = ctx.addTag d tag := by
  show ctx.addTag d tag >>= pure = _
  exact bind_pure _

section

variable (blind : ∀ name hasBlock site, Discipline.blind.Keeps (ctx.resolve name hasBlock site))

include blind

/-- Any other tag does the same to both drafts. -/
theorem addTag_stays (h : Draft.Unchains pending d d') (stays : tag.kind.stays = true)
    (accepts : ∀ chained, tag.kind = .alternative chained →
      d.headers.head?.any Header.acceptsElse = true) :
    Coincide (Draft.Unchains pending) (ctx.addTag d tag) (ctx.addTag d' tag) := by
  cases kind : tag.kind with
  | alternative chained =>
      cases chained with
      | false => exact addTag_plain h (accepts false kind) kind
      | true =>
          rw [kind] at stays
          cases stays
  | interpolation raw =>
      have node := Discipline.blind.steady (ctx.interpolation_steady tag raw)
      unfold addTag
      simp only [kind]
      exact Coupled.bind_eq node fun node => .pure (h.push? node)
  | comment =>
      unfold addTag
      simp only [kind]
      exact .pure h
  | inclusion name =>
      have node : Discipline.blind.Keeps (ctx.inclusion tag name none) :=
        inclusion_keeps tag blind name none
      unfold addTag
      simp only [kind]
      exact Coupled.bind_eq node fun node => .pure (h.push? node)
  | rawBlock body =>
      have node := Discipline.blind.steady (ctx.rawBlock_steady tag body)
      unfold addTag
      simp only [kind]
      exact Coupled.bind_eq node fun node => .pure (h.push node)
  | opening | inclusionBlock | inlineDef | closing =>
      rw [kind] at stays
      cases stays

/-- Both drafts are complete with the same nodes. By induction on the tokens: a step is made in both
drafts, and a chained else and a closing tag are several steps in the second. -/
theorem addTokens_unchains {tokens tokens' : List Token} (unchained : Unchained pending tokens tokens')
    (h : Draft.Unchains pending d d') (orderly : Header.orderly d.headers tokens = true) :
    Coincide (fun e e' => e.root = e'.root ∧ e.scopes = [] ∧ e'.scopes = [])
      (ctx.addTokens d tokens) (ctx.addTokens d' tokens') := by
  induction unchained generalizing d d' with
  | nil =>
      obtain ⟨root, scopes⟩ := d
      obtain ⟨_, scopes'⟩ := d'
      obtain ⟨rfl, grouped⟩ := h
      obtain rfl : scopes = [] := List.map_eq_nil_iff.mp (List.isEmpty_iff.mp orderly)
      cases grouped
      exact .pure ⟨rfl, rfl, rfl⟩
  | text text _ ih =>
      rw [← Draft.headers_push (.literal text)] at orderly
      exact ih (h.push (.literal text)) orderly
  | @stays _ _ _ tag stays _ ih =>
      rw [Header.orderly, Bool.and_eq_true] at orderly
      have step := addTag_stays blind h stays fun chained kind => by simpa [kind] using orderly.1
      rw [← addTokens_singleton d' tag] at step
      exact addTokens_step step fun e e' unchains headers => ih unchains (headers ▸ orderly.2)
  | @opens _ _ _ tag opens _ ih =>
      rw [Header.orderly, Bool.and_eq_true] at orderly
      have step : Coincide (Draft.Unchains _) (ctx.addTag d tag) (ctx.addTag d' tag) :=
        addTag_opens h opens
      rw [← addTokens_singleton d' tag] at step
      exact addTokens_step step fun e e' unchains headers => ih unchains (headers ▸ orderly.2)
  | @chained _ _ _ _ tag plain opening chained alternative opens content _ ih =>
      rw [Header.orderly, Bool.and_eq_true] at orderly
      have accepts : d.headers.head?.any Header.acceptsElse = true := by
        simpa [chained] using orderly.1
      have step : Coincide (Draft.Unchains _) (ctx.addTag d tag)
          (ctx.addTokens d' [.tag plain, .tag opening]) :=
        addTag_chained h accepts chained alternative opens content
      exact addTokens_step step fun e e' unchains headers => ih unchains (headers ▸ orderly.2)
  | @closes _ _ tokens' tag more closing closings _ ih =>
      rw [Header.orderly, Bool.and_eq_true] at orderly
      have here : ctx.addTag d tag = ctx.closeScopes (more.length + 1) d := by
        unfold addTag
        simp only [closing, h.closedByTag.1]
      have step := closeScopes_unchains blind h rfl closings closing
      rw [← here] at step
      have split : more.map Token.tag ++ .tag tag :: tokens' =
          (more.map .tag ++ [.tag tag]) ++ tokens' := by
        rw [List.append_assoc, List.singleton_append]
      rw [split]
      exact addTokens_step step fun e e' unchains headers => ih unchains (headers ▸ orderly.2)

/-- Building makes one plan of tokens and of these tokens with the chained else tags written out. -/
theorem build_unchains {tokens tokens' : List Token} (unchained : Unchained [] tokens tokens')
    (orderly : Header.orderly [] tokens = true) :
    Coincide Eq (ctx.build tokens) (ctx.build tokens') := by
  have start : Draft.Unchains [] {} {} := ⟨rfl, .nil⟩
  refine (addTokens_unchains blind unchained start orderly).bind fun d d' complete => ?_
  obtain ⟨root, closed, closed'⟩ := complete
  rw [closed, closed']
  show Coincide Eq (pure d.root.reverse) (pure d'.root.reverse)
  exact .pure (congrArg List.reverse root)

end

end BuildContext

namespace Workshop

/-- Where every closing tag closes a block, every else tag begins the else branch of one, and no
block is left open, the chained else tags can be written out: each as a plain else and an opening
tag, with one closing tag more before that of the block. However that is done, and wherever the
tags that are written stand, building makes the same plan, reports equally many errors and leaves
the same state. -/
theorem builder_unchains (w : Workshop) (entered : List String) (available : Table String)
    (tokens : List Token) (orderly : Header.orderly [] tokens = true) :
    (∃ tokens', Unchained [] tokens tokens') ∧ ∀ tokens', Unchained [] tokens tokens' →
      (∀ tag, .tag tag ∈ tokens' → tag.kind ≠ .alternative true) ∧
        ∀ c : Compilation,
          let built := ((w.builder entered available).build tokens).run c
          let built' := ((w.builder entered available).build tokens').run c
          built.1 = built'.1 ∧ built.2.SameButReports built'.2 := by
  have start : Header.Opened [] [] := ⟨rfl, nofun⟩
  refine ⟨Header.exists_unchained start rfl orderly, fun tokens' unchained => ⟨?_, fun c => ?_⟩⟩
  · exact fun tag member => unchained.isPlain _ member tag rfl
  · exact BuildContext.build_unchains (w.builder_blind entered available) unchained orderly c c
      (.refl c)

section Stairs

/-- A tag with at most one argument. -/
def stair (kind : TagKind) (head argument : String) : Tag :=
  { kind
    content := { head, params := [.path { levels := 0, segments := [argument], source := argument }] }
    site := { tag := head, line := 1 } }

/-- A block with three chained branches, the second of which holds another chain, and with an inline
partial in the first branch. -/
def stairs : List Token :=
  [.tag (stair (.opening false) "if" "a"), .tag (stair (.inlineDef "p") "inline" "p"), .text "P",
    .tag (stair .closing "inline" "p"), .tag (stair (.alternative true) "unless" "b"),
    .tag (stair (.opening false) "each" "c"), .tag (stair (.alternative true) "with" "d"), .text "D",
    .tag (stair .closing "each" "c"), .tag (stair (.alternative true) "e" "f"), .text "E",
    .tag (stair (.alternative false) "" ""), .text "F", .tag (stair .closing "if" "a")]

/-- The same with plain else tags only. -/
def stairsWritten : List Token :=
  [.tag (stair (.opening false) "if" "a"), .tag (stair (.inlineDef "p") "inline" "p"), .text "P",
    .tag (stair .closing "inline" "p"), .tag (stair (.alternative false) "" ""),
    .tag (stair (.opening false) "unless" "b"), .tag (stair (.opening false) "each" "c"),
    .tag (stair (.alternative false) "" ""), .tag (stair (.opening false) "with" "d"), .text "D",
    .tag (stair .closing "with" "d"), .tag (stair .closing "each" "c"),
    .tag (stair (.alternative false) "" ""), .tag (stair (.opening false) "e" "f"), .text "E",
    .tag (stair (.alternative false) "" ""), .text "F", .tag (stair .closing "e" "f"),
    .tag (stair .closing "unless" "b"), .tag (stair .closing "if" "a")]

theorem stairs_unchain :
    Header.orderly [] stairs = true ∧ Unchained [] stairs stairsWritten ∧
      ∀ c : Compilation,
        (((builder ⟨{}, {}⟩ [] []).build stairs).run c).1 =
          (((builder ⟨{}, {}⟩ [] []).build stairsWritten).run c).1 := by
  have orderly : Header.orderly [] stairs = true := by rfl
  have chain : Unchained [1] (stairs.drop 9) (stairsWritten.drop 12) := by
    have closings : ∀ other ∈ [stair .closing "e" "f", stair .closing "unless" "b"],
        other.kind = .closing := by simp [stair]
    have last : Unchained [2] [.text "F", .tag (stair .closing "if" "a")] (stairsWritten.drop 16) :=
      .text "F" (.closes _ rfl closings (.nil []))
    exact .chained rfl rfl rfl rfl (.text "E" (.stays rfl last))
  have loop : Unchained [1] (stairs.drop 5) (stairsWritten.drop 6) := by
    have closings : ∀ other ∈ [stair .closing "with" "d"], other.kind = .closing := by simp [stair]
    have last : Unchained [1, 1] (stairs.drop 8) (stairsWritten.drop 10) := .closes _ rfl closings chain
    exact .opens rfl (.chained rfl rfl rfl rfl (.text "D" last))
  have unchained : Unchained [] stairs stairsWritten :=
    .opens rfl (.opens rfl (.text "P" (.closes [] rfl nofun (.chained rfl rfl rfl rfl loop))))
  have built := (builder_unchains ⟨{}, {}⟩ [] [] stairs orderly).2 stairsWritten unchained
  exact ⟨orderly, unchained, fun c => (built.2 c).1⟩

end Stairs

end Workshop

end Stencil
