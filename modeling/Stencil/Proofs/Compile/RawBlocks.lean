import Mathlib.Data.List.Infix
import Stencil.Proofs.Compile.Literals
import Stencil.Proofs.Markup.Delimiters
import Stencil.Proofs.Markup.Trimming

/-!
Raw blocks keep what stands in them.

The search for the end of a raw block goes from one beginning of a closing tag to the next, and each
time reads up to four closing braces what it takes for a name. A beginning in the body cannot run
into the closing tag, since a slash stands behind its braces, and a name that begins in the body
cannot end in the closing tag, since it would hold braces. So the search ends at the closing tag,
unless the body holds one itself. The white space around the block and in it stays, and what is
compiled of the body is one literal.
-/

namespace Stencil

open Text

/-! ### The end of a raw block -/

namespace Markup

/-- A tag that closes a raw block; `ending` is what stands in it. -/
def rawCloser (ending : List Char) : List Char :=
  ['{', '{', '{', '{', '/'] ++ ending ++ ['}', '}', '}', '}']

/-- A raw block as it is written. -/
def rawBlock (name body : List Char) : List Char :=
  ['{', '{', '{', '{'] ++ name ++ ['}', '}', '}', '}'] ++ body ++ rawCloser name

/-- A raw block as it is scanned. -/
def rawBlockTag (name body : List Char) (line : Nat) : RawTag :=
  { form := .rawBlock body, opening := ['{', '{', '{', '{'], lead := [], inner := name, trail := [],
    closing := ['}', '}', '}', '}'], stripBefore := false, stripAfter := false,
    source := rawBlock name body, line }

/-- A text holds a tag that closes the raw block of a name. -/
def Closes (name text : List Char) : Prop :=
  ∃ u w w' v, text = u ++ rawCloser (w ++ name ++ w') ++ v ∧ w.all isWhite = true ∧
    w'.all isWhite = true

/-- The text begins with a tag that closes the raw block of a name. -/
def closesAt (name s : List Char) : Bool :=
  match dropFront? ['{', '{', '{', '{', '/'] s with
  | none => false
  | some rest =>
    match cut? ['}', '}', '}', '}'] rest with
    | none => false
    | some (ending, _) => trim ending == name

/-- A name that a raw block may have. -/
structure IsRawName (name : List Char) : Prop where
  filled : name ≠ []
  plain : '{' ∉ name ∧ '}' ∉ name ∧ '~' ∉ name
  trimmed : trim name = name

/-- A beginning of a closing tag that stands before another stands before all of it. -/
theorem before_of_beginning {front tail b rest : List Char}
    (h : front ++ ['{', '{', '{', '{', '/'] ++ tail = b ++ ['{', '{', '{', '{', '/'] ++ rest)
    (before : front.length < b.length) :
    ∃ b', b = front ++ ['{', '{', '{', '{', '/'] ++ b' ∧
      tail = b' ++ ['{', '{', '{', '{', '/'] ++ rest := by
  rw [List.append_assoc, List.append_assoc] at h
  rcases List.append_eq_append_iff.mp h with ⟨a, rfl, behind⟩ | ⟨c, rfl, -⟩
  · match a with
    | [] => simp at before
    | [_] | [_, _] | [_, _, _] | [_, _, _, _] => simp at behind
    | c :: d :: e :: f :: g :: b' =>
        simp only [List.cons_append, List.nil_append, List.cons.injEq] at behind
        obtain ⟨rfl, rfl, rfl, rfl, rfl, rfl⟩ := behind
        exact ⟨b', by simp, by simp⟩
  · simp at before

/-- A name without braces that begins before a closing tag and is ended by braces, is ended
before it. -/
theorem before_of_ending {ending rest b more : List Char} (plain : '{' ∉ ending)
    (h : ending ++ ['}', '}', '}', '}'] ++ rest = b ++ ['{', '{', '{', '{', '/'] ++ more) :
    ∃ v, b = ending ++ ['}', '}', '}', '}'] ++ v := by
  rw [List.append_assoc, List.append_assoc] at h
  rcases List.append_eq_append_iff.mp h with ⟨a, rfl, behind⟩ | ⟨c, rfl, behind⟩
  · match a with
    | [] | [_] | [_, _] | [_, _, _] => simp at behind
    | c :: d :: e :: f :: v =>
        simp only [List.cons_append, List.nil_append, List.cons.injEq] at behind
        obtain ⟨rfl, rfl, rfl, rfl, -⟩ := behind
        exact ⟨v, by simp⟩
  · cases c with
    | nil => simp at behind
    | cons c _ =>
        obtain ⟨rfl, -⟩ := List.cons.inj behind
        simp at plain

/-- The first four closing braces behind a text without such braces end it. -/
theorem cut?_braces {ending : List Char} (plain : '}' ∉ ending) (rest : List Char) :
    cut? ['}', '}', '}', '}'] (ending ++ ['}', '}', '}', '}'] ++ rest) = some (ending, rest) := by
  rw [List.append_assoc, cut?_append fun u suffix filled => ?_]
  · simp [cut?, dropFront?]
  · obtain ⟨c, u, rfl⟩ := List.exists_cons_of_ne_nil filled
    have inside : c ∈ ending := suffix.subset (.head _)
    have other : '}' ≠ c := fun same => plain (same ▸ inside)
    simp [dropFront?, other]

/-- What is trimmed off a text is white space. -/
theorem exists_of_trim (s : List Char) :
    ∃ w w', s = w ++ trim s ++ w' ∧ w.all isWhite = true ∧ w'.all isWhite = true := by
  refine ⟨leadingWhite s, trailingWhite (trimStart s), ?_, all_isWhite_leadingWhite s,
    all_isWhite_trailingWhite _⟩
  rw [trim, List.append_assoc, trimEnd_append_trailingWhite, leadingWhite_append_trimStart]

theorem notMem_padded {name w w' : List Char} {c : Char} (black : isWhite c = false)
    (plain : c ∉ name) (white : w.all isWhite = true) (white' : w'.all isWhite = true) :
    c ∉ w ++ name ++ w' := by
  have blank {w : List Char} (white : w.all isWhite = true) : c ∉ w := fun inside => by
    rw [List.all_eq_true.mp white c inside] at black
    cases black
  simp only [List.mem_append, not_or]
  exact ⟨⟨blank white, plain⟩, blank white'⟩

/-- The first beginning of a closing tag is that of the closing tag, or it stands before it. -/
theorem beginning_cases {name b y s front tail : List Char} (whole : b ++ rawCloser name ++ y = s)
    (cut : cut? (rawEnd (Marks.ofDelimiters {})) s = some (front, tail)) :
    front = b ∧ tail = name ++ ['}', '}', '}', '}'] ++ y ∨
      ∃ b', b = front ++ ['{', '{', '{', '{', '/'] ++ b' ∧ b' ++ rawCloser name ++ y = tail := by
  have parts : front ++ ['{', '{', '{', '{', '/'] ++ tail =
      b ++ ['{', '{', '{', '{', '/'] ++ (name ++ ['}', '}', '}', '}'] ++ y) := by
    have parted : s = front ++ ['{', '{', '{', '{', '/'] ++ tail := eq_append_of_cut? cut
    rw [← parted, ← whole, rawCloser]
    simp only [List.append_assoc]
  rcases Nat.lt_or_ge front.length b.length with before | behind
  · obtain ⟨b', inside, rfl⟩ := before_of_beginning parts before
    exact .inr ⟨b', inside, by simp [rawCloser]⟩
  · have first := length_le_of_occurs cut (whole.symm.trans (by simp [rawCloser, rawEnd]; rfl))
    rw [List.append_assoc, List.append_assoc b] at parts
    obtain ⟨same, rest⟩ := List.append_inj parts (Nat.le_antisymm first behind)
    exact .inl ⟨same, List.append_cancel_left rest⟩

namespace IsRawName

variable {name : List Char} (named : IsRawName name)

include named

theorem cut?_eq (rest : List Char) :
    cut? ['}', '}', '}', '}'] (name ++ ['}', '}', '}', '}'] ++ rest) = some (name, rest) :=
  cut?_braces named.plain.2.1 rest

/-- The search ends at the closing tag behind the body. By induction on the beginnings of closing
tags. -/
theorem cutRawEnd?_eq {b : List Char} (body : ¬ Closes name b) (y : List Char) :
    cutRawEnd? (Marks.ofDelimiters {}) name (b ++ rawCloser name ++ y) = some (b, y) := by
  generalize whole : b ++ rawCloser name ++ y = s
  fun_induction cutRawEnd? (Marks.ofDelimiters {}) name s generalizing b with
  | case1 s missing =>
      have occurs : s =
          b ++ rawEnd (Marks.ofDelimiters {}) ++ (name ++ ['}', '}', '}', '}'] ++ y) :=
        whole.symm.trans (by simp [rawCloser, rawEnd]; rfl)
      exact absurd occurs (cut?_eq_none_iff.mp missing _ _)
  | case2 s front tail cut missing =>
      -- the closing tag ends in braces, and it is behind every beginning
      exfalso
      rcases beginning_cases whole cut with ⟨-, rfl⟩ | ⟨b', -, rfl⟩
      · exact cut?_eq_none_iff.mp missing name y rfl
      · refine cut?_eq_none_iff.mp missing (b' ++ ['{', '{', '{', '{', '/'] ++ name) y ?_
        simp [rawCloser]
        rfl
  | case3 s front tail cut ending rest ended same =>
      rcases beginning_cases whole cut with ⟨rfl, rfl⟩ | ⟨b', rfl, rfl⟩
      · have found := (named.cut?_eq y).symm.trans ended
        cases found
        rfl
      · -- a name that ends a search in the body is closed there: the body closes the block
        obtain ⟨w, w', parted, white, white'⟩ := exists_of_trim ending
        rw [same] at parted
        have plain : '{' ∉ ending :=
          parted ▸ notMem_padded (by decide) named.plain.1 white white'
        have behind : ending ++ ['}', '}', '}', '}'] ++ rest =
            b' ++ ['{', '{', '{', '{', '/'] ++ (name ++ ['}', '}', '}', '}'] ++ y) :=
          (eq_append_of_cut? ended).symm.trans (by simp [rawCloser])
        obtain ⟨v, rfl⟩ := before_of_ending plain behind
        exact absurd ⟨front, w, w', v, by simp [rawCloser, parted], white, white'⟩ body
  | case4 s front tail cut ending rest ended other ih =>
      -- the search goes on behind the beginning, not behind the braces that ended the name
      rcases beginning_cases whole cut with ⟨rfl, rfl⟩ | ⟨b', rfl, rfl⟩
      · have found := (named.cut?_eq y).symm.trans ended
        cases found
        exact absurd named.trimmed other
      · have inside : ¬ Closes name b' := by
          rintro ⟨u, w, w', v, rfl, white, white'⟩
          exact body ⟨front ++ ['{', '{', '{', '{', '/'] ++ u, w, w', v, by simp, white, white'⟩
        rw [ih inside rfl]
        rfl

/-! ### Bodies -/

/-- There is no white space at either end of a name. -/
theorem blankless : leadingWhite name = [] ∧ trailingWhite (trimStart name) = [] := by
  have parts := congrArg List.length (leadingWhite_append_trimStart name)
  have trimmed := congrArg List.length (trimEnd_append_trailingWhite (trimStart name))
  rw [List.length_append] at parts trimmed
  have same : (trimEnd (trimStart name)).length = name.length := congrArg List.length named.trimmed
  constructor <;> refine List.length_eq_zero_iff.mp ?_ <;> omega

theorem trim_padded {w w' : List Char} (white : w.all isWhite = true)
    (white' : w'.all isWhite = true) : trim (w ++ name ++ w') = name := by
  have start : trimStart name = name := by
    have parts := leadingWhite_append_trimStart name
    rwa [named.blankless.1] at parts
  obtain ⟨c, rest, filled⟩ := List.exists_cons_of_ne_nil named.filled
  have visible : isWhite c = false := startsVisible_trimStart name c (by rw [start, filled]; rfl)
  have front : trimStart (w ++ (name ++ w')) = name ++ w' := by
    rw [trimStart, List.dropWhile_append_of_pos (List.all_eq_true.mp white), filled]
    exact List.dropWhile_cons_of_neg (by simp [visible])
  have back : trimEnd (name ++ w') = trimEnd name := by
    rw [trimEnd, dropEndWhile, List.reverse_append, List.dropWhile_append_of_pos]
    · rfl
    · exact fun c member => List.all_eq_true.mp white' c (List.mem_reverse.mp member)
  have last : trimEnd name = name := by
    have trimmed := named.trimmed
    rwa [trim, start] at trimmed
  rw [trim, List.append_assoc, front, back, last]

/-- Whether a text holds a closing tag can be decided. -/
theorem closes_iff {text : List Char} :
    Closes name text ↔ text.tails.any (closesAt name) = true := by
  rw [List.any_eq_true]
  constructor
  · rintro ⟨u, w, w', v, rfl, white, white'⟩
    refine ⟨rawCloser (w ++ name ++ w') ++ v, (List.mem_tails _ _).mpr ⟨u, by simp⟩, ?_⟩
    have plain := notMem_padded (c := '}') (by decide) named.plain.2.1 white white'
    have opened : dropFront? ['{', '{', '{', '{', '/'] (rawCloser (w ++ name ++ w') ++ v) =
        some (w ++ name ++ w' ++ ['}', '}', '}', '}'] ++ v) :=
      dropFront?_eq_some_iff.mpr (by simp [rawCloser])
    simp only [closesAt, opened, cut?_braces plain, named.trim_padded white white',
      beq_self_eq_true]
  · rintro ⟨s, member, closes⟩
    obtain ⟨u, rfl⟩ := (List.mem_tails _ _).mp member
    unfold closesAt at closes
    split at closes
    · cases closes
    · next rest opened =>
      split at closes
      · cases closes
      · next ending v cut =>
        obtain ⟨w, w', parted, white, white'⟩ := exists_of_trim ending
        rw [beq_iff_eq.mp closes] at parted
        rw [eq_append_of_cut? cut, parted] at opened
        refine ⟨u, w, w', v, ?_, white, white'⟩
        rw [dropFront?_eq_some_iff.mp opened]
        simp [rawCloser]

/-! ### Scanning -/

theorem readFront_eq (rest : List Char) : readFront ['{', '{'] (['{', '{'] ++ name ++ rest) =
    { opening := ['{', '{', '{', '{'], strip := false, braces := 2, body := name ++ rest } := by
  obtain ⟨c, front, rfl⟩ := List.exists_cons_of_ne_nil named.filled
  have other : c ≠ '~' := fun same => named.plain.2.2 (same ▸ .head _)
  unfold readFront
  simp only [List.cons_append, List.nil_append]
  split
  · next same => exact absurd (List.cons.inj same).1 other
  · rfl

theorem scanTag_eq {b : List Char} (body : ¬ Closes name b) (line : Nat) (y : List Char) :
    scanTag (Marks.ofDelimiters {}) line (rawBlock name b ++ y)
        (['{', '{'] ++ name ++ (['}', '}', '}', '}'] ++ (b ++ rawCloser name ++ y))) =
      (.ok (rawBlockTag name b line), y) := by
  have ended := named.cut?_eq (b ++ rawCloser name ++ y)
  have noTilde : takeTilde name = (name, false) := by
    rw [takeTilde, if_neg fun last => named.plain.2.2 (List.mem_of_getLast? last)]
  have source : spanTo (rawBlock name b ++ y) y = rawBlock name b := spanTo_eq rfl
  have marks : Marks.ofDelimiters {} = { opening := ['{', '{'], closing := ['}', '}'] } := rfl
  have closer : ['}', '}'] ++ ['}', '}'] = ['}', '}', '}', '}'] := rfl
  have found := named.cutRawEnd?_eq body y
  have blank := named.blankless
  have inner : trimEnd (trimStart name) = name := named.trimmed
  rw [marks] at found ⊢
  rw [List.append_assoc] at ended
  rw [scanTag, named.readFront_eq]
  simp only [scanRawBlock, closer, ended, noTilde, named.trimmed, found, mkTag, source, blank,
    inner]
  rfl

theorem next?_eq {c : Cursor} {b y : List Char} (body : ¬ Closes name b)
    (h : c.rest = rawBlock name b ++ y) : c.next? (Marks.ofDelimiters {}) =
      some (.tag (rawBlockTag name b c.line), c.moveTo y) := by
  have begun : c.rest.isEmpty = false := by rw [h]; rfl
  have tagged : dropFront? (Marks.ofDelimiters {}).opening c.rest =
      some (['{', '{'] ++ name ++ (['}', '}', '}', '}'] ++ (b ++ rawCloser name ++ y))) :=
    dropFront?_eq_some_iff.mpr (by simp [h, rawBlock]; rfl)
  have scanned := named.scanTag_eq body c.line y
  rw [← h] at scanned
  simp only [Cursor.next?, begun, Bool.false_eq_true, if_false, tagged, scanned]

end IsRawName

/-- What is scanned of a text. -/
def textPieces (s : List Char) : List Piece :=
  if s.isEmpty then [] else [.text s]

namespace Cursor

variable {m : Marks} {c : Cursor} (opened : m.opening ≠ [])

include opened

/-- A text in front of a tag is a piece, if there is any. -/
theorem pieces_text {s rest : List Char} (fits : s ≠ [] → (Stretch.text s).Fits m)
    (tag : m.opening <+: rest) (h : c.rest = s ++ rest) :
    c.pieces m = textPieces s ++ (c.moveTo rest).pieces m := by
  unfold textPieces
  split
  · next empty =>
    rw [List.isEmpty_iff.mp empty, List.nil_append] at h
    rw [← h, c.moveTo_rest]
    rfl
  · next filled =>
    have piece := fits (by simpa using filled)
    exact pieces_of_next? (.inl opened) (next?_text opened piece (.inr tag) h)

/-- A text at the end of a template may end in anything. -/
theorem pieces_last {s : List Char} (missing : cut? m.opening s = none) (h : c.rest = s) :
    c.pieces m = textPieces s := by
  unfold textPieces
  split
  · next empty => exact pieces_of_rest_eq_nil (h.trans (List.isEmpty_iff.mp empty))
  · next filled =>
    have begun : c.rest.isEmpty = false := by simpa [h] using filled
    have untagged : dropFront? m.opening c.rest = none :=
      Option.eq_none_iff_forall_ne_some.mpr fun tail tagged =>
        cut?_eq_none_iff.mp missing [] tail (h ▸ dropFront?_eq_some_iff.mp tagged)
    have scanned : scanText m.opening c.rest = (s, []) := by
      rw [h, scanText_of_cut?_eq_none missing]
    have next : c.next? m = some (.text s, c.moveTo []) := by
      simp only [next?, begun, Bool.false_eq_true, if_false, untagged, scanned]
    rw [pieces_of_next? (.inl opened) next, pieces_of_rest_eq_nil rfl]

end Cursor

/-- A text that may stand in front of a raw block: no tag begins in it, also not with its last
character, and it does not end in a backslash. -/
structure IsFront (x : List Char) : Prop where
  plain : ¬ ['{', '{'] <:+: x
  last : x.getLast? ≠ some '{' ∧ x.getLast? ≠ some '\\'

theorem IsFront.fits {x : List Char} (h : IsFront x) (filled : x ≠ []) :
    (Stretch.text x).Fits (Marks.ofDelimiters {}) := by
  refine ⟨filled, fun a b occurs => ?_, h.last.2⟩
  change x ++ ['{', '{'] = a ++ ['{', '{'] ++ b at occurs
  rw [List.append_assoc] at occurs
  rcases List.append_eq_append_iff.mp occurs.symm with ⟨c, rfl, behind⟩ | ⟨c, rfl, behind⟩
  · match c with
    | [] => simpa using behind
    | [d] =>
        obtain ⟨rfl, -⟩ := List.cons.inj behind
        exact absurd (List.getLast?_concat ..) h.last.1
    | d :: e :: c =>
        simp only [List.cons_append, List.nil_append, List.cons.injEq] at behind
        obtain ⟨rfl, rfl, -⟩ := behind
        exact absurd ⟨a, c, by simp⟩ h.plain
  · have length := congrArg List.length behind
    simp only [List.length_append, List.length_cons] at length
    exact List.length_eq_zero_iff.mp (by omega)

/-- A raw block between texts is scanned as it was written. -/
theorem scan_rawBlock {name x b y : List Char} (front : IsFront x) (named : IsRawName name)
    (body : ¬ Closes name b) (back : ¬ ['{', '{'] <:+: y) :
    scan (Marks.ofDelimiters {}) (x ++ (rawBlock name b ++ y)) =
      textPieces x ++ .tag (rawBlockTag name b (x.count '\n' + 1)) :: textPieces y := by
  have opened : (Marks.ofDelimiters {}).opening ≠ [] := by decide
  have missing : cut? (Marks.ofDelimiters {}).opening y = none :=
    cut?_eq_none_iff.mpr fun a b occurs => back ⟨a, b, occurs.symm⟩
  let start := Cursor.start (x ++ (rawBlock name b ++ y))
  let c := start.moveTo (rawBlock name b ++ y)
  have whole : start.rest = x ++ (rawBlock name b ++ y) := rfl
  have tag : (Marks.ofDelimiters {}).opening <+: rawBlock name b ++ y := ⟨_, rfl⟩
  have line : c.line = x.count '\n' + 1 := (Cursor.line_moveTo whole).trans (Nat.add_comm ..)
  calc start.pieces (Marks.ofDelimiters {})
      = textPieces x ++ c.pieces (Marks.ofDelimiters {}) :=
        Cursor.pieces_text opened front.fits tag whole
    _ = textPieces x ++ .tag (rawBlockTag name b c.line) ::
          (c.moveTo y).pieces (Marks.ofDelimiters {}) := by
        rw [Cursor.pieces_of_next? (.inl opened) (named.next?_eq body rfl)]
    _ = textPieces x ++ .tag (rawBlockTag name b (x.count '\n' + 1)) :: textPieces y := by
        rw [Cursor.pieces_last opened missing rfl, line]

/-! ### Reading -/

/-- The tag of a raw block, read. -/
def rawBlockToken (n b : String) (site : Site) : Tag :=
  { kind := .rawBlock b, content := { head := n }, site }

/-- The item of a text. -/
def textItems (s : String) : List Item :=
  if s.isEmpty then [] else [.text s.toList]

/-- A raw block does not take a line with it, and it has no tildes: the text around it is kept as
it is. -/
theorem layout_rawBlock (settings : Settings) (x y : String) (raw : RawTag) (n b : String)
    (site : Site) (plain : raw.stripBefore = false ∧ raw.stripAfter = false) :
    layout settings (textItems x ++ .tag raw (rawBlockToken n b site) :: textItems y) =
      textTokens x ++ .tag (rawBlockToken n b site) :: textTokens y := by
  unfold textItems textTokens
  split <;> split <;>
    simp_all [layout, placeFrom, place, Run.between, Run.ofRange, keptStart, keptStop, stripsAfter,
      stripsBefore, Placed.token?, standsAlone, rawBlockToken, TagKind.mayStandAlone, indentBefore,
      TagKind.isInclusion]

theorem readPieces_text (isHelper : String → Bool) (s : String) (pieces : List Piece) :
    readPieces isHelper (textPieces s.toList ++ pieces) =
      readPieces isHelper pieces >>= fun items => pure (textItems s ++ items) := by
  by_cases empty : s = ""
  · subst empty
    exact (bind_pure _).symm
  · have filled : s.toList.isEmpty = false := by simpa using empty
    simp [textPieces, textItems, filled, empty, readPieces]

theorem checkNesting_rawBlock (x y n b : String) (site : Site) :
    checkNesting (textTokens x ++ .tag (rawBlockToken n b site) :: textTokens y) = pure () := by
  unfold textTokens
  split <;> split <;> rfl

/-- A raw block between texts is one tag between them, whose body is not looked at. -/
theorem readTemplate_rawBlock {settings : Settings} (marks : settings.delimiters = {})
    {n x b y : String} (front : IsFront x.toList) (named : IsRawName n.toList)
    (body : ¬ Closes n.toList b.toList) (back : ¬ ['{', '{'] <:+: y.toList) {source : String}
    (written : source.toList = x.toList ++ (rawBlock n.toList b.toList ++ y.toList))
    (isHelper : String → Bool) :
    ∃ site, let tokens := textTokens x ++ .tag (rawBlockToken n b site) :: textTokens y
      readTemplate settings isHelper source = do
        modify (Report.count (TagKind.rawBlock b).usage)
        modify (Report.addEvent (.validated tokens.length))
        return tokens := by
  let raw := rawBlockTag n.toList b.toList (x.toList.count '\n' + 1)
  have scanned : scan (Marks.ofDelimiters {})
      (x.toList ++ (rawBlock n.toList b.toList ++ y.toList)) =
        textPieces x.toList ++ .tag raw :: textPieces y.toList :=
    scan_rawBlock front named body back
  have plain : raw.stripBefore = false ∧ raw.stripAfter = false := ⟨rfl, rfl⟩
  have kind : readKind isHelper raw = pure (.rawBlock b, ({ head := n } : Content)) := by
    change pure (TagKind.rawBlock (String.ofList b.toList),
      ({ head := String.ofList n.toList } : Content)) = _
    rw [String.ofList_toList, String.ofList_toList]
  have tag : raw.read isHelper = modify (Report.count (TagKind.rawBlock b).usage) >>= fun _ =>
      pure (rawBlockToken n b raw.site) := by
    rw [RawTag.read, kind, pure_bind]
    rfl
  have behind : readPieces isHelper (textPieces y.toList) = pure (textItems y) := by
    have last := readPieces_text isHelper y []
    rwa [List.append_nil, readPieces, pure_bind, List.append_nil] at last
  clear_value raw
  refine ⟨raw.site, ?_⟩
  simp only [readTemplate, marks, written, scanned]
  rw [readPieces_text, readPieces, tag, behind]
  simp only [bind_assoc, pure_bind, layout_rawBlock settings x y raw n b raw.site plain,
    checkNesting_rawBlock]

end Markup

/-! ### Building -/

namespace BuildContext

open Compiling (Yields)

variable {ctx : BuildContext}

/-- A text is put behind the nodes of a plan, the last of which stands first. -/
def withText (s : String) (nodes : Plan) : Plan :=
  if s.isEmpty then nodes else Plan.push (.literal s) nodes

theorem addTokens_text (nodes : Plan) (s : String) (rest : List Markup.Token) :
    ctx.addTokens { root := nodes } (textTokens s ++ rest) =
      ctx.addTokens { root := withText s nodes } rest := by
  unfold textTokens withText
  split <;> rfl

theorem build_rawBlock {n b : String} {site : Site} {node : Node}
    (built : Yields (ctx.rawBlock (Markup.rawBlockToken n b site) b) node) (x y : String) :
    Yields (ctx.build (textTokens x ++ .tag (Markup.rawBlockToken n b site) :: textTokens y))
      (withText y (Plan.push node (withText x []))).reverse := by
  have added : Yields (ctx.addTag { root := withText x [] } (Markup.rawBlockToken n b site))
      { root := Plan.push node (withText x []) } :=
    .bind built (.pure _)
  have behind (nodes : Plan) : ctx.addTokens { root := nodes } (textTokens y) =
      pure { root := withText y nodes } := by
    have last := ctx.addTokens_text nodes y []
    rwa [List.append_nil] at last
  have all : Yields (ctx.addTokens {} (textTokens x ++
      .tag (Markup.rawBlockToken n b site) :: textTokens y))
        { root := withText y (Plan.push node (withText x [])) } := by
    have first := ctx.addTokens_text [] x (.tag (Markup.rawBlockToken n b site) :: textTokens y)
    rw [first, addTokens]
    exact .bind added (by rw [behind]; exact .pure _)
  exact .bind all (.bind (.pure _) (.pure _))

/-- Without a helper of its name, the body of a raw block is a text like those beside it. -/
theorem withText_literal (x b y : String) :
    (withText y (Plan.push (.literal b) (withText x []))).reverse = [.literal (x ++ b ++ y)] := by
  unfold withText
  split <;> split <;> simp_all [Plan.push]

theorem withText_node {node : Node} (other : ∀ text, node ≠ .literal text) (x y : String) :
    (withText y (Plan.push node (withText x []))).reverse = textPlan x ++ node :: textPlan y := by
  have pushed (nodes : Plan) : Plan.push node nodes = node :: nodes := by
    unfold Plan.push
    split
    · exact absurd rfl (other _)
    · rfl
  have alone (text : String) : Plan.push (.literal text) [] = [.literal text] := rfl
  have behind (text : String) (nodes : Plan) :
      Plan.push (.literal text) (node :: nodes) = .literal text :: node :: nodes := by
    unfold Plan.push
    split
    · next same => exact absurd (List.cons.inj same).1 (other _)
    · rfl
  unfold withText textPlan
  split <;> split <;> simp [pushed, alone, behind]

end BuildContext

/-! ### Whole calls -/

/-- A raw block as it is written. -/
def rawBlock (n b : String) : String :=
  "\x7b\x7b\x7b\x7b" ++ n ++ "\x7d\x7d\x7d\x7d" ++ b ++
    "\x7b\x7b\x7b\x7b/" ++ n ++ "\x7d\x7d\x7d\x7d"

/-- The node of a raw block whose name is that of a helper: the helper is called without arguments,
and its block is the body as one literal. -/
def rawBlockCall (n b : String) (style : HelperStyle) : Node :=
  .block (.helper { callee := .helper n, args := [], hash := [] } style false) [.literal b] none []

namespace Registry

theorem compile_rawBlock (registry : Registry) {settings : Settings}
    (marks : settings.delimiters = {}) {n b x y : String} (named : Markup.IsRawName n.toList)
    (body : ¬ Markup.Closes n.toList b.toList) (front : Markup.IsFront x.toList)
    (back : ¬ ['{', '{'] <:+: y.toList) (node : Node)
    (built : ∀ site, (({ settings, registry : Workshop }.builder [] registry.partials).rawBlock
      (Markup.rawBlockToken n b site) b).Yields node) :
    ∃ t, (registry.compile settings (x ++ rawBlock n b ++ y)).result = .ok t ∧
      t.plan = (BuildContext.withText y (Plan.push node (BuildContext.withText x []))).reverse ∧
        t.warnings = [] := by
  have written : (x ++ rawBlock n b ++ y).toList =
      x.toList ++ (Markup.rawBlock n.toList b.toList ++ y.toList) := by
    simp [rawBlock, Markup.rawBlock, Markup.rawCloser]
  obtain ⟨site, read⟩ := Markup.readTemplate_rawBlock marks front named body back written
    registry.hasHelper
  refine registry.compile_of_yields ?_ (BuildContext.build_rawBlock (built site) x y)
  intro c
  rw [reporting_run, read]
  exact ⟨_, rfl, rfl, rfl⟩

/-- With the default delimiters a raw block keeps its body as it is, whatever stands in it except a
tag that closes the block, whatever texts stand beside it, and whatever else is set. It compiles
without a warning. If no helper has its name, the output is the body between the texts; otherwise
the helper is given the body as its block. -/
theorem raw_block_keeps (registry : Registry) {settings : Settings}
    (marks : settings.delimiters = {}) {n b x y : String} (named : Markup.IsRawName n.toList)
    (body : ¬ Markup.Closes n.toList b.toList) (front : Markup.IsFront x.toList)
    (back : ¬ ['{', '{'] <:+: y.toList) :
    ∃ t, (registry.compile settings (x ++ rawBlock n b ++ y)).result = .ok t ∧ t.warnings = [] ∧
      (registry.hasHelper n = false → ∀ input, (t.render input).result = .ok (x ++ b ++ y)) ∧
      ∀ style, registry.style? n = some style →
        t.plan = textPlan x ++ rawBlockCall n b style :: textPlan y := by
  cases known : registry.style? n with
  | none =>
      obtain ⟨t, compiled, plan, quiet⟩ := registry.compile_rawBlock marks named body front back
        (.literal b) fun site => by
          rw [BuildContext.rawBlock]
          simp only [Workshop.builder, Markup.rawBlockToken, known]
          exact .pure _
      refine ⟨t, compiled, quiet, fun _ input => ?_, fun style never => ?_⟩
      · rw [BuildContext.withText_literal] at plan
        obtain ⟨enter?, rendered⟩ := Template.render_single plan rfl input
        exact rendered
      · cases never
  | some style =>
      obtain ⟨t, compiled, plan, quiet⟩ := registry.compile_rawBlock marks named body front back
        (rawBlockCall n b style) fun site => by
          rw [BuildContext.rawBlock]
          simp only [Workshop.builder, Markup.rawBlockToken, known]
          exact .bind (.count _) (.pure _)
      refine ⟨t, compiled, quiet, fun unknown => ?_, fun style' same => ?_⟩
      · simp [hasHelper, known] at unknown
      · cases same
        rw [plan, BuildContext.withText_node (by simp [rawBlockCall])]

/-- Tags, backslashes, tildes, braces at both ends, closing tags of another name and parts of one
of this name. -/
def snippet : String :=
  "\x7d \x7b\x7bx~\x7d\x7d \\ \x7b\x7b\x7b\x7b/r\x7d\x7d\x7d\x7d\n" ++
    "\x7b\x7b\x7b\x7b/raw 1 \x7d\x7d\x7d " ++
    "\x7b\x7b\x7b\x7braw 1\x7d\x7d\x7d\x7d\x7b\x7b\x7b\x7b/\x7b\x7b\x7b"

theorem snippet_kept :
    let n := "raw 1"
    let x := "a \x7bb\\ "
    let y := "\x7d\n c \\\x7b"
    Markup.IsRawName n.toList ∧ ¬ Markup.Closes n.toList snippet.toList ∧
      Markup.IsFront x.toList ∧ ¬ ['{', '{'] <:+: y.toList ∧
      ∃ t, (builtin.compile {} (x ++ rawBlock n snippet ++ y)).result = .ok t ∧
        ∀ input, (t.render input).result = .ok (x ++ snippet ++ y) := by
  intro n x y
  have named : Markup.IsRawName n.toList := ⟨by decide, by decide, by decide +kernel⟩
  have body : ¬ Markup.Closes n.toList snippet.toList :=
    named.closes_iff.not.mpr (by decide +kernel)
  have front : Markup.IsFront x.toList := ⟨by decide +kernel, by decide +kernel⟩
  have back : ¬ ['{', '{'] <:+: y.toList := by decide +kernel
  obtain ⟨t, compiled, -, rendered, -⟩ :=
    @raw_block_keeps builtin {} rfl _ _ _ _ named body front back
  exact ⟨named, body, front, back, t, compiled, rendered (by decide +kernel)⟩

end Registry

end Stencil
