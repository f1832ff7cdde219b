import Mathlib.Data.List.Chain
import Stencil.Markup.Scan

/-!
Scanning loses nothing.

Each piece of a template is scanned from a span of it, and the spans laid end to end are the
template. The span of a tag is the source that the tag keeps, and but for raw blocks it is put
together from the parts of the tag. The span of a text is the text as long as no backslash keeps a
delimiter; two texts never stand side by side, because a text ends only where a tag may begin.
-/

namespace Stencil.Markup

open Text

/-! ### Spans -/

/-- A piece and the characters that it is scanned from. -/
structure Span where
  piece : Piece
  text : List Char

/-- The pieces from a place on with the characters that each takes. -/
def Cursor.spans (m : Marks) (c : Cursor) : List Span :=
  match c.next? m with
  | none => []
  | some (piece, after) =>
    let span : Span := { piece, text := spanTo c.rest after.rest }
    if after.rest.length < c.rest.length then span :: after.spans m else [span]
termination_by c.rest.length

/-- The pieces of a template with the characters that each takes. -/
def spans (m : Marks) (template : List Char) : List Span :=
  (Cursor.start template).spans m

def Piece.isText : Piece → Bool
  | .text _ => true
  | _ => false

def Piece.isFault : Piece → Bool
  | .fault _ => true
  | _ => false

/-- What a piece keeps of the template: the text, or the source of the tag. -/
def Piece.kept : Piece → List Char
  | .text content => content
  | .tag raw => raw.source
  | .fault _ => []

/-- What stands between the opening delimiter and the content: the sigil, and the dashes of a long
comment. -/
def Form.sign : Form → List Char
  | .plain sigil long => sigil.chars ++ if long then ['-', '-'] else []
  | .triple => []
  | .rawBlock _ => []

def Form.isRawBlock : Form → Bool
  | .rawBlock _ => true
  | _ => false

/-- The parts of a tag in order. -/
def RawTag.parts (t : RawTag) : List Char :=
  t.opening ++ t.form.sign ++ t.lead ++ t.inner ++ t.trail ++ t.closing

theorem spanTo_eq {s span rest : List Char} (h : s = span ++ rest) : spanTo s rest = span := by
  simp [spanTo, h]

/-! ### Cuts -/

@[simp] theorem takeTilde_append (content tail : List Char) :
    (takeTilde content).1 ++ ((if (takeTilde content).2 then ['~'] else []) ++ tail) =
      content ++ tail := by
  rw [takeTilde]
  split
  · next tilde =>
    obtain ⟨front, rfl⟩ := List.getLast?_eq_some_iff.mp tilde
    simp
  · rfl

theorem readFront_append (opening s : List Char) :
    (readFront opening s).opening ++ (readFront opening s).body = opening ++ s := by
  unfold readFront
  grind

/-- The delimiter stays at the front of a tag. -/
theorem opening_prefix_readFront (opening s : List Char) :
    opening <+: (readFront opening s).opening := by
  unfold readFront
  grind

theorem longClose?_eq {closing s rest : List Char} {tilde : Bool}
    (h : longClose? closing s = some (tilde, rest)) :
    s = ['-', '-'] ++ (if tilde then ['~'] else []) ++ closing ++ rest := by
  unfold longClose? at h
  split at h
  · obtain ⟨rest, found, ⟨rfl, rfl⟩⟩ := Option.map_eq_some_iff.mp h
    simp [dropFront?_eq_some_iff.mp found]
  · obtain ⟨rest, found, ⟨rfl, rfl⟩⟩ := Option.map_eq_some_iff.mp h
    simp [dropFront?_eq_some_iff.mp found]
  · cases h

theorem cutLong?_eq {closing s content rest : List Char} {tilde : Bool}
    (h : cutLong? closing s = some (content, tilde, rest)) :
    s = content ++ (['-', '-'] ++ (if tilde then ['~'] else []) ++ closing) ++ rest := by
  induction s generalizing content with
  | nil => cases h
  | cons c s ih =>
      rw [cutLong?] at h
      split at h
      · next closed =>
        cases h
        exact longClose?_eq closed
      · obtain ⟨⟨front, more⟩, found, ⟨rfl, rfl⟩⟩ := Option.map_eq_some_iff.mp h
        exact congrArg (c :: ·) (ih found)

theorem cutTriple?_eq {closing s inside mark rest : List Char} {tilde : Bool}
    (h : cutTriple? closing s = some (inside, mark, tilde, rest)) : s = inside ++ mark ++ rest := by
  simp only [cutTriple?] at h
  split at h
  · next plain tilde =>
    split at h
    · cases h
      exact eq_append_of_cut? plain
    · cases h
      exact eq_append_of_cut? tilde
  · next plain _ =>
    cases h
    exact eq_append_of_cut? plain
  · next tilde =>
    cases h
    exact eq_append_of_cut? tilde
  · cases h

theorem cutRawEnd?_suffix {m : Marks} {name s body rest : List Char}
    (h : cutRawEnd? m name s = some (body, rest)) : rest <:+ s := by
  fun_induction cutRawEnd? m name s generalizing body with
  | case1 => cases h
  | case2 => cases h
  | case3 s front tail found ending after closed named =>
      cases h
      rw [eq_append_of_cut? found, eq_append_of_cut? closed]
      exact (List.suffix_append _ _).trans (List.suffix_append _ _)
  | case4 s front tail found ending after closed other ih =>
      obtain ⟨⟨more, rest⟩, found', ⟨rfl, rfl⟩⟩ := Option.map_eq_some_iff.mp h
      rw [eq_append_of_cut? found]
      exact (ih found').trans (List.suffix_append _ _)

/-! ### Tags -/

/-- The rest behind a scanned tag ends what follows its front, the source of the tag is what is
taken, and if it is no raw block its parts make up its source. -/
structure Scanned.Faithful (front : Front) (scanned : Scanned) : Prop where
  rest : scanned.2 <:+ front.body
  source : ∀ raw, scanned.1 = .ok raw → raw.source ++ scanned.2 = front.opening ++ front.body
  parts : ∀ raw, scanned.1 = .ok raw → raw.form.isRawBlock = false → raw.source = raw.parts

theorem Scanned.Faithful.fault {front : Front} {fault : Fault} {rest : List Char}
    (h : rest <:+ front.body) : Scanned.Faithful front (.error fault, rest) :=
  ⟨h, nofun, nofun⟩

/-- A tag is put together from its parts unless it is a raw block, whose body and end come
behind them. -/
theorem Scanned.Faithful.tag {form : Form} {front : Front} {content closing rest : List Char}
    {stripAfter : Bool} {line : Nat} (ends : rest <:+ front.body)
    (whole : form.isRawBlock = false → front.body = form.sign ++ content ++ closing ++ rest) :
    Scanned.Faithful front
      (.ok (mkTag form front content closing stripAfter
        (spanTo (front.opening ++ front.body) rest) line), rest) := by
  obtain ⟨span, body⟩ := ends
  have taken : spanTo (front.opening ++ front.body) rest = front.opening ++ span :=
    spanTo_eq (by rw [← body, List.append_assoc])
  refine ⟨⟨span, body⟩, ?_, ?_⟩
  · rintro _ ⟨rfl⟩
    simp only [mkTag]
    rw [taken, List.append_assoc, body]
  · rintro _ ⟨rfl⟩ plain
    have split : span = form.sign ++ content ++ closing :=
      List.append_cancel_right (body.trans (whole plain))
    have middle : leadingWhite content ++ trimEnd (trimStart content) ++
        trailingWhite (trimStart content) = content := by
      simp
    calc spanTo (front.opening ++ front.body) rest
        = front.opening ++ (form.sign ++ content ++ closing) := by rw [taken, split]
      _ = front.opening ++ form.sign ++ (leadingWhite content ++ trimEnd (trimStart content) ++
            trailingWhite (trimStart content)) ++ closing := by
          rw [middle]
          simp only [List.append_assoc]
      _ = _ := by simp only [RawTag.parts, mkTag, List.append_assoc]

/-- A tag that is put together from its parts. -/
theorem Scanned.Faithful.ofParts {form : Form} {front : Front} {content closing rest : List Char}
    {stripAfter : Bool} {line : Nat}
    (whole : front.body = form.sign ++ content ++ closing ++ rest) :
    Scanned.Faithful front
      (.ok (mkTag form front content closing stripAfter
        (spanTo (front.opening ++ front.body) rest) line), rest) :=
  .tag ⟨_, whole.symm⟩ fun _ => whole

variable (m : Marks) (line : Nat) (front : Front)

theorem scanPlain_faithful :
    (scanPlain m line front (front.opening ++ front.body)).Faithful front := by
  unfold scanPlain
  cases read : Sigil.read front.body with
  | mk sigil body =>
    have start := Sigil.chars_append_of_read read
    simp only
    split
    · next inside long =>
      have dashes : body = ['-', '-'] ++ inside := by
        split at long
        · exact dropFront?_eq_some_iff.mp long
        · cases long
      split
      · exact .fault List.nil_suffix
      · next content tilde rest cut =>
        refine .ofParts ?_
        rw [← start, dashes, cutLong?_eq cut]
        simp [Form.sign]
    · split
      · exact .fault List.nil_suffix
      · next content rest cut =>
        refine .fault ⟨sigil.chars ++ content ++ m.closing ++ ['}'], ?_⟩
        rw [← start, eq_append_of_cut? cut]
        simp
      · next content rest _ cut =>
        refine .ofParts ?_
        rw [← start, eq_append_of_cut? cut]
        simp [Form.sign]

theorem scanTriple_faithful :
    (scanTriple m line front (front.opening ++ front.body)).Faithful front := by
  unfold scanTriple
  split
  · exact .fault List.nil_suffix
  · next content rest plain =>
    have behind : rest <:+ front.body := ⟨_, (eq_append_of_cut? plain).symm⟩
    simp only
    split
    · exact .fault behind
    · next inside mark tilde rest cut =>
      split
      · exact .fault behind
      · refine .ofParts ?_
        rw [cutTriple?_eq cut]
        simp [Form.sign]

theorem scanRawBlock_faithful :
    (scanRawBlock m line front (front.opening ++ front.body)).Faithful front := by
  unfold scanRawBlock
  simp only
  split
  · exact .fault List.nil_suffix
  · next content after opened =>
    split
    · exact .fault List.nil_suffix
    · next body rest ended =>
      refine .tag ?_ fun plain => ?_
      · exact (cutRawEnd?_suffix ended).trans ⟨_, (eq_append_of_cut? opened).symm⟩
      · cases plain

/-- Every tag takes its source and leaves the rest. -/
theorem scanTag_faithful (after : List Char) :
    (scanTag m line (m.opening ++ after) after).Faithful (readFront m.opening after) := by
  unfold scanTag
  rw [← readFront_append]
  simp only
  split
  · exact scanPlain_faithful m line _
  · exact scanTriple_faithful m line _
  · exact scanRawBlock_faithful m line _

/-! ### Texts -/

theorem take_sub_backslashes (s : List Char) :
    s.take (s.length - backslashes s) = dropEndWhile (· == '\\') s := by
  have parts := dropEndWhile_append_takeEndWhile (· == '\\') s
  have length := congrArg List.length parts
  rw [List.length_append] at length
  calc s.take (s.length - backslashes s)
      = s.take (dropEndWhile (· == '\\') s).length := by
        rw [← length]
        exact congrArg s.take (Nat.add_sub_cancel _ _)
    _ = (dropEndWhile (· == '\\') s ++ takeEndWhile (· == '\\') s).take
          (dropEndWhile (· == '\\') s).length := by rw [parts]
    _ = dropEndWhile (· == '\\') s := List.take_left

/-- A text ends in its backslashes. -/
theorem take_append_backslashes (s : List Char) :
    s.take (s.length - backslashes s) ++ List.replicate (backslashes s) '\\' = s := by
  have tail : takeEndWhile (· == '\\') s = List.replicate (backslashes s) '\\' := by
    refine List.eq_replicate_iff.mpr ⟨rfl, fun c member => ?_⟩
    rw [takeEndWhile, List.mem_reverse] at member
    exact beq_iff_eq.mp (List.all_eq_true.mp List.all_takeWhile c member)
  rw [take_sub_backslashes, ← tail, dropEndWhile_append_takeEndWhile]

variable {opening : List Char}

/-- A text takes a span of the template. It ends where a tag begins, or with the template. -/
theorem scanText_rest (opening s : List Char) :
    ∃ span, s = span ++ (scanText opening s).2 ∧
      ((scanText opening s).2 = [] ∨ opening <+: (scanText opening s).2) := by
  fun_induction scanText opening s with
  | case1 s missing => exact ⟨s, by simp⟩
  | case2 s front after cut slashes kept odd text rest scanned ih =>
      obtain ⟨span, taken, ends⟩ := ih
      rw [scanned] at taken ends
      refine ⟨front ++ opening ++ span, ?_, ends⟩
      rw [eq_append_of_cut? cut, List.append_assoc _ span, ← taken]
  | case3 s front after cut slashes kept even =>
      refine ⟨front, ?_, .inr (List.prefix_append _ _)⟩
      rw [eq_append_of_cut? cut, List.append_assoc]

/-- What does not begin with a delimiter begins with a text that is not empty. -/
theorem scanText_ne_nil {s : List Char} (opened : opening ≠ []) (filled : s ≠ [])
    (closed : dropFront? opening s = none) : (scanText opening s).1 ≠ [] := by
  rw [scanText]
  split
  · exact filled
  · next front after cut =>
    have begun : front ≠ [] := by
      rintro rfl
      have found : dropFront? opening s = some after :=
        dropFront?_eq_some_iff.mpr (eq_append_of_cut? cut)
      rw [closed] at found
      cases found
    simp only
    split
    · simp [opened]
    · next even =>
      -- of two backslashes one stays, and without any the whole front does
      cases count : backslashes front with
      | zero => simp [begun]
      | succ n =>
          have some_left : (n + 1) / 2 ≠ 0 := by omega
          simp [some_left]

/-- Without a backslash in front of a delimiter a text is what it takes. -/
theorem scanText_unescaped {s : List Char} (plain : ¬ '\\' :: opening <:+: s) :
    (scanText opening s).1 ++ (scanText opening s).2 = s := by
  rw [scanText]
  split
  · exact List.append_nil s
  · next front after cut =>
    have parts := take_append_backslashes front
    have split := eq_append_of_cut? cut
    have none : backslashes front = 0 := by
      cases count : backslashes front with
      | zero => rfl
      | succ n =>
          rw [count, List.replicate_succ'] at parts
          let before := front.take (front.length - (n + 1)) ++ List.replicate n '\\'
          refine absurd ⟨before, after, ?_⟩ plain
          rw [split, ← parts]
          simp [before]
    simp [none, split]

/-! ### Pieces -/

/-- What a piece says of its span: a text is not empty, and a tag keeps its span as its source,
which its parts make up unless it is a raw block. -/
structure Span.Faithful (span : Span) : Prop where
  filled : ∀ content, span.piece = .text content → content ≠ []
  source : ∀ raw, span.piece = .tag raw → raw.source = span.text
  parts : ∀ raw, span.piece = .tag raw → raw.form.isRawBlock = false → raw.source = raw.parts

/-- One step of a scan takes a span off the rest. -/
structure Cursor.Takes (m : Marks) (c : Cursor) (span : Span) (after : Cursor) : Prop where
  rest : c.rest = span.text ++ after.rest
  shorter : after.rest.length < c.rest.length
  faithful : span.Faithful
  /-- A text stands where no tag begins, and ends where one may. -/
  bounded : span.piece.isText = true →
    ¬ m.opening <+: c.rest ∧ (after.rest = [] ∨ m.opening <+: after.rest)
  kept : ¬ '\\' :: m.opening <:+: c.rest → span.piece.isFault = false → span.text = span.piece.kept

variable {m} {c after : Cursor} {piece : Piece}

theorem Cursor.takes_text (opened : m.opening ≠ []) (filled : c.rest ≠ [])
    (closed : dropFront? m.opening c.rest = none) :
    let (content, rest) := scanText m.opening c.rest
    c.Takes m { piece := .text content, text := spanTo c.rest rest } (c.moveTo rest) := by
  have untagged : ¬ m.opening <+: c.rest := by
    rintro ⟨tail, start⟩
    rw [dropFront?_eq_some_iff.mpr start.symm] at closed
    cases closed
  obtain ⟨span, taken, ends⟩ := scanText_rest m.opening c.rest
  have progress : span ≠ [] := by
    rintro rfl
    rw [List.nil_append] at taken
    rw [← taken] at ends
    exact ends.elim filled untagged
  have text : spanTo c.rest (scanText m.opening c.rest).2 = span := spanTo_eq taken
  simp only [text]
  refine ⟨taken, ?_, ⟨?_, nofun, nofun⟩, fun _ => ⟨untagged, ends⟩, fun plain _ => ?_⟩
  · have length := congrArg List.length taken
    rw [List.length_append] at length
    have := List.length_pos_iff.mpr progress
    change (scanText m.opening c.rest).2.length < c.rest.length
    omega
  · rintro _ ⟨rfl⟩
    exact scanText_ne_nil opened filled closed
  · exact List.append_cancel_right (taken.symm.trans (scanText_unescaped plain).symm)

theorem Cursor.takes_tag (opened : m.opening ≠ []) {tail : List Char}
    (tagged : dropFront? m.opening c.rest = some tail) :
    let (outcome, rest) := scanTag m c.line c.rest tail
    let piece := match outcome with
      | .ok raw => .tag raw
      | .error fault => .fault (fault.diagnostic m c rest)
    c.Takes m { piece, text := spanTo c.rest rest } (c.moveTo rest) := by
  have start := dropFront?_eq_some_iff.mp tagged
  have faithful := scanTag_faithful m c.line tail
  rw [← start] at faithful
  generalize scanTag m c.line c.rest tail = scanned at faithful
  obtain ⟨outcome, rest⟩ := scanned
  obtain ⟨⟨span, body⟩, source, parts⟩ := faithful
  have parted := readFront_append m.opening tail
  rw [← start] at parted
  have taken : c.rest = ((readFront m.opening tail).opening ++ span) ++ rest := by
    rw [← parted, ← body, List.append_assoc]
  have text : spanTo c.rest rest = (readFront m.opening tail).opening ++ span := spanTo_eq taken
  have shorter : rest.length < c.rest.length := by
    have length := congrArg List.length taken
    simp only [List.length_append] at length
    have := List.length_pos_iff.mpr opened
    have := (opening_prefix_readFront m.opening tail).length_le
    omega
  have kept (raw : RawTag) (h : outcome = .ok raw) : raw.source = spanTo c.rest rest := by
    refine List.append_cancel_right ((source raw h).trans ?_)
    rw [text, ← taken, parted]
  cases outcome with
  | error fault =>
      exact ⟨by rw [text]; exact taken, shorter, ⟨nofun, nofun, nofun⟩, nofun, fun _ => nofun⟩
  | ok raw =>
      refine ⟨by rw [text]; exact taken, shorter, ⟨nofun, ?_, ?_⟩, nofun, fun _ _ => ?_⟩
      · rintro _ ⟨rfl⟩
        exact kept raw rfl
      · rintro _ ⟨rfl⟩
        exact parts raw rfl
      · exact (kept raw rfl).symm

theorem Cursor.takes_next? (opened : m.opening ≠ []) (h : c.next? m = some (piece, after)) :
    c.Takes m { piece, text := spanTo c.rest after.rest } after := by
  unfold Cursor.next? at h
  split at h
  · cases h
  · next filled =>
    split at h
    · next closed =>
      have takes := Cursor.takes_text opened (by simpa using filled) closed
      cases h
      exact takes
    · next tail tagged =>
      have takes := Cursor.takes_tag opened tagged
      cases h
      exact takes

/-! ### Whole templates -/

/-- Spans that are laid end to end over a template and lose nothing of it. -/
structure Lossless (m : Marks) (template : List Char) (spans : List Span) : Prop where
  covers : (spans.map Span.text).flatten = template
  faithful : ∀ span ∈ spans, span.Faithful
  apart : spans.IsChain fun a b => ¬ (a.piece.isText = true ∧ b.piece.isText = true)
  rejoins : ¬ '\\' :: m.opening <:+: template → (∀ span ∈ spans, span.piece.isFault = false) →
    (spans.map fun span => span.piece.kept).flatten = template

theorem Cursor.spans_piece (m : Marks) (c : Cursor) :
    (c.spans m).map Span.piece = c.pieces m := by
  fun_induction Cursor.spans m c with
  | case1 c ended => rw [Cursor.pieces, ended, List.map_nil]
  | case2 c piece after next span shorter ih =>
      rw [Cursor.pieces, next]
      simp only [if_pos shorter, List.map_cons, ih]
      rfl
  | case3 c piece after next span idle =>
      rw [Cursor.pieces, next]
      simp only [if_neg idle, List.map_cons, List.map_nil]
      rfl

/-- Where a text ends no text begins. -/
theorem Cursor.not_isText_of_head? (opened : m.opening ≠ [])
    (ends : c.rest = [] ∨ m.opening <+: c.rest) {span : Span} (h : span ∈ (c.spans m).head?) :
    span.piece.isText = false := by
  rw [Cursor.spans] at h
  split at h
  · cases h
  · next piece after next =>
    have takes := Cursor.takes_next? opened next
    rw [if_pos takes.shorter] at h
    cases h
    refine Bool.eq_false_iff.mpr fun text => ?_
    obtain ⟨untagged, -⟩ := takes.bounded text
    rcases ends with ended | tagged
    · have shorter := takes.shorter
      simp [ended] at shorter
    · exact untagged tagged

/-- The spans from a place on are laid end to end over the rest. By induction on the steps. -/
theorem Cursor.spans_lossless (opened : m.opening ≠ []) (c : Cursor) :
    Lossless m c.rest (c.spans m) := by
  fun_induction Cursor.spans m c with
  | case1 c ended =>
      have empty : c.rest = [] := by
        unfold Cursor.next? at ended
        split at ended
        · next empty => exact List.isEmpty_iff.mp empty
        · split at ended <;> cases ended
      rw [empty]
      exact ⟨rfl, nofun, .nil, fun _ _ => rfl⟩
  | case2 c piece after next span shorter ih =>
      have takes := Cursor.takes_next? opened next
      have behind : after.rest <:+ c.rest := ⟨_, takes.rest.symm⟩
      refine ⟨?_, List.forall_mem_cons.mpr ⟨takes.faithful, ih.faithful⟩, ?_, ?_⟩
      · rw [List.map_cons, List.flatten_cons, ih.covers]
        exact takes.rest.symm
      · refine List.isChain_cons.mpr ⟨fun following first both => ?_, ih.apart⟩
        obtain ⟨-, ends⟩ := takes.bounded both.1
        rw [Cursor.not_isText_of_head? opened ends first] at both
        exact Bool.false_ne_true both.2
      · intro plain whole
        obtain ⟨first, others⟩ := List.forall_mem_cons.mp whole
        have rest := ih.rejoins (fun kept => plain (kept.trans behind.isInfix)) others
        rw [List.map_cons, List.flatten_cons, rest, ← takes.kept plain first]
        exact takes.rest.symm
  | case3 c piece after next span idle =>
      exact absurd (Cursor.takes_next? opened next).shorter idle

/-- For every template and all delimiters of which the opening one is not empty, the pieces of a
scan take spans that are laid end to end over the template. No text is empty or stands beside
another one, every tag keeps its span as its source, and all but raw blocks are made up of their
parts. If no piece is a fault and no backslash stands before a delimiter, the texts and the sources
of the tags in order are the template. -/
theorem scan_lossless (m : Marks) (opened : m.opening ≠ []) (template : List Char) :
    (spans m template).map Span.piece = scan m template ∧
      Lossless m template (spans m template) :=
  ⟨Cursor.spans_piece m _, Cursor.spans_lossless opened (Cursor.start template)⟩

/-- A template with every form of tag. -/
def everyForm : List Char :=
  ("Dear \x7b\x7b~name ~\x7d\x7d,\x7b\x7b!-- \x7d\x7d --\x7d\x7d \x7b\x7b\x7b y~\x7d\x7d\x7d" ++
    "\x7b\x7b\x7b\x7br\x7d\x7d\x7d\x7d\x7b\x7bz\x7d\x7d\x7b\x7b\x7b\x7b/r\x7d\x7d\x7d\x7d").toList

theorem everyForm_lossless :
    let m := Marks.ofDelimiters {}
    m.opening ≠ [] ∧ (scan m everyForm).length = 7 ∧
      (spans m everyForm).map Span.piece = scan m everyForm ∧
        Lossless m everyForm (spans m everyForm) ∧
      ((spans m everyForm).map fun span => span.piece.kept).flatten = everyForm := by
  intro m
  have opened : m.opening ≠ [] := by decide
  have plain : ¬ '\\' :: m.opening <:+: everyForm := by decide +kernel
  have whole : ∀ span ∈ spans m everyForm, span.piece.isFault = false := by decide +kernel
  obtain ⟨pieces, lossless⟩ := scan_lossless m opened everyForm
  exact ⟨opened, by decide +kernel, pieces, lossless, lossless.rejoins plain whole⟩

end Stencil.Markup
