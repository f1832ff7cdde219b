import Stencil.Markup.Nesting
import Stencil.Proofs.Markup.Spans
import Stencil.Proofs.Text.Lines

/-!
Tags alone on their line.

Whether a tag is alone on its line is decided from the runs of text beside it. The same can be read
off the template: nothing but indentation stands between the tag and the nearest line ends. The two
agree because the ends of every other tag are ink, and because the backslashes that a run loses are.
What is removed is then a part of the line of the tag as it stands in the template. The tags may be
visited in any order, since each looks at the runs as they were written, and cuts only move inwards.
-/

namespace Stencil.Markup

open Text

/-! ### Ink -/

/-- Delimiters that are not blank and have no line end. -/
structure Marks.IsVisible (m : Marks) : Prop where
  opening : IsInk m.opening
  closing : IsInk m.closing

theorem Marks.isVisible_default : (Marks.ofDelimiters {}).IsVisible :=
  ⟨⟨by decide, by decide⟩, by decide, by decide⟩

theorem Marks.IsVisible.opening_ne_nil {m : Marks} (visible : m.IsVisible) : m.opening ≠ [] :=
  visible.opening.ne_nil_of_prefix List.prefix_rfl

theorem isInk_slashes {n : Nat} (h : n ≠ 0) : IsInk (List.replicate n '\\') := by
  obtain ⟨n, rfl⟩ := Nat.exists_eq_succ_of_ne_zero h
  exact ⟨by simp, rfl⟩

/-! ### The ends of tags -/

theorem cutRawEnd?_closing {m : Marks} {name s body rest : List Char}
    (h : cutRawEnd? m name s = some (body, rest)) : m.closing ++ rest <:+ s := by
  fun_induction cutRawEnd? m name s generalizing body with
  | case1 => cases h
  | case2 => cases h
  | case3 s front tail found ending after closed named =>
      cases h
      rw [eq_append_of_cut? found, eq_append_of_cut? closed]
      exact ⟨front ++ rawEnd m ++ ending ++ ['}', '}'], by simp⟩
  | case4 s front tail found ending after closed other ih =>
      obtain ⟨⟨more, rest⟩, found', ⟨rfl, rfl⟩⟩ := Option.map_eq_some_iff.mp h
      rw [eq_append_of_cut? found]
      exact (ih found').trans (List.suffix_append _ _)

theorem cutTriple?_closing {closing s inside mark rest : List Char} {tilde : Bool}
    (h : cutTriple? closing s = some (inside, mark, tilde, rest)) : closing <:+ mark := by
  have plain : closing <:+ '}' :: closing := ⟨['}'], rfl⟩
  have tilded : closing <:+ '}' :: '~' :: closing := ⟨['}', '~'], rfl⟩
  unfold cutTriple? at h
  grind

/-- The closing delimiter stands before the rest that a tag leaves. -/
def Scanned.Closed (m : Marks) (front : Front) (scanned : Scanned) : Prop :=
  ∀ raw, scanned.1 = .ok raw → m.closing ++ scanned.2 <:+ front.body

variable (m : Marks) (line : Nat) (front : Front) (s : List Char)

theorem scanPlain_closed : (scanPlain m line front s).Closed m front := by
  unfold scanPlain
  cases read : Sigil.read front.body with
  | mk sigil body =>
    have start := Sigil.chars_append_of_read read
    have inside : body <:+ front.body := ⟨_, start⟩
    simp only
    split
    · next long found =>
      have dashes : long <:+ body := by
        split at found
        · exact ⟨_, (dropFront?_eq_some_iff.mp found).symm⟩
        · cases found
      split
      · exact nofun
      · next content tilde rest cut =>
        refine fun _ _ => (List.IsSuffix.trans ?_ dashes).trans inside
        rw [cutLong?_eq cut]
        exact ⟨content ++ (['-', '-'] ++ if tilde then ['~'] else []), by simp⟩
    · split
      · exact nofun
      · exact nofun
      · next content rest _ cut =>
        refine fun _ _ => List.IsSuffix.trans ?_ inside
        rw [eq_append_of_cut? cut, List.append_assoc]
        exact List.suffix_append _ _

theorem scanTriple_closed : (scanTriple m line front s).Closed m front := by
  unfold scanTriple
  split
  · rintro _ ⟨⟩
  · simp only
    split
    · rintro _ ⟨⟩
    · next inside mark tilde rest cut =>
      split
      · rintro _ ⟨⟩
      · intro _ _
        obtain ⟨braces, rfl⟩ := cutTriple?_closing cut
        rw [cutTriple?_eq cut]
        exact ⟨inside ++ braces, by simp⟩

theorem scanRawBlock_closed : (scanRawBlock m line front s).Closed m front := by
  unfold scanRawBlock
  simp only
  split
  · rintro _ ⟨⟩
  · next content after opened =>
    split
    · rintro _ ⟨⟩
    · next body rest ended =>
      exact fun _ _ =>
        (cutRawEnd?_closing ended).trans ⟨_, (eq_append_of_cut? opened).symm⟩

theorem scanTag_closed (after : List Char) :
    (scanTag m line s after).Closed m (readFront m.opening after) := by
  unfold scanTag
  simp only
  split
  · exact scanPlain_closed m line _ s
  · exact scanTriple_closed m line _ s
  · exact scanRawBlock_closed m line _ s

variable {m line s}

/-- The source of a tag starts with the opening delimiter and ends with the closing one. -/
theorem scanTag_ends {raw : RawTag} {after : List Char}
    (h : (scanTag m line (m.opening ++ after) after).1 = .ok raw) :
    m.opening <+: raw.source ∧ m.closing <:+ raw.source := by
  have whole := (scanTag_faithful m line after).source raw h
  obtain ⟨inside, body⟩ := scanTag_closed m line (m.opening ++ after) after raw h
  have source : raw.source = (readFront m.opening after).opening ++ inside ++ m.closing := by
    refine List.append_cancel_right (whole.trans ?_)
    rw [← body]
    simp only [List.append_assoc]
  rw [source, List.append_assoc]
  exact ⟨(opening_prefix_readFront _ _).trans (List.prefix_append _ _),
    ⟨_, List.append_assoc ..⟩⟩

/-! ### The ends of texts -/

/-- Texts that start alike and end alike. -/
structure EdgesAlike (a b : List Char) : Prop where
  start : StartsAlike a b
  stop : StartsAlike a.reverse b.reverse

namespace EdgesAlike

theorem refl (a : List Char) : EdgesAlike a a :=
  ⟨.refl a, .refl a.reverse⟩

theorem ink {a b : List Char} (ha : IsInk a) (hb : IsInk b) : EdgesAlike a b :=
  ⟨.ink ha hb, .ink ha.reverse hb.reverse⟩

theorem append {a b c d : List Char} (front : EdgesAlike a b) (back : EdgesAlike c d) :
    EdgesAlike (a ++ c) (b ++ d) := by
  refine ⟨front.start.append back.start, ?_⟩
  rw [List.reverse_append, List.reverse_append]
  exact back.stop.append front.stop

end EdgesAlike

/-- The backslashes that a text loses are ink at either end of it. -/
theorem scanText_edgesAlike {opening : List Char} (ink : IsInk opening) (s : List Char) :
    EdgesAlike (scanText opening s).1 (spanTo s (scanText opening s).2) := by
  fun_induction scanText opening s with
  | case1 s missing => simpa [spanTo] using EdgesAlike.refl s
  | case2 s front after cut slashes kept odd text rest scanned ih =>
      rw [scanned] at ih
      obtain ⟨span, taken, -⟩ := scanText_rest opening after
      rw [scanned] at taken
      have inner : spanTo after rest = span := spanTo_eq taken
      have outer : spanTo s rest = front ++ opening ++ span := by
        refine spanTo_eq ?_
        rw [eq_append_of_cut? cut, taken]
        simp only [List.append_assoc]
      have parts : front.take (front.length - slashes) ++ List.replicate slashes '\\' = front :=
        take_append_backslashes front
      rw [outer, ← inner, ← parts]
      simp only [kept, List.append_assoc]
      refine (EdgesAlike.refl _).append ?_
      rw [← List.append_assoc, ← List.append_assoc]
      refine EdgesAlike.append (.ink ?_ ?_) ih
      · exact ink.append_left (by simp)
      · exact ink.append_left (by simp)
  | case3 s front after cut slashes kept even =>
      have outer : spanTo s (opening ++ after) = front := by
        refine spanTo_eq ?_
        rw [eq_append_of_cut? cut, List.append_assoc]
      have parts : front.take (front.length - slashes) ++ List.replicate slashes '\\' = front :=
        take_append_backslashes front
      rw [outer]
      conv => arg 2; rw [← parts]
      refine (EdgesAlike.refl _).append ?_
      by_cases none : slashes = 0
      · rw [none]
        exact .refl _
      · exact .ink (isInk_slashes (by omega)) (isInk_slashes none)

/-! ### Items and their sources -/

/-- The piece of a template that an item is read from. -/
def Item.piece : Item → Piece
  | .text content => .text content
  | .tag raw _ => .tag raw

/-- Without faults every piece becomes an item. -/
theorem readPieces_piece (isHelper : String → Bool) {pieces : List Piece}
    (faultless : ∀ piece ∈ pieces, piece.isFault = false) (r : Report) :
    ((readPieces isHelper pieces).run r).1.map Item.piece = pieces := by
  induction pieces generalizing r with
  | nil => rfl
  | cons piece pieces ih =>
      obtain ⟨first, others⟩ := List.forall_mem_cons.mp faultless
      cases piece with
      | text content => exact congrArg (.text content :: ·) (ih others r)
      | tag raw => exact congrArg (.tag raw :: ·) (ih others _)
      | fault cause => cases first

/-- An item beside the characters that it is read from. -/
inductive Item.Stands (m : Marks) : Item → List Char → Prop
  | text {content source : List Char} (edges : EdgesAlike content source) :
      Stands m (.text content) source
  | tag {raw : RawTag} (tag : Tag) (front : m.opening <+: raw.source)
      (back : m.closing <:+ raw.source) : Stands m (.tag raw tag) raw.source

/-- Not both are texts. -/
def Item.Apart (a b : Item) : Prop :=
  ¬ (a.piece.isText = true ∧ b.piece.isText = true)

theorem Cursor.stands_next? {c after : Cursor} {item : Item} (visible : m.IsVisible)
    (h : c.next? m = some (item.piece, after)) :
    item.Stands m (spanTo c.rest after.rest) := by
  have takes := Cursor.takes_next? visible.opening_ne_nil h
  unfold Cursor.next? at h
  split at h
  · cases h
  · split at h
    · cases item with
      | text content =>
          cases h
          exact .text (scanText_edgesAlike visible.opening c.rest)
      | tag raw tag => cases h
    · next tail tagged =>
      cases item with
      | text content =>
          simp only [Option.some.injEq, Prod.mk.injEq] at h
          obtain ⟨piece, -⟩ := h
          split at piece <;> cases piece
      | tag raw tag =>
          have source : raw.source = spanTo c.rest after.rest := takes.faithful.source raw rfl
          simp only [Option.some.injEq, Prod.mk.injEq] at h
          obtain ⟨piece, -⟩ := h
          split at piece
          · next scanned =>
            cases piece
            rw [dropFront?_eq_some_iff.mp tagged] at scanned
            obtain ⟨front, back⟩ := scanTag_ends scanned
            rw [← source]
            exact .tag tag front back
          · cases piece

theorem Cursor.spans_stands (visible : m.IsVisible) (c : Cursor) (items : List Item) :
    items.map Item.piece = (c.spans m).map Span.piece →
      List.Forall₂ (Item.Stands m) items ((c.spans m).map Span.text) := by
  revert items
  fun_induction Cursor.spans m c with
  | case1 c ended =>
      intro items h
      rw [List.map_nil, List.map_eq_nil_iff] at h
      rw [h]
      exact .nil
  | case2 c piece after next span shorter ih =>
      intro items h
      obtain ⟨item, items, rfl, rfl, others⟩ := List.map_eq_cons_iff.mp h
      exact .cons (Cursor.stands_next? visible next) (ih items others)
  | case3 c piece after next span idle =>
      exact absurd (Cursor.takes_next? visible.opening_ne_nil next).shorter idle

/-- The items of a template stand beside the spans of it, and no two texts are neighbours. -/
theorem items_stand (visible : m.IsVisible) {template : List Char} {items : List Item}
    (h : items.map Item.piece = scan m template) :
    List.Forall₂ (Item.Stands m) items ((spans m template).map Span.text) ∧
      items.IsChain Item.Apart := by
  have pieces : items.map Item.piece = (spans m template).map Span.piece :=
    h.trans (Cursor.spans_piece m _).symm
  have apart := (Cursor.spans_lossless visible.opening_ne_nil (Cursor.start template)).apart
  refine ⟨Cursor.spans_stands visible _ items pieces, ?_⟩
  have chain : (items.map Item.piece).IsChain fun a b => ¬ (a.isText = true ∧ b.isText = true) := by
    rw [pieces]
    exact (List.isChain_map _).mpr apart
  exact (List.isChain_map Item.piece).mp chain

/-! ### The line of a tag -/

section Lines

variable {content : List Char} {items : List Item} {sources : List (List Char)}

theorem Item.Apart.symm {a b : Item} (h : a.Apart b) : b.Apart a :=
  fun both => h both.symm

theorem clearAfter_text : clearAfter (.text content :: items) = true ↔
    isBlank (firstLine content) = true ∧ ('\n' ∈ content ∨ items = []) := by
  simp [clearAfter]

theorem clearBefore_text : clearBefore (.text content :: items) = true ↔
    isBlank (firstLine content.reverse) = true ∧ ('\n' ∈ content.reverse ∨ items = []) := by
  simp [clearBefore, lastLine_eq_reverse]

/-- Behind a text the template ends or a tag begins. -/
theorem ends_behind_text (visible : m.IsVisible)
    (stands : List.Forall₂ (Item.Stands m) items sources)
    (apart : (.text content :: items).IsChain Item.Apart) :
    (sources.flatten = [] ∨ m.opening <+: sources.flatten) ∧
      (sources.flatten = [] ↔ items = []) := by
  cases stands with
  | nil => simp
  | cons first others =>
      cases first with
      | text edges => exact absurd ⟨rfl, rfl⟩ (List.isChain_cons_cons.mp apart).1
      | tag tag front back =>
          have begins := front.trans (List.prefix_append _ (List.flatten ‹_›))
          exact ⟨.inr begins, by simpa using visible.opening.ne_nil_of_prefix begins⟩

/-- Before a text the template starts or a tag ends. The nearest item stands first. -/
theorem ends_before_text (visible : m.IsVisible)
    (stands : List.Forall₂ (Item.Stands m) items sources)
    (apart : (.text content :: items).IsChain Item.Apart) :
    (sources.reverse.flatten.reverse = [] ∨ m.closing.reverse <+: sources.reverse.flatten.reverse) ∧
      (sources.reverse.flatten.reverse = [] ↔ items = []) := by
  cases stands with
  | nil => simp
  | @cons item source items sources first others =>
      have nearest : (source :: sources).reverse.flatten.reverse =
          source.reverse ++ sources.reverse.flatten.reverse := by
        simp only [List.reverse_cons, List.flatten_append, List.reverse_append, List.flatten_cons,
          List.flatten_nil, List.append_nil]
      cases first with
      | text edges => exact absurd ⟨rfl, rfl⟩ (List.isChain_cons_cons.mp apart).1
      | tag tag front back =>
          rw [nearest]
          have begins := (List.reverse_prefix.mpr back).trans
            (List.prefix_append _ sources.reverse.flatten.reverse)
          exact ⟨.inr begins, by simpa using visible.closing.reverse.ne_nil_of_prefix begins⟩

/-- Only indentation stands between a tag and the line end in the items if that is so in the
template. -/
theorem clearAfter_iff (visible : m.IsVisible)
    (stands : List.Forall₂ (Item.Stands m) items sources) (apart : items.IsChain Item.Apart) :
    clearAfter items = true ↔ isBlank (firstLine sources.flatten) = true := by
  cases stands with
  | nil => simp [clearAfter, isBlank]
  | @cons item source items sources first others =>
      rw [List.flatten_cons]
      cases first with
      | text edges =>
          obtain ⟨ends, last⟩ := ends_behind_text visible others apart
          rw [clearAfter_text, edges.start.isBlank_iff visible.opening ends, last]
      | @tag raw tag front back =>
          have begins : m.opening <+: raw.source ++ sources.flatten :=
            front.trans (List.prefix_append _ _)
          simp [clearAfter, visible.opening.firstLine_of_prefix begins]

/-- Behind a tag alone on its line, the first line of the run is that of the template. -/
theorem throughLine_of_clearAfter (visible : m.IsVisible)
    (stands : List.Forall₂ (Item.Stands m) (.text content :: items) sources)
    (apart : (.text content :: items).IsChain Item.Apart)
    (clear : clearAfter (.text content :: items) = true) :
    throughLine sources.flatten = throughLine content := by
  obtain ⟨blank, ends⟩ := clearAfter_text.mp clear
  cases stands with
  | cons first others =>
      cases first with
      | text edges =>
          rw [← (ends_behind_text visible others apart).2] at ends
          exact edges.start.throughLine_eq blank ends

/-- Only indentation stands between the line start and a tag in the items if that is so in the
template. -/
theorem clearBefore_iff (visible : m.IsVisible)
    (stands : List.Forall₂ (Item.Stands m) items sources) (apart : items.IsChain Item.Apart) :
    clearBefore items = true ↔ isBlank (lastLine sources.reverse.flatten) = true := by
  cases stands with
  | nil => simp [clearBefore, isBlank, lastLine, takeEndWhile]
  | @cons item source items sources first others =>
      rw [List.reverse_cons, List.flatten_concat]
      cases first with
      | text edges =>
          obtain ⟨ends, last⟩ := ends_before_text visible others apart
          rw [clearBefore_text, lastLine_eq_reverse, isBlank_reverse, List.reverse_append,
            edges.stop.isBlank_iff visible.closing.reverse ends, last]
      | @tag raw tag front back =>
          have stops : m.closing <:+ sources.reverse.flatten ++ raw.source :=
            back.trans (List.suffix_append _ _)
          simp [clearBefore, visible.closing.lastLine_of_suffix stops]

/-- Before a tag alone on its line, the last line of the run is that of the template. -/
theorem lastLine_of_clearBefore (visible : m.IsVisible)
    (stands : List.Forall₂ (Item.Stands m) (.text content :: items) sources)
    (apart : (.text content :: items).IsChain Item.Apart)
    (clear : clearBefore (.text content :: items) = true) :
    lastLine sources.reverse.flatten = lastLine content := by
  obtain ⟨blank, ends⟩ := clearBefore_text.mp clear
  cases stands with
  | @cons _ source _ sources first others =>
      cases first with
      | text edges =>
          rw [← (ends_before_text visible others apart).2] at ends
          rw [List.reverse_cons, List.flatten_concat, lastLine_eq_reverse, lastLine_eq_reverse,
            List.reverse_append, edges.stop.firstLine_eq blank ends]

end Lines

/-! ### Visiting the tags -/

/-- A piece of a run, from one place up to another. -/
structure Range where
  start : Nat
  stop : Nat
  deriving DecidableEq

/-- All of an item. -/
def Item.whole : Item → Range
  | .text content => { start := 0, stop := content.length }
  | .tag .. => { start := 0, stop := 0 }

/-- Visits the item at a place. A tag that stands alone takes its line off the runs beside it. -/
def trimAt (s : Settings) (items : List Item) (kept : Nat → Range) (i : Nat) : Nat → Range :=
  match items[i]? with
  | some (.tag _ tag) =>
    if standsAlone s (items.take i).reverse tag (items.drop (i + 1)) then fun j =>
      match items[j]? with
      | some (.text t) =>
        if j = i + 1 then
          { kept j with start := max (kept j).start (min t.length ((firstLine t).length + 1)) }
        else if i = j + 1 ∧ keepsIndent s tag = false then
          { kept j with stop := min (kept j).stop (t.length - (lastLine t).length) }
        else kept j
      | _ => kept j
    else kept
  | _ => kept

/-- What is kept of each item when places are visited in the given order. -/
def trimInOrder (s : Settings) (items : List Item) (order : List Nat) : Nat → Range :=
  order.foldl (trimAt s items) fun i => (items[i]?.map Item.whole).getD { start := 0, stop := 0 }

section Visits

variable {s : Settings} {items : List Item} {i j : Nat} {t : List Char}

theorem drop_of_getElem? {item : Item} (h : items[i]? = some item) :
    items.drop i = item :: items.drop (i + 1) := by
  obtain ⟨bound, rfl⟩ := List.getElem?_eq_some_iff.mp h
  exact List.drop_eq_getElem_cons bound

theorem take_of_getElem? {item : Item} (h : items[i]? = some item) :
    (items.take (i + 1)).reverse = item :: (items.take i).reverse := by
  rw [List.take_add_one, h, Option.toList_some, List.reverse_append]
  rfl

/-- A visit of the place before a run. -/
theorem trimAt_before (run : items[i + 1]? = some (.text t)) (kept : Nat → Range) :
    trimAt s items kept i (i + 1) =
      { kept (i + 1) with
        start := max (kept (i + 1)).start
          (keptStart s (items.take (i + 1)).reverse t (items.drop (i + 2))) } := by
  have bound : i < items.length := Nat.lt_of_succ_lt (List.getElem?_eq_some_iff.mp run).1
  have here : items[i]? = some items[i] := List.getElem?_eq_getElem bound
  rw [trimAt, here, take_of_getElem? here, drop_of_getElem? run]
  cases items[i] with
  | text content => simp [keptStart]
  | tag raw tag =>
      simp only [keptStart]
      split <;> simp [run]

/-- A visit of the place behind a run. -/
theorem trimAt_behind (run : items[j]? = some (.text t)) (kept : Nat → Range)
    (inside : (kept j).stop ≤ t.length) :
    trimAt s items kept (j + 1) j =
      { kept j with
        stop := min (kept j).stop (keptStop s (items.take j).reverse t (items.drop (j + 1))) } := by
  rw [trimAt, take_of_getElem? run]
  cases behind : items[j + 1]? with
  | none =>
      have ended : items.drop (j + 1) = [] :=
        List.drop_eq_nil_of_le (List.getElem?_eq_none_iff.mp behind)
      simp [ended, keptStop, inside]
  | some item =>
      rw [drop_of_getElem? behind]
      cases item with
      | text content => simp [keptStop, inside]
      | tag raw tag =>
          simp only [keptStop, Bool.and_eq_true, Bool.not_eq_true']
          have apart : j ≠ j + 1 + 1 := by omega
          split
          · by_cases keeps : keepsIndent s tag = false
            · simp [*]
            · simp [run, keeps, apart, inside]
          · simp [*]

/-- A visit of any other place. -/
theorem trimAt_elsewhere (kept : Nat → Range) (before : i + 1 ≠ j) (behind : i ≠ j + 1) :
    trimAt s items kept i j = kept j := by
  rw [trimAt]
  rcases items[i]? with _ | ⟨content⟩ | ⟨raw, tag⟩
  · rfl
  · rfl
  · simp only
    split
    · rcases run : items[j]? with _ | ⟨content⟩ | ⟨raw, tag⟩ <;> simp [run, behind, Ne.symm before]
    · rfl

/-- What a visit does to a run depends on the items alone: one end of the run is cut where the
layout cuts it, or none is. -/
theorem trimAt_text (run : items[j]? = some (.text t)) (kept : Nat → Range)
    (inside : (kept j).stop ≤ t.length) :
    trimAt s items kept i j =
      { start := if i + 1 = j then
          max (kept j).start (keptStart s (items.take j).reverse t (items.drop (j + 1)))
          else (kept j).start
        stop := if i = j + 1 then
          min (kept j).stop (keptStop s (items.take j).reverse t (items.drop (j + 1)))
          else (kept j).stop } := by
  by_cases before : i + 1 = j
  · subst before
    have apart : i ≠ i + 1 + 1 := by omega
    simp [trimAt_before run, apart]
  · by_cases behind : i = j + 1
    · subst behind
      simp [trimAt_behind run kept inside, before]
    · simp [trimAt_elsewhere kept before behind, before, behind]

/-- Visits in any order, with repetitions. By induction on the order: a cut that is made once more
changes nothing. -/
theorem foldl_trimAt (run : items[j]? = some (.text t)) (order : List Nat) (kept : Nat → Range)
    (inside : (kept j).stop ≤ t.length) :
    order.foldl (trimAt s items) kept j =
      { start := if ∃ i ∈ order, i + 1 = j then
          max (kept j).start (keptStart s (items.take j).reverse t (items.drop (j + 1)))
          else (kept j).start
        stop := if j + 1 ∈ order then
          min (kept j).stop (keptStop s (items.take j).reverse t (items.drop (j + 1)))
          else (kept j).stop } := by
  induction order generalizing kept with
  | nil => simp
  | cons i order ih =>
      have step := trimAt_text (s := s) (i := i) run kept inside
      rw [List.foldl_cons, ih]
      · simp only [step, List.mem_cons, exists_eq_or_imp, Range.mk.injEq]
        constructor
        · by_cases first : i + 1 = j <;> simp [first]
        · by_cases first : i = j + 1 <;> simp [first, eq_comm]
      · rw [step]
        dsimp only
        split
        · exact (Nat.min_le_left _ _).trans inside
        · exact inside

theorem keptStart_le {before after : List Item} : keptStart s before t after ≤ t.length := by
  unfold keptStart
  split
  · split
    · exact Nat.min_le_left _ _
    · exact Nat.zero_le _
  · exact Nat.zero_le _

theorem keptStop_le {before after : List Item} : keptStop s before t after ≤ t.length := by
  unfold keptStop
  split
  · split
    · exact Nat.sub_le _ _
    · exact Nat.le_refl _
  · exact Nat.le_refl _

/-- However the tags are visited, as soon as all are, a run is cut where the layout cuts it. -/
theorem trimInOrder_text (run : items[j]? = some (.text t)) {order : List Nat}
    (complete : ∀ i < items.length, i ∈ order) :
    trimInOrder s items order j =
      { start := keptStart s (items.take j).reverse t (items.drop (j + 1))
        stop := keptStop s (items.take j).reverse t (items.drop (j + 1)) } := by
  have bound := (List.getElem?_eq_some_iff.mp run).1
  rw [trimInOrder, foldl_trimAt run order _ (by simp [run, Item.whole])]
  simp only [run, Option.map_some, Option.getD_some, Item.whole, Nat.zero_max,
    Nat.min_eq_right keptStop_le, Range.mk.injEq]
  constructor
  · cases j with
    | zero => simp [keptStart]
    | succ i => rw [if_pos ⟨i, complete i (Nat.lt_of_succ_lt bound), rfl⟩]
  · split
    · rfl
    · next unvisited =>
      have ended : items.drop (j + 1) = [] := by
        refine List.drop_eq_nil_of_le (Nat.le_of_not_lt fun more => unvisited (complete _ more))
      rw [ended]
      rfl

/-- The line behind one tag and the line before the next do not overlap. -/
theorem keptStart_le_keptStop {before after : List Item} :
    keptStart s before t after ≤ keptStop s before t after := by
  rcases before with _ | ⟨content | ⟨raw, tag⟩, more⟩
  · exact Nat.zero_le _
  · exact Nat.zero_le _
  · rcases after with _ | ⟨content | ⟨next, tag'⟩, rest⟩
    · exact keptStart_le
    · exact keptStart_le
    · simp only [keptStart, keptStop]
      split
      · next alone =>
        have line : '\n' ∈ t := by
          simp only [standsAlone, Bool.and_eq_true] at alone
          simpa using (clearAfter_text.mp alone.2).2
        have := firstLine_add_lastLine line
        split <;> omega
      · exact Nat.zero_le _

end Visits

/-! ### Whole templates -/

/-- What the tildes beside a run do to it. -/
def Run.tildes (before after : List Item) (run : Run) : Run :=
  let run := if stripsAfter before then run.trimStart else run
  if stripsBefore after then run.trimEnd else run

theorem placeFrom_getElem? (s : Settings) (items : List Item) (before : List Item) (i : Nat) :
    (placeFrom s before items)[i]? = items[i]?.map fun item =>
      place s ((items.take i).reverse ++ before) item (items.drop (i + 1)) := by
  induction items generalizing before i with
  | nil => rfl
  | cons item items ih =>
      cases i with
      | zero => rfl
      | succ i => simp [placeFrom, ih]

/-- What is removed of the run before a place. -/
def removedBefore (items : List Item) (kept : Nat → Range) : Nat → List Char
  | 0 => []
  | i + 1 =>
    match items[i]? with
    | some (.text t) => t.drop (kept i).stop
    | _ => []

/-- What is removed of the run behind a place. -/
def removedBehind (items : List Item) (kept : Nat → Range) (i : Nat) : List Char :=
  match items[i + 1]? with
  | some (.text t) => t.take (kept (i + 1)).start
  | _ => []

/-- Between what stands before it and behind it in the template, a tag is alone on its line: nothing
but indentation stands between it and the nearest line ends, or the ends of the template. -/
def aloneOnLine (front behind : List Char) : Bool :=
  isBlank (lastLine front) && isBlank (firstLine behind)

section Whole

variable {s : Settings} {items : List Item} {sources : List (List Char)} {i : Nat} {raw : RawTag}
  {tag : Tag}

/-- The source of a tag stands between what is before it and what is behind it. -/
theorem sources_split (stands : List.Forall₂ (Item.Stands m) items sources)
    (here : items[i]? = some (.tag raw tag)) :
    sources.flatten = (sources.take i).flatten ++ raw.source ++ (sources.drop (i + 1)).flatten := by
  have rest := List.forall₂_drop i stands
  rw [drop_of_getElem? here] at rest
  obtain ⟨source, behind, ⟨-, -⟩, -, parts⟩ := List.forall₂_cons_left_iff.mp rest
  have tail : sources.drop (i + 1) = behind := by
    rw [← List.drop_drop, parts]
    rfl
  rw [tail, List.append_assoc, ← List.flatten_cons, ← parts, ← List.flatten_append,
    List.take_append_drop]

/-- Whether a tag stands alone can be read off the template. -/
theorem standsAlone_eq (visible : m.IsVisible)
    (stands : List.Forall₂ (Item.Stands m) items sources) (apart : items.IsChain Item.Apart) :
    standsAlone s (items.take i).reverse tag (items.drop (i + 1)) =
      (!s.ignoreStandalone && tag.kind.mayStandAlone &&
        aloneOnLine (sources.take i).flatten (sources.drop (i + 1)).flatten) := by
  have before : (items.take i).reverse.IsChain Item.Apart :=
    List.isChain_reverse.mpr ((apart.take i).imp fun _ _ => Item.Apart.symm)
  have front := clearBefore_iff visible (List.forall₂_reverse_iff.mpr (List.forall₂_take i stands))
    before
  have behind := clearAfter_iff visible (List.forall₂_drop (i + 1) stands) (apart.drop (i + 1))
  rw [List.reverse_reverse] at front
  rw [standsAlone, aloneOnLine, Bool.eq_iff_iff.mpr front, Bool.eq_iff_iff.mpr behind,
    Bool.and_assoc]

theorem removedBehind_eq (visible : m.IsVisible)
    (stands : List.Forall₂ (Item.Stands m) items sources) (apart : items.IsChain Item.Apart)
    (here : items[i]? = some (.tag raw tag)) {order : List Nat}
    (complete : ∀ i < items.length, i ∈ order) :
    removedBehind items (trimInOrder s items order) i =
      if standsAlone s (items.take i).reverse tag (items.drop (i + 1)) then
        throughLine (sources.drop (i + 1)).flatten
      else [] := by
  have rest := List.forall₂_drop (i + 1) stands
  have chain := apart.drop (i + 1)
  rw [removedBehind]
  cases behind : items[i + 1]? with
  | none =>
      rw [List.drop_eq_nil_of_le (List.getElem?_eq_none_iff.mp behind)] at rest ⊢
      rw [List.forall₂_nil_left_iff.mp rest]
      simp [throughLine]
  | some item =>
      rw [drop_of_getElem? behind] at rest chain ⊢
      cases item with
      | tag next other => simp [standsAlone, clearAfter]
      | text t =>
          simp only [trimInOrder_text behind complete, take_of_getElem? here, keptStart]
          split
          · next alone =>
            have clear := (Bool.and_eq_true_iff.mp alone).2
            rw [take_throughLine, throughLine_of_clearAfter visible rest chain clear]
          · rfl

theorem removedBefore_eq (visible : m.IsVisible)
    (stands : List.Forall₂ (Item.Stands m) items sources) (apart : items.IsChain Item.Apart)
    (here : items[i]? = some (.tag raw tag)) {order : List Nat}
    (complete : ∀ i < items.length, i ∈ order) :
    removedBefore items (trimInOrder s items order) i =
      if standsAlone s (items.take i).reverse tag (items.drop (i + 1)) && !keepsIndent s tag then
        lastLine (sources.take i).flatten
      else [] := by
  cases i with
  | zero => simp [removedBefore, lastLine, takeEndWhile]
  | succ i =>
      have bound : i < items.length := Nat.lt_of_succ_lt (List.getElem?_eq_some_iff.mp here).1
      have before : items[i]? = some items[i] := List.getElem?_eq_getElem bound
      have rest := List.forall₂_reverse_iff.mpr (List.forall₂_take (i + 1) stands)
      have chain : (items.take (i + 1)).reverse.IsChain Item.Apart :=
        List.isChain_reverse.mpr ((apart.take (i + 1)).imp fun _ _ => Item.Apart.symm)
      rw [take_of_getElem? before] at rest chain ⊢
      simp only [removedBefore, before]
      generalize items[i] = item at before rest chain ⊢
      cases item with
      | tag next other => simp [standsAlone, clearBefore]
      | text t =>
          simp only [trimInOrder_text before complete, drop_of_getElem? here, keptStop]
          split
          · next alone =>
            have clear := (Bool.and_eq_true_iff.mp (Bool.and_eq_true_iff.mp
              (Bool.and_eq_true_iff.mp alone).1).1).2
            have line := lastLine_of_clearBefore visible rest chain clear
            rw [List.reverse_reverse] at line
            rw [drop_lastLine, line]
          · exact List.drop_length

end Whole

/-- What is kept of the items of a template whose tags alone on their line are trimmed. -/
structure Trimmed (s : Settings) (template : List Char) (items : List Item)
    (sources : List (List Char)) (kept : Nat → Range) : Prop where
  /-- A tag loses its line if and only if it is of a kind that may stand alone and is alone on its
  line in the template: what is removed behind it is the rest of the line with the line end, and
  what is removed before it is the start of the line, unless a partial keeps it. -/
  tag : ∀ i raw tag, items[i]? = some (.tag raw tag) →
    let front := (sources.take i).flatten
    let behind := (sources.drop (i + 1)).flatten
    let alone := !s.ignoreStandalone && tag.kind.mayStandAlone && aloneOnLine front behind
    template = front ++ raw.source ++ behind ∧
      standsAlone s (items.take i).reverse tag (items.drop (i + 1)) = alone ∧
      removedBefore items kept i = (if alone && !keepsIndent s tag then lastLine front else []) ∧
      removedBehind items kept i = if alone then throughLine behind else []
  /-- Nothing else is removed of a run, no character is removed twice, and the layout cuts the run
  in the same way before it looks at the tildes. -/
  text : ∀ i t, items[i]? = some (.text t) →
    (i = 0 → (kept i).start = 0) ∧ (i + 1 = items.length → (kept i).stop = t.length) ∧
      (kept i).start ≤ (kept i).stop ∧ (kept i).stop ≤ t.length ∧
      (placeFrom s [] items)[i]? = some (.text ((Run.ofRange t (kept i).start (kept i).stop).tildes
        (items.take i).reverse (items.drop (i + 1))))

/-- For every template that is scanned without a fault, with delimiters that are not blank and have
no line end, a tag takes its line with it exactly if it stands alone on it in the template, whatever
the order in which the tags are visited. -/
theorem trimInOrder_trims (s : Settings) (isHelper : String → Bool) (template : List Char)
    (r : Report) (visible : (Marks.ofDelimiters s.delimiters).IsVisible)
    (faultless : ∀ piece ∈ scan (Marks.ofDelimiters s.delimiters) template,
      piece.isFault = false) :
    let m := Marks.ofDelimiters s.delimiters
    let items := ((readPieces isHelper (scan m template)).run r).1
    items.map Item.piece = scan m template ∧
      ∀ order : List Nat, (∀ i < items.length, i ∈ order) →
        Trimmed s template items ((spans m template).map Span.text)
          (trimInOrder s items order) := by
  intro m items
  have pieces : items.map Item.piece = scan m template := readPieces_piece isHelper faultless r
  obtain ⟨stands, apart⟩ := items_stand visible pieces
  have covers := (Cursor.spans_lossless visible.opening_ne_nil (Cursor.start template)).covers
  refine ⟨pieces, fun order complete => ⟨?tag, ?text⟩⟩
  case tag =>
    intro i raw tag here
    refine ⟨covers.symm.trans (sources_split stands here), standsAlone_eq visible stands apart, ?_⟩
    rw [removedBefore_eq visible stands apart here complete,
      removedBehind_eq visible stands apart here complete, standsAlone_eq visible stands apart]
    exact ⟨rfl, rfl⟩
  case text =>
    intro i t here
    rw [trimInOrder_text here complete]
    refine ⟨?_, ?_, keptStart_le_keptStop, keptStop_le, ?_⟩
    · rintro rfl
      rfl
    · intro last
      have ended : items.drop (i + 1) = [] := List.drop_eq_nil_of_le (Nat.le_of_eq last.symm)
      rw [ended]
      rfl
    · rw [placeFrom_getElem?, here, Option.map_some, List.append_nil]
      rfl

/-- Two tags that stand alone share the run between their lines. -/
def sharedRun : List Char :=
  ("1\n \x7b\x7b#x\x7d\x7d\t\n  \x7b\x7b> p\x7d\x7d\n\x7b\x7by\x7d\x7d \n\t" ++
    "\x7b\x7b/x\x7d\x7d").toList

theorem sharedRun_trimmed :
    let s : Settings := {}
    let m := Marks.ofDelimiters s.delimiters
    let items := ((readPieces (fun _ => false) (scan m sharedRun)).run {}).1
    m.IsVisible ∧ (∀ piece ∈ scan m sharedRun, piece.isFault = false) ∧ items.length = 8 ∧
      trimInOrder s items [7, 6, 5, 4, 3, 2, 1, 0] 2 = { start := 2, stop := 2 } ∧
      ∀ order : List Nat, (∀ i < 8, i ∈ order) →
        Trimmed s sharedRun items ((spans m sharedRun).map Span.text)
          (trimInOrder s items order) := by
  intro s m items
  have faultless : ∀ piece ∈ scan m sharedRun, piece.isFault = false := by decide +kernel
  have length : items.length = 8 := by decide +kernel
  obtain ⟨-, trimmed⟩ :=
    trimInOrder_trims s (fun _ => false) sharedRun {} Marks.isVisible_default faultless
  refine ⟨Marks.isVisible_default, faultless, length, by decide +kernel, fun order complete => ?_⟩
  exact trimmed order (by rwa [length])

end Stencil.Markup
