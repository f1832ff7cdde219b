import Stencil.Markup.Tag

/-!
White space around tags.

A tag that is alone on its line takes the line with it, and a tilde takes
all white space on its side. Both only cut at the ends of the runs of
text between tags: of each run a contiguous piece is kept, and whether a
tag is alone on its line depends on the runs beside it as they were
written.
-/

namespace Stencil.Markup

open Text

/-- A piece of a template whose tag has been read. -/
inductive Item
  | text (content : List Char)
  | tag (raw : RawTag) (tag : Tag)

/-- A run of text with what is removed at either end. -/
structure Run where
  before : List Char
  kept : List Char
  after : List Char

namespace Run

/-- Keeps the characters from `start` up to `stop`. -/
def ofRange (text : List Char) (start stop : Nat) : Run :=
  { before := text.take start, kept := (text.take stop).drop start, after := text.drop stop }

/-- Removes the white space that the kept piece begins with. -/
def trimStart (r : Run) : Run :=
  { r with before := r.before ++ leadingWhite r.kept, kept := Text.trimStart r.kept }

/-- Removes the white space that the kept piece ends with. -/
def trimEnd (r : Run) : Run :=
  { r with kept := Text.trimEnd r.kept, after := trailingWhite r.kept ++ r.after }

end Run

/-! ### Tags alone on their line -/

/-- Whether only indentation stands between a tag and the line start. `before`
holds the items before the tag, nearest first. -/
def clearBefore : List Item → Bool
  | [] => true
  | .text t :: more => isBlank (lastLine t) && (t.contains '\n' || more.isEmpty)
  | .tag .. :: _ => false

/-- Whether only indentation stands between a tag and the line end. -/
def clearAfter : List Item → Bool
  | [] => true
  | .text t :: more => isBlank (firstLine t) && (t.contains '\n' || more.isEmpty)
  | .tag .. :: _ => false

/-- Whether a tag is alone on its line and of a kind for which that matters. -/
def standsAlone (s : Settings) (before : List Item) (tag : Tag) (after : List Item) : Bool :=
  !s.ignoreStandalone && tag.kind.mayStandAlone && clearBefore before && clearAfter after

/-- Whether the indentation before a tag alone on its line stays there. -/
def keepsIndent (s : Settings) (tag : Tag) : Bool :=
  s.preventIndent && tag.kind.isInclusion

/-! ### Runs and tags -/

/-- Where the kept piece of a run starts: behind the line of a tag alone on its
line. -/
def keptStart (s : Settings) (before : List Item) (t : List Char) (after : List Item) : Nat :=
  match before with
  | .tag _ tag :: more =>
    if standsAlone s more tag (.text t :: after) then min t.length ((firstLine t).length + 1)
    else 0
  | _ => 0

/-- Where the kept piece of a run stops: before the line of a tag alone on its
line. -/
def keptStop (s : Settings) (before : List Item) (t : List Char) (after : List Item) : Nat :=
  match after with
  | .tag _ tag :: more =>
    if standsAlone s (.text t :: before) tag more && !keepsIndent s tag then
      t.length - (lastLine t).length
    else t.length
  | _ => t.length

/-- Whether the tag before a run strips the white space behind it. -/
def stripsAfter : List Item → Bool
  | .tag raw _ :: _ => raw.stripAfter
  | _ => false

/-- Whether the tag behind a run strips the white space before it. -/
def stripsBefore : List Item → Bool
  | .tag raw _ :: _ => raw.stripBefore
  | _ => false

/-- What is kept of a run between its neighbours. -/
def Run.between (s : Settings) (before : List Item) (t : List Char) (after : List Item) : Run :=
  let run := Run.ofRange t (keptStart s before t after) (keptStop s before t after)
  let run := if stripsAfter before then run.trimStart else run
  if stripsBefore after then run.trimEnd else run

/-- The indentation that a partial alone on its line hands to its lines. -/
def indentBefore (s : Settings) (before : List Item) (tag : Tag) (after : List Item) : List Char :=
  if tag.kind.isInclusion && !s.preventIndent && standsAlone s before tag after then
    match before with
    | .text t :: _ => lastLine t
    | _ => []
  else []

/-- A piece of a template with its white space settled. -/
inductive Placed
  | text (run : Run)
  | tag (t : Tag)

/-- Settles the white space of one item between its neighbours. -/
def place (s : Settings) (before : List Item) (item : Item) (after : List Item) : Placed :=
  match item with
  | .text t => .text (Run.between s before t after)
  | .tag _ tag =>
    .tag { tag with indent := String.ofList (indentBefore s before tag after) }

/-- Settles the white space of the items that follow `before`. -/
def placeFrom (s : Settings) (before : List Item) : List Item → List Placed
  | [] => []
  | item :: after => place s before item after :: placeFrom s (item :: before) after

/-- What a plan is built from. -/
inductive Token
  | text (s : String)
  | tag (t : Tag)

/-- The token of a piece; a run of which nothing is kept has none. -/
def Placed.token? : Placed → Option Token
  | text run => if run.kept.isEmpty then none else some (.text (String.ofList run.kept))
  | tag t => some (.tag t)

/-- The tokens of a template. -/
def layout (s : Settings) (items : List Item) : List Token :=
  (placeFrom s [] items).filterMap Placed.token?

end Stencil.Markup
