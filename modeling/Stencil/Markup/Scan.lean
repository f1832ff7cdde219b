import Stencil.Markup.RawTag
import Stencil.Text.Search

/-!
Scanning a template.

A template is cut into runs of text and tags. Scanning looks only at
delimiters, braces and tildes. A backslash before an opening delimiter
keeps it as text, and two backslashes stand for one. A piece that is no
tag, because its braces do not match or it is not closed, is a fault; the
scan goes on behind it.
-/

namespace Stencil.Markup

open Text

/-! ### Text -/

/-- The number of backslashes at the end of a text. -/
def backslashes (s : List Char) : Nat :=
  (takeEndWhile (· == '\\') s).length

theorem backslashes_le (s : List Char) : backslashes s ≤ s.length := by
  have := congrArg List.length (dropEndWhile_append_takeEndWhile (· == '\\') s)
  simp only [List.length_append] at this
  rw [backslashes]
  omega

/-- The text before the first opening delimiter that is not kept by a backslash,
and the rest from that delimiter on. -/
def scanText (opening s : List Char) : List Char × List Char :=
  match h : cut? opening s with
  | none => (s, [])
  | some (front, after) =>
    let slashes := backslashes front
    let kept := front.take (front.length - slashes) ++ List.replicate (slashes / 2) '\\'
    if odd : slashes % 2 = 1 then
      let (text, rest) := scanText opening after
      (kept ++ opening ++ text, rest)
    else (kept, opening ++ after)
termination_by s.length
decreasing_by
  have parts := length_le_of_cut? h
  have := backslashes_le front
  omega

/-! ### Tags -/

/-- What a scanned tag may be instead. -/
inductive Fault
  /-- The tag is not closed. -/
  | unclosed
  /-- The braces do not match; the suggestion shows tags that do. -/
  | braces (suggestion : List Char)

/-- The front of a tag. -/
structure Front where
  /-- The delimiter with its braces and tilde. -/
  opening : List Char
  strip : Bool
  braces : Nat
  /-- What follows. -/
  body : List Char

/-- Reads braces and a tilde, which may stand on either side of the braces. -/
def readFront (opening s : List Char) : Front :=
  let (strip, tilde, s) := match s with
    | '~' :: s => (true, ['~'], s)
    | s => (false, [], s)
  let (braces, s) := match s with
    | '{' :: '{' :: s => (2, s)
    | '{' :: s => (1, s)
    | s => (0, s)
  let front := opening ++ tilde ++ List.replicate braces '{'
  match s with
  | '~' :: rest =>
    if braces > 0 && !strip then { opening := front ++ ['~'], strip := true, braces, body := rest }
    else { opening := front, strip, braces, body := s }
  | s => { opening := front, strip, braces, body := s }

/-- Takes a tilde off the end of a content. -/
def takeTilde (content : List Char) : List Char × Bool :=
  if content.getLast? = some '~' then (content.dropLast, true) else (content, false)

/-- A tag made of its parts; `content` still has its white space. -/
def mkTag (form : Form) (front : Front) (content closing : List Char) (stripAfter : Bool)
    (source : List Char) (line : Nat) : RawTag :=
  let trimmed := trimStart content
  { form, opening := front.opening, lead := leadingWhite content, inner := trimEnd trimmed,
    trail := trailingWhite trimmed, closing, stripBefore := front.strip, stripAfter, source, line }

/-- The content of a tag without white space and tildes, for a suggestion. -/
def bare (content : List Char) : List Char :=
  trim (trimChar '~' (trim content))

/-- The tag without a brace, or the one with one brace. -/
def suggest (m : Marks) (sigil content : List Char) : List Char :=
  m.opening ++ sigil ++ bare content ++ m.closing ++ " or ".toList ++
    m.opening ++ ['{'] ++ bare content ++ ['}'] ++ m.closing

/-- What closes a long comment at the front of a text: two dashes, perhaps a
tilde, and the closing delimiter. -/
def longClose? (closing : List Char) : List Char → Option (Bool × List Char)
  | '-' :: '-' :: '~' :: s => (dropFront? closing s).map (true, ·)
  | '-' :: '-' :: s => (dropFront? closing s).map (false, ·)
  | _ => none

/-- The content of a long comment, whether a tilde closes it, and the rest. -/
def cutLong? (closing : List Char) : List Char → Option (List Char × Bool × List Char)
  | [] => none
  | c :: s =>
    match longClose? closing (c :: s) with
    | some (tilde, rest) => some ([], tilde, rest)
    | none => (cutLong? closing s).map fun (content, more) => (c :: content, more)

/-- The front of `s` that is not part of its rest. -/
def spanTo (s rest : List Char) : List Char :=
  s.take (s.length - rest.length)

/-- The outcome of scanning a tag, and the rest behind it. -/
abbrev Scanned := Except Fault RawTag × List Char

/-- Scans a tag without braces. `s` begins with the tag. -/
def scanPlain (m : Marks) (line : Nat) (front : Front) (s : List Char) : Scanned :=
  let (sigil, body) := Sigil.read front.body
  let long := if sigil = .comment then dropFront? ['-', '-'] body else none
  match long with
  | some body =>
    match cutLong? m.closing body with
    | none => (.error .unclosed, [])
    | some (content, tilde, rest) =>
      let closing := ['-', '-'] ++ (if tilde then ['~'] else []) ++ m.closing
      (.ok (mkTag (.plain sigil true) front content closing tilde (spanTo s rest) line), rest)
  | none =>
    match cut? m.closing body with
    | none => (.error .unclosed, [])
    | some (content, '}' :: rest) => (.error (.braces (suggest m sigil.chars content)), rest)
    | some (content, rest) =>
      let (content, tilde) := takeTilde content
      let closing := (if tilde then ['~'] else []) ++ m.closing
      (.ok (mkTag (.plain sigil false) front content closing tilde (spanTo s rest) line), rest)

/-- The content before a brace and the closing delimiter, with the mark found,
whether a tilde stands inside it, and the rest. The mark that comes first
counts. -/
def cutTriple? (closing s : List Char) : Option (List Char × List Char × Bool × List Char) :=
  let mark := '}' :: closing
  let tildeMark := '}' :: '~' :: closing
  match cut? mark s, cut? tildeMark s with
  | some (a, rest), some (b, rest') =>
    if a.length ≤ b.length then some (a, mark, false, rest) else some (b, tildeMark, true, rest')
  | some (a, rest), none => some (a, mark, false, rest)
  | none, some (b, rest) => some (b, tildeMark, true, rest)
  | none, none => none

/-- Scans a tag with one brace, which a brace must close. -/
def scanTriple (m : Marks) (line : Nat) (front : Front) (s : List Char) : Scanned :=
  match cut? m.closing front.body with
  | none => (.error .unclosed, [])
  | some (content, rest) =>
    let fault := (.error (.braces (suggest m [] content)), rest)
    match cutTriple? m.closing front.body with
    | none => fault
    | some (inside, mark, tilde, rest) =>
      if content.length < inside.length then fault
      else
        let (inside, inner) := takeTilde inside
        let closing := (if inner then ['~'] else []) ++ mark
        (.ok (mkTag .triple front inside closing (tilde || inner) (spanTo s rest) line), rest)

/-- What opens the tag that ends a raw block. -/
def rawEnd (m : Marks) : List Char := m.opening ++ ['{', '{', '/']

/-- The body of a raw block up to the tag that ends it, which names `name`, and
the rest behind that tag. -/
def cutRawEnd? (m : Marks) (name s : List Char) : Option (List Char × List Char) :=
  match h : cut? (rawEnd m) s with
  | none => none
  | some (body, tail) =>
    match cut? (['}', '}'] ++ m.closing) tail with
    | none => none
    | some (ending, rest) =>
      if trim ending = name then some (body, rest)
      else (cutRawEnd? m name tail).map fun (more, rest) => (body ++ rawEnd m ++ more, rest)
termination_by s.length
decreasing_by
  have parts := length_le_of_cut? h
  simp only [rawEnd, List.length_append, List.length_cons, List.length_nil] at parts
  omega

/-- Scans a raw block with its body and the tag that ends it. -/
def scanRawBlock (m : Marks) (line : Nat) (front : Front) (s : List Char) : Scanned :=
  let mark := ['}', '}'] ++ m.closing
  match cut? mark front.body with
  | none => (.error .unclosed, [])
  | some (content, after) =>
    let (content, tilde) := takeTilde content
    match cutRawEnd? m (trim content) after with
    | none => (.error .unclosed, [])
    | some (body, rest) =>
      let closing := (if tilde then ['~'] else []) ++ mark
      (.ok (mkTag (.rawBlock body) front content closing tilde (spanTo s rest) line), rest)

/-- Scans the tag that `s` begins with; `after` is what follows its opening
delimiter. -/
def scanTag (m : Marks) (line : Nat) (s after : List Char) : Scanned :=
  let front := readFront m.opening after
  match front.braces with
  | 0 => scanPlain m line front s
  | 1 => scanTriple m line front s
  | _ => scanRawBlock m line front s

/-! ### The whole template -/

/-- A place in a template. -/
structure Cursor where
  /-- What stands before, last character first. -/
  before : List Char
  /-- What follows. -/
  rest : List Char

namespace Cursor

def start (template : List Char) : Cursor := { before := [], rest := template }

/-- The line of a place. -/
def line (c : Cursor) : Nat := c.before.count '\n' + 1

/-- Moves on until only `rest` follows. -/
def moveTo (c : Cursor) (rest : List Char) : Cursor :=
  { before := (spanTo c.rest rest).reverse ++ c.before, rest }

end Cursor

/-- A piece of a template. -/
inductive Piece
  | text (content : List Char)
  | tag (raw : RawTag)
  | fault (cause : Diagnostic)

/-- The characters at the front whose UTF-8 bytes number `n` at most. -/
def takeBytes (n : Nat) : List Char → List Char
  | [] => []
  | c :: s => if c.utf8Size ≤ n then c :: takeBytes (n - c.utf8Size) s else []

/-- The end of a text that messages show: its last 32 bytes, without a character
that is cut. -/
def tailText (reversed : List Char) : String :=
  String.ofList (takeBytes 32 reversed).reverse

/-- The diagnostic of a fault at a place. -/
def Fault.diagnostic (m : Marks) (c : Cursor) (rest : List Char) : Fault → Diagnostic
  | .unclosed => .unclosedTag (tailText (m.opening.reverse ++ c.before)) c.line
  | .braces suggestion =>
    .badToken (String.ofList (spanTo c.rest rest)) (String.ofList suggestion) c.line

/-- The next piece and the place behind it; none at the end. -/
def Cursor.next? (m : Marks) (c : Cursor) : Option (Piece × Cursor) :=
  if c.rest.isEmpty then none
  else
    match dropFront? m.opening c.rest with
    | none =>
      let (text, rest) := scanText m.opening c.rest
      some (.text text, c.moveTo rest)
    | some after =>
      let (outcome, rest) := scanTag m c.line c.rest after
      let piece := match outcome with
        | .ok raw => .tag raw
        | .error fault => .fault (fault.diagnostic m c rest)
      some (piece, c.moveTo rest)

/-- The pieces from a place on. A piece that takes no character, which two empty
delimiters make possible, ends the scan. -/
def Cursor.pieces (m : Marks) (c : Cursor) : List Piece :=
  match c.next? m with
  | none => []
  | some (piece, after) =>
    if after.rest.length < c.rest.length then piece :: after.pieces m else [piece]
termination_by c.rest.length

/-- Whether the calls for the next piece come to an end. They do not from a place on at
which a piece takes no character. -/
def Cursor.ends (m : Marks) (c : Cursor) : Bool :=
  match c.next? m with
  | none => true
  | some (_, after) =>
    if after.rest.length < c.rest.length then after.ends m else false
termination_by c.rest.length

/-- The pieces of a template. -/
def scan (m : Marks) (template : List Char) : List Piece :=
  (Cursor.start template).pieces m

end Stencil.Markup
