/-!
White space and lines.

Two classes of blank characters matter to a template. `isWhite` is the
`White_Space` property of Unicode: it separates words and is what
trimming removes. `isIndent` is the narrower class of what may stand
beside a tag that is alone on its line. Text is a list of characters
here, so that a cut is a decomposition of the list, and the lemmas say
that no cut loses a character.
-/

namespace Stencil.Text

/-- The characters with the Unicode property `White_Space`. -/
def isWhite (c : Char) : Bool :=
  let n := c.toNat
  (9 ≤ n && n ≤ 13) || n == 0x20 || n == 0x85 || n == 0xA0 || n == 0x1680 ||
    (0x2000 ≤ n && n ≤ 0x200A) || n == 0x2028 || n == 0x2029 || n == 0x202F ||
    n == 0x205F || n == 0x3000

/-- The characters that may stand beside a tag that is alone on its line. -/
def isIndent (c : Char) : Bool :=
  c == ' ' || c == '\t' || c == '\r'

/-- Whether nothing but indentation stands in `s`. -/
def isBlank (s : List Char) : Bool :=
  s.all isIndent

/-! ### Cutting at the end -/

/-- The longest tail of `s` whose characters all satisfy `p`. -/
def takeEndWhile (p : Char → Bool) (s : List Char) : List Char :=
  (s.reverse.takeWhile p).reverse

/-- What stands before `takeEndWhile p s`. -/
def dropEndWhile (p : Char → Bool) (s : List Char) : List Char :=
  (s.reverse.dropWhile p).reverse

@[simp] theorem dropEndWhile_append_takeEndWhile (p : Char → Bool) (s : List Char) :
    dropEndWhile p s ++ takeEndWhile p s = s := by
  rw [dropEndWhile, takeEndWhile, ← List.reverse_append, List.takeWhile_append_dropWhile,
    List.reverse_reverse]

/-! ### Trimming -/

def trimStart (s : List Char) : List Char :=
  s.dropWhile isWhite

def trimEnd (s : List Char) : List Char :=
  dropEndWhile isWhite s

def trim (s : List Char) : List Char :=
  trimEnd (trimStart s)

/-- The white space that `trimStart` removes. -/
def leadingWhite (s : List Char) : List Char :=
  s.takeWhile isWhite

/-- The white space that `trimEnd` removes. -/
def trailingWhite (s : List Char) : List Char :=
  takeEndWhile isWhite s

@[simp] theorem leadingWhite_append_trimStart (s : List Char) :
    leadingWhite s ++ trimStart s = s :=
  List.takeWhile_append_dropWhile

@[simp] theorem trimEnd_append_trailingWhite (s : List Char) :
    trimEnd s ++ trailingWhite s = s :=
  dropEndWhile_append_takeEndWhile isWhite s

/-- Removes every leading and trailing `c`. -/
def trimChar (c : Char) (s : List Char) : List Char :=
  dropEndWhile (· == c) (s.dropWhile (· == c))

/-! ### Words and lines -/

/-- The word that `s` begins with and what follows it. -/
def splitWord (s : List Char) : List Char × List Char :=
  (s.takeWhile (! isWhite ·), s.dropWhile (! isWhite ·))

/-- The maximal runs of characters that are not white space. `word` holds
the characters of the run being read, last one first. -/
def wordsFrom (word : List Char) : List Char → List (List Char)
  | [] => if word.isEmpty then [] else [word.reverse]
  | c :: rest =>
    if isWhite c then
      if word.isEmpty then wordsFrom [] rest else word.reverse :: wordsFrom [] rest
    else wordsFrom (c :: word) rest

/-- The words of a text, in order. -/
def words (s : List Char) : List (List Char) :=
  wordsFrom [] s

/-- The first word of a text, empty when it has none. -/
def firstWord (s : List Char) : List Char :=
  (splitWord (trimStart s)).1

/-- What stands before the first line end. -/
def firstLine (s : List Char) : List Char :=
  s.takeWhile (· != '\n')

/-- What stands after the last line end. -/
def lastLine (s : List Char) : List Char :=
  takeEndWhile (· != '\n') s

/-- The lines of a text, each with its line end; only the last line may lack
one, and the empty text has no line. `line` holds the characters of the line
being read, last one first. -/
def linesFrom (line : List Char) : List Char → List (List Char)
  | [] => if line.isEmpty then [] else [line.reverse]
  | c :: rest =>
    if c = '\n' then (c :: line).reverse :: linesFrom [] rest else linesFrom (c :: line) rest

def lines (s : List Char) : List (List Char) :=
  linesFrom [] s

theorem flatten_linesFrom (line s : List Char) :
    (linesFrom line s).flatten = line.reverse ++ s := by
  induction s generalizing line with
  | nil => cases line <;> simp [linesFrom]
  | cons c rest ih =>
    rw [linesFrom]
    split
    · simp [ih]
    · simp [ih]

/-- Cutting a text into lines loses nothing. -/
theorem flatten_lines (s : List Char) : (lines s).flatten = s :=
  flatten_linesFrom [] s

end Stencil.Text
