import Stencil.Diagnostic
import Stencil.Settings

/-!
Tags as they stand in a template.

A raw tag keeps every character of its source in one of its parts, so the
source can be put together again, and nothing of its content has been
looked at yet.
-/

namespace Stencil.Markup

/-- The delimiters of a template as lists of characters. -/
structure Marks where
  opening : List Char
  closing : List Char

def Marks.ofDelimiters (d : Delimiters) : Marks :=
  { opening := d.opening.toList, closing := d.closing.toList }

/-- The sign behind the opening delimiter that says what a tag does. -/
inductive Sigil
  | none
  | block
  | inverse
  | close
  | comment
  | inclusion
  | raw
  | partialBlock
  | decorator
  deriving DecidableEq

namespace Sigil

def chars : Sigil → List Char
  | none => []
  | block => ['#']
  | inverse => ['^']
  | close => ['/']
  | comment => ['!']
  | inclusion => ['>']
  | raw => ['&']
  | partialBlock => ['#', '>']
  | decorator => ['#', '*']

/-- The sign at the front of a text, and the rest. -/
def read : List Char → Sigil × List Char
  | '#' :: '>' :: rest => (partialBlock, rest)
  | '#' :: '*' :: rest => (decorator, rest)
  | '#' :: rest => (block, rest)
  | '^' :: rest => (inverse, rest)
  | '/' :: rest => (close, rest)
  | '!' :: rest => (comment, rest)
  | '>' :: rest => (inclusion, rest)
  | '&' :: rest => (raw, rest)
  | rest => (none, rest)

/-- A sign is read off without loss. -/
theorem chars_append_of_read {text rest : List Char} {sigil : Sigil}
    (h : read text = (sigil, rest)) : sigil.chars ++ rest = text := by
  unfold read at h
  split at h <;> simp_all [chars] <;> grind [chars]

end Sigil

/-- The kinds of tag that their braces tell apart. -/
inductive Form
  /-- No brace: the sigil decides. A long comment has dashes at both ends. -/
  | plain (sigil : Sigil) (long : Bool)
  /-- One brace. -/
  | triple
  /-- Two braces: everything up to the tag that ends it is its body. -/
  | rawBlock (body : List Char)
  deriving DecidableEq

/-- A tag as it stands in a template. -/
structure RawTag where
  form : Form
  /-- The opening delimiter with its braces and tilde. -/
  opening : List Char
  /-- The white space before the content. -/
  lead : List Char
  /-- The content. -/
  inner : List Char
  /-- The white space behind the content. -/
  trail : List Char
  /-- The closing delimiter with its braces, tilde and dashes. -/
  closing : List Char
  /-- A tilde strips the white space before the tag. -/
  stripBefore : Bool
  /-- A tilde strips the white space behind the tag. -/
  stripAfter : Bool
  /-- The tag as written. -/
  source : List Char
  /-- The line on which the tag begins. -/
  line : Nat
  deriving DecidableEq

namespace RawTag

def sourceText (t : RawTag) : String := String.ofList t.source

def site (t : RawTag) : Site := { tag := t.sourceText, line := t.line }

end RawTag

end Stencil.Markup
