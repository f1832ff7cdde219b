/-!
Encoding of interpolated text.

Each encoding writes some characters as HTML entities and all others as
they are, one character at a time.
-/

namespace Stencil

/-- How interpolated text is encoded. -/
inductive Encoding
  /-- As it is. -/
  | none
  /-- `& < > " '` become entities. -/
  | html
  /-- `& < > " '` and also the backtick and `=` become entities. -/
  | htmlStrict
  deriving DecidableEq

namespace Encoding

def htmlEntity? (c : Char) : Option String :=
  if c = '&' then some "&amp;"
  else if c = '<' then some "&lt;"
  else if c = '>' then some "&gt;"
  else if c = '"' then some "&quot;"
  else if c = '\'' then some "&#039;"
  else Option.none

def strictEntity? (c : Char) : Option String :=
  if c = '&' then some "&amp;"
  else if c = '<' then some "&lt;"
  else if c = '>' then some "&gt;"
  else if c = '"' then some "&quot;"
  else if c = '\'' then some "&#x27;"
  else if c.toNat = 0x60 then some "&#x60;"
  else if c = '=' then some "&#x3D;"
  else Option.none

/-- The entity for a character that is not written as it is. -/
def entity? : Encoding → Char → Option String
  | none => fun _ => Option.none
  | html => htmlEntity?
  | htmlStrict => strictEntity?

def encodeChar (e : Encoding) (c : Char) : List Char :=
  match e.entity? c with
  | some entity => entity.toList
  | Option.none => [c]

def encodeChars (e : Encoding) (s : List Char) : List Char :=
  s.flatMap e.encodeChar

/-- The encoded text. -/
def encode (e : Encoding) (s : String) : String :=
  String.ofList (e.encodeChars s.toList)

/-- The name of an encoding in settings. -/
def name : Encoding → String
  | none => "none"
  | html => "html"
  | htmlStrict => "html_strict"

def ofName? (s : String) : Option Encoding :=
  if s = "none" then some none
  else if s = "html" then some html
  else if s = "html_strict" then some htmlStrict
  else Option.none

theorem ofName?_name (e : Encoding) : ofName? e.name = some e := by
  cases e <;> decide

/-- Encoding acts on each character by itself. -/
theorem encodeChars_append (e : Encoding) (s t : List Char) :
    e.encodeChars (s ++ t) = e.encodeChars s ++ e.encodeChars t :=
  List.flatMap_append

end Encoding

end Stencil
