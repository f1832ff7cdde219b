import Stencil.Text.Printable

/-!
Quoted text in listings and messages.

A text is shown between double quotes. A quote and a backslash follow a
backslash, line end, carriage return, tab and the character zero have a
letter of their own, and every other character that does not show by
itself is written by its code in hexadecimal.
-/

namespace Stencil.Text

/-- The code of a character in hexadecimal between braces. -/
def codeText (c : Char) : List Char :=
  '\\' :: 'u' :: '{' :: Nat.toDigits 16 c.toNat ++ ['}']

def quotedChar (c : Char) : List Char :=
  if c = '"' then ['\\', '"']
  else if c = '\\' then ['\\', '\\']
  else if c = '\n' then ['\\', 'n']
  else if c = '\r' then ['\\', 'r']
  else if c = '\t' then ['\\', 't']
  else if c.toNat = 0 then ['\\', '0']
  else if isPrintable c then [c]
  else codeText c

/-- A text as listings and messages show it. -/
def quoted (s : String) : String :=
  String.ofList ('"' :: s.toList.flatMap quotedChar ++ ['"'])

end Stencil.Text
