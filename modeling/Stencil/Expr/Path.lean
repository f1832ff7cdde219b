import Stencil.Expr.Basic
import Stencil.Report
import Stencil.Text.Search

/-!
Reading paths.

A path is a mark for special variables, then steps that stay or go
outwards, then names of members. A name that holds a reserved character
stands in brackets; a path that breaks this rule is refused with the
bracketed path as a suggestion.
-/

namespace Stencil.Path

open Text

/-- The characters that a name outside brackets must not hold. -/
def isReserved (c : Char) : Bool :=
  isWhite c || "!\"#%&'()*+,;<=>@[\\]^`\x7b|\x7d~".toList.contains c

/-- The text between brackets, when brackets surround the whole. -/
def bracketed? (s : List Char) : Option (List Char) :=
  match s with
  | '[' :: s => if s.getLast? = some ']' then some s.dropLast else none
  | _ => none

/-- The steps at the front, counting those that go outwards, and the rest. -/
def steps (levels : Nat) : List Char → Nat × List Char
  | '.' :: '.' :: '/' :: rest => steps (levels + 1) rest
  | ['.', '.'] => (levels + 1, [])
  | '.' :: '/' :: rest => steps levels rest
  | 't' :: 'h' :: 'i' :: 's' :: '.' :: rest => steps levels rest
  | 't' :: 'h' :: 'i' :: 's' :: '/' :: rest => steps levels rest
  | rest => (levels, rest)

/-- The members that follow the steps: none are named by `this` or a point
alone. -/
def members (rest : List Char) : List Char :=
  if rest = ['t', 'h', 'i', 's'] || rest = ['.'] then [] else rest

/-- Cuts at points and slashes outside brackets; `name` holds the characters
of the segment being read, last one first. Only at the start of a segment does
a bracket open. -/
def splitFrom (inside : Bool) (name : List Char) : List Char → List (List Char)
  | [] => [name.reverse]
  | c :: rest =>
    if c = '[' && name.isEmpty then splitFrom true (c :: name) rest
    else if c = ']' && inside then splitFrom false (c :: name) rest
    else if (c = '.' || c = '/') && !inside then name.reverse :: splitFrom false [] rest
    else splitFrom inside (c :: name) rest

def split (s : List Char) : List (List Char) :=
  if s.isEmpty then [] else splitFrom false [] s

/-- Whether two points in a row stand outside brackets. -/
def hasParentStep (inside : Bool) (last : Option Char) : List Char → Bool
  | [] => false
  | c :: rest =>
    if c = '[' && !inside then hasParentStep true (some c) rest
    else if c = ']' && inside then hasParentStep false (some c) rest
    else if c = '.' && !inside && last == some '.' then true
    else hasParentStep inside (some c) rest

/-- The name that a segment writes, if it is legal. -/
def segmentName? (segment : List Char) : Option (List Char) :=
  match bracketed? segment with
  | some name => some name
  | none => if segment.isEmpty || segment.any isReserved then none else some segment

/-- A segment with brackets around it where they are missing. -/
def wrapped (segment : List Char) : List Char :=
  if (bracketed? segment).isNone && segment.any isReserved then '[' :: segment ++ [']']
  else segment

/-- The bracketed form of the segments of a path. -/
def suggestion (segments : List (List Char)) : List Char :=
  ['.'].intercalate ((segments.filter fun s => !s.isEmpty).map wrapped)

/-- Counts the features that a path uses. -/
def usage (p : Path) (u : Usage) : Usage :=
  let u := if p.levels > 0 then { u with parentPaths := u.parentPaths + 1 } else u
  if p.special then
    if p.segments.head? = some "root" then { u with rootPaths := u.rootPaths + 1 }
    else { u with specialVars := u.specialVars + 1 }
  else u

/-- Reads a path, or says why the text is none. -/
def parse (token : List Char) (site : Site) : Except Diagnostic Path :=
  let (special, body) := match token with
    | '@' :: body => (true, body)
    | body => (false, body)
  let (levels, rest) := steps 0 body
  let rest := members rest
  let front := token.take (token.length - rest.length)
  if hasParentStep false none rest then
    .error (.misplacedParent (String.ofList token) site)
  else
    let segments := split rest
    match segments.mapM segmentName? with
    | some names =>
      .ok { levels, special, segments := names.map String.ofList, source := String.ofList token }
    | none =>
      .error (.illegalPath (String.ofList token)
        (String.ofList (front ++ suggestion segments)) site)

/-- Reads a path and counts its features. -/
def read (token : List Char) (site : Site) : Reading Path := do
  let p ← parse token site
  Reading.count p.usage
  return p

end Stencil.Path
